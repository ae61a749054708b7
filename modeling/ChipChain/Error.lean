import ChipChain.Address
import ChipChain.Model
import ChipChain.Wire.Command
import ChipChain.Wire.Response

/-!
# What can go wrong

The causes of failure on the serial link and on the chain, their texts, and the
chain of causes below an error.
-/

namespace ChipChain

/-- What can go wrong on the serial link. -/
inductive LinkError where
  | openFailed (path reason : String)
  | baudRejected (baud : Nat) (reason : String)
  | io (reason : String)
  | disconnected
  deriving DecidableEq, Repr

namespace LinkError

def message : LinkError → String
  | openFailed path reason => s!"failed to open serial port {path}: {reason}"
  | baudRejected baud reason => s!"failed to set baud rate {baud}: {reason}"
  | io reason => s!"I/O error: {reason}"
  | disconnected => "serial port disconnected"

def causes : LinkError → List String
  | openFailed _ reason => [reason]
  | baudRejected _ reason => [reason]
  | io reason => [reason]
  | disconnected => []

end LinkError

/-- What can go wrong on the chain. -/
inductive ChainError where
  | link (e : LinkError)
  | encoding (e : OversizedJob)
  | noChips
  | addresses (e : AddressOverflow)
  | noDividers (target : Frequency)
  | fixedFrequency (model : Model)
  | unknownModel (e : Model.Unknown)
  /-- A response is too short for what is read from it. -/
  | stubResponse
  deriving DecidableEq, Repr

namespace ChainError

def message : ChainError → String
  | link e => e.message
  | encoding e => "frame encoding failed: " ++ e.message
  | noChips => "no chips detected on the chain"
  | addresses e => e.message
  | noDividers target => "no PLL settings for " ++ target.text
  | fixedFrequency model => model.name ++ " has no frequency control register"
  | unknownModel e => e.message
  | stubResponse => "response too short"

def causes : ChainError → List String
  | link e => e.causes
  | encoding e => [e.message]
  | _ => []

end ChainError

end ChipChain
