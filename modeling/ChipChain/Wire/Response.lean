import ChipChain.Checksum

/-!
# Responses

When a frame from the chips is intact, why it is not, and what an intact one says.
-/

namespace ChipChain

inductive ResponseFault where
  /-- The frame does not have the length its sender always uses. -/
  | length (expected actual : Nat)
  | preamble (first second : UInt8)
  | checksum
  /-- The frame has the expected length, and that leaves no room for a preamble. -/
  | stub
  deriving DecidableEq, Repr

def ResponseFault.message : ResponseFault → String
  | .length expected actual => s!"expected {expected} bytes, received {actual}"
  | .preamble first second => s!"bad preamble [{Bytes.toHex [first]}, {Bytes.toHex [second]}]"
  | .checksum => "CRC mismatch"
  | .stub => "frame shorter than its preamble"

namespace Response

def preamble : Bytes := [0xaa, 0x55]

/-- An intact response has the expected length, starts with the preamble, and its checksum holds.
The first of these that fails is the fault. -/
def check (frame : Bytes) (expected : Nat) : Except ResponseFault Unit :=
  if frame.length ≠ expected then .error (.length expected frame.length)
  else
    match frame with
    | first :: second :: rest =>
      if [first, second] ≠ preamble then .error (.preamble first second)
      else if crc5Holds rest then .ok ()
      else .error .checksum
    | _ => .error .stub

def chipId? : Bytes → Option UInt16
  | _ :: _ :: high :: low :: _ => some (Bytes.toUInt16BE high low)
  | _ => none

end Response

end ChipChain
