import ChipChain.Checksum

/-!
# Commands and their frames

What the host can say to the chips, and the frame each command travels in:
`55 AA`, a header byte, a length byte that counts all that follows the preamble,
the content, and a checksum. Frames are written one after the other into one
buffer. Only a job can be too long.
-/

namespace ChipChain

/-- What the host can say to the chips. -/
inductive Command where
  /-- The first chip without an address takes this one. -/
  | setAddress (address : UInt8)
  | writeRegister (broadcast : Bool) (chip register : UInt8) (value : UInt32)
  | readRegister (broadcast : Bool) (chip register : UInt8)
  | chainInactive
  | job (payload : Bytes)
  deriving DecidableEq, Repr

/-- A job payload of `length` bytes has no room in a frame. -/
structure OversizedJob where
  length : Nat
  deriving DecidableEq, Repr

def OversizedJob.message (e : OversizedJob) : String :=
  s!"job payload of {e.length} bytes does not fit a frame"

namespace Command

def writeAll (register : UInt8) (value : UInt32) : Command :=
  .writeRegister true 0 register value

def writeChip (chip register : UInt8) (value : UInt32) : Command :=
  .writeRegister false chip register value

def readAll (register : UInt8) : Command :=
  .readRegister true 0 register

def preamble : Bytes := [0x55, 0xaa]

/-- The longest job payload whose length byte does not overflow. -/
def maxPayload : Nat := 251

/-- Packs the frame kind, the broadcast flag and the operation. -/
def packHeader (kind : UInt8) (broadcast : Bool) (operation : UInt8) : UInt8 :=
  (kind <<< 5) ||| (broadcast.toUInt8 <<< 4) ||| operation

/-- The header byte: kind one for jobs and two for the rest. -/
def header : Command → UInt8
  | .setAddress _ => packHeader 2 false 0
  | .writeRegister broadcast _ _ _ => packHeader 2 broadcast 1
  | .readRegister broadcast _ _ => packHeader 2 broadcast 2
  | .chainInactive => packHeader 2 true 3
  | .job _ => packHeader 1 false 1

/-- What stands between the length byte and the checksum. -/
def content : Command → Bytes
  | .setAddress address => [address, 0]
  | .writeRegister _ chip register value => chip :: register :: Bytes.ofUInt32BE value
  | .readRegister _ chip register => [chip, register]
  | .chainInactive => [0, 0]
  | .job payload => payload

/-- Jobs carry two checksum bytes, all other commands one. -/
def checksumLength : Command → Nat
  | .job _ => 2
  | _ => 1

/-- The length byte: the header, itself, the content and the checksum. -/
def length (c : Command) : Nat :=
  c.content.length + c.checksumLength + 2

/-- Everything the checksum covers: header, length byte and content. -/
def covered (c : Command) : Bytes :=
  c.header :: UInt8.ofNat c.length :: c.content

/-- The checksum bytes of a command, for the bytes that they cover. -/
def checksum (covered : Bytes) : Command → Bytes
  | .job _ => Bytes.ofUInt16BE (crc16 covered)
  | _ => [crc5 covered]

def frame (c : Command) : Bytes :=
  preamble ++ c.covered ++ c.checksum c.covered

/-- The payload length of a job that no frame can hold. -/
def oversized? : Command → Option OversizedJob
  | .job payload => if maxPayload < payload.length then some ⟨payload.length⟩ else none
  | _ => none

/-! ## Writing frames to a buffer -/

/-- Writes to a buffer. What was written before a failure stays written. -/
abbrev Writer := ExceptT OversizedJob (StateM Bytes)

def put (bytes : Bytes) : Writer Unit :=
  modify (· ++ bytes)

/-- Append a command's frame to the buffer, part by part. The checksum is taken of what the buffer
holds after the preamble. -/
def write (c : Command) : Writer Unit := do
  -- A job that does not fit has to be turned away while the buffer is untouched.
  if let some e := c.oversized? then throw e
  put preamble
  let start := (← get).length
  put [c.header, UInt8.ofNat c.length]
  put c.content
  put (c.checksum ((← get).drop start))

def encode (buffer : Bytes) (c : Command) : Except OversizedJob Bytes :=
  match c.write.run.run buffer with
  | (.error e, _) => .error e
  | (.ok (), written) => .ok written

end Command

end ChipChain
