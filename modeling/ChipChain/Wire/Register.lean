/-!
# Chip registers

The addresses of the registers that bring-up, clocking and version rolling write.
-/

namespace ChipChain.Register

/-- Identifies the chip; a read of it makes every chip answer. -/
def chipAddress : UInt8 := 0x00
def pll0Parameter : UInt8 := 0x08
def hashCountingNumber : UInt8 := 0x10
def ticketMask : UInt8 := 0x14
def miscControl : UInt8 := 0x18
def orderedClockEnable : UInt8 := 0x20
def fastUartConfiguration : UInt8 := 0x28
/-- Indirect access to the cores' registers. -/
def coreRegisterControl : UInt8 := 0x3c
def analogMuxControl : UInt8 := 0x54
def ioDriverStrength : UInt8 := 0x58
def pll3Parameter : UInt8 := 0x68
def pll0Divider : UInt8 := 0x70
def clockOrderControl0 : UInt8 := 0x80
def clockOrderControl1 : UInt8 := 0x84
def versionMask : UInt8 := 0xa4
def initControl : UInt8 := 0xa8
def miscSettings : UInt8 := 0xb9

end ChipChain.Register
