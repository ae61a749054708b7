import ChipChain.Main
import ChipChain.Port.Prompt
import ChipChain.Proofs.Wire.Codec
import ChipChain.Proofs.Ramp.Plan
import ChipChain.Proofs.Ramp.Walk
import ChipChain.Proofs.Chain.Reading
import ChipChain.Proofs.Chain.Upkeep
import ChipChain.Proofs.Chain.History
import ChipChain.Proofs.Chain.Filter
import ChipChain.Proofs.Chain.RoundTrip
import ChipChain.Proofs.Chain.Attribution
import ChipChain.Proofs.Port.Stream
import ChipChain.Proofs.Chain.Clocking
import ChipChain.Proofs.Chain.BringUp
import ChipChain.Proofs.Daemon.Parties
import ChipChain.Proofs.Daemon.Run
import ChipChain.Proofs.Daemon.Interleaving
import ChipChain.Proofs.Port.Clearing
import ChipChain.Proofs.Chain.Parts
import ChipChain.Proofs.Chain.Halting
import ChipChain.Proofs.Pll
import ChipChain.Proofs.Chain.Steering
import ChipChain.Proofs.Chain.ClockJumps
import ChipChain.Proofs.Chain.InStep
import ChipChain.Proofs.Manager.Whereabouts
import ChipChain.Proofs.Daemon.Dispatching
import ChipChain.Proofs.Daemon.Turns
import ChipChain.Proofs.Daemon.Abandonment
import ChipChain.Proofs.Daemon.Schedule
import ChipChain.Proofs.Frequency
import ChipChain.Proofs.Settings.Naming
import ChipChain.Proofs.Settings.Loading
import ChipChain.Proofs.Port.Jamming
import ChipChain.Proofs.Daemon.NonceSplit
import ChipChain.Proofs.Daemon.Failures
import ChipChain.Proofs.Daemon.Alarm
import ChipChain.Proofs.Wire.Damage
import ChipChain.Proofs.Ramp.Stops
import ChipChain.Proofs.Pll.Optimal
import ChipChain.Proofs.Bits.Carry
import ChipChain.Proofs.Bits.Counting
import ChipChain.Proofs.Chain.Versions
import ChipChain.Proofs.Chain.Retuning
import ChipChain.Proofs.Chain.Enumeration
import ChipChain.Proofs.Work.Payload
import ChipChain.Proofs.Bits.TicketMask
import ChipChain.Proofs.Address
import ChipChain.Proofs.NonceSpace
import ChipChain.Proofs.Work.Recurrence
import ChipChain.Proofs.Wire.Sealing
