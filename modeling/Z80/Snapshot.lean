import Z80.Machine

/-!
# Snapshots

What can be seen of a machine from outside, as a value. A snapshot can be turned into a setup that
starts where it was taken, with counters at zero and no limit. `Setup.execute` is the whole life of
a machine: build, run, look.
-/

namespace Z80

/-- What can be seen of a machine. -/
structure Snapshot where
  registers : Registers
  flags : Conditions
  memory : Array Byte
  cycles : Nat
  iterations : Nat
  programCounter : Word
  status : Status
  interruptsEnabled : Bool
  iff2 : Bool
  interruptMode : InterruptMode
  variant : Variant
deriving DecidableEq

/-- Looks at a machine. -/
def Machine.snapshot {δ : Type} (m : Machine δ) : Snapshot where
  registers := m.cpu.regs
  flags := m.cpu.regs.acc.f.toConditions
  memory := m.memory.bytes
  cycles := m.cycles
  iterations := m.iterations
  programCounter := m.cpu.regs.pc
  status := m.status
  interruptsEnabled := m.cpu.iff1
  iff2 := m.cpu.iff2
  interruptMode := m.cpu.mode
  variant := m.cpu.variant

/-- The setup of a machine that goes on from a snapshot. -/
def Snapshot.toSetup (s : Snapshot) : Setup where
  registers := s.registers
  flags := s.flags
  memorySize := s.memory.size
  image := s.memory
  variant := s.variant
  interruptsEnabled := s.interruptsEnabled
  iff2 := some s.iff2
  interruptMode := s.interruptMode

/-- Builds a machine with latched ports, runs it, and looks at it where it stops. -/
def Setup.execute (s : Setup) : Except Fault Snapshot := do
  let m ← s.build ({} : LatchedPorts)
  let (result, m) := m.run
  let _ ← result
  return m.snapshot

end Z80
