import Z80.Cpu
import Z80.Memory

/-!
# Setups

A setup says how a machine starts: registers, memory, program, variant and limits. The condition
flags are given apart from the register file and win over what its flag register holds; of the
latter only bits 5 and 3 count.

A setup can be built if its memory is neither empty nor larger than the address space and both the
initial contents and the program fit. `Setup.problem?` names the first of these that fails.
-/

namespace Z80

/-- How a machine starts. -/
structure Setup where
  registers : Registers := {}
  flags : Conditions := {}
  /-- The number of bytes of memory. -/
  memorySize : Nat := addressSpace
  /-- Initial contents, from address 0 up. -/
  image : Array Byte := #[]
  /-- Copied over the initial contents, from `loadAddress` up. -/
  program : Array Byte := #[]
  loadAddress : Word := 0
  /-- The most instructions a run executes; `none` is no limit. -/
  maxIterations : Option Nat := none
  variant : Variant := {}
  interruptsEnabled : Bool := false
  /-- The second flip-flop, if it differs from the first. -/
  iff2 : Option Bool := none
  interruptMode : InterruptMode := .mode0
deriving DecidableEq

namespace Setup

/-- What stands in the way of building a setup. -/
def problem? (s : Setup) : Option SetupProblem :=
  if s.memorySize = 0 ∨ addressSpace < s.memorySize then some (.memorySize s.memorySize)
  else if s.memorySize < s.image.size then some (.imageTooLong s.image.size s.memorySize)
  else if s.memorySize < s.loadAddress.toNat + s.program.size then
    some (.programTooLong s.program.size s.loadAddress s.memorySize)
  else none

/-- The processor at the start. -/
def cpu (s : Setup) : Cpu :=
  let f : Flags := { s.flags with bit5 := s.registers.acc.f.bit5, bit3 := s.registers.acc.f.bit3 }
  { regs := { s.registers with acc.f := f }
    iff1 := s.interruptsEnabled
    iff2 := s.iff2.getD s.interruptsEnabled
    mode := s.interruptMode
    variant := s.variant }

/-- The memory at the start, around a device: zero, then the initial contents, then the program. -/
def memory {δ : Type} (s : Setup) (device : δ) : Except Fault (Memory δ) := do
  let blank := Memory.zeroed s.memorySize device
  (← blank.load 0 s.image).load s.loadAddress s.program

end Setup

end Z80
