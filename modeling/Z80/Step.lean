import Z80.Cycles
import Z80.Execute
import Z80.Fetch

/-!
# One instruction

A step fetches an opcode, refuses it if it is not for this processor, runs what it selects, and
answers its clock cycles. Memory faults are attributed to the address the instruction started at.
-/

namespace Z80

namespace Action

/-- Refuses an opcode that the manual does not list, unless this processor runs those. -/
def admitOpcode (opcode : Opcode) : Action Unit :=
  if opcode.isDocumented || opcode.isToldApartLate then pure () else requireUndocumented

/-- Runs the instruction an opcode selects; its clock cycles are returned. -/
def perform (opcode : Opcode) : Action Nat := do
  admitOpcode opcode
  let taken ← execute opcode.instruction
  return opcode.instruction.cycles (← get).variant.timing taken

/-- The clock cycles of a prefix that has no effect. -/
def ignoredPrefixCycles : Nat := 4

/-- Runs the instruction at the program counter; its clock cycles are returned. -/
def instruction : Action Nat := do
  let (ignored, opcode) ← fetchOpcode
  let cycles ← perform opcode
  return ignoredPrefixCycles * ignored + cycles

end Action

namespace Cpu

/-- Runs one instruction over a bus; its clock cycles are the result. On failure the processor is
left where it stopped. -/
def step {β : Type} [Bus β] (cpu : Cpu) (bus : β) : Outcome β Nat :=
  ((Action.instruction cpu.begin).run bus).blame cpu.regs.pc

end Cpu

end Z80
