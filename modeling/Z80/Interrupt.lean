import Z80.Step

/-!
# Interrupts

The processor answers an interrupt like a call: it pushes the address of the next instruction and
goes to a handler. A stopped processor goes on after its HALT. A maskable interrupt closes both
flip-flops behind it; a non-maskable one keeps the first in the second, for RETN to restore.

If the push fails, the processor is left halfway: the flip-flops are changed, and the HALT is left.
-/

namespace Z80

namespace Action

/-- The handler of the non-maskable interrupt. -/
def nonMaskableHandler : Word := 0x0066

/-- The handler of interrupt mode 1. -/
def mode1Handler : Word := 0x0038

/-- Pushes the address of the next instruction and goes to a handler. -/
def enterHandler (handler : Word) : Action Unit := do
  modify fun cpu =>
    if cpu.halted then
      { cpu with halted := false, regs := { cpu.regs with pc := cpu.regs.pc + 1 } }
    else cpu
  restart handler

/-- Finds the handler of a maskable interrupt, with `data` on the data bus, and the clock cycles of
the answer. In mode 0 the byte has to be a restart instruction. -/
def handlerFor (data : Byte) : Action (Word × Nat) := do
  let cpu ← get
  match cpu.mode with
  | .mode0 =>
    match Opcode.mainInstruction .hl data with
    | .restart handler => return (handler, 13)
    | _ => fail (.invalidOpcode cpu.regs.pc [data])
  | .mode1 => return (mode1Handler, 13)
  | .mode2 => return (← readWord (wordOf cpu.regs.i data), 19)

/-- Answers a maskable interrupt if it is not held off; the clock cycles are returned. -/
def interrupt (data : Byte) : Action (Option Nat) := do
  if (← get).acceptsInterrupt then
    let (handler, cycles) ← handlerFor data
    disableInterrupts
    enterHandler handler
    return some cycles
  else
    return none

/-- Answers a non-maskable interrupt; the clock cycles are returned. -/
def nonMaskableInterrupt : Action Nat := do
  modify fun cpu => { cpu with iff1 := false, iff2 := cpu.iff1 }
  enterHandler nonMaskableHandler
  return 11

end Action

namespace Cpu

variable {β : Type} [Bus β]

/-- Raises the maskable interrupt line, with `data` on the data bus. The result is `none` if the
interrupt is held off. -/
def interrupt (cpu : Cpu) (data : Byte) (bus : β) : Outcome β (Option Nat) :=
  (Action.interrupt data cpu).run bus

/-- Pulses the non-maskable interrupt line. -/
def nonMaskableInterrupt (cpu : Cpu) (bus : β) : Outcome β Nat :=
  (Action.nonMaskableInterrupt cpu).run bus

end Cpu

end Z80
