import Z80.Alu.Arithmetic
import Z80.Alu.Logic
import Z80.Operand

/-!
# Arithmetic on registers and operands

What an instruction does with the results of the arithmetic unit: where the byte goes and which
flags are kept. INC, DEC and CP settle P/V by the flag model of the processor; no other instruction
asks it.
-/

namespace Z80.Action

/-- Sets the flags of INC, DEC or CP, with P/V as the flag model has it for the byte `v`. -/
def settleFlags (f : Flags) (v : Byte) : Action Unit := fun cpu =>
  setFlags (cpu.variant.flagModel.settle f v) cpu

/-- Combines the accumulator with a byte. A comparison leaves the accumulator alone. -/
def operate (op : Alu.Operation) (v : Byte) : Action Unit := do
  let acc := (← registers).acc
  let out := op.apply acc.a v acc.f
  if op = .cp then settleFlags out.flags (acc.a - v)
  else setAccumulator out

/-- INC or DEC of a byte: the operand is written before the flags. -/
def stepByte (change : Byte → Flags → Alu.Result) (place : Place) : Action Unit := do
  let operand ← locate place
  let v ← load operand
  let out := change v (← flags)
  store operand out.value
  settleFlags out.flags out.value

/-- An operation on the accumulator and the flags alone. -/
def accumulator (change : Byte → Flags → Alu.Result) : Action Unit := do
  let acc := (← registers).acc
  setAccumulator (change acc.a acc.f)

/-- ADD of a pair to HL or an index register. -/
def addPair (target : Index) (source : Pair) : Action Unit := do
  let regs ← registers
  let (w, f) := Alu.addWord (regs.readPair target.pair) (regs.readPair source) regs.acc.f
  writePair target.pair w
  setFlags f

/-- ADC or SBC of a pair to HL. -/
def combinePair (combine : Word → Word → Bool → Word × Flags) (source : Pair) : Action Unit := do
  let regs ← registers
  let (w, f) := combine regs.hl (regs.readPair source) regs.acc.f.carry
  writePair .hl w
  setFlags f

/-- RLD or RRD: a digit rotation through memory at HL, which is written before the accumulator. -/
def rotateDigit (rotate : Byte → Byte → Flags → Alu.DigitResult) : Action Unit := do
  let regs ← registers
  let address := regs.hl
  let out := rotate regs.acc.a (← readByte address) regs.acc.f
  writeByte address out.memory
  setAccumulator { value := out.a, flags := out.flags }

end Z80.Action
