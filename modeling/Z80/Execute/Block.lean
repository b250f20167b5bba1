import Z80.Alu.Arithmetic
import Z80.Action
import Z80.Instruction

/-!
# Block instructions

One pass of a block instruction moves, compares or transfers one byte and steps its counters. Each
pass says whether there is more to do; a repeating instruction with more to do goes back to its own
first byte, so that the next pass is an instruction of its own.

Loads and compares count in BC, port transfers in B. The port is BC, with B before the decrement on
input and after it on output.
-/

namespace Z80.Action

/-- The next address of a block. -/
def advance (backwards : Bool) (address : Word) : Word :=
  if backwards then address - 1 else address + 1

/-- Moves a pair one step through a block. -/
def advancePair (backwards : Bool) (name : Pair) : Action Unit :=
  modifyRegisters fun regs => regs.writePair name (advance backwards (regs.readPair name))

/-- Decrements BC; the value left is returned. -/
def countDown : Action Word := do
  modifyRegisters fun regs => regs.writePair .bc (regs.bc - 1)
  return (← registers).bc

/-- Decrements B with the flags of DEC; whether B is not yet zero is returned. -/
def countDownB : Action Bool := do
  let regs ← registers
  let out := Alu.decByte regs.bank.b regs.acc.f
  modifyRegisters fun regs => { regs with bank.b := out.value, acc.f := out.flags }
  return out.value != 0

/-- One pass of LDI or LDD. -/
def blockLoad (backwards : Bool) : Action Bool := do
  let regs ← registers
  let v ← readByte regs.hl
  writeByte regs.de v
  advancePair backwards .hl
  advancePair backwards .de
  let more := (← countDown) != 0
  let prior ← flags
  setFlags { sign := prior.sign, zero := prior.zero, parity := more, carry := prior.carry }
  return more

/-- One pass of CPI or CPD, which also ends at a match. -/
def blockCompare (backwards : Bool) : Action Bool := do
  let regs ← registers
  let v ← readByte regs.hl
  let out := Alu.compareByte regs.acc.a v
  advancePair backwards .hl
  let more := (← countDown) != 0
  let prior ← flags
  setFlags
    { sign := out.flags.sign
      zero := out.flags.zero
      half := out.flags.half
      parity := more
      subtract := true
      carry := prior.carry }
  return more && !out.flags.zero

/-- One pass of INI or IND. -/
def blockInput (backwards : Bool) : Action Bool := do
  let regs ← registers
  let v ← inputByte regs.bc
  writeByte regs.hl v
  advancePair backwards .hl
  countDownB

/-- One pass of OUTI or OUTD. -/
def blockOutput (backwards : Bool) : Action Bool := do
  let v ← readByte (← registers).hl
  let more ← countDownB
  outputByte (← registers).bc v
  advancePair backwards .hl
  return more

/-- One pass of a block instruction. -/
def blockPass : BlockKind → (backwards : Bool) → Action Bool
  | .load => blockLoad
  | .compare => blockCompare
  | .input => blockInput
  | .output => blockOutput

/-- A block instruction; whether it goes back to repeat itself is returned. -/
def block (kind : BlockKind) (backwards repeats : Bool) : Action Bool := do
  let more ← blockPass kind backwards
  if repeats && more then
    modifyRegisters fun regs => { regs with pc := regs.pc - 2 }
  return repeats && more

end Z80.Action
