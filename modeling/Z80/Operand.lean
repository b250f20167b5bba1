import Z80.Action
import Z80.Instruction

/-!
# Operands

An operand named by an opcode becomes definite before the instruction works on it: a register, or an
address in memory. To find the address of an indexed operand its displacement byte is fetched, once,
even if the operand is both read and written.
-/

namespace Z80

/-- An operand of one byte, found. -/
inductive Operand
  | register (name : Register)
  | memory (address : Word)
deriving DecidableEq

/-- Whether the operand lies in memory. -/
def Operand.isMemory : Operand → Bool
  | .register _ => false
  | .memory _ => true

namespace Action

/-- The value of a pair. -/
def readPair (name : Pair) : Action Word := fun cpu =>
  .done (cpu.regs.readPair name) cpu

/-- Replaces the value of a pair. -/
def writePair (name : Pair) (w : Word) : Action Unit :=
  modifyRegisters fun regs => regs.writePair name w

/-- The address in HL, or an index register plus the displacement byte fetched now. -/
def indirectAddress : Index → Action Word
  | .hl => readPair .hl
  | index => do
    let displacement ← fetch
    return (← registers).addressFrom index.pair displacement

/-- Finds an operand. -/
def locate : Place → Action Operand
  | .register name => return .register name
  | .indirect index => return .memory (← indirectAddress index)

/-- The byte in an operand. -/
def load : Operand → Action Byte
  | .register name => return (← registers).read name
  | .memory address => readByte address

/-- Replaces the byte in an operand. -/
def store (operand : Operand) (v : Byte) : Action Unit :=
  match operand with
  | .register name => modifyRegisters fun regs => regs.write name v
  | .memory address => writeByte address v

end Action

end Z80
