import Z80.Alu.Operation
import Z80.Alu.Shift
import Z80.Cpu

/-!
# Instructions

An instruction as its opcode bytes select it. Operands that the opcode names are part of it, with
HL, IX and IY already told apart; immediate bytes, addresses and displacements are not, because
they are fetched while the instruction runs. The one exception is the displacement of an indexed
bit operation, which stands between the opcode bytes.

Different opcodes can select the same instruction.
-/

namespace Z80

/-- The pair that plays the part of HL: HL itself, or an index register after its prefix byte. -/
inductive Index
  | hl
  | ix
  | iy
deriving DecidableEq

/-- An operand of one byte, as the opcode names it. -/
inductive Place
  | register (name : Register)
  /-- Memory at HL, or at the index register plus a displacement byte. -/
  | indirect (index : Index)
deriving DecidableEq

/-- The conditions of jumps, calls and returns. -/
inductive Condition
  | nz | z | nc | c | po | pe | p | m
deriving DecidableEq

/-- What the CB pages do to a byte. -/
inductive BitOperation
  | shift (kind : Alu.Shift)
  | test (bit : Nat)
  | reset (bit : Nat)
  | set (bit : Nat)
deriving DecidableEq

/-- The families of block instructions. -/
inductive BlockKind
  | load
  | compare
  | input
  | output
deriving DecidableEq

/-- The instructions. -/
inductive Instruction
  | nop
  | halt
  | disableInterrupts
  | enableInterrupts
  | setMode (mode : InterruptMode)
  -- Loads of a byte.
  | load (target source : Place)
  | loadImmediate (target : Place)
  /-- LD A,(BC) and LD A,(DE). -/
  | loadAccumulatorFrom (pointer : Pair)
  /-- LD (BC),A and LD (DE),A. -/
  | storeAccumulatorTo (pointer : Pair)
  /-- LD A,(nn). -/
  | loadAccumulator
  /-- LD (nn),A. -/
  | storeAccumulator
  /-- LD A,I and LD A,R. -/
  | loadSpecial (source : Register)
  /-- LD I,A and LD R,A. -/
  | storeSpecial (target : Register)
  -- Loads and exchanges of a word.
  | loadPairImmediate (target : Pair)
  /-- LD HL,(nn) on the main page. -/
  | loadIndex (target : Index)
  /-- LD (nn),HL on the main page. -/
  | storeIndex (source : Index)
  /-- LD rr,(nn) on the ED page. -/
  | loadPair (target : Pair)
  /-- LD (nn),rr on the ED page. -/
  | storePair (source : Pair)
  | loadStackPointer (source : Index)
  | push (source : Pair)
  | pop (target : Pair)
  | exchangeAccumulator
  | exchangeBank
  /-- EX DE,HL. -/
  | exchangeDeHl
  | exchangeStackTop (index : Index)
  -- Arithmetic.
  | operate (op : Alu.Operation) (operand : Place)
  | operateImmediate (op : Alu.Operation)
  | increment (operand : Place)
  | decrement (operand : Place)
  | decimalAdjust
  | complement
  | negate
  | setCarry
  | flipCarry
  | shiftAccumulator (kind : Alu.Shift)
  | rotateDigitLeft
  | rotateDigitRight
  | addPair (target : Index) (source : Pair)
  /-- ADC HL,rr. -/
  | addPairCarry (source : Pair)
  /-- SBC HL,rr. -/
  | subPairCarry (source : Pair)
  | incrementPair (target : Pair)
  | decrementPair (target : Pair)
  -- Bits.
  | bits (op : BitOperation) (operand : Place)
  /-- The indexed form; the byte written is also copied to a register, if one is named. -/
  | indexedBits (op : BitOperation) (index : Index) (displacement : Byte) (copy : Option Register)
  -- Transfers of control; no condition means always.
  | jump (condition : Option Condition)
  | jumpRelative (condition : Option Condition)
  | decrementAndJump
  | jumpIndex (target : Index)
  | call (condition : Option Condition)
  | ret
  | retIf (condition : Condition)
  /-- RETN and RETI. -/
  | retInterrupt
  | restart (target : Word)
  -- Ports.
  /-- IN A,(n). -/
  | input
  /-- OUT (n),A. -/
  | output
  /-- IN r,(C); without a register only the flags are set. -/
  | inputTo (target : Option Register)
  /-- OUT (C),r; without a register zero is sent. -/
  | outputFrom (source : Option Register)
  -- Blocks.
  | block (kind : BlockKind) (backwards repeats : Bool)
  /-- An ED opcode without a meaning: nothing happens, in the time of two fetches. -/
  | nothing
deriving DecidableEq

namespace Index

/-- The pair itself. -/
def pair : Index → Pair
  | .hl => .hl
  | .ix => .ix
  | .iy => .iy

/-- The clock cycles that the prefix byte of an index register adds. -/
def extra : Index → Nat
  | .hl => 0
  | .ix | .iy => 4

/-- The high half. -/
def high : Index → Register
  | .hl => .h
  | .ix => .ixh
  | .iy => .iyh

/-- The low half. -/
def low : Index → Register
  | .hl => .l
  | .ix => .ixl
  | .iy => .iyl

end Index

namespace Condition

/-- The condition that a three-bit opcode field names. Only the low three bits of `field` count. -/
def ofField (field : Nat) : Condition :=
  match field % 8 with
  | 0 => .nz
  | 1 => .z
  | 2 => .nc
  | 3 => .c
  | 4 => .po
  | 5 => .pe
  | 6 => .p
  | _ => .m

/-- Whether the flags meet the condition. -/
def holds : Condition → Flags → Bool
  | .nz, f => !f.zero
  | .z, f => f.zero
  | .nc, f => !f.carry
  | .c, f => f.carry
  | .po, f => !f.parity
  | .pe, f => f.parity
  | .p, f => !f.sign
  | .m, f => f.sign

end Condition

namespace Place

/-- Whether the operand is half of an index register. -/
def isIndexHalf : Place → Bool
  | .register name => name.isIndexHalf
  | .indirect _ => false

end Place

namespace Instruction

/-- Whether an operand is half of an index register, which the manual does not know. -/
def usesIndexHalf : Instruction → Bool
  | .load target source => target.isIndexHalf || source.isIndexHalf
  | .loadImmediate operand | .operate _ operand | .increment operand | .decrement operand =>
    operand.isIndexHalf
  | _ => false

end Instruction

end Z80
