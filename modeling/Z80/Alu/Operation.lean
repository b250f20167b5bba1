import Z80.Alu.Arithmetic
import Z80.Alu.Logic

/-!
# The eight accumulator operations

The operations that combine the accumulator with an operand, as a three-bit opcode field names
them.
-/

namespace Z80.Alu

/-- The accumulator operations, in the order of their opcode field. -/
inductive Operation
  | add
  | adc
  | sub
  | sbc
  | and
  | xor
  | or
  /-- Compare: a subtraction whose result is dropped. -/
  | cp
deriving DecidableEq

/-- The operation that a three-bit opcode field names. Only the low three bits of `field`
count. -/
def Operation.ofField (field : Nat) : Operation :=
  match field % 8 with
  | 0 => .add
  | 1 => .adc
  | 2 => .sub
  | 3 => .sbc
  | 4 => .and
  | 5 => .xor
  | 6 => .or
  | _ => .cp

/-- Combines `a` with `b`. Of the flags before, only the carry matters, and only to ADC and SBC;
all of them are replaced. -/
def Operation.apply (op : Operation) (a b : Byte) (prior : Flags) : Result :=
  match op with
  | .add => addByte a b false
  | .adc => addByte a b prior.carry
  | .sub => subByte a b false
  | .sbc => subByte a b prior.carry
  | .and => andByte a b
  | .xor => xorByte a b
  | .or => orByte a b
  | .cp => compareByte a b

end Z80.Alu
