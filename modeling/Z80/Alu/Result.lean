import Z80.Flags

/-!
# What a result says about itself

Every operation of the arithmetic unit yields a byte and a complete new flag register. This file
holds the pair and the flags that can be read off the byte alone: its sign, whether it is zero,
and the parity of its bits.
-/

namespace Z80.Alu

/-- A byte and the flags it leaves behind. -/
structure Result where
  value : Byte
  flags : Flags
deriving DecidableEq

/-- Bit 7: the byte is negative as a two's-complement number. -/
def isNegative (v : Byte) : Bool :=
  128 ≤ v.toNat

/-- Bit 15: the word is negative as a two's-complement number. -/
def isNegativeWord (w : Word) : Bool :=
  32768 ≤ w.toNat

/-- Whether an even number of the eight bits is set. -/
def evenParity (v : Byte) : Bool :=
  (List.range 8).countP v.toNat.testBit % 2 == 0

/-- S and Z of a result, all other bits clear. -/
def signZero (v : Byte) : Flags :=
  { sign := isNegative v, zero := v == 0 }

/-- S, Z and P of a result, all other bits clear; P is its parity. -/
def signZeroParity (v : Byte) : Flags :=
  { signZero v with parity := evenParity v }

/-- Replaces P/V by the parity of a result. -/
def withParityOf (f : Flags) (v : Byte) : Flags :=
  { f with parity := evenParity v }

end Z80.Alu
