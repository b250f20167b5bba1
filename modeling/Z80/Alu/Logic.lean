import Z80.Alu.Result

/-!
# Logic, single bits and flag moves

Bitwise operations report parity. Next to them stand the operations whose only result is a flag
register: the bit test, the moves of the carry, and the flags of a byte that came from a port or
from one of the special registers.
-/

namespace Z80.Alu

/-! ## Bitwise operations -/

/-- `a` and `b`; H is set. -/
def andByte (a b : Byte) : Result :=
  let value := a &&& b
  { value, flags := { signZeroParity value with half := true } }

/-- `a` or `b`. -/
def orByte (a b : Byte) : Result :=
  let value := a ||| b
  { value, flags := signZeroParity value }

/-- `a` exclusive-or `b`. -/
def xorByte (a b : Byte) : Result :=
  let value := a ^^^ b
  { value, flags := signZeroParity value }

/-- Inverts every bit of `a`; H and N are set and the other six bits of F are kept. -/
def complement (a : Byte) (prior : Flags) : Result :=
  { value := ~~~a, flags := { prior with half := true, subtract := true } }

/-! ## Single bits -/

/-- The byte whose only set bit is number `n % 8`. -/
def mask (n : Nat) : Byte :=
  UInt8.ofNat (1 <<< (n % 8))

/-- `v` with bit `n % 8` cleared. -/
def clearBit (n : Nat) (v : Byte) : Byte :=
  v &&& ~~~mask n

/-- `v` with bit `n % 8` set. -/
def setBit (n : Nat) (v : Byte) : Byte :=
  v ||| mask n

/-- The flags of testing bit `n % 8` of `v`: Z and P/V report that it is clear, S that it is the
sign bit, asked for by its own number, and set. C is kept. -/
def testBit (n : Nat) (v : Byte) (prior : Flags) : Flags :=
  let set := v.toNat.testBit (n % 8)
  { sign := n == 7 && set
    zero := !set
    half := true
    parity := !set
    carry := prior.carry }

/-! ## Flags alone -/

/-- Sets C and clears H and N; S, Z and P/V are kept. -/
def setCarry (prior : Flags) : Flags :=
  { sign := prior.sign, zero := prior.zero, parity := prior.parity, carry := true }

/-- Inverts C, whose old value moves to H, and clears N; S, Z and P/V are kept. -/
def flipCarry (prior : Flags) : Flags :=
  { sign := prior.sign
    zero := prior.zero
    half := prior.carry
    parity := prior.parity
    carry := !prior.carry }

/-- The flags of a byte read from a port: S, Z and parity; C is kept. -/
def portFlags (v : Byte) (prior : Flags) : Flags :=
  { signZeroParity v with carry := prior.carry }

/-- The flags of a byte read from I or R: S and Z, with IFF2 in P/V; C is kept. -/
def specialFlags (v : Byte) (iff2 : Bool) (prior : Flags) : Flags :=
  { signZero v with parity := iff2, carry := prior.carry }

end Z80.Alu
