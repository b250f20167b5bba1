import Z80.Alu.Result

/-!
# Addition and subtraction

All sums are formed in the natural numbers and cut to size afterwards, so that a carry is simply a
sum that does not fit. The three questions asked of a sum `a + b + c` of bytes are:

* carry: is `a + b + c` above 255;
* half carry: is `a % 16 + b % 16 + c` above 15;
* overflow: do `a` and `b` have one sign and the result the other.

A subtraction asks the same of borrows. The 16-bit operations ask it of words, with the half carry
out of bit 11. `toNat_addByte` and `toNat_subByte` state the first of these as equations.
-/

namespace Z80.Alu

/-! ## Bytes -/

/-- `a + b + c`; P/V is overflow. -/
def addByte (a b : Byte) (c : Bool) : Result :=
  let sum := a.toNat + b.toNat + c.toNat
  let value := UInt8.ofNat sum
  { value
    flags :=
      { signZero value with
        half := 15 < a.toNat % 16 + b.toNat % 16 + c.toNat
        parity := isNegative a == isNegative b && isNegative a != isNegative value
        carry := 255 < sum } }

/-- `a - b - c`; P/V is overflow, H and C are borrows. -/
def subByte (a b : Byte) (c : Bool) : Result :=
  let taken := b.toNat + c.toNat
  let value := UInt8.ofNat (a.toNat + 256 - taken)
  { value
    flags :=
      { signZero value with
        half := a.toNat % 16 < b.toNat % 16 + c.toNat
        parity := isNegative a != isNegative b && isNegative a != isNegative value
        subtract := true
        carry := a.toNat < taken } }

/-- The flags of `a - b`, with `a` itself as the value. -/
def compareByte (a b : Byte) : Result :=
  { value := a, flags := (subByte a b false).flags }

/-- `v + 1`; C is kept, P/V is overflow, which happens from 127 alone. -/
def incByte (v : Byte) (prior : Flags) : Result :=
  let value := v + 1
  { value
    flags :=
      { signZero value with
        half := v.toNat % 16 == 15
        parity := v == 127
        carry := prior.carry } }

/-- `v - 1`; C is kept, P/V is overflow, which happens from -128 alone. -/
def decByte (v : Byte) (prior : Flags) : Result :=
  let value := v - 1
  { value
    flags :=
      { signZero value with
        half := v.toNat % 16 == 0
        parity := v == 128
        subtract := true
        carry := prior.carry } }

/-- `0 - a`. -/
def negate (a : Byte) : Result :=
  subByte 0 a false

/-- The sum and the carry are the two digits of the exact sum to the base 256. -/
theorem toNat_addByte (a b : Byte) (c : Bool) :
    (addByte a b c).value.toNat + 256 * (addByte a b c).flags.carry.toNat
      = a.toNat + b.toNat + c.toNat := by
  have ha := a.toNat_lt
  have hb := b.toNat_lt
  have hc := c.toNat_le
  simp only [addByte, UInt8.toNat_ofNat']
  by_cases h : 255 < a.toNat + b.toNat + c.toNat
  · simp only [h, decide_true, Bool.toNat_true]
    omega
  · simp only [h, decide_false, Bool.toNat_false]
    omega

/-- The carry of a subtraction is what has been borrowed. -/
theorem toNat_subByte (a b : Byte) (c : Bool) :
    (subByte a b c).value.toNat + b.toNat + c.toNat
      = a.toNat + 256 * (subByte a b c).flags.carry.toNat := by
  have ha := a.toNat_lt
  have hb := b.toNat_lt
  have hc := c.toNat_le
  simp only [subByte, UInt8.toNat_ofNat']
  by_cases h : a.toNat < b.toNat + c.toNat
  · simp only [h, decide_true, Bool.toNat_true]
    omega
  · simp only [h, decide_false, Bool.toNat_false]
    omega

/-! ## Decimal correction -/

/-- Corrects the sum or difference of two packed decimal numbers to packed decimal. A digit that
left its range, or whose carry H or C was set, is moved by six, up after an addition and down after
a subtraction. P/V is parity and N is kept. -/
def decimalAdjust (a : Byte) (prior : Flags) : Result :=
  let low := a.toNat % 16
  let carry := prior.carry || 0x99 < a.toNat
  let correction : Byte :=
    (if prior.half || 9 < low then 0x06 else 0) + (if carry then 0x60 else 0)
  let value := if prior.subtract then a - correction else a + correction
  { value
    flags :=
      { signZeroParity value with
        half := if prior.subtract then prior.half && low < 6 else 9 < low
        subtract := prior.subtract
        carry } }

/-! ## Words -/

/-- `a + b`; S, Z and P/V are kept. -/
def addWord (a b : Word) (prior : Flags) : Word × Flags :=
  let sum := a.toNat + b.toNat
  (UInt16.ofNat sum,
    { sign := prior.sign
      zero := prior.zero
      half := 4095 < a.toNat % 4096 + b.toNat % 4096
      parity := prior.parity
      carry := 65535 < sum })

/-- `a + b + c`, with every flag taken from the 16-bit sum; P/V is overflow. -/
def addWordCarry (a b : Word) (c : Bool) : Word × Flags :=
  let sum := a.toNat + b.toNat + c.toNat
  let value := UInt16.ofNat sum
  (value,
    { sign := isNegativeWord value
      zero := value == 0
      half := 4095 < a.toNat % 4096 + b.toNat % 4096 + c.toNat
      parity := isNegativeWord a == isNegativeWord b && isNegativeWord a != isNegativeWord value
      carry := 65535 < sum })

/-- `a - b - c`, with every flag taken from the 16-bit difference; P/V is overflow. -/
def subWordCarry (a b : Word) (c : Bool) : Word × Flags :=
  let taken := b.toNat + c.toNat
  let value := UInt16.ofNat (a.toNat + 65536 - taken)
  (value,
    { sign := isNegativeWord value
      zero := value == 0
      half := a.toNat % 4096 < b.toNat % 4096 + c.toNat
      parity := isNegativeWord a != isNegativeWord b && isNegativeWord a != isNegativeWord value
      subtract := true
      carry := a.toNat < taken })

end Z80.Alu
