import Z80.Word

/-!
# The flag register

The flag register F packs six condition flags into a byte, and has two bits more (5 and 3) that no
condition reads. Here a flag register is the record of its eight bits, and `toByte`/`ofByte`, which
are inverse to each other, say where each bit sits:

  `S Z 5 H 3 P N C`, from bit 7 down to bit 0.

`Conditions` is the part a program can test; it is what a setup supplies and a snapshot shows.
-/

namespace Z80

/-- The six condition flags. -/
structure Conditions where
  /-- S: the result is negative as a two's-complement number. -/
  sign : Bool := false
  /-- Z: the result is zero. -/
  zero : Bool := false
  /-- H: carry or borrow between the two digits of the low byte (of the high byte in 16 bits). -/
  half : Bool := false
  /-- P/V: even parity of the result or signed overflow, depending on the instruction. -/
  parity : Bool := false
  /-- N: the last arithmetic operation was a subtraction. -/
  subtract : Bool := false
  /-- C: carry out of, or borrow into, the top bit. -/
  carry : Bool := false
deriving DecidableEq

/-- The whole flag register: the conditions and the two bits that nothing computes, which only
travel with the byte. -/
structure Flags extends Conditions where
  bit5 : Bool := false
  bit3 : Bool := false
deriving DecidableEq

/-- The names of the condition flags. -/
inductive Flag
  | sign
  | zero
  | half
  | parity
  | subtract
  | carry
deriving DecidableEq

namespace Flags

/-- The byte that holds these flags. -/
def toByte (f : Flags) : Byte :=
  UInt8.ofNat (128 * f.sign.toNat + 64 * f.zero.toNat + 32 * f.bit5.toNat + 16 * f.half.toNat
    + 8 * f.bit3.toNat + 4 * f.parity.toNat + 2 * f.subtract.toNat + f.carry.toNat)

/-- The flags held by a byte. -/
def ofByte (b : Byte) : Flags where
  sign := b.toNat.testBit 7
  zero := b.toNat.testBit 6
  bit5 := b.toNat.testBit 5
  half := b.toNat.testBit 4
  bit3 := b.toNat.testBit 3
  parity := b.toNat.testBit 2
  subtract := b.toNat.testBit 1
  carry := b.toNat.testBit 0

/-- The eight bits of F make up the flags that they were taken from. -/
@[simp]
theorem ofByte_toByte (f : Flags) : ofByte f.toByte = f := by
  obtain ⟨⟨s, z, h, p, n, c⟩, u, v⟩ := f
  revert s z h p n c u v
  decide

private theorem toByte_ofByte_ofNat :
    ∀ n : Fin 256, (ofByte (UInt8.ofNat n)).toByte = UInt8.ofNat n := by
  decide +kernel

/-- Every byte is the F of some flags. -/
@[simp]
theorem toByte_ofByte (b : Byte) : (ofByte b).toByte = b := by
  have h := toByte_ofByte_ofNat ⟨b.toNat, b.toNat_lt⟩
  simpa using h

/-- One condition flag, by name. -/
def test (f : Flags) : Flag → Bool
  | .sign => f.sign
  | .zero => f.zero
  | .half => f.half
  | .parity => f.parity
  | .subtract => f.subtract
  | .carry => f.carry

/-- Sets or clears one condition flag and leaves the other seven bits alone. -/
def assign (f : Flags) (name : Flag) (value : Bool) : Flags :=
  match name with
  | .sign => { f with sign := value }
  | .zero => { f with zero := value }
  | .half => { f with half := value }
  | .parity => { f with parity := value }
  | .subtract => { f with subtract := value }
  | .carry => { f with carry := value }

@[simp]
theorem test_assign_self (f : Flags) (name : Flag) (value : Bool) :
    (f.assign name value).test name = value := by
  cases name <;> rfl

/-- Assigning one condition leaves the others. -/
theorem test_assign_of_ne (f : Flags) {name other : Flag} (value : Bool) (h : other ≠ name) :
    (f.assign name value).test other = f.test other := by
  cases name <;> cases other <;> simp_all [assign, test]

end Flags

/-- The flag register with these conditions and bits 5 and 3 clear. -/
def Conditions.toFlags (c : Conditions) : Flags :=
  { c with }

end Z80
