/-!
# Bytes and words

The machine handles two sizes of number: bytes of eight bits and words of sixteen. A word is a
high byte and a low byte, `w = 256 * high + low`, and everything here is that one equation read in
both directions, plus the signed displacement that relative jumps and indexed operands add to an
address. All of it wraps around: addresses live modulo 65536.
-/

namespace Z80

/-- Eight bits; arithmetic wraps modulo 256. -/
abbrev Byte := UInt8

/-- Sixteen bits; arithmetic wraps modulo 65536. -/
abbrev Word := UInt16

/-! ## The two halves of a word -/

/-- The word with the given high and low bytes. -/
def wordOf (high low : Byte) : Word :=
  UInt16.ofNat (256 * high.toNat + low.toNat)

/-- Bits 15 to 8. -/
def highByte (w : Word) : Byte :=
  UInt8.ofNat (w.toNat / 256)

/-- Bits 7 to 0. -/
def lowByte (w : Word) : Byte :=
  UInt8.ofNat w.toNat

/-- A word is its upper byte times 256 and its lower byte. -/
theorem toNat_wordOf (high low : Byte) :
    (wordOf high low).toNat = 256 * high.toNat + low.toNat := by
  have hh := high.toNat_lt
  have hl := low.toNat_lt
  simp only [wordOf, UInt16.toNat_ofNat']
  omega

/-- The upper byte is the quotient by 256. -/
theorem toNat_highByte (w : Word) : (highByte w).toNat = w.toNat / 256 := by
  have hw := w.toNat_lt
  simp only [highByte, UInt8.toNat_ofNat']
  omega

/-- The lower byte is the remainder by 256. -/
theorem toNat_lowByte (w : Word) : (lowByte w).toNat = w.toNat % 256 := by
  simp only [lowByte, UInt8.toNat_ofNat']

@[simp]
theorem highByte_wordOf (high low : Byte) : highByte (wordOf high low) = high := by
  have hl := low.toNat_lt
  apply UInt8.toNat_inj.1
  rw [toNat_highByte, toNat_wordOf]
  omega

@[simp]
theorem lowByte_wordOf (high low : Byte) : lowByte (wordOf high low) = low := by
  have hl := low.toNat_lt
  apply UInt8.toNat_inj.1
  rw [toNat_lowByte, toNat_wordOf]
  omega

/-- A word is put together from its own bytes. -/
@[simp]
theorem wordOf_highByte_lowByte (w : Word) : wordOf (highByte w) (lowByte w) = w := by
  apply UInt16.toNat_inj.1
  rw [toNat_wordOf, toNat_highByte, toNat_lowByte]
  omega

/-! ## Signed displacements -/

/-- A byte read as a two's-complement number and widened to a word: 0 to 127 stand for
themselves, 128 to 255 for -128 to -1. -/
def signExtend (d : Byte) : Word :=
  if d.toNat < 128 then UInt16.ofNat d.toNat else UInt16.ofNat (d.toNat + 65280)

/-- The address `d` bytes (as a signed number) away from `base`. -/
def displaced (base : Word) (d : Byte) : Word :=
  base + signExtend d

end Z80
