import Z80.Word

/-!
# Hexadecimal text

Addresses and bytes are written with upper-case hexadecimal digits and a fixed number of them, two
for a byte and four for a word.
-/

namespace Z80.Hex

/-- The digit for a value below 16. -/
def digit (n : Nat) : Char :=
  if n < 10 then Char.ofNat (48 + n) else Char.ofNat (55 + n)

/-- The lowest `count` digits of `n`, most significant first. -/
def digits : (count n : Nat) → List Char
  | 0, _ => []
  | count + 1, n => digits count (n / 16) ++ [digit (n % 16)]

@[simp]
theorem length_digits (count n : Nat) : (digits count n).length = count := by
  induction count generalizing n with
  | zero => rfl
  | succ count ih => simp [digits, ih]

/-- Two digits. -/
def byte (b : Byte) : String :=
  String.ofList (digits 2 b.toNat)

/-- Four digits. -/
def word (w : Word) : String :=
  String.ofList (digits 4 w.toNat)

/-- Bytes separated by blanks. -/
def bytes (bs : List Byte) : String :=
  " ".intercalate (bs.map byte)

end Z80.Hex
