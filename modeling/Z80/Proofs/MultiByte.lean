import Mathlib.Data.Nat.Digits.Lemmas
import Mathlib.Tactic.LinearCombination
import Z80.Proofs.FlagModel

/-!
# Numbers of several bytes

A number of several bytes is added or subtracted byte by byte, the lowest first, with the carry of
each byte handed to the next (`Alu.chain`). Both operations are one equation between the bytes and
the carries, with a sign that tells them apart (`Combines`), and the equation adds up along the
bytes: this is the invariant of the chain. The flags of the last byte are those of the whole number.
What adds up does so in any base in which the bytes are digits (`Positional`).

The 16-bit operations compute their flags by themselves, and agree with the chain of two bytes.
-/

namespace Z80.Alu

/-! ## Numbers -/

theorem toNat_decide_cases (p : Prop) [Decidable p] :
    p ∧ (decide p).toNat = 1 ∨ ¬ p ∧ (decide p).toNat = 0 := by
  by_cases h : p
  · exact .inl ⟨h, by rw [decide_eq_true h, Bool.toNat_true]⟩
  · exact .inr ⟨h, by rw [decide_eq_false h, Bool.toNat_false]⟩

/-- The number that bytes stand for, the lowest first. -/
def number (bytes : List Byte) : Nat :=
  Nat.ofDigits 256 (bytes.map UInt8.toNat)

/-- The number that bytes stand for in two's complement. -/
def signedNumber (bytes : List Byte) : Int :=
  if 2 * (number bytes : Int) < 256 ^ bytes.length then number bytes
  else number bytes - 256 ^ bytes.length

/-- Whether a number of `count` bytes in two's complement can be `e`. -/
def Fits (count : Nat) (e : Int) : Prop :=
  -(256 ^ count) ≤ 2 * e ∧ 2 * e < 256 ^ count

/-- The number that bytes stand for in a base, the lowest first, if each is worth a digit. -/
def numeral (base : Nat) (worth : Byte → Nat) (bytes : List Byte) : Nat :=
  Nat.ofDigits base (bytes.map worth)

theorem numeral_cons (base : Nat) (worth : Byte → Nat) (b : Byte) (bytes : List Byte) :
    numeral base worth (b :: bytes) = worth b + base * numeral base worth bytes := by
  simp [numeral, Nat.ofDigits_cons]

/-- A numeral is below the power of its base that has its length. -/
theorem numeral_lt {base : Nat} {worth : Byte → Nat} {bytes : List Byte} (hbase : 1 < base)
    (h : ∀ b ∈ bytes, worth b < base) : numeral base worth bytes < base ^ bytes.length := by
  have hdigits : ∀ d ∈ bytes.map worth, d < base := by simpa using h
  simpa [numeral] using Nat.ofDigits_lt_base_pow_length hbase hdigits

theorem number_cons (b : Byte) (bytes : List Byte) :
    number (b :: bytes) = b.toNat + 256 * number bytes :=
  numeral_cons ..

theorem number_lt (bytes : List Byte) : number bytes < 256 ^ bytes.length :=
  numeral_lt (by decide) fun b _ => b.toNat_lt

theorem signedNumber_singleton (b : Byte) : signedNumber [b] = signed b := by
  have hnumber : number [b] = b.toNat := by simp [number]
  rw [signedNumber, signed_eq, hnumber]
  simp only [List.length_singleton, pow_one]
  split <;> split <;> omega

/-- Below the highest byte, the sign has no part in the digits. -/
theorem signedNumber_cons (b b' : Byte) (bytes : List Byte) :
    signedNumber (b :: b' :: bytes) = b.toNat + 256 * signedNumber (b' :: bytes) := by
  have hb := b.toNat_lt
  simp only [signedNumber, number_cons b, List.length_cons, pow_succ, Nat.cast_add, Nat.cast_mul,
    Nat.cast_ofNat]
  -- Half of a power of 256 is a whole number, and the lowest byte does not reach it.
  generalize (256 : Int) ^ bytes.length = power
  generalize number (b' :: bytes) = digits
  split <;> split <;> omega

/-! ## Chains -/

/-- Combines two numbers byte by byte, the lowest byte first, each with the flags of the one before
it. -/
def chain (step : Byte → Byte → Flags → Result) :
    List Byte → List Byte → Flags → List Byte × Flags
  | x :: xs, y :: ys, prior =>
    let out := step x y prior
    let rest := chain step xs ys out.flags
    (out.value :: rest.1, rest.2)
  | _, _, prior => ([], prior)

variable {step : Byte → Byte → Flags → Result} {ε : Int}

/-- A chain is as long as its numbers. -/
theorem length_chain {xs ys : List Byte} (h : xs.length = ys.length) (f : Flags) :
    (chain step xs ys f).1.length = xs.length := by
  induction xs generalizing ys f with
  | nil => rfl
  | cons x xs ih =>
    cases ys with
    | nil => cases h
    | cons y ys => exact congrArg (· + 1) (ih (Nat.succ.inj h) _)

/-- What one place of a number has to do with addition, where `ε` is one, or with subtraction, where
it is minus one: the equation between digits and carries. A byte that is a digit is worth one of
some base; not every byte has to be. -/
structure Positional (step : Byte → Byte → Flags → Result) (ε : Int) (base : Nat)
    (worth : Byte → Nat) (IsDigit : Byte → Prop) : Prop where
  unit : ε = 1 ∨ ε = -1
  one_lt : 1 < base
  worth_lt : ∀ b, IsDigit b → worth b < base
  isDigit : ∀ x y f, IsDigit x → IsDigit y → IsDigit (step x y f).value
  value : ∀ x y f, IsDigit x → IsDigit y →
    (worth (step x y f).value : Int) + ε * (base * (step x y f).flags.carry.toNat)
      = worth x + ε * (worth y + f.carry.toNat)

section positional

variable {base : Nat} {worth : Byte → Nat} {IsDigit : Byte → Prop} {xs ys : List Byte}

/-- Digits come out of digits. -/
theorem Positional.isDigit_chain (hstep : Positional step ε base worth IsDigit)
    (hx : ∀ x ∈ xs, IsDigit x) (hy : ∀ y ∈ ys, IsDigit y) (f : Flags) :
    ∀ z ∈ (chain step xs ys f).1, IsDigit z := by
  induction xs generalizing ys f with
  | nil => exact fun z hz => absurd hz List.not_mem_nil
  | cons x xs ih =>
    cases ys with
    | nil => exact fun z hz => absurd hz List.not_mem_nil
    | cons y ys =>
      obtain ⟨hx, hxs⟩ := List.forall_mem_cons.1 hx
      obtain ⟨hy, hys⟩ := List.forall_mem_cons.1 hy
      exact List.forall_mem_cons.2 ⟨hstep.isDigit x y f hx hy, ih hxs hys _⟩

/-- **The equation of one place adds up along a chain.** -/
theorem Positional.value_chain (hstep : Positional step ε base worth IsDigit)
    (h : xs.length = ys.length) (hx : ∀ x ∈ xs, IsDigit x) (hy : ∀ y ∈ ys, IsDigit y) (f : Flags) :
    (numeral base worth (chain step xs ys f).1 : Int)
        + ε * (base ^ xs.length * (chain step xs ys f).2.carry.toNat)
      = numeral base worth xs + ε * (numeral base worth ys + f.carry.toNat) := by
  induction xs generalizing ys f with
  | nil =>
    cases ys with
    | nil => simp [chain, numeral]
    | cons => cases h
  | cons x xs ih =>
    cases ys with
    | nil => cases h
    | cons y ys =>
      obtain ⟨hx, hxs⟩ := List.forall_mem_cons.1 hx
      obtain ⟨hy, hys⟩ := List.forall_mem_cons.1 hy
      have hvalue := hstep.value x y f hx hy
      have hrest := ih (Nat.succ.inj h) hxs hys (step x y f).flags
      rw [chain, numeral_cons, numeral_cons, numeral_cons, List.length_cons, pow_succ]
      push_cast
      linear_combination hvalue + base * hrest

/-- The result of a chain has as many digits as its operands. -/
theorem Positional.chain_lt (hstep : Positional step ε base worth IsDigit)
    (h : xs.length = ys.length) (hx : ∀ x ∈ xs, IsDigit x) (hy : ∀ y ∈ ys, IsDigit y) (f : Flags) :
    (numeral base worth (chain step xs ys f).1 : Int) < base ^ xs.length := by
  have hlt := numeral_lt hstep.one_lt fun z hz =>
    hstep.worth_lt z (hstep.isDigit_chain hx hy f z hz)
  rw [length_chain h] at hlt
  exact_mod_cast hlt

/-- The number that a chain leaves is the result cut to its places. -/
theorem Positional.chain_emod (hstep : Positional step ε base worth IsDigit)
    (h : xs.length = ys.length) (hx : ∀ x ∈ xs, IsDigit x) (hy : ∀ y ∈ ys, IsDigit y) (f : Flags) :
    (numeral base worth (chain step xs ys f).1 : Int)
      = (numeral base worth xs + ε * (numeral base worth ys + f.carry.toNat))
          % base ^ xs.length := by
  rw [← hstep.value_chain h hx hy f, mul_left_comm, Int.add_mul_emod_self_left,
    Int.emod_eq_of_lt (Int.natCast_nonneg _) (hstep.chain_lt h hx hy f)]

/-- Its last carry says that the exact result is less than zero or has no room in its places. -/
theorem Positional.carry_chain (hstep : Positional step ε base worth IsDigit)
    (h : xs.length = ys.length) (hx : ∀ x ∈ xs, IsDigit x) (hy : ∀ y ∈ ys, IsDigit y) (f : Flags) :
    let exact : Int := numeral base worth xs + ε * (numeral base worth ys + f.carry.toNat)
    (chain step xs ys f).2.carry = true ↔ exact < 0 ∨ (base : Int) ^ xs.length ≤ exact := by
  intro exact
  have hlt := hstep.chain_lt h hx hy f
  have hchain : _ = exact := hstep.value_chain h hx hy f
  generalize (base : Int) ^ xs.length = power at *
  cases hcarry : (chain step xs ys f).2.carry with
  | true =>
    rw [hcarry, Bool.toNat_true, Nat.cast_one, mul_one] at hchain
    refine iff_of_true rfl ?_
    rcases hstep.unit with rfl | rfl
    · exact .inr (by omega)
    · exact .inl (by omega)
  | false =>
    rw [hcarry, Bool.toNat_false, Nat.cast_zero, mul_zero, mul_zero, add_zero] at hchain
    exact iff_of_false nofun (by omega)

end positional

/-- What a byte operation has to do with addition, where `ε` is one, or with subtraction, where it
is minus one: the equation between its bytes and carries, and what S and P/V say. -/
structure Combines (step : Byte → Byte → Flags → Result) (ε : Int) : Prop where
  unit : ε = 1 ∨ ε = -1
  value : ∀ x y f, ((step x y f).value.toNat : Int) + ε * (256 * (step x y f).flags.carry.toNat)
    = x.toNat + ε * (y.toNat + f.carry.toNat)
  sign : ∀ x y f, (step x y f).flags.sign = isNegative (step x y f).value
  overflow : ∀ x y f, (step x y f).flags.parity = true ↔
    ¬ Fits 1 (signed x + ε * (signed y + f.carry.toNat))

/-- ADC adds the bytes and the carry exactly, signs and all. -/
theorem combines_adc : Combines Operation.adc.apply 1 where
  unit := .inl rfl
  value x y f := by
    have hvalue := toNat_addByte x y f.carry
    simp only [Operation.apply]
    omega
  sign x y f := rfl
  overflow x y f := by
    have hx := x.toNat_lt
    have hy := y.toNat_lt
    have hc := f.carry.toNat_le
    have hvalue : (UInt8.ofNat (x.toNat + y.toNat + f.carry.toNat)).toNat
        = (x.toNat + y.toNat + f.carry.toNat) % 256 := UInt8.toNat_ofNat'
    simp only [Operation.apply, addByte, isNegative, Fits, signed_eq, hvalue, Bool.and_eq_true,
      beq_iff_eq, bne_iff_ne, ne_eq, decide_eq_decide, pow_one]
    split <;> split <;> omega

/-- SBC subtracts the byte and the carry exactly, signs and all. -/
theorem combines_sbc : Combines Operation.sbc.apply (-1) where
  unit := .inr rfl
  value x y f := by
    have hvalue := toNat_subByte x y f.carry
    simp only [Operation.apply]
    omega
  sign x y f := rfl
  overflow x y f := by
    have hx := x.toNat_lt
    have hy := y.toNat_lt
    have hc := f.carry.toNat_le
    have hvalue : (UInt8.ofNat (x.toNat + 256 - (y.toNat + f.carry.toNat))).toNat
        = (x.toNat + 256 - (y.toNat + f.carry.toNat)) % 256 := UInt8.toNat_ofNat'
    simp only [Operation.apply, subByte, isNegative, Fits, signed_eq, hvalue, Bool.and_eq_true,
      bne_iff_ne, ne_eq, decide_eq_decide, pow_one]
    split <;> split <;> omega

theorem isNegative_iff (b : Byte) : isNegative b = true ↔ signed b < 0 := by
  have hb := b.toNat_lt
  rw [isNegative, signed_eq, decide_eq_true_iff]
  split <;> omega

/-- The exact result of one byte is negative exactly if S and P/V differ. -/
theorem Combines.negative (hstep : Combines step ε) (x y : Byte) (f : Flags) :
    (step x y f).flags.sign ≠ (step x y f).flags.parity ↔
      signed x + ε * (signed y + f.carry.toNat) < 0 := by
  have hx := x.toNat_lt
  have hy := y.toNat_lt
  have hc := f.carry.toNat_le
  have hc' := (step x y f).flags.carry.toNat_le
  have hv := (step x y f).value.toNat_lt
  have hvalue := hstep.value x y f
  rw [ne_eq, Bool.eq_iff_iff, hstep.overflow, hstep.sign, isNegative_iff]
  simp only [Fits, signed_eq, pow_one]
  rcases hstep.unit with rfl | rfl <;> split <;> split <;> split <;> omega

/-- The result of a chain as a number that no count of bytes limits. -/
def exactResult (ε : Int) (xs ys : List Byte) (carry : Bool) : Int :=
  signedNumber xs + ε * (signedNumber ys + carry.toNat)

/-- Below the highest byte, the exact result is built up like the number itself. -/
theorem Combines.exactResult_cons (hstep : Combines step ε) (x x' y y' : Byte) (xs ys : List Byte)
    (f : Flags) :
    exactResult ε (x :: x' :: xs) (y :: y' :: ys) f.carry
      = (step x y f).value.toNat
        + 256 * exactResult ε (x' :: xs) (y' :: ys) (step x y f).flags.carry := by
  have hvalue := hstep.value x y f
  rw [exactResult, exactResult, signedNumber_cons, signedNumber_cons]
  linear_combination -hvalue

/-- A lowest byte has no part in whether a number fits. -/
theorem fits_cons (v : Byte) (count : Nat) (e : Int) :
    Fits (count + 2) (v.toNat + 256 * e) ↔ Fits (count + 1) e := by
  have hv := v.toNat_lt
  simp only [Fits, pow_succ]
  generalize (256 : Int) ^ count = power
  omega

/-- **The flags of a chain are about the whole number**: S is its sign, P/V says that the exact
result does not fit, and the two differ if that is negative. -/
theorem Combines.flags_chain (hstep : Combines step ε) {xs ys : List Byte} (hpos : 0 < xs.length)
    (h : xs.length = ys.length) (f : Flags) :
    let out := chain step xs ys f
    let exact := exactResult ε xs ys f.carry
    (out.2.sign = true ↔ signedNumber out.1 < 0) ∧
    (out.2.parity = true ↔ ¬ Fits xs.length exact) ∧
    (out.2.sign ≠ out.2.parity ↔ exact < 0) := by
  induction xs generalizing ys f with
  | nil => exact absurd hpos (Nat.lt_irrefl 0)
  | cons x xs ih =>
    obtain _ | ⟨y, ys⟩ := ys
    · cases h
    have hlength : xs.length = ys.length := Nat.succ.inj h
    let v := (step x y f).value
    obtain _ | ⟨x', xs⟩ := xs
    · obtain rfl : ys = [] := List.length_eq_zero_iff.1 hlength.symm
      intro out exact
      have hexact : exact = signed x + ε * (signed y + f.carry.toNat) := by
        simp only [exact, exactResult, signedNumber_singleton]
      rw [hexact]
      refine ⟨?_, hstep.overflow x y f, hstep.negative x y f⟩
      show (step x y f).flags.sign = true ↔ signedNumber [v] < 0
      rw [hstep.sign, isNegative_iff, signedNumber_singleton]
    · obtain _ | ⟨y', ys⟩ := ys
      · cases hlength
      have hv := v.toNat_lt
      obtain ⟨hsign, hoverflow, hnegative⟩ := ih (Nat.succ_pos _) hlength (step x y f).flags
      intro out exact
      have hexact : exact = v.toNat
          + 256 * exactResult ε (x' :: xs) (y' :: ys) (step x y f).flags.carry :=
        hstep.exactResult_cons x x' y y' xs ys f
      have hout : signedNumber out.1 = v.toNat
          + 256 * signedNumber (chain step (x' :: xs) (y' :: ys) (step x y f).flags).1 :=
        signedNumber_cons ..
      rw [hexact, hout]
      -- The flags are those of the chain above the lowest byte.
      refine ⟨hsign.trans ?_, hoverflow.trans ?_, hnegative.trans ?_⟩
      · omega
      · exact (fits_cons v xs.length _).not.symm
      · omega

/-- Every byte is a digit. -/
theorem Combines.positional (hstep : Combines step ε) :
    Positional step ε 256 UInt8.toNat fun _ => True where
  unit := hstep.unit
  one_lt := by decide
  worth_lt b _ := b.toNat_lt
  isDigit _ _ _ _ _ := trivial
  value x y f _ _ := hstep.value x y f

/-- The number that a chain leaves is the result cut to its bytes. -/
theorem Combines.number_chain_emod (hstep : Combines step ε) {xs ys : List Byte}
    (h : xs.length = ys.length) (f : Flags) :
    (number (chain step xs ys f).1 : Int)
      = (number xs + ε * (number ys + f.carry.toNat)) % 256 ^ xs.length :=
  hstep.positional.chain_emod h (fun _ _ => trivial) (fun _ _ => trivial) f

/-- Its last carry says that the exact result is less than zero or has no room in its bytes. -/
theorem Combines.carry_chain (hstep : Combines step ε) {xs ys : List Byte}
    (h : xs.length = ys.length) (f : Flags) :
    let exact : Int := number xs + ε * (number ys + f.carry.toNat)
    (chain step xs ys f).2.carry = true ↔ exact < 0 ∨ 256 ^ xs.length ≤ exact :=
  hstep.positional.carry_chain h (fun _ _ => trivial) (fun _ _ => trivial) f

/-! ## Words -/

/-- The two bytes of a word, the lower one first. -/
def halves (w : Word) : List Byte :=
  [lowByte w, highByte w]

theorem isNegativeWord_eq (w : Word) : isNegativeWord w = isNegative (highByte w) := by
  have hw := w.toNat_lt
  rw [isNegativeWord, isNegative, decide_eq_decide, toNat_highByte]
  omega

/-- The 16-bit addition is the 8-bit addition of the halves, but for Z. -/
theorem addWordCarry_eq (a b : Word) (c : Bool) :
    let low := addByte (lowByte a) (lowByte b) c
    let high := addByte (highByte a) (highByte b) low.flags.carry
    let sum := wordOf high.value low.value
    addWordCarry a b c = (sum, { high.flags with zero := sum == 0 }) := by
  intro low high sum
  have ha := a.toNat_lt
  have hb := b.toNat_lt
  have hc := low.flags.carry.toNat_le
  have hl := low.value.toNat_lt
  have hh := high.value.toNat_lt
  have hlow : low.value.toNat + 256 * low.flags.carry.toNat
      = a.toNat % 256 + b.toNat % 256 + c.toNat := by
    rw [← toNat_lowByte a, ← toNat_lowByte b]
    exact toNat_addByte ..
  have hhigh : high.value.toNat + 256 * high.flags.carry.toNat
      = a.toNat / 256 + b.toNat / 256 + low.flags.carry.toNat := by
    rw [← toNat_highByte a, ← toNat_highByte b]
    exact toNat_addByte ..
  have hvalue : UInt16.ofNat (a.toNat + b.toNat + c.toNat) = sum := by
    rw [← UInt16.toNat_inj, UInt16.toNat_ofNat', toNat_wordOf]
    omega
  have hhalf : decide (4095 < a.toNat % 4096 + b.toNat % 4096 + c.toNat) = high.flags.half := by
    refine decide_eq_decide.2 ?_
    rw [toNat_highByte, toNat_highByte]
    omega
  have hcarry : decide (65535 < a.toNat + b.toNat + c.toNat) = high.flags.carry := by
    refine decide_eq_decide.2 ?_
    rw [toNat_highByte, toNat_highByte]
    omega
  simp only [addWordCarry, hvalue, hhalf, hcarry, isNegativeWord_eq]
  rw [highByte_wordOf]
  rfl

/-- The 16-bit subtraction is the 8-bit subtraction of the halves, but for Z. -/
theorem subWordCarry_eq (a b : Word) (c : Bool) :
    let low := subByte (lowByte a) (lowByte b) c
    let high := subByte (highByte a) (highByte b) low.flags.carry
    let difference := wordOf high.value low.value
    subWordCarry a b c = (difference, { high.flags with zero := difference == 0 }) := by
  intro low high difference
  have ha := a.toNat_lt
  have hb := b.toNat_lt
  have hc := low.flags.carry.toNat_le
  have hl := low.value.toNat_lt
  have hh := high.value.toNat_lt
  have hlow : low.value.toNat + b.toNat % 256 + c.toNat
      = a.toNat % 256 + 256 * low.flags.carry.toNat := by
    rw [← toNat_lowByte a, ← toNat_lowByte b]
    exact toNat_subByte ..
  have hhigh : high.value.toNat + b.toNat / 256 + low.flags.carry.toNat
      = a.toNat / 256 + 256 * high.flags.carry.toNat := by
    rw [← toNat_highByte a, ← toNat_highByte b]
    exact toNat_subByte ..
  have hvalue : UInt16.ofNat (a.toNat + 65536 - (b.toNat + c.toNat)) = difference := by
    rw [← UInt16.toNat_inj, UInt16.toNat_ofNat', toNat_wordOf]
    omega
  have hhalf : decide (a.toNat % 4096 < b.toNat % 4096 + c.toNat) = high.flags.half := by
    refine decide_eq_decide.2 ?_
    rw [toNat_highByte, toNat_highByte]
    omega
  have hcarry : decide (a.toNat < b.toNat + c.toNat) = high.flags.carry := by
    refine decide_eq_decide.2 ?_
    rw [toNat_highByte, toNat_highByte]
    omega
  simp only [subWordCarry, hvalue, hhalf, hcarry, isNegativeWord_eq]
  rw [highByte_wordOf]
  rfl

theorem halves_wordOf (high low : Byte) : halves (wordOf high low) = [low, high] := by
  rw [halves, lowByte_wordOf, highByte_wordOf]

/-- **Chained 8-bit arithmetic is exact.** ADC over the bytes of two numbers, the lowest first, adds
them; its last carry says that the sum does not fit, its last P/V that the signed sum does not fit,
and its last S is the sign of the result. SBC subtracts; its last carry is the borrow, and its last
S and P/V differ if the signed difference is negative. The 16-bit operations are the chains of two
bytes, but that ADC and SBC take Z from the whole word, and that ADD changes H and C alone. -/
theorem chain_exact (f : Flags) :
    (∀ (n : Nat) (xs ys : List Byte), 0 < n → xs.length = n → ys.length = n →
      let c := f.carry.toNat
      let sum := chain Operation.adc.apply xs ys f
      let difference := chain Operation.sbc.apply xs ys f
      sum.1.length = n ∧
      number sum.1 = (number xs + number ys + c) % 256 ^ n ∧
      (sum.2.carry = true ↔ 256 ^ n ≤ number xs + number ys + c) ∧
      (sum.2.parity = true ↔ ¬ Fits n (signedNumber xs + signedNumber ys + c)) ∧
      (sum.2.sign = true ↔ signedNumber sum.1 < 0) ∧
      difference.1.length = n ∧
      (number difference.1 : Int) = ((number xs : Int) - number ys - c) % 256 ^ n ∧
      (difference.2.carry = true ↔ number xs < number ys + c) ∧
      (difference.2.sign ≠ difference.2.parity ↔ signedNumber xs - signedNumber ys - c < 0)) ∧
    ∀ a b : Word,
      let sum := addWordCarry a b f.carry
      let sumBytes := chain Operation.adc.apply (halves a) (halves b) f
      let difference := subWordCarry a b f.carry
      let differenceBytes := chain Operation.sbc.apply (halves a) (halves b) f
      let plain := addWord a b f
      let plainBytes := chain Operation.adc.apply (halves a) (halves b) { f with carry := false }
      halves sum.1 = sumBytes.1 ∧ sum.2 = { sumBytes.2 with zero := sum.1 == 0 } ∧
      halves difference.1 = differenceBytes.1 ∧
      difference.2 = { differenceBytes.2 with zero := difference.1 == 0 } ∧
      halves plain.1 = plainBytes.1 ∧ plain.2.half = plainBytes.2.half ∧
      plain.2.carry = plainBytes.2.carry := by
  refine ⟨fun n xs ys hn hx hy => ?_, fun a b => ?_⟩
  · subst hx
    have h : xs.length = ys.length := hy.symm
    have hx := number_lt xs
    intro c sum difference
    obtain ⟨hsign, hoverflow, -⟩ := combines_adc.flags_chain hn h f
    obtain ⟨-, -, hnegative⟩ := combines_sbc.flags_chain hn h f
    have hsum := combines_adc.number_chain_emod h f
    have hdifference := combines_sbc.number_chain_emod h f
    refine ⟨length_chain h f, ?_, ?_, ?_, hsign, length_chain h f, ?_, ?_, ?_⟩
    · rw [one_mul, ← add_assoc] at hsum
      exact_mod_cast hsum
    · refine (combines_adc.carry_chain h f).trans ?_
      zify
      omega
    · rw [exactResult, one_mul, ← add_assoc] at hoverflow
      exact hoverflow
    · rw [neg_one_mul, ← sub_eq_add_neg, ← sub_sub] at hdifference
      exact hdifference
    · refine (combines_sbc.carry_chain h f).trans ?_
      zify at hx
      omega
    · rw [exactResult, neg_one_mul, ← sub_eq_add_neg, ← sub_sub] at hnegative
      exact hnegative
  · intro sum sumBytes difference differenceBytes plain plainBytes
    have hsum := addWordCarry_eq a b f.carry
    have hdifference := subWordCarry_eq a b f.carry
    -- ADD is ADC without a carry, but that it leaves the other flags as they were.
    have hplain := addWordCarry_eq a b false
    have hvalue : plain.1 = (addWordCarry a b false).1 := rfl
    have hhalf : plain.2.half = (addWordCarry a b false).2.half := rfl
    have hcarry : plain.2.carry = (addWordCarry a b false).2.carry := rfl
    refine ⟨?_, ?_, ?_, ?_, ?_, ?_, ?_⟩
    · rw [show sum = _ from hsum, halves_wordOf]
      rfl
    · rw [show sum = _ from hsum]
      rfl
    · rw [show difference = _ from hdifference, halves_wordOf]
      rfl
    · rw [show difference = _ from hdifference]
      rfl
    · rw [hvalue, hplain, halves_wordOf]
      rfl
    · rw [hhalf, hplain]
      rfl
    · rw [hcarry, hplain]
      rfl

/-- Where the carry into the lowest byte goes all the way: `FFFF + FFFF + 1`, and `0000 - FFFF - 1`,
which is zero as a difference of signed numbers. -/
theorem chain_exact_carried :
    let f : Flags := { carry := true }
    let ones : List Byte := [0xFF, 0xFF]
    let zeros : List Byte := [0, 0]
    let sum := chain Operation.adc.apply ones ones f
    let difference := chain Operation.sbc.apply zeros ones f
    0 < 2 ∧ ones.length = 2 ∧ zeros.length = 2 ∧
    number sum.1 = 65535 ∧ sum.2.carry = true ∧
    number difference.1 = 0 ∧ difference.2.carry = true ∧
    difference.2.sign = difference.2.parity := by
  intro f ones zeros sum difference
  have hones : number ones = 65535 := by decide
  have hzeros : number zeros = 0 := by decide
  have hsigned : signedNumber zeros - signedNumber ones - f.carry.toNat = 0 := by decide
  obtain ⟨-, hsum, hcarry, -⟩ := (chain_exact f).1 2 ones ones (by decide) rfl rfl
  obtain ⟨-, -, -, -, -, -, hdifference, hborrow, hnegative⟩ :=
    (chain_exact f).1 2 zeros ones (by decide) rfl rfl
  rw [hones] at hsum hcarry
  rw [hones, hzeros] at hdifference hborrow
  rw [hsigned] at hnegative
  refine ⟨by decide, rfl, rfl, hsum.trans (by decide), hcarry.2 (by decide), ?_,
    hborrow.2 (by decide), ?_⟩
  · exact Int.ofNat.inj (hdifference.trans (by decide))
  · exact not_not.1 (hnegative.not.2 (by decide))

end Z80.Alu
