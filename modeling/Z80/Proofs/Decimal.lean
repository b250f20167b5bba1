import Z80.Proofs.MultiByte

/-!
# Packed decimal numbers

A byte in packed decimal holds two decimal digits, one in each hexadecimal digit. ADC and SBC know
nothing of that: they add and subtract the two hexadecimal digits, of which each may leave the range
of a decimal digit. DAA moves those that did by six, and finds out from H, C, N and the byte itself
which they are (`decimalAdjust_digits`). So ADC or SBC with DAA after it is one place of decimal
arithmetic in base 100 (`positional_adc`, `positional_sbc`), and what is known of such places adds
up to numbers of any length.
-/

namespace Z80.Alu

/-- Whether both hexadecimal digits of a byte are decimal digits. -/
def IsDecimal (b : Byte) : Prop :=
  b.toNat / 16 < 10 ∧ b.toNat % 16 < 10

instance (b : Byte) : Decidable (IsDecimal b) :=
  inferInstanceAs (Decidable (_ ∧ _))

/-- The number that two decimal digits stand for. -/
def decimal (b : Byte) : Nat :=
  10 * (b.toNat / 16) + b.toNat % 16

/-- The number that bytes in packed decimal stand for, the lowest first. -/
def decimalNumber (bytes : List Byte) : Nat :=
  numeral 100 decimal bytes

/-- An operation on two bytes, with DAA after it. -/
def Operation.adjusted (op : Operation) (x y : Byte) (prior : Flags) : Result :=
  let out := op.apply x y prior
  decimalAdjust out.value out.flags

theorem decimal_lt {b : Byte} (h : IsDecimal b) : decimal b < 100 := by
  unfold IsDecimal at h
  unfold decimal
  omega

/-! ## Before the correction -/

/-- What an addition, where `ε` is one, or a subtraction, where it is minus one, makes of two bytes
in packed decimal: the two digits of the result are `high` and `low`, but have not been brought into
their range. Where `low` or the whole has no room in hexadecimal, H or C says so. -/
structure Unadjusted (ε high low : Int) (out : Result) : Prop where
  digits : ε = 1 ∧ out.flags.subtract = false ∧ (0 ≤ low ∧ low ≤ 19) ∧ (0 ≤ high ∧ high ≤ 18) ∨
    ε = -1 ∧ out.flags.subtract = true ∧ (-10 ≤ low ∧ low ≤ 9) ∧ (-9 ≤ high ∧ high ≤ 9)
  value : (out.value.toNat : Int) = (16 * high + low) % 256
  half : out.flags.half = true ↔ low < 0 ∨ 15 < low
  carry : out.flags.carry = true ↔ 16 * high + low < 0 ∨ 255 < 16 * high + low

/-- H of a byte operation says that the result of the lower digits has no room in a hexadecimal
digit, and N that it was a subtraction. -/
structure ReportsDigits (step : Byte → Byte → Flags → Result) (ε : Int) : Prop where
  subtract : ∀ x y f, (step x y f).flags.subtract = true ↔ ε = -1
  half : ∀ x y f, (step x y f).flags.half = true ↔
    ((x.toNat % 16 : Nat) + ε * ((y.toNat % 16 : Nat) + f.carry.toNat) : Int) < 0 ∨
      15 < ((x.toNat % 16 : Nat) + ε * ((y.toNat % 16 : Nat) + f.carry.toNat) : Int)

/-- ADC reports the carry between its digits, and is no subtraction. -/
theorem reportsDigits_adc : ReportsDigits Operation.adc.apply 1 where
  subtract x y f := iff_of_false Bool.false_ne_true (by decide)
  half x y f := by
    refine decide_eq_true_iff.trans ?_
    omega

/-- SBC reports the borrow between its digits, and is a subtraction. -/
theorem reportsDigits_sbc : ReportsDigits Operation.sbc.apply (-1) where
  subtract x y f := iff_of_true rfl rfl
  half x y f := by
    refine decide_eq_true_iff.trans ?_
    omega

theorem Combines.unadjusted {step : Byte → Byte → Flags → Result} {ε : Int} {x y : Byte}
    (hstep : Combines step ε) (hreports : ReportsDigits step ε) (hx : IsDecimal x)
    (hy : IsDecimal y) (f : Flags) :
    Unadjusted ε ((x.toNat / 16 : Nat) + ε * (y.toNat / 16 : Nat))
      ((x.toNat % 16 : Nat) + ε * ((y.toNat % 16 : Nat) + f.carry.toNat)) (step x y f) := by
  have hc := f.carry.toNat_le
  have hv := (step x y f).value.toNat_lt
  have hvalue := hstep.value x y f
  have hsubtract := hreports.subtract x y f
  unfold IsDecimal at hx hy
  refine ⟨?_, ?_, hreports.half x y f, ?_⟩
  · rcases hstep.unit with rfl | rfl
    · refine .inl ⟨rfl, Bool.eq_false_iff.2 fun h => ?_, by omega, by omega⟩
      exact absurd (hsubtract.1 h) (by decide)
    · exact .inr ⟨rfl, hsubtract.2 rfl, by omega, by omega⟩
  · rcases hstep.unit with rfl | rfl <;> omega
  · cases hcarry : (step x y f).flags.carry with
    | false =>
      rw [hcarry, Bool.toNat_false] at hvalue
      refine iff_of_false Bool.false_ne_true ?_
      rcases hstep.unit with rfl | rfl <;> omega
    | true =>
      rw [hcarry, Bool.toNat_true] at hvalue
      refine iff_of_true rfl ?_
      rcases hstep.unit with rfl | rfl <;> omega

/-! ## The correction -/

/-- What DAA adds or subtracts: six for each of the digits that are corrected. -/
theorem toNat_correction (low high : Bool) :
    ((if low then (0x06 : Byte) else 0) + if high then 0x60 else 0).toNat
      = 6 * low.toNat + 96 * high.toNat := by
  cases low <;> cases high <;> rfl

/-- DAA adds its correction after an addition and subtracts it after a subtraction. -/
theorem toNat_decimalAdjust {ε : Int} {a : Byte} {f : Flags}
    (hsign : ε = 1 ∧ f.subtract = false ∨ ε = -1 ∧ f.subtract = true) :
    let low := f.half || 9 < a.toNat % 16
    let high := f.carry || 0x99 < a.toNat
    ((decimalAdjust a f).value.toNat : Int)
      = (a.toNat + ε * (6 * low.toNat + 96 * high.toNat)) % 256 := by
  intro low high
  have hcorrection := toNat_correction low high
  have hlow := low.toNat_le
  have hhigh := high.toNat_le
  rcases hsign with ⟨rfl, hadd⟩ | ⟨rfl, hsub⟩
  · have hvalue : (decimalAdjust a f).value
        = a + ((if low then 0x06 else 0) + if high then 0x60 else 0) := by
      rw [decimalAdjust, hadd]
      rfl
    rw [hvalue, UInt8.toNat_add, hcorrection]
    omega
  · have hvalue : (decimalAdjust a f).value
        = a - ((if low then 0x06 else 0) + if high then 0x60 else 0) := by
      rw [decimalAdjust, hsub]
      rfl
    rw [hvalue, UInt8.toNat_sub, hcorrection]
    omega

/-- **DAA finds the digits that have left their range**, brings them back, and puts the carry that
this makes into C. -/
theorem Unadjusted.adjust {ε high low : Int} {out : Result} (h : Unadjusted ε high low out) :
    let adjusted := decimalAdjust out.value out.flags
    IsDecimal adjusted.value ∧
      (decimal adjusted.value : Int) + ε * (100 * adjusted.flags.carry.toNat)
        = 10 * high + low := by
  intro adjusted
  have hv := out.value.toNat_lt
  have hvalue := h.value
  -- A digit is corrected exactly if it is out of range, its carry included.
  have hlow : (out.flags.half || 9 < out.value.toNat % 16) = decide (low < 0 ∨ 9 < low) := by
    rw [Bool.eq_iff_iff, Bool.or_eq_true, decide_eq_true_iff, decide_eq_true_iff, h.half]
    omega
  have hhigh : (out.flags.carry || 0x99 < out.value.toNat)
      = decide (16 * high + low < 0 ∨ 153 < 16 * high + low) := by
    rw [Bool.eq_iff_iff, Bool.or_eq_true, decide_eq_true_iff, decide_eq_true_iff, h.carry]
    omega
  have hsign : ε = 1 ∧ out.flags.subtract = false ∨ ε = -1 ∧ out.flags.subtract = true :=
    h.digits.imp (fun hadd => ⟨hadd.1, hadd.2.1⟩) fun hsub => ⟨hsub.1, hsub.2.1⟩
  have hadjusted : (adjusted.value.toNat : Int) = _ := toNat_decimalAdjust hsign
  have hcarry : adjusted.flags.carry = _ := hhigh
  rw [hlow, hhigh] at hadjusted
  rw [IsDecimal, decimal, hcarry]
  have hsix := toNat_decide_cases (low < 0 ∨ 9 < low)
  have hsixty := toNat_decide_cases (16 * high + low < 0 ∨ 153 < 16 * high + low)
  rcases h.digits with ⟨rfl, -, hl, hh⟩ | ⟨rfl, -, hl, hh⟩
  · omega
  · omega

/-! ## Chains -/

/-- With DAA after it, an addition or a subtraction is one place of a decimal one. -/
theorem Combines.positional_adjusted {op : Operation} {ε : Int} (hstep : Combines op.apply ε)
    (hreports : ReportsDigits op.apply ε) : Positional op.adjusted ε 100 decimal IsDecimal where
  unit := hstep.unit
  one_lt := by decide
  worth_lt _ h := decimal_lt h
  isDigit _ _ f hx hy := (hstep.unadjusted hreports hx hy f).adjust.1
  value x y f hx hy := by
    refine (hstep.unadjusted hreports hx hy f).adjust.2.trans ?_
    rw [decimal, decimal]
    push_cast
    ring

/-- ADC and DAA add decimal bytes with the carry, as digits to the base 100. -/
theorem positional_adc : Positional Operation.adc.adjusted 1 100 decimal IsDecimal :=
  combines_adc.positional_adjusted reportsDigits_adc

/-- SBC and DAA subtract decimal bytes with the borrow, as digits to the base 100. -/
theorem positional_sbc : Positional Operation.sbc.adjusted (-1) 100 decimal IsDecimal :=
  combines_sbc.positional_adjusted reportsDigits_sbc

/-- **Chained decimal arithmetic is exact.** ADC and DAA over the bytes of two packed decimal
numbers, the lowest first, leave packed decimal bytes: the sum, cut to its digits, with a carry that
says that it did not fit. SBC and DAA leave the difference, with a carry that says that it was less
than zero. -/
theorem decimalChain_exact {n : Nat} {xs ys : List Byte} (f : Flags) (hx : xs.length = n)
    (hy : ys.length = n) (hxs : ∀ x ∈ xs, IsDecimal x) (hys : ∀ y ∈ ys, IsDecimal y) :
    let c := f.carry.toNat
    let sum := chain Operation.adc.adjusted xs ys f
    let difference := chain Operation.sbc.adjusted xs ys f
    sum.1.length = n ∧ (∀ z ∈ sum.1, IsDecimal z) ∧
    decimalNumber sum.1 = (decimalNumber xs + decimalNumber ys + c) % 100 ^ n ∧
    (sum.2.carry = true ↔ 100 ^ n ≤ decimalNumber xs + decimalNumber ys + c) ∧
    difference.1.length = n ∧ (∀ z ∈ difference.1, IsDecimal z) ∧
    (decimalNumber difference.1 : Int)
      = ((decimalNumber xs : Int) - decimalNumber ys - c) % 100 ^ n ∧
    (difference.2.carry = true ↔ decimalNumber xs < decimalNumber ys + c) := by
  intro c sum difference
  subst hx
  have h : xs.length = ys.length := hy.symm
  have hlt : decimalNumber xs < 100 ^ xs.length :=
    numeral_lt (by decide) fun x hx => decimal_lt (hxs x hx)
  have hsum : (decimalNumber sum.1 : Int)
      = (decimalNumber xs + 1 * (decimalNumber ys + c)) % 100 ^ xs.length :=
    positional_adc.chain_emod h hxs hys f
  have hcarry : sum.2.carry = true ↔ (decimalNumber xs + 1 * (decimalNumber ys + c) : Int) < 0 ∨
      (100 : Int) ^ xs.length ≤ decimalNumber xs + 1 * (decimalNumber ys + c) :=
    positional_adc.carry_chain h hxs hys f
  have hdifference : (decimalNumber difference.1 : Int)
      = (decimalNumber xs + -1 * (decimalNumber ys + c)) % 100 ^ xs.length :=
    positional_sbc.chain_emod h hxs hys f
  have hborrow : difference.2.carry = true ↔
      (decimalNumber xs + -1 * (decimalNumber ys + c) : Int) < 0 ∨
        (100 : Int) ^ xs.length ≤ decimalNumber xs + -1 * (decimalNumber ys + c) :=
    positional_sbc.carry_chain h hxs hys f
  refine ⟨length_chain h f, positional_adc.isDigit_chain hxs hys f, ?_, ?_, length_chain h f,
    positional_sbc.isDigit_chain hxs hys f, ?_, ?_⟩
  · rw [one_mul, ← add_assoc] at hsum
    exact_mod_cast hsum
  · refine hcarry.trans ?_
    zify
    omega
  · rw [neg_one_mul, ← sub_eq_add_neg, ← sub_sub] at hdifference
    exact hdifference
  · refine hborrow.trans ?_
    zify at hlt
    omega

/-- `9999 + 0001` with a carry, and `1000 - 9999` with a borrow, where every digit is corrected. -/
theorem decimalChain_exact_corrected :
    let f : Flags := { carry := true }
    let nines : List Byte := [0x99, 0x99]
    let one : List Byte := [0x01, 0x00]
    let thousand : List Byte := [0x00, 0x10]
    let sum := chain Operation.adc.adjusted nines one f
    let difference := chain Operation.sbc.adjusted thousand nines f
    nines.length = 2 ∧ one.length = 2 ∧ thousand.length = 2 ∧
    (∀ x ∈ nines, IsDecimal x) ∧ (∀ x ∈ one, IsDecimal x) ∧ (∀ x ∈ thousand, IsDecimal x) ∧
    (∀ z ∈ sum.1, IsDecimal z) ∧ decimalNumber sum.1 = 1 ∧ sum.2.carry = true ∧
    (∀ z ∈ difference.1, IsDecimal z) ∧ decimalNumber difference.1 = 1000 ∧
    difference.2.carry = true := by
  intro f nines one thousand sum difference
  have hnines : ∀ x ∈ nines, IsDecimal x := by decide +kernel
  have hone : ∀ x ∈ one, IsDecimal x := by decide +kernel
  have hthousand : ∀ x ∈ thousand, IsDecimal x := by decide +kernel
  obtain ⟨-, hsumDigits, hsum, hcarry, -⟩ := decimalChain_exact (n := 2) f rfl rfl hnines hone
  obtain ⟨-, -, -, -, -, hdifferenceDigits, hdifference, hborrow⟩ :=
    decimalChain_exact (n := 2) f rfl rfl hthousand hnines
  refine ⟨rfl, rfl, rfl, hnines, hone, hthousand, hsumDigits, hsum.trans (by decide),
    hcarry.2 (by decide), hdifferenceDigits, ?_, hborrow.2 (by decide)⟩
  exact Int.ofNat.inj (hdifference.trans (by decide))

end Z80.Alu
