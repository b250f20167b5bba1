import Z80.Proofs.MultiByte

/-!
# Shifting numbers of several bytes

A shift moves one bit out of a byte and another one in, and a digit rotation does the same with a
hexadecimal digit, which it keeps in the lower half of the accumulator. A number of several bytes is
shifted by going through its bytes in order, from the lowest up or from the highest down, with what
left one byte entering the next. Bits and digits are the same thing here: what goes up multiplies by
two or by sixteen (`MovesUp`), what goes down divides (`MovesDown`), and each is one equation
between the bytes and what enters and leaves, which adds up along the bytes.

Going down undoes going up, because both equations have only one solution.
-/

namespace Z80.Alu

/-- As many bytes with the same number are the same bytes. -/
theorem eq_of_number_eq {xs ys : List Byte} (hlength : xs.length = ys.length)
    (h : number xs = number ys) : xs = ys := by
  have hbyte (bytes : List Byte) : ∀ d ∈ bytes.map UInt8.toNat, d < 256 := by
    simpa using fun b _ => b.toNat_lt
  have hdigits := Nat.ofDigits_inj_of_len_eq (by decide) (by simpa using hlength) (hbyte xs)
    (hbyte ys) h
  exact List.map_injective_iff.2 (fun _ _ => UInt8.toNat_inj.1) hdigits

/-! ## Passes over the bytes -/

section passes

variable {σ τ : Type}

/-- Goes through the bytes of a number from the lowest up; each hands a state on to the one
above it. -/
def upwards (step : Byte → σ → Byte × σ) : List Byte → σ → List Byte × σ
  | [], s => ([], s)
  | b :: bytes, s =>
    let out := step b s
    let rest := upwards step bytes out.2
    (out.1 :: rest.1, rest.2)

/-- Goes through the bytes of a number from the highest down; each hands a state on to the one
below it. -/
def downwards (step : Byte → σ → Byte × σ) : List Byte → σ → List Byte × σ
  | [], s => ([], s)
  | b :: bytes, s =>
    let rest := downwards step bytes s
    let out := step b rest.2
    (out.1 :: rest.1, out.2)

variable {step up down : Byte → σ → Byte × σ}

/-- Every byte on the way up is replaced by one byte. -/
theorem length_upwards (bytes : List Byte) (s : σ) :
    (upwards step bytes s).1.length = bytes.length := by
  induction bytes generalizing s with
  | nil => rfl
  | cons b bytes ih => exact congrArg (· + 1) (ih _)

/-- Every byte on the way down is replaced by one byte. -/
theorem length_downwards (bytes : List Byte) (s : σ) :
    (downwards step bytes s).1.length = bytes.length := by
  induction bytes with
  | nil => rfl
  | cons b bytes ih => exact congrArg (· + 1) ih

/-- What every byte hands on unchanged is unchanged in the end. -/
theorem upwards_keeps {g : σ → τ} (h : ∀ b s, g (step b s).2 = g s) (bytes : List Byte) (s : σ) :
    g (upwards step bytes s).2 = g s := by
  induction bytes generalizing s with
  | nil => rfl
  | cons b bytes ih => exact (ih _).trans (h b s)

/-- What every byte hands on unchanged is unchanged at the bottom as well. -/
theorem downwards_keeps {g : σ → τ} (h : ∀ b s, g (step b s).2 = g s) (bytes : List Byte) (s : σ) :
    g (downwards step bytes s).2 = g s := by
  induction bytes with
  | nil => rfl
  | cons b bytes ih => exact (h b _).trans ih

/-- A step that multiplies its byte by `base`, with a digit of that base entering at the bottom and
one leaving at the top. -/
def MovesUp (step : Byte → σ → Byte × σ) (digit : σ → Nat) (base : Nat) : Prop :=
  ∀ b s, (step b s).1.toNat + 256 * digit (step b s).2 = base * b.toNat + digit s

/-- A step that divides its byte by `base`, with a digit of that base entering at the top and one
leaving at the bottom. -/
def MovesDown (step : Byte → σ → Byte × σ) (digit : σ → Nat) (base : Nat) : Prop :=
  ∀ b s, base * (step b s).1.toNat + digit (step b s).2 = b.toNat + 256 * digit s

variable {digit : σ → Nat} {base : Nat}

/-- On the way up the whole number is multiplied, and the last digit handed on leaves above its
top. -/
theorem MovesUp.number_upwards (h : MovesUp step digit base) (bytes : List Byte) (s : σ) :
    number (upwards step bytes s).1 + 256 ^ bytes.length * digit (upwards step bytes s).2
      = base * number bytes + digit s := by
  induction bytes generalizing s with
  | nil => simp [upwards, number]
  | cons b bytes ih =>
    have hstep := h b s
    have hrest := ih (step b s).2
    rw [upwards, number_cons, number_cons, List.length_cons, pow_succ]
    linear_combination hstep + 256 * hrest

/-- On the way down the whole number is divided, and the last digit handed on is the remainder. -/
theorem MovesDown.number_downwards (h : MovesDown step digit base) (bytes : List Byte) (s : σ) :
    base * number (downwards step bytes s).1 + digit (downwards step bytes s).2
      = number bytes + 256 ^ bytes.length * digit s := by
  induction bytes with
  | nil => simp [downwards, number]
  | cons b bytes ih =>
    have hstep := h b (downwards step bytes s).2
    rw [downwards, number_cons, number_cons, List.length_cons, pow_succ]
    linear_combination hstep + 256 * ih

/-- **Going down undoes going up.** -/
theorem MovesUp.undone (hup : MovesUp up digit base) (hdown : MovesDown down digit base)
    (hdigit : ∀ s, digit s < base) (bytes : List Byte) (s : σ) :
    let raised := upwards up bytes s
    let back := downwards down raised.1 raised.2
    back.1 = bytes ∧ digit back.2 = digit s := by
  intro raised back
  have hlength : raised.1.length = bytes.length := length_upwards bytes s
  have hraised : number raised.1 + 256 ^ bytes.length * digit raised.2
      = base * number bytes + digit s := hup.number_upwards bytes s
  have hback : base * number back.1 + digit back.2 = base * number bytes + digit s := by
    rw [← hraised, ← hlength]
    exact hdown.number_downwards raised.1 raised.2
  have hnumber := congrArg (· / base) hback
  have hdigits := congrArg (· % base) hback
  have hpos : 0 < base := Nat.zero_lt_of_lt (hdigit s)
  simp only [Nat.mul_add_div hpos, Nat.div_eq_of_lt (hdigit _), Nat.add_zero] at hnumber
  simp only [Nat.mul_add_mod, Nat.mod_eq_of_lt (hdigit _)] at hdigits
  exact ⟨eq_of_number_eq ((length_downwards ..).trans hlength) hnumber, hdigits⟩

end passes

/-! ## Shifts -/

/-- A shift to the left doubles the byte: what enters is added, what leaves is the carry. -/
theorem Shift.toNat_left {kind : Shift} (h : kind.isLeft = true) (b : Byte) (f : Flags) :
    (shift kind b f).value.toNat + 256 * (shift kind b f).flags.carry.toNat
      = 2 * b.toNat + (kind.entering b f.carry).toNat := by
  have hb := b.toNat_lt
  have he := (kind.entering b f.carry).toNat_le
  have hcarry : (shift kind b f).flags.carry = decide (128 ≤ b.toNat) := if_pos h
  have hvalue : (shift kind b f).value.toNat
      = (2 * b.toNat + (kind.entering b f.carry).toNat) % 256 := by
    simp only [shift, Shift.apply, h, if_true, UInt8.toNat_ofNat']
  have hleaving := toNat_decide_cases (128 ≤ b.toNat)
  rw [hcarry, hvalue]
  omega

/-- A shift to the right halves the byte: what enters is its bit 8, what leaves is the carry. -/
theorem Shift.toNat_right {kind : Shift} (h : kind.isLeft = false) (b : Byte) (f : Flags) :
    2 * (shift kind b f).value.toNat + (shift kind b f).flags.carry.toNat
      = b.toNat + 256 * (kind.entering b f.carry).toNat := by
  have hb := b.toNat_lt
  have he := (kind.entering b f.carry).toNat_le
  have hcarry : (shift kind b f).flags.carry = decide (b.toNat % 2 = 1) :=
    if_neg (by rw [h]; exact Bool.false_ne_true)
  have hvalue : (shift kind b f).value.toNat
      = b.toNat / 2 + 128 * (kind.entering b f.carry).toNat := by
    simp only [shift, Shift.apply, h, Bool.false_eq_true, if_false, UInt8.toNat_ofNat']
    omega
  have hleaving := toNat_decide_cases (b.toNat % 2 = 1)
  rw [hcarry, hvalue]
  omega

/-- A shift as a step of a pass, which hands the flags on. -/
def Shift.step (kind : Shift) (b : Byte) (f : Flags) : Byte × Flags :=
  ((shift kind b f).value, (shift kind b f).flags)

/-- The carry, as a number. -/
def carryDigit (f : Flags) : Nat :=
  f.carry.toNat

theorem carryDigit_lt (f : Flags) : carryDigit f < 2 :=
  f.carry.toNat_lt

/-- RL moves a byte up by one binary digit, the carry, on its way in and out. -/
theorem movesUp_rl : MovesUp Shift.rl.step carryDigit 2 :=
  fun b f => Shift.toNat_left rfl b f

/-- RR moves a byte down by one binary digit, the carry, on its way in and out. -/
theorem movesDown_rr : MovesDown Shift.rr.step carryDigit 2 :=
  fun b f => Shift.toNat_right rfl b f

/-- A number of at least one byte is shifted to the left by SLA on its lowest byte and RL on each
above it. -/
def longLeft (low : Byte) (high : List Byte) (f : Flags) : List Byte × Flags :=
  let first := Shift.sla.step low f
  let rest := upwards Shift.rl.step high first.2
  (first.1 :: rest.1, rest.2)

/-- A number of at least one byte is shifted to the right by SRL or SRA on its highest byte and RR
on each below it. -/
def longRight (first : Shift) (low : List Byte) (high : Byte) (f : Flags) : List Byte × Flags :=
  let top := first.step high f
  let rest := downwards Shift.rr.step low top.2
  (rest.1 ++ [top.1], rest.2)

/-- The highest byte of a number has the weight of the bytes below it. -/
theorem number_append_singleton (low : List Byte) (high : Byte) :
    number (low ++ [high]) = number low + 256 ^ low.length * high.toNat := by
  simp [number, Nat.ofDigits_append]

/-- Only the highest byte of a number has a sign. -/
theorem signedNumber_append_singleton (low : List Byte) (high : Byte) :
    signedNumber (low ++ [high]) = number low + 256 ^ low.length * signed high := by
  induction low with
  | nil => simp [number, signedNumber_singleton]
  | cons b low ih =>
    obtain ⟨b', bytes, hcons⟩ : ∃ b' bytes, low ++ [high] = b' :: bytes :=
      List.exists_cons_of_ne_nil (by simp)
    have hsplit : signedNumber (b :: (low ++ [high]))
        = b.toNat + 256 * signedNumber (low ++ [high]) := by
      rw [hcons]
      exact signedNumber_cons b b' bytes
    rw [List.cons_append, hsplit, ih, number_cons, List.length_cons, pow_succ]
    push_cast
    ring

/-- The sign has no part in the lowest bit. -/
theorem signedNumber_emod_two (low : List Byte) (high : Byte) :
    signedNumber (low ++ [high]) % 2 = number (low ++ [high]) % 2 := by
  rw [signedNumber, List.length_append, List.length_singleton, pow_succ]
  split <;> omega

/-- SLA and RL together double a number of any length, the carry being its topmost bit. -/
theorem number_longLeft (low : Byte) (high : List Byte) (f : Flags) :
    number (longLeft low high f).1 + 256 ^ (high.length + 1) * carryDigit (longLeft low high f).2
      = 2 * number (low :: high) := by
  have hfirst : (Shift.sla.step low f).1.toNat + 256 * carryDigit (Shift.sla.step low f).2
      = 2 * low.toNat := Shift.toNat_left rfl low f
  have hrest := movesUp_rl.number_upwards high (Shift.sla.step low f).2
  rw [longLeft, number_cons, number_cons, pow_succ]
  linear_combination hfirst + 256 * hrest

/-- What the bytes below the highest one make of the bit that it hands down. -/
theorem number_belowTop (first : Shift) (low : List Byte) (high : Byte) (f : Flags) :
    let top := first.step high f
    let rest := downwards Shift.rr.step low top.2
    2 * number rest.1 + carryDigit rest.2 = number low + 256 ^ low.length * carryDigit top.2 :=
  movesDown_rr.number_downwards low _

/-- SRL halves a number that has no sign. -/
theorem number_longRight_srl (low : List Byte) (high : Byte) (f : Flags) :
    2 * number (longRight .srl low high f).1 + carryDigit (longRight .srl low high f).2
      = number (low ++ [high]) := by
  have htop : 2 * (Shift.srl.step high f).1.toNat + carryDigit (Shift.srl.step high f).2
      = high.toNat := Shift.toNat_right rfl high f
  have hrest := number_belowTop .srl low high f
  rw [longRight, number_append_singleton, number_append_singleton, length_downwards]
  linear_combination hrest + 256 ^ low.length * htop

/-- SRA halves a byte with a sign, since the sign bit that enters is the one that was there. -/
theorem signed_sra (b : Byte) (f : Flags) :
    2 * signed (Shift.sra.step b f).1 + carryDigit (Shift.sra.step b f).2 = signed b := by
  have hb := b.toNat_lt
  have hc : carryDigit (Shift.sra.step b f).2 ≤ 1 := Bool.toNat_le _
  have hentering := toNat_decide_cases (128 ≤ b.toNat)
  have h : 2 * (Shift.sra.step b f).1.toNat + carryDigit (Shift.sra.step b f).2
      = b.toNat + 256 * (decide (128 ≤ b.toNat)).toNat := Shift.toNat_right rfl b f
  rw [signed_eq, signed_eq]
  split <;> split <;> omega

/-- SRA and RR together halve a number that has a sign, rounding down. -/
theorem signedNumber_longRight_sra (low : List Byte) (high : Byte) (f : Flags) :
    2 * signedNumber (longRight .sra low high f).1 + carryDigit (longRight .sra low high f).2
      = signedNumber (low ++ [high]) := by
  have htop := signed_sra high f
  have hrest := number_belowTop .sra low high f
  zify at hrest
  rw [longRight, signedNumber_append_singleton, signedNumber_append_singleton, length_downwards]
  linear_combination hrest + 256 ^ low.length * htop

/-! ## Digits -/

/-- A digit rotation as a step of a pass, which hands on the accumulator and the flags. -/
def digitStep (rotate : Byte → Byte → Flags → DigitResult) (m : Byte) (s : Byte × Flags) :
    Byte × Byte × Flags :=
  let out := rotate s.1 m s.2
  (out.memory, out.a, out.flags)

/-- The digit that a rotation takes from the accumulator. -/
def lowDigit (s : Byte × Flags) : Nat :=
  s.1.toNat % 16

/-- What no digit rotation touches: the other digit of the accumulator, and the carry. -/
def untouched (s : Byte × Flags) : Nat × Bool :=
  (s.1.toNat / 16, s.2.carry)

theorem lowDigit_lt (s : Byte × Flags) : lowDigit s < 16 :=
  Nat.mod_lt _ (by decide)

theorem highDigit_lt (b : Byte) : b.toNat / 16 < 16 :=
  Nat.div_lt_of_lt_mul b.toNat_lt

/-- A byte is its two hexadecimal digits. -/
theorem toNat_ofDigits {high low : Nat} (hhigh : high < 16) (hlow : low < 16) :
    (ofDigits high low).toNat = 16 * high + low := by
  rw [ofDigits, UInt8.toNat_ofNat']
  omega

/-- The upper digit stays where it is, whatever enters below it. -/
theorem highDigit_ofDigits (a : Byte) {low : Nat} (hlow : low < 16) :
    (ofDigits (a.toNat / 16) low).toNat / 16 = a.toNat / 16 := by
  rw [toNat_ofDigits (highDigit_lt a) hlow]
  omega

/-- RLD moves a byte up by one hexadecimal digit, taken from the accumulator and handed back to
it. -/
theorem movesUp_rotateDigitLeft : MovesUp (digitStep rotateDigitLeft) lowDigit 16 := by
  intro m s
  have hhigh := highDigit_lt m
  simp only [digitStep, rotateDigitLeft, lowDigit]
  rw [toNat_ofDigits (Nat.mod_lt _ (by decide)) (Nat.mod_lt _ (by decide)),
    toNat_ofDigits (highDigit_lt s.1) hhigh]
  omega

/-- RRD moves a byte down by one hexadecimal digit, taken from the accumulator and handed back. -/
theorem movesDown_rotateDigitRight : MovesDown (digitStep rotateDigitRight) lowDigit 16 := by
  intro m s
  have hhigh := highDigit_lt m
  simp only [digitStep, rotateDigitRight, lowDigit]
  rw [toNat_ofDigits (Nat.mod_lt _ (by decide)) hhigh,
    toNat_ofDigits (highDigit_lt s.1) (Nat.mod_lt _ (by decide))]
  omega

/-- RLD leaves the upper digit of the accumulator and the carry. -/
theorem untouched_rotateDigitLeft (m : Byte) (s : Byte × Flags) :
    untouched (digitStep rotateDigitLeft m s).2 = untouched s :=
  Prod.ext (highDigit_ofDigits s.1 (highDigit_lt m)) rfl

/-- RRD leaves the upper digit of the accumulator and the carry. -/
theorem untouched_rotateDigitRight (m : Byte) (s : Byte × Flags) :
    untouched (digitStep rotateDigitRight m s).2 = untouched s :=
  Prod.ext (highDigit_ofDigits s.1 (Nat.mod_lt _ (by decide))) rfl

/-! ## What the passes compute -/

/-- What is left in the bytes and what leaves them are the two parts of one number. -/
theorem split_of_number_add {bytes : List Byte} {n leaving total : Nat} (hlength : bytes.length = n)
    (h : number bytes + 256 ^ n * leaving = total) :
    number bytes = total % 256 ^ n ∧ leaving = total / 256 ^ n := by
  subst hlength
  have hpos : 0 < 256 ^ bytes.length := Nat.pow_pos (by decide)
  obtain ⟨hdiv, hmod⟩ := (Nat.div_mod_unique hpos).2 ⟨h, number_lt bytes⟩
  exact ⟨hmod.symm, hdiv.symm⟩

/-- SLA and RL on `n` bytes double the number modulo `256 ^ n`; the carry is the bit that was
topmost. -/
theorem longLeft_exact (low : Byte) (high : List Byte) (f : Flags) :
    let x := number (low :: high)
    let n := (low :: high).length
    let out := longLeft low high f
    out.1.length = n ∧ number out.1 = 2 * x % 256 ^ n ∧ out.2.carry = x.testBit (8 * n - 1) := by
  intro x n out
  have hlength : out.1.length = n := congrArg (· + 1) (length_upwards high _)
  obtain ⟨hnumber, hcarry⟩ := split_of_number_add hlength (number_longLeft low high f)
  refine ⟨hlength, hnumber, ?_⟩
  -- The carry has the weight of the bit above the topmost one.
  have hpower : 256 ^ n = 2 * 2 ^ (8 * n - 1) := by
    have hn : 0 < n := Nat.succ_pos _
    rw [← pow_succ', show 256 = 2 ^ 8 from rfl, ← pow_mul]
    exact congrArg _ (by omega)
  have htop : out.2.carry.toNat = x / 2 ^ (8 * n - 1) := by
    rw [← Nat.mul_div_mul_left x _ two_pos, ← hpower]
    exact hcarry
  have hle := out.2.carry.toNat_le
  rw [Nat.testBit_eq_decide_div_mod_eq, ← htop, Nat.mod_eq_of_lt (by omega)]
  cases out.2.carry <;> rfl

/-- SRL and RR, or SRA and RR if there is a sign, halve the number; the carry is the remainder. -/
theorem longRight_exact (low : List Byte) (high : Byte) (f : Flags) :
    let bytes := low ++ [high]
    let logical := longRight .srl low high f
    let arithmetic := longRight .sra low high f
    logical.1.length = bytes.length ∧ number logical.1 = number bytes / 2 ∧
    logical.2.carry.toNat = number bytes % 2 ∧
    arithmetic.1.length = bytes.length ∧ signedNumber arithmetic.1 = signedNumber bytes / 2 ∧
    arithmetic.2.carry.toNat = number bytes % 2 := by
  intro bytes logical arithmetic
  have hlength (first : Shift) : (longRight first low high f).1.length = bytes.length := by
    simp only [longRight, bytes, List.length_append, length_downwards, List.length_singleton]
  have hl := logical.2.carry.toNat_le
  have ha := arithmetic.2.carry.toNat_le
  have hlogical : 2 * number logical.1 + logical.2.carry.toNat = number bytes :=
    number_longRight_srl low high f
  have harithmetic : 2 * signedNumber arithmetic.1 + arithmetic.2.carry.toNat
      = signedNumber bytes := signedNumber_longRight_sra low high f
  have hparity : signedNumber bytes % 2 = number bytes % 2 := signedNumber_emod_two low high
  refine ⟨hlength .srl, by omega, by omega, hlength .sra, by omega, by omega⟩

/-- **Shifts of several bytes are exact.** SLA on the lowest byte and RL on those above it double a
number, and the bit that leaves it at the top is the carry. SRL, or SRA if the number has a sign, on
the highest byte and RR on those below it halve a number, and the remainder is the carry. RR undoes
RL. RLD moves the digits of a number to the left through the lower digit of the accumulator, and RRD
undoes that; neither changes the upper digit or the carry. -/
theorem longShift_exact (f : Flags) :
    (∀ (low : Byte) (high : List Byte),
      let x := number (low :: high)
      let n := (low :: high).length
      let out := longLeft low high f
      out.1.length = n ∧ number out.1 = 2 * x % 256 ^ n ∧
      out.2.carry = x.testBit (8 * n - 1)) ∧
    (∀ (low : List Byte) (high : Byte),
      let bytes := low ++ [high]
      let logical := longRight .srl low high f
      let arithmetic := longRight .sra low high f
      logical.1.length = bytes.length ∧ number logical.1 = number bytes / 2 ∧
      logical.2.carry.toNat = number bytes % 2 ∧
      arithmetic.1.length = bytes.length ∧ signedNumber arithmetic.1 = signedNumber bytes / 2 ∧
      arithmetic.2.carry.toNat = number bytes % 2) ∧
    (∀ bytes : List Byte,
      let raised := upwards Shift.rl.step bytes f
      let back := downwards Shift.rr.step raised.1 raised.2
      back.1 = bytes ∧ back.2.carry = f.carry) ∧
    ∀ (a : Byte) (bytes : List Byte),
      let n := bytes.length
      let digits := 16 * number bytes + a.toNat % 16
      let raised := upwards (digitStep rotateDigitLeft) bytes (a, f)
      let back := downwards (digitStep rotateDigitRight) raised.1 raised.2
      let lowered := downwards (digitStep rotateDigitRight) bytes (a, f)
      raised.1.length = n ∧ number raised.1 = digits % 256 ^ n ∧
      raised.2.1.toNat % 16 = digits / 256 ^ n ∧
      back.1 = bytes ∧ back.2.1 = a ∧
      raised.2.1.toNat / 16 = a.toNat / 16 ∧ raised.2.2.carry = f.carry ∧
      lowered.2.1.toNat / 16 = a.toNat / 16 ∧ lowered.2.2.carry = f.carry := by
  refine ⟨fun low high => longLeft_exact low high f, fun low high => longRight_exact low high f,
    fun bytes => ?_, fun a bytes => ?_⟩
  · intro raised back
    obtain ⟨hbytes, hcarry⟩ := movesUp_rl.undone movesDown_rr carryDigit_lt bytes f
    refine ⟨hbytes, Bool.eq_iff_iff.2 ?_⟩
    rw [← Bool.toNat_eq_one, ← Bool.toNat_eq_one]
    exact Iff.of_eq (congrArg (· = 1) hcarry)
  · intro n digits raised back lowered
    have hlength : raised.1.length = n := length_upwards bytes _
    obtain ⟨hnumber, hleaving⟩ := split_of_number_add hlength
      (movesUp_rotateDigitLeft.number_upwards bytes (a, f))
    obtain ⟨hbytes, hlow⟩ := movesUp_rotateDigitLeft.undone movesDown_rotateDigitRight lowDigit_lt
      bytes (a, f)
    have hraised : untouched raised.2 = untouched (a, f) :=
      upwards_keeps untouched_rotateDigitLeft bytes (a, f)
    have hback : untouched back.2 = untouched raised.2 :=
      downwards_keeps untouched_rotateDigitRight raised.1 raised.2
    have hlowered : untouched lowered.2 = untouched (a, f) :=
      downwards_keeps untouched_rotateDigitRight bytes (a, f)
    obtain ⟨hraisedDigit, hraisedCarry⟩ := Prod.ext_iff.1 hraised
    obtain ⟨hloweredDigit, hloweredCarry⟩ := Prod.ext_iff.1 hlowered
    refine ⟨hlength, hnumber, hleaving, hbytes, ?_, hraisedDigit, hraisedCarry, hloweredDigit,
      hloweredCarry⟩
    have hhigh : back.2.1.toNat / 16 = a.toNat / 16 :=
      (Prod.ext_iff.1 (hback.trans hraised)).1
    have hlow : back.2.1.toNat % 16 = a.toNat % 16 := hlow
    rw [← UInt8.toNat_inj, ← Nat.div_add_mod back.2.1.toNat 16, hhigh, hlow, Nat.div_add_mod]

/-- The digits `1234` move up, with `5` entering and `1` leaving. -/
example :
    let raised := upwards (digitStep rotateDigitLeft) [0x34, 0x12] (0x75, { carry := true })
    raised.1 = [0x45, 0x23] ∧ raised.2.1 = 0x71 ∧ raised.2.2.carry = true := by decide

end Z80.Alu
