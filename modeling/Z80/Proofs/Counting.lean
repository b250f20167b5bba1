import Z80.Execute.Block
import Z80.Proofs.Returning

/-!
# Addresses and counts of a block

Addresses and counts wrap around. A block is the addresses `blockAddress` from its first one on, in
one direction or the other, and a count of zero stands for as many as there are (`wordCount`,
`byteCount`).
-/

namespace Z80

variable {δ : Type}

/-! ## Addresses -/

/-- The address `count` bytes into a block. -/
def blockAddress (backwards : Bool) (start : Word) (count : Nat) : Word :=
  if backwards then start - UInt16.ofNat count else start + UInt16.ofNat count

/-- A block starts at its first address. -/
theorem blockAddress_zero (backwards : Bool) (start : Word) :
    blockAddress backwards start 0 = start := by
  cases backwards
  · exact UInt16.add_zero start
  · exact UInt16.sub_zero start

/-- A pointer that moves on goes from one address of the block to the next. -/
theorem advance_blockAddress (backwards : Bool) (start : Word) (count : Nat) :
    Action.advance backwards (blockAddress backwards start count)
      = blockAddress backwards start (count + 1) := by
  simp only [Action.advance, blockAddress, UInt16.ofNat_add]
  cases backwards <;> grind

/-- Before the first step a pointer is where the block starts. -/
theorem writePair_blockAddress_zero (regs : Registers) (backwards : Bool) (name : Pair) :
    regs.writePair name (blockAddress backwards (regs.readPair name) 0) = regs := by
  rw [blockAddress_zero, Registers.writePair_readPair_self]

/-- The addresses of a block are all different. -/
theorem blockAddress_inj (backwards : Bool) (start : Word) {count : Nat}
    (hcount : count ≤ addressSpace) :
    ∀ i < count, ∀ j < count,
      blockAddress backwards start i = blockAddress backwards start j → i = j := by
  intro i hi j hj h
  have hij : UInt16.ofNat i = UInt16.ofNat j := by
    cases backwards
    · exact (UInt16.add_right_inj start).1 h
    · exact (UInt16.sub_right_inj start).1 h
  rw [← UInt16.toNat_inj, UInt16.toNat_ofNat', UInt16.toNat_ofNat'] at hij
  simp only [addressSpace] at hcount
  omega

/-! ## Counts -/

/-- The number that a word counts down: zero stands for 65536. -/
def wordCount (w : Word) : Nat :=
  if w = 0 then addressSpace else w.toNat

/-- The number that a byte counts down: zero stands for 256. -/
def byteCount (b : Byte) : Nat :=
  if b = 0 then 256 else b.toNat

/-- At least one byte is counted. -/
theorem wordCount_pos (w : Word) : 0 < wordCount w := by
  unfold wordCount
  split
  · decide
  · next h => exact Nat.pos_of_ne_zero fun hzero => h (UInt16.toNat_inj.1 hzero)

/-- No more are counted than there are addresses, so no address of a block comes twice. -/
theorem wordCount_le (w : Word) : wordCount w ≤ addressSpace := by
  unfold wordCount
  split
  · exact Nat.le_refl _
  · exact Nat.le_of_lt w.toNat_lt

/-- What a word counts is the word itself, modulo 65536. -/
theorem ofNat_wordCount (w : Word) : UInt16.ofNat (wordCount w) = w := by
  unfold wordCount
  split
  · next h =>
    rw [h]
    rfl
  · exact UInt16.ofNat_toNat

theorem byteCount_pos (b : Byte) : 0 < byteCount b := by
  unfold byteCount
  split
  · decide
  · next h => exact Nat.pos_of_ne_zero fun hzero => h (UInt8.toNat_inj.1 hzero)

theorem byteCount_le (b : Byte) : byteCount b ≤ 256 := by
  unfold byteCount
  split
  · exact Nat.le_refl _
  · exact Nat.le_of_lt b.toNat_lt

/-- What a byte counts is the byte itself, modulo 256. -/
theorem ofNat_byteCount (b : Byte) : UInt8.ofNat (byteCount b) = b := by
  unfold byteCount
  split
  · next h =>
    rw [h]
    rfl
  · exact UInt8.ofNat_toNat

/-- A word counts down to zero in as many steps as it stands for, and not before. -/
theorem countsDown_word {w : Word} {i : Nat} (h : i < wordCount w) :
    (w - UInt16.ofNat i - 1 != 0) = decide (i + 1 < wordCount w) := by
  have hle := wordCount_le w
  have hw := ofNat_wordCount w
  rw [Bool.eq_iff_iff, bne_iff_ne, decide_eq_true_iff, ne_eq, ← UInt16.toNat_inj]
  generalize wordCount w = n at *
  subst hw
  simp only [addressSpace, UInt16.toNat_sub, UInt16.toNat_ofNat', UInt16.reduceToNat] at *
  omega

/-- A byte counts down to zero in as many steps as it stands for, and not before. -/
theorem countsDown_byte {b : Byte} {i : Nat} (h : i < byteCount b) :
    (b - UInt8.ofNat i - 1 != 0) = decide (i + 1 < byteCount b) := by
  have hle := byteCount_le b
  have hb := ofNat_byteCount b
  rw [Bool.eq_iff_iff, bne_iff_ne, decide_eq_true_iff, ne_eq, ← UInt8.toNat_inj]
  generalize byteCount b = n at *
  subst hb
  simp only [UInt8.toNat_sub, UInt8.toNat_ofNat', UInt8.reduceToNat] at *
  omega

theorem word_sub_succ (w : Word) (i : Nat) :
    w - UInt16.ofNat i - 1 = w - UInt16.ofNat (i + 1) := by
  rw [UInt16.ofNat_add]
  grind

theorem writePair_sub_zero (regs : Registers) (name : Pair) :
    regs.writePair name (regs.readPair name - UInt16.ofNat 0) = regs := by
  rw [show regs.readPair name - UInt16.ofNat 0 = regs.readPair name from UInt16.sub_zero _,
    Registers.writePair_readPair_self]

theorem byte_sub_succ (b : Byte) (i : Nat) : b - UInt8.ofNat i - 1 = b - UInt8.ofNat (i + 1) := by
  rw [UInt8.ofNat_add]
  grind

/-! ## Bytes stored one after another -/

/-- From each of the first `count` memories to the next, the byte `value i` is stored at `target i`,
and nothing else changes. -/
def Memory.StoresEach (memory : Nat → Memory δ) (target : Nat → Word) (value : Nat → Byte)
    (count : Nat) : Prop :=
  ∀ i < count, ∀ address,
    (memory (i + 1)).byte address
      = if address = target i then value i else (memory i).byte address

namespace Memory.StoresEach

variable {memory : Nat → Memory δ} {target : Nat → Word} {value : Nat → Byte} {count : Nat}

/-- What is stored one by one is so for fewer bytes. -/
theorem mono (h : StoresEach memory target value count) {fewer : Nat} (hle : fewer ≤ count) :
    StoresEach memory target value fewer :=
  fun i hi => h i (Nat.lt_of_lt_of_le hi hle)

/-- An address that is no target keeps its byte. -/
theorem elsewhere (h : StoresEach memory target value count) {address : Word}
    (ha : ∀ i < count, address ≠ target i) :
    (memory count).byte address = (memory 0).byte address := by
  induction count with
  | zero => rfl
  | succ count ih =>
    have hlast := h count (Nat.lt_succ_self count) address
    rw [if_neg (ha count (Nat.lt_succ_self count))] at hlast
    rw [hlast]
    exact ih (h.mono (Nat.le_succ count)) fun i hi => ha i (Nat.lt_succ_of_lt hi)

/-- If the targets are all different, each has the byte that was stored there. -/
theorem stored (h : StoresEach memory target value count)
    (hinj : ∀ i < count, ∀ j < count, target i = target j → i = j) {i : Nat} (hi : i < count) :
    (memory count).byte (target i) = value i := by
  induction count with
  | zero => exact absurd hi (Nat.not_lt_zero i)
  | succ count ih =>
    rw [h count (Nat.lt_succ_self count)]
    by_cases hlast : i = count
    · rw [hlast, if_pos rfl]
    · have hne : target i ≠ target count := fun he =>
        hlast (hinj i hi count (Nat.lt_succ_self count) he)
      rw [if_neg hne]
      refine ih (h.mono (Nat.le_succ count)) (fun j hj k hk => ?_) (by omega)
      exact hinj j (Nat.lt_succ_of_lt hj) k (Nat.lt_succ_of_lt hk)

end Memory.StoresEach

end Z80
