import Z80.Proofs.Decoding

/-!
# The opcodes of the manual

`Manual.Lists` is the list of opcodes as the manual gives it, page by page. The decoder has its own
account of what is documented, from the fields of the bytes and the operands they name;
`Opcode.isListed_ofBytes` says that the two agree.
-/

namespace Z80

/-! ## The list -/

namespace Manual

/-- The bytes after an index prefix, CB apart. -/
def indexPage : List Byte :=
  [0x09, 0x19, 0x29, 0x39, 0x21, 0x22, 0x2A, 0x23, 0x2B, 0x34, 0x35, 0x36,
    0x46, 0x4E, 0x56, 0x5E, 0x66, 0x6E, 0x7E, 0x70, 0x71, 0x72, 0x73, 0x74, 0x75, 0x77,
    0x86, 0x8E, 0x96, 0x9E, 0xA6, 0xAE, 0xB6, 0xBE, 0xE1, 0xE3, 0xE5, 0xE9, 0xF9]

/-- The bytes after ED. -/
def extendedPage : List Byte :=
  [0x40, 0x48, 0x50, 0x58, 0x60, 0x68, 0x78, 0x41, 0x49, 0x51, 0x59, 0x61, 0x69, 0x79,
    0x42, 0x4A, 0x52, 0x5A, 0x62, 0x6A, 0x72, 0x7A, 0x43, 0x4B, 0x53, 0x5B, 0x63, 0x6B, 0x73, 0x7B,
    0x44, 0x45, 0x4D, 0x46, 0x56, 0x5E, 0x47, 0x4F, 0x57, 0x5F, 0x67, 0x6F,
    0xA0, 0xA1, 0xA2, 0xA3, 0xA8, 0xA9, 0xAA, 0xAB, 0xB0, 0xB1, 0xB2, 0xB3, 0xB8, 0xB9, 0xBA, 0xBB]

/-- Whether the manual lists what four bytes start with; the third one is then a displacement or
belongs to an operand. -/
def Lists (b0 b1 b3 : Byte) : Prop :=
  (b0 ≠ 0xCB ∧ b0 ≠ 0xDD ∧ b0 ≠ 0xED ∧ b0 ≠ 0xFD) ∨
  (b0 = 0xCB ∧ ¬(0x30 ≤ b1 ∧ b1 ≤ 0x37)) ∨
  ((b0 = 0xDD ∨ b0 = 0xFD) ∧ (b1 ∈ indexPage ∨ b1 = 0xCB ∧ b3 &&& 7 = 6 ∧ b3 ≠ 0x36)) ∨
  (b0 = 0xED ∧ b1 ∈ extendedPage)

instance (b0 b1 b3 : Byte) : Decidable (Lists b0 b1 b3) :=
  inferInstanceAs (Decidable (_ ∨ _ ∨ _ ∨ _))

end Manual

namespace Opcode

/-! ## The list and the decoder -/

/-- The bit page is listed but for the eight opcodes of SLL. -/
theorem isDocumented_bits (byte : Byte) :
    (bits byte).isDocumented = true ↔ ¬(0x30 ≤ byte ∧ byte ≤ 0x37) := by
  revert byte
  exact forall_byte (by decide +kernel)

/-- The extended page is listed where its table has the byte. -/
theorem isDocumented_extended (byte : Byte) :
    (extended byte).isDocumented = true ↔ byte ∈ Manual.extendedPage := by
  rw [← List.contains_iff_mem, contains_eq_any]
  revert byte
  exact forall_byte (by decide +kernel)

/-- The bit page with a displacement is listed where it works on memory alone, SLL excepted. -/
theorem isDocumented_indexedBits (index : Index) (displacement byte : Byte) :
    (indexedBits index displacement byte).isDocumented = true ↔ byte &&& 7 = 6 ∧ byte ≠ 0x36 := by
  show (fieldZ byte == 6 && bitOperation byte != .shift .sll) = true ↔ _
  revert byte
  exact forall_byte (by decide +kernel)

/-- Without a prefix every byte of the main page is listed. -/
theorem isDocumented_main (byte : Byte) : (main .hl byte).isDocumented = true := by
  revert byte
  exact forall_byte (by decide +kernel)

/-- After an index prefix the main page is listed where the table of index opcodes has the byte. -/
theorem isDocumented_main_of_ne {index : Index} (hi : index ≠ .hl) (byte : Byte) :
    usesIndex byte = true ∧ byte ≠ bitsPrefix ∧ (main index byte).isDocumented = true
      ↔ byte ∈ Manual.indexPage := by
  have hall : ∀ byte, ∀ index ∈ [Index.ix, .iy],
      (usesIndex byte = true ∧ byte ≠ bitsPrefix ∧ (main index byte).isDocumented = true
        ↔ (Manual.indexPage.map UInt8.toNat).any (Nat.beq byte.toNat) = true) :=
    forall_byte (by decide +kernel)
  rw [← List.contains_iff_mem, contains_eq_any]
  exact hall byte index (Index.mem_of_ne hi)

/-- Whether bytes have an opcode, and the manual lists it. -/
def IsListed (opcode : Option Opcode) : Prop :=
  ∃ op, opcode = some op ∧ op.isDocumented = true

/-- A decoded opcode is listed if it is documented. -/
theorem isListed_some (op : Opcode) : IsListed (some op) ↔ op.isDocumented = true := by
  constructor
  · rintro ⟨_, h, hd⟩
    cases h
    exact hd
  · exact fun hd => ⟨op, rfl, hd⟩

/-- Bytes that are no opcode are not listed. -/
theorem isListed_none : ¬ IsListed none := by
  rintro ⟨_, h, -⟩
  cases h

/-- Three bytes after an index prefix: those of the table, and the bit page where it works on memory
alone. -/
theorem isListed_afterIndex {index : Index} (hi : index ≠ .hl) (b1 b2 b3 : Byte) :
    IsListed (afterIndex index b1 b2 b3)
      ↔ b1 ∈ Manual.indexPage ∨ b1 = 0xCB ∧ b3 &&& 7 = 6 ∧ b3 ≠ 0x36 := by
  have hpage := isDocumented_main_of_ne hi b1
  unfold afterIndex
  by_cases hb : b1 = bitsPrefix
  · have hout : b1 ∉ Manual.indexPage := fun h => (hpage.2 h).2.1 hb
    rw [if_pos hb, isListed_some, isDocumented_indexedBits]
    exact ⟨fun h => .inr ⟨hb, h⟩, fun h => (h.resolve_left hout).2⟩
  · have hcb : ¬(b1 = 0xCB ∧ b3 &&& 7 = 6 ∧ b3 ≠ 0x36) := fun h => hb h.1
    rw [if_neg hb, or_iff_left hcb]
    by_cases hu : usesIndex b1 = true
    · rw [if_pos hu, isListed_some]
      exact ⟨fun h => hpage.1 ⟨hu, hb, h⟩, fun h => (hpage.2 h).2.2⟩
    · rw [if_neg hu]
      exact ⟨fun h => absurd h isListed_none, fun h => absurd (hpage.2 h).1 hu⟩

/-- **The manual lists the opcodes that the decoder takes for documented.** -/
theorem isListed_ofBytes (b0 b1 b2 b3 : Byte) :
    IsListed (ofBytes b0 b1 b2 b3) ↔ Manual.Lists b0 b1 b3 := by
  unfold ofBytes Manual.Lists
  cases hindex : prefixIndex b0 with
  | some index =>
    obtain ⟨hi, hb0⟩ := of_prefixIndex hindex
    rw [isListed_afterIndex hi]
    rcases hb0 with rfl | rfl <;> simp
  | none =>
    obtain ⟨hix, hiy⟩ := of_prefixIndex_eq_none hindex
    by_cases he : b0 = extendedPrefix
    · simp only [if_pos he, isListed_some, isDocumented_extended]
      rw [extendedPrefix] at he
      simp [he]
    · by_cases hb : b0 = bitsPrefix
      · simp only [if_neg he, if_pos hb, isListed_some, isDocumented_bits]
        rw [bitsPrefix] at hb
        simp [hb]
      · simp only [if_neg he, if_neg hb, isListed_some, isDocumented_main]
        exact ⟨fun _ => .inl ⟨hb, hix, he, hiy⟩, fun _ => trivial⟩

end Opcode

end Z80
