import Z80.Proofs.Translation.Execute

/-!
# Translated opcodes

A byte of the main page names its operands by fields, and means one of the three pairs by the index
that it comes with. So it selects with the translated index what it selects with the index,
translated. The exception are the loads between registers and memory, which mean HL itself by its
halves: for these, and for the extensions, HL must keep its name.
-/

namespace Z80.Translation

open Opcode

variable (T : Translation)

/-! ## Operands -/

/-- A field names the same pair with the translated index. -/
theorem pair_field (index : Index) (field : Nat) :
    T.pair (Opcode.pair index field) = Opcode.pair (T.index index) field := by
  unfold Opcode.pair
  split
  · rfl
  · rfl
  · exact T.pair_index index
  · rfl

/-- A field of PUSH and POP names the same pair with the translated index. -/
theorem pair_stackField (index : Index) (field : Nat) :
    T.pair (stackPair index field) = stackPair (T.index index) field := by
  unfold stackPair
  split
  · rfl
  · exact T.pair_field index field

/-- H and L are the only registers that a field names and that may have another name there. -/
theorem register_field {field : Nat} {name : Register} (h : Register.ofField field = some name) :
    name = .h ∨ name = .l ∨ T.register name = name := by
  unfold Register.ofField at h
  split at h <;> cases h <;> simp [register]

/-- A field names the same place with the translated index; H and L go with it, the other registers
stay. -/
theorem place_field (index : Index) (field : Nat) :
    T.place (Opcode.place index field) = Opcode.place (T.index index) field := by
  unfold Opcode.place
  cases hfield : Register.ofField field with
  | none => rfl
  | some name =>
    rcases T.register_field hfield with rfl | rfl | hname
    · cases index <;> rfl
    · cases index <;> rfl
    · cases name with
      | h | l => cases index <;> rfl
      | _ => exact congrArg Place.register hname

/-! ## Bytes -/

/-- The first quarter of the main page selects the translation with the translated index. -/
theorem instruction_firstQuarter (index : Index) (y z : Nat) :
    T.instruction (firstQuarter index y z) = firstQuarter (T.index index) y z := by
  unfold firstQuarter
  simp only [← pair_field, ← place_field]
  repeat' split
  all_goals rfl

/-- The last quarter of the main page selects the translation with the translated index. -/
theorem instruction_lastQuarter (index : Index) (y z : Nat) :
    T.instruction (lastQuarter index y z) = lastQuarter (T.index index) y z := by
  unfold lastQuarter
  simp only [← pair_stackField]
  repeat' split
  all_goals rfl

variable {T}

/-- The loads of the second quarter do so between registers; with memory they name HL itself by its
halves. -/
theorem instruction_secondQuarter {y z : Nat} (h : T.index .hl = .hl ∨ y ≠ 6 ∧ z ≠ 6)
    (index : Index) :
    T.instruction (secondQuarter index y z) = secondQuarter (T.index index) y z := by
  have hplace (hmemory : ¬(y ≠ 6 ∧ z ≠ 6)) (field : Nat) :
      T.place (Opcode.place .hl field) = Opcode.place .hl field := by
    rw [place_field, h.resolve_right hmemory]
  unfold secondQuarter
  split
  · rfl
  · simp only [instruction, hplace fun hn => hn.1 rfl]
    rfl
  · simp only [instruction, hplace fun hn => hn.2 rfl]
    rfl
  · simp only [instruction, place_field]

/-- **A byte of the main page selects what it selects, with the names that its operands have
there**, unless it loads a register from memory or the other way, and HL has another name. -/
theorem instruction_main {byte : Byte}
    (h : T.index .hl = .hl ∨ (fieldX byte = 1 → fieldY byte ≠ 6 ∧ fieldZ byte ≠ 6))
    (index : Index) :
    T.instruction (mainInstruction index byte) = mainInstruction (T.index index) byte := by
  unfold mainInstruction
  split
  · exact T.instruction_firstQuarter index _ _
  · next hx => exact instruction_secondQuarter (h.imp_right fun hfields => hfields hx) index
  · simp only [instruction, place_field]
  · exact T.instruction_lastQuarter index _ _

/-- Where HL keeps its name, so do all registers that a field names. -/
theorem map_register_field (hl : T.index .hl = .hl) (field : Nat) :
    (Register.ofField field).map T.register = Register.ofField field := by
  cases hfield : Register.ofField field with
  | none => rfl
  | some name =>
    refine congrArg some ?_
    rcases T.register_field hfield with rfl | rfl | hname
    · exact congrArg Index.high hl
    · exact congrArg Index.low hl
    · exact hname

/-- The extensions name HL itself. -/
theorem instruction_extended (hl : T.index .hl = .hl) (byte : Byte) :
    T.instruction (extendedInstruction byte) = extendedInstruction byte := by
  have hpair (field : Nat) : T.pair (Opcode.pair .hl field) = Opcode.pair .hl field := by
    rw [pair_field, hl]
  simp only [extendedInstruction]
  split
  · exact congrArg Instruction.inputTo (map_register_field hl _)
  · exact congrArg Instruction.outputFrom (map_register_field hl _)
  · split <;> simp only [instruction, hpair]
  · split <;> simp only [instruction, hpair]
  · rfl
  · rfl
  · rfl
  · split <;> rfl
  · split
    · rfl
    · split <;> rfl
  · rfl

end Z80.Translation
