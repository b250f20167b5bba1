import Z80.Proofs.Decoding
import Z80.Proofs.Translation.Execute

/-!
# Translations of the variant

A translation that changes nothing but the variant leaves every instruction its name, so that whole
opcodes can be compared, from the first byte on.
-/

namespace Z80

namespace Translation

/-! ## Translations that rename nothing -/

section names

variable {T : Translation}

/-- Where the three pairs keep their names, every pair does. -/
theorem pair_of_index (h : ∀ index, T.index index = index) (name : Pair) : T.pair name = name := by
  cases name <;> simp only [pair, h] <;> rfl

/-- Where the three pairs keep their names, every register does. -/
theorem register_of_index (h : ∀ index, T.index index = index) : T.register = id := by
  funext name
  cases name <;> simp only [register, h] <;> rfl

/-- Where the three pairs keep their names, every place of an operand does. -/
theorem place_of_index (h : ∀ index, T.index index = index) (place : Place) :
    T.place place = place := by
  cases place with
  | register name => rw [place, register_of_index h, id]
  | indirect index => exact congrArg Place.indirect (h index)

/-- Where the three pairs keep their names, an instruction is its own translation. -/
theorem instruction_of_index (h : ∀ index, T.index index = index) (i : Instruction) :
    T.instruction i = i := by
  cases i <;>
    simp only [instruction, pair_of_index h, place_of_index h, register_of_index h, h,
      Option.map_id, id]

end names

/-! ## The variant -/

/-- The processor as another variant; the pairs keep their names and values. -/
def ofVariant (f : Variant → Variant) : Translation where
  variant := f

variable {f : Variant → Variant}

/-- Only the variant differs: the register file is put together again as it was. -/
theorem ofVariant_cpu (f : Variant → Variant) (c : Cpu) :
    (ofVariant f).cpu c = { c with variant := f c.variant } := by
  show ({ c with regs := c.regs.withIndexes c.regs.indexes, variant := _ } : Cpu) = _
  rw [Registers.withIndexes_indexes]
  rfl

/-- A change of the variant carries all pairs, since it leaves their names and values. -/
theorem ofVariant_faithful : (ofVariant f).Faithful :=
  fun _ => ⟨fun _ => rfl, fun _ _ => rfl⟩

theorem ofVariant_instruction (i : Instruction) : (ofVariant f).instruction i = i :=
  instruction_of_index (fun _ => rfl) i

end Translation

namespace Action

open Translation (ofVariant)

variable {lax : Prop}

/-- What a byte that has been fetched leads to is the same there, if another byte after a prefix
does. The variant is asked only at a byte for which a prefix is dropped. -/
theorem tracks_select_succ {T : Translation} (hv : Admits T lax) {budget : Nat} {byte : Byte}
    (hnext : Opcode.prefixIndex byte ≠ none → ∀ ignored index, Tracks T lax id
      (fetch >>= Opcode.select budget ignored index) (fetch >>= Opcode.select budget ignored index))
    (ignored : Nat) (index : Index) :
    Tracks T lax id (Opcode.select (budget + 1) ignored index byte)
      (Opcode.select (budget + 1) ignored index byte) := by
  have hlast (k : Byte → Nat × Opcode) : Tracks T lax id
      (fetch >>= fun byte => pure (k byte)) (fetch >>= fun byte => pure (k byte)) :=
    .bind tracks_fetch fun byte => .pure id (k byte)
  unfold Opcode.select
  refine .ite (.bind (tracks_requireUndocumented hv) fun _ => ?_) ?_
  -- Dropped or not, the prefix leaves the same rest to compare, with its own count and index.
  all_goals
    refine .ite_of (fun hix => hnext (by rw [hix]; decide) _ _) fun _ => ?_
    refine .ite_of (fun hiy => hnext (by rw [hiy]; decide) _ _) fun _ => ?_
    refine .ite (hlast _) (.ite ?_ (.pure id _))
    split
    · exact hlast _
    · exact .bind tracks_fetch fun d => hlast _

/-- Opcodes are selected alike; where the instruction started is asked only to say that it has no
end. -/
theorem tracks_select {T : Translation} (hv : Admits T lax) (hs : ∀ w, T.start w = w)
    (budget ignored : Nat) (index : Index) (byte : Byte) :
    Tracks T lax id (Opcode.select budget ignored index byte)
      (Opcode.select budget ignored index byte) := by
  induction budget generalizing ignored index byte with
  | zero =>
    refine .bind tracks_get fun c cpu => ?_
    show Dialogue.Parallel _ _ _ (.fail (.endlessPrefixes c.start) cpu)
      (.fail (.endlessPrefixes (T.start c.start)) (T.cpu cpu))
    rw [hs]
    exact .fail rfl
  | succ budget ih =>
    refine tracks_select_succ hv (fun _ ignored index => ?_) ignored index
    exact .bind tracks_fetch fun byte => ih ignored index byte

/-- An opcode is admitted or refused alike, as far as the comparison asks. -/
theorem tracks_admitOpcode {T : Translation} (hv : Admits T lax) (opcode : Opcode) :
    Tracks T lax id (admitOpcode opcode) (admitOpcode opcode) :=
  .ite (.pure id ()) (tracks_requireUndocumented hv)

/-- A selected opcode is admitted, executed and timed alike if no pair is renamed. -/
theorem tracks_perform {T : Translation} (hT : T.Faithful) (hi : ∀ index, T.index index = index)
    (hf : KeepsFlagModel T) (hv : Admits T lax) (ht : ∀ v, (T.variant v).timing = v.timing)
    (opcode : Opcode) : Tracks T lax id (perform opcode) (perform opcode) := by
  have hcomplete : Tracks T lax id (complete opcode.instruction)
      (complete (T.instruction opcode.instruction)) :=
    tracks_complete hT hf hv ht (fun _ => hi .hl) fun _ _ => by
      rw [Translation.instruction_of_index hi, id]
  rw [Translation.instruction_of_index hi] at hcomplete
  rw [perform_eq]
  exact .bind (tracks_admitOpcode hv opcode) fun _ => hcomplete

/-- A processor of another variant, but with the same flag model and the same timing, runs the
instruction at the program counter alike, as far as it admits it. -/
theorem tracks_instruction {f : Variant → Variant} (hf : KeepsFlagModel (ofVariant f))
    (hv : Admits (ofVariant f) lax) (ht : ∀ v, (f v).timing = v.timing) :
    Tracks (ofVariant f) lax id instruction instruction := by
  refine .bind (.bind tracks_fetch fun byte => tracks_select hv (fun _ => rfl) _ _ _ byte)
    fun selected => ?_
  refine .bind (tracks_perform Translation.ofVariant_faithful (fun _ => rfl) hf hv ht selected.2)
    fun cycles => ?_
  exact .pure id _

end Action

end Z80
