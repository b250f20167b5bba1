import Z80.Proofs.Decoding
import Z80.Proofs.IndexPrefix
import Z80.Proofs.Translation.Variant

/-!
# IX and IY are interchangeable

The two index registers play one role under two names. Exchanging their names and their values is a
translation that keeps the name of HL, so every instruction behaves under it as the instruction with
the other name. What is left to compare is the way from the bytes to the instruction: which opcode
is selected after a prefix, whether the manual lists it, and its clock cycles.

`Action.instructionFrom_exchangeIndexes` puts this together, for every byte that is no index prefix
itself: such a byte would choose the index anew.
-/

namespace Z80

/-- The processor with the values of IX and IY exchanged. -/
def Cpu.exchangeIndexes (cpu : Cpu) : Cpu :=
  { cpu with regs.ix := cpu.regs.iy, regs.iy := cpu.regs.ix }

/-- The exchange keeps the two addresses that delimit an opcode. -/
theorem Cpu.exchangeIndexes_keeps (c : Cpu) :
    c.exchangeIndexes.regs.pc = c.regs.pc ∧ c.exchangeIndexes.start = c.start :=
  ⟨rfl, rfl⟩

namespace Translation

/-- IX and IY exchange their names and their values. -/
abbrev swapped : Translation :=
  exchange .ix .iy

theorem swapped_cpu : swapped.cpu = Cpu.exchangeIndexes := by
  funext c
  simp [cpu, regs, exchange, Cpu.exchangeIndexes, Registers.withIndexes, Registers.indexes,
    Registers.hl, Indexes.set, Indexes.get]

/-- HL keeps its name, and no other pair takes it. -/
theorem swapped_index_eq_hl {index : Index} : swapped.index index = .hl ↔ index = .hl := by
  cases index <;> decide

/-- An opcode with its index named as it is there. -/
def opcode (T : Translation) : Opcode → Opcode
  | .main index byte => .main (T.index index) byte
  | .bits byte => .bits byte
  | .indexedBits index displacement byte => .indexedBits (T.index index) displacement byte
  | .extended byte => .extended byte

/-! ## What an opcode selects -/

/-- The opcode with the other prefix selects the instruction with IX and IY exchanged. -/
theorem swapped_opcode_instruction (opcode : Opcode) :
    (swapped.opcode opcode).instruction = swapped.instruction opcode.instruction := by
  cases opcode with
  | main index byte => exact (instruction_main (.inl rfl) index).symm
  | bits byte => exact congrArg (Instruction.bits _) (swapped.place_field .hl _).symm
  | indexedBits index displacement byte =>
    exact congrArg (Instruction.indexedBits _ _ _) (map_register_field rfl _).symm
  | extended byte => exact (instruction_extended rfl byte).symm

/-- A half of an index register stays one under the other name. -/
theorem swapped_isIndexHalf (place : Place) :
    (swapped.place place).isIndexHalf = place.isIndexHalf := by
  cases place with
  | register name => cases name <;> rfl
  | indirect _ => rfl

theorem swapped_usesIndexHalf (i : Instruction) :
    (swapped.instruction i).usesIndexHalf = i.usesIndexHalf := by
  cases i <;> simp only [instruction, Instruction.usesIndexHalf, swapped_isIndexHalf]

/-- The manual lists an opcode under both names or under neither. -/
theorem swapped_isDocumented (opcode : Opcode) :
    (swapped.opcode opcode).isDocumented = opcode.isDocumented := by
  cases opcode with
  | main index byte =>
    show (!(Opcode.mainInstruction (swapped.index index) byte).usesIndexHalf) = _
    rw [← instruction_main (.inl rfl), swapped_usesIndexHalf, Opcode.isDocumented]
  | bits _ | indexedBits _ _ _ | extended _ => rfl

theorem swapped_isToldApartLate (opcode : Opcode) :
    (swapped.opcode opcode).isToldApartLate = opcode.isToldApartLate := by
  cases opcode <;> rfl

/-! ## Clock cycles -/

theorem swapped_formCycles (place : Place) (inRegister inMemory : Nat) :
    Instruction.formCycles (swapped.place place) inRegister inMemory
      = Instruction.formCycles place inRegister inMemory := by
  cases place with
  | register name => cases name <;> rfl
  | indirect index => cases index <;> rfl

theorem swapped_loadForm (target source : Place) :
    Instruction.loadForm (swapped.place target) (swapped.place source)
      = swapped.place (Instruction.loadForm target source) := by
  cases target with
  | indirect _ => rfl
  | register name =>
    cases source with
    | indirect _ => rfl
    | register _ => cases name <;> rfl

/-- The table of clock cycles tells the two names nowhere apart. -/
theorem swapped_cycles (i : Instruction) (timing : Timing) (taken : Bool) :
    (swapped.instruction i).cycles timing taken = i.cycles timing taken := by
  cases i with
  | load target source =>
    show Instruction.formCycles (Instruction.loadForm _ _) _ _ = _
    rw [swapped_loadForm, swapped_formCycles, Instruction.cycles]
  | loadImmediate target =>
    cases target with
    | register name => cases name <;> rfl
    | indirect index => cases index <;> rfl
  | operate _ operand | increment operand | decrement operand =>
    exact swapped_formCycles operand _ _
  | bits op operand => cases op <;> exact swapped_formCycles operand _ _
  | loadPairImmediate name | push name | pop name | incrementPair name | decrementPair name =>
    cases name <;> rfl
  | loadIndex index | storeIndex index | loadStackPointer index | exchangeStackTop index
  | addPair index _ | jumpIndex index => cases index <;> rfl
  | indexedBits op _ _ _ => cases op <;> rfl
  | _ => rfl

end Translation

/-! ## From the bytes to the instruction -/

namespace Action

open Translation (swapped)

variable {lax : Prop}

/-- The exchange leaves the variant alone, so opcodes that the manual does not list are refused
alike. -/
theorem admits_swapped : Admits swapped lax :=
  .inl fun _ => rfl

section Select

variable {budget ignored : Nat} {index : Index} {byte : Byte}

/-- A byte for which the index matters, or that has no prefix before it, is looked up under the
other name and finds the opcode under the other name. -/
theorem tracks_select_of_kept (hp : Opcode.prefixIndex byte = none)
    (h : index = .hl ∨ Opcode.usesIndex byte = true) :
    Tracks swapped lax (Prod.map id swapped.opcode)
      (Opcode.select (budget + 1) ignored index byte)
      (Opcode.select (budget + 1) ignored (swapped.index index) byte) := by
  by_cases he : byte = Opcode.extendedPrefix
  · subst he
    have hi : index = .hl := h.resolve_right (by decide)
    subst hi
    rw [Translation.swapped_index_eq_hl.2 rfl, Opcode.select_extendedPrefix]
    exact .bind tracks_fetch fun b => .pure _ (ignored, Opcode.extended b)
  by_cases hb : byte = Opcode.bitsPrefix
  · subst hb
    by_cases hi : index = .hl
    · subst hi
      rw [Translation.swapped_index_eq_hl.2 rfl, Opcode.select_bitsPrefix]
      exact .bind tracks_fetch fun b => .pure _ (ignored, Opcode.bits b)
    · have hi' : swapped.index index ≠ .hl := fun e => hi (Translation.swapped_index_eq_hl.1 e)
      rw [Opcode.select_bitsPrefix_of_ne hi, Opcode.select_bitsPrefix_of_ne hi']
      refine .bind tracks_fetch fun d => ?_
      exact .bind tracks_fetch fun b => .pure _ (ignored, Opcode.indexedBits index d b)
  · have hmain := Opcode.leadsOn_of_prefixIndex hp he hb
    have h' := h.imp_left Translation.swapped_index_eq_hl.2
    rw [Opcode.select_main h hmain, Opcode.select_main h' hmain]
    exact .pure _ (ignored, Opcode.main index byte)

/-- A byte that is no index prefix selects after one prefix what it selects after the other. -/
theorem tracks_select_swapped (hp : Opcode.prefixIndex byte = none) :
    Tracks swapped lax (Prod.map id swapped.opcode)
      (Opcode.select (budget + 1) ignored index byte)
      (Opcode.select (budget + 1) ignored (swapped.index index) byte) := by
  by_cases hi : index = .hl
  · exact tracks_select_of_kept hp (.inl hi)
  cases hu : Opcode.usesIndex byte with
  | true => exact tracks_select_of_kept hp (.inr hu)
  | false =>
    -- Both prefixes are dropped, and the byte is tried again without one.
    have hi' : swapped.index index ≠ .hl := fun e => hi (Translation.swapped_index_eq_hl.1 e)
    rw [Opcode.select_ignored hi hu, Opcode.select_ignored hi' hu]
    refine .bind (tracks_requireUndocumented admits_swapped) fun _ => ?_
    exact tracks_select_of_kept hp (.inl (rfl : Index.hl = .hl))

end Select

theorem admitOpcode_swapped (opcode : Opcode) :
    admitOpcode (swapped.opcode opcode) = admitOpcode opcode := by
  unfold admitOpcode
  rw [Translation.swapped_isDocumented, Translation.swapped_isToldApartLate]

/-- An opcode is performed alike with IX and IY exchanged. -/
theorem tracks_perform_swapped (opcode : Opcode) :
    Tracks swapped lax id (perform opcode) (perform (swapped.opcode opcode)) := by
  rw [perform_eq, perform_eq, admitOpcode_swapped, Translation.swapped_opcode_instruction]
  refine .bind (tracks_admitOpcode admits_swapped opcode) fun _ => ?_
  exact tracks_complete (Translation.exchange_faithful .ix .iy) (fun _ => rfl) admits_swapped
    (fun _ => rfl) (fun _ => rfl) (Translation.swapped_cycles opcode.instruction)

theorem tracks_instructionFrom_swapped {index : Index} {byte : Byte}
    (hp : Opcode.prefixIndex byte = none) :
    Tracks swapped lax id (instructionFrom index byte)
      (instructionFrom (swapped.index index) byte) := by
  rw [instructionFrom_eq, instructionFrom_eq]
  refine .bind (tracks_select_swapped hp) fun selected => ?_
  refine .bind (tracks_perform_swapped selected.2) fun cycles => ?_
  exact .pure id _

/-- **IX and IY are interchangeable.** After the prefix of IY, from the state with the two registers
exchanged, a byte that is no index prefix does what it does after the prefix of IX: it makes the
same accesses, and over every bus it ends in the same result, the same bus, and the same state with
the two registers exchanged. -/
theorem instructionFrom_exchangeIndexes {byte : Byte} (hix : byte ≠ 0xDD) (hiy : byte ≠ 0xFD)
    (cpu : Cpu) :
    instructionFrom .iy byte cpu.exchangeIndexes
      = (instructionFrom .ix byte cpu).map id Cpu.exchangeIndexes ∧
    ∀ {β : Type} [Bus β] (bus : β),
      (instructionFrom .iy byte cpu.exchangeIndexes).run bus
        = ((instructionFrom .ix byte cpu).run bus).map id Cpu.exchangeIndexes := by
  have hp : Opcode.prefixIndex byte = none := (if_neg hix).trans (if_neg hiy)
  have htracks : Tracks swapped False id (instructionFrom .ix byte) (instructionFrom .iy byte) :=
    tracks_instructionFrom_swapped hp
  have hparallel := htracks cpu
  rw [Translation.swapped_cpu] at hparallel
  refine ⟨hparallel.eq_map, fun bus => ?_⟩
  exact hparallel.run_eq Cpu.exchangeIndexes_keeps bus False.elim

/-- RLC (IX-1) with a copy to H, and RLC (IY-1) with a copy to H from the exchanged state: 41 in
memory becomes 82 either way, in 23 cycles. -/
theorem instructionFrom_exchangeIndexes_rotate :
    let cpu : Cpu := { regs := { ix := 4, iy := 9 }, variant := { conformance := .undocumented } }
    let bus : Memory LatchedPorts := { bytes := #[0xFF, 0x04, 0, 0x41], device := {} }
    (0xCB : Byte) ≠ 0xDD ∧ (0xCB : Byte) ≠ 0xFD ∧
    (instructionFrom .iy 0xCB cpu.exchangeIndexes).run bus
      = ((instructionFrom .ix 0xCB cpu).run bus).map id Cpu.exchangeIndexes ∧
    ((instructionFrom .ix 0xCB cpu).run bus).result.toOption = some 23 ∧
    ((instructionFrom .ix 0xCB cpu).run bus).cpu.regs.bank.h = 0x82 ∧
    ((instructionFrom .ix 0xCB cpu).run bus).bus.bytes = #[0xFF, 0x04, 0, 0x82] := by
  intro cpu bus
  have hix : (0xCB : Byte) ≠ 0xDD := by decide
  have hiy : (0xCB : Byte) ≠ 0xFD := by decide
  have hrun := (instructionFrom_exchangeIndexes hix hiy cpu).2 bus
  exact ⟨hix, hiy, hrun, by decide +kernel, by decide +kernel, by decide +kernel⟩

end Action

end Z80
