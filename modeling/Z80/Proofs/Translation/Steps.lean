import Z80.Proofs.Translation

/-!
# Translated steps

`Tracks T lax g a a'`: from a translated state, `a'` does what `a` does, with the value translated
by `g`. The lemmas go through the steps that instructions are made of: accesses, registers, words in
memory, the stack, and operands.

HL also has uses that no operand names. Steps with such a use ask that the translation keeps the
name of HL.
-/

namespace Z80.Action

variable {α γ δ ε : Type} {T : Translation} {lax : Prop}

/-- From a translated state, `a'` does what `a` does, and its value is `g` of the other. -/
def Tracks (T : Translation) (lax : Prop) (g : α → γ) (a : Action α) (a' : Action γ) : Prop :=
  ∀ cpu, (a cpu).Parallel lax (fun c c' => c' = T.cpu c)
    (fun v c w c' => w = g v ∧ c' = T.cpu c) (a' (T.cpu cpu))

namespace Tracks

/-- A value that needs no step is translated, and the processor is as it was. -/
theorem pure (g : α → γ) (v : α) : Tracks T lax g (pure v) (pure (g v)) :=
  fun _ => .done ⟨rfl, rfl⟩

/-- Steps that are alike, one after the other: the second start from values that the first have
related. -/
theorem bind {g : α → γ} {g' : δ → ε} {a : Action α} {a' : Action γ} {k : α → Action δ}
    {k' : γ → Action ε} (h : Tracks T lax g a a')
    (hk : ∀ v, Tracks T lax g' (k v) (k' (g v))) :
    Tracks T lax g' (a >>= k) (a' >>= k') := by
  intro cpu
  refine (h cpu).bind fun v c w c' hw => ?_
  obtain ⟨rfl, rfl⟩ := hw
  exact hk v c

/-- A choice that both sides make alike; a branch is compared where it is taken. -/
theorem ite_of {g : α → γ} {p : Prop} [Decidable p] {a b : Action α} {a' b' : Action γ}
    (ha : p → Tracks T lax g a a') (hb : ¬ p → Tracks T lax g b b') :
    Tracks T lax g (if p then a else b) (if p then a' else b') := by
  split
  · next h => exact ha h
  · next h => exact hb h

/-- A choice between two steps that are alike whether they are taken or not. -/
theorem ite {g : α → γ} {p : Prop} [Decidable p] {a b : Action α} {a' b' : Action γ}
    (ha : Tracks T lax g a a') (hb : Tracks T lax g b b') :
    Tracks T lax g (if p then a else b) (if p then a' else b') :=
  .ite_of (fun _ => ha) fun _ => hb

end Tracks

/-! ## Accesses and registers -/

/-- A byte is read at the same address with the same answer, whatever the names are. -/
theorem tracks_readByte (address : Word) :
    Tracks T lax id (readByte address) (readByte address) :=
  fun _ => .read rfl fun _ => .done ⟨rfl, rfl⟩

/-- The same byte goes to the same address, whatever the names are. -/
theorem tracks_writeByte (address : Word) (value : Byte) :
    Tracks T lax id (writeByte address value) (writeByte address value) :=
  fun _ => .write rfl (.done ⟨rfl, rfl⟩)

/-- A port is read alike, whatever the names are. -/
theorem tracks_inputByte (port : Word) : Tracks T lax id (inputByte port) (inputByte port) :=
  fun _ => .input rfl fun _ => .done ⟨rfl, rfl⟩

/-- A port is written alike, whatever the names are. -/
theorem tracks_outputByte (port : Word) (value : Byte) :
    Tracks T lax id (outputByte port value) (outputByte port value) :=
  fun _ => .output rfl (.done ⟨rfl, rfl⟩)

/-- The question for the conformance is answered alike, or it is asked of a processor that runs all
opcodes and the comparison is lax. -/
theorem tracks_requireUndocumented
    (hv : (∀ v, (T.variant v).conformance = v.conformance) ∨
      lax ∧ ∀ v, (T.variant v).conformance = .undocumented) :
    Tracks T lax id requireUndocumented requireUndocumented := by
  intro cpu
  rcases hv with hv | ⟨allowed, hv⟩
  · have h : (T.cpu cpu).variant.conformance = cpu.variant.conformance := hv cpu.variant
    unfold requireUndocumented
    rw [h]
    cases cpu.variant.conformance with
    | documented => exact .reject rfl
    | undocumented => exact .done ⟨rfl, rfl⟩
  · have h : (T.cpu cpu).variant.conformance = .undocumented := hv cpu.variant
    unfold requireUndocumented
    rw [h]
    cases cpu.variant.conformance with
    | documented => exact .dropped allowed
    | undocumented => exact .done ⟨rfl, rfl⟩

/-- The processor that is seen there is the translation of the one that is seen here. -/
theorem tracks_get : Tracks T lax T.cpu (get : Action Cpu) get :=
  fun _ => .done ⟨rfl, rfl⟩

/-- A change of the processor, if translating and changing may be done in either order. -/
theorem tracks_modify {f f' : Cpu → Cpu} (h : ∀ c, f' (T.cpu c) = T.cpu (f c)) :
    Tracks T lax id (modify f : Action Unit) (modify f') :=
  fun cpu => .done ⟨rfl, h cpu⟩

theorem tracks_registers : Tracks T lax T.regs registers registers :=
  fun _ => .done ⟨rfl, rfl⟩

/-- A change of the register file, if translating and changing may be done in either order. -/
theorem tracks_modifyRegisters {f f' : Registers → Registers}
    (h : ∀ r, f' (T.regs r) = T.regs (f r)) :
    Tracks T lax id (modifyRegisters f) (modifyRegisters f') := by
  refine fun cpu => .done ⟨rfl, ?_⟩
  show ({ T.cpu cpu with regs := f' (T.regs cpu.regs) } : Cpu) = _
  rw [h]
  rfl

/-- The flags belong to no pair that a translation touches. -/
theorem tracks_flags : Tracks T lax id flags flags :=
  fun _ => .done ⟨rfl, rfl⟩

theorem tracks_setFlags (f : Flags) : Tracks T lax id (setFlags f) (setFlags f) :=
  tracks_modifyRegisters fun _ => rfl

theorem tracks_setAccumulator (out : Alu.Result) :
    Tracks T lax id (setAccumulator out) (setAccumulator out) :=
  tracks_modifyRegisters fun _ => rfl

theorem tracks_jumpTo (address : Word) : Tracks T lax id (jumpTo address) (jumpTo address) :=
  tracks_modifyRegisters fun _ => rfl

/-! ## Words in memory, and the stack -/

/-- The byte at the program counter is fetched alike: PC is translated to itself. -/
theorem tracks_fetch : Tracks T lax id fetch fetch := by
  refine .bind tracks_registers fun r => ?_
  refine .bind (tracks_readByte r.pc) fun v => ?_
  refine .bind (tracks_modifyRegisters fun _ => rfl) fun _ => ?_
  exact .pure id v

/-- The word at the program counter is fetched alike. -/
theorem tracks_fetchWord : Tracks T lax id fetchWord fetchWord := by
  refine .bind tracks_fetch fun low => ?_
  refine .bind tracks_fetch fun high => ?_
  exact .pure id (wordOf high low)

theorem tracks_readWord (address : Word) :
    Tracks T lax id (readWord address) (readWord address) := by
  refine .bind (tracks_readByte address) fun low => ?_
  refine .bind (tracks_readByte (address + 1)) fun high => ?_
  exact .pure id (wordOf high low)

/-- A word is stored low byte first on both sides, so a fault comes at the same byte. -/
theorem tracks_writeWord (address w : Word) :
    Tracks T lax id (writeWord address w) (writeWord address w) := by
  refine .bind (tracks_writeByte address _) fun _ => ?_
  exact tracks_writeByte (address + 1) _

theorem tracks_pushByte (v : Byte) : Tracks T lax id (pushByte v) (pushByte v) := by
  refine .bind (tracks_modifyRegisters fun _ => rfl) fun _ => ?_
  refine .bind tracks_registers fun r => ?_
  exact tracks_writeByte r.sp v

/-- A word goes on the stack high byte first on both sides, through the same SP. -/
theorem tracks_push (w : Word) : Tracks T lax id (push w) (push w) := by
  refine .bind (tracks_pushByte (highByte w)) fun _ => ?_
  exact tracks_pushByte (lowByte w)

/-- A word comes off the stack, and SP moves, on both sides alike. -/
theorem tracks_pop : Tracks T lax id pop pop := by
  refine .bind tracks_registers fun r => ?_
  refine .bind (tracks_readWord r.sp) fun w => ?_
  refine .bind (tracks_modifyRegisters fun _ => rfl) fun _ => ?_
  exact .pure id w

/-! ## Operands -/

/-- A pair has the value that its name has there. -/
theorem tracks_readPair (hT : T.Faithful) (name : Pair) :
    Tracks T lax id (readPair name) (readPair (T.pair name)) :=
  fun cpu => .done ⟨hT.readPair cpu.regs name, rfl⟩

/-- A pair is written under its name there. -/
theorem tracks_writePair (hT : T.Faithful) (name : Pair) (w : Word) :
    Tracks T lax id (writePair name w) (writePair (T.pair name) w) :=
  tracks_modifyRegisters fun r => hT.writePair r name w

/-- The pair that is HL by its own name, not as the one a prefix chose. -/
theorem tracks_writeHl (hT : T.Faithful) (hl : T.index .hl = .hl) (w : Word) :
    Tracks T lax id (writePair .hl w) (writePair .hl w) := by
  have h : Tracks T lax id (writePair .hl w) (writePair (T.pair .hl) w) :=
    tracks_writePair hT .hl w
  rwa [Translation.pair, hl] at h

/-- Through IX and IY the address takes a displacement from the program; through HL it takes
none. -/
theorem indirectAddress_of_ne {index : Index} (h : index ≠ .hl) :
    indirectAddress index = do
      let displacement ← fetch
      return (← registers).addressFrom index.pair displacement := by
  cases index with
  | hl => exact absurd rfl h
  | ix | iy => rfl

/-- An address through one of the three pairs. HL takes no displacement, so whether a pair is HL
must be the same there. -/
theorem tracks_indirectAddress (hT : T.Faithful) (hl : T.index .hl = .hl) (index : Index) :
    Tracks T lax id (indirectAddress index) (indirectAddress (T.index index)) := by
  by_cases hi : index = .hl
  · subst hi
    rw [hl]
    exact fun cpu => .done ⟨hT.hl_eq hl cpu.regs, rfl⟩
  · have hi' : T.index index ≠ .hl := fun h => hi (hT.eq_hl hl h)
    rw [indirectAddress_of_ne hi, indirectAddress_of_ne hi']
    refine .bind tracks_fetch fun d => ?_
    refine .bind tracks_registers fun r => ?_
    have h := (hT index).readPair r
    show Tracks T lax id (pure (displaced (r.readPair index.pair) d))
      (pure (displaced ((T.regs r).readPair (T.index index).pair) d))
    rw [h]
    exact .pure id _

/-- An operand is found alike; only where it lies in memory is the name of HL used. -/
theorem tracks_locate (hT : T.Faithful) (place : Place)
    (hl : ∀ index, place = .indirect index → T.index .hl = .hl) :
    Tracks T lax T.operand (locate place) (locate (T.place place)) := by
  cases place with
  | register name => exact .pure T.operand (.register name)
  | indirect index =>
    refine .bind (tracks_indirectAddress hT (hl index rfl) index) fun address => ?_
    exact .pure T.operand (.memory address)

/-- An operand that is carried has the same value there. -/
theorem tracks_load {op : Operand} (h : T.CarriesOperand op) :
    Tracks T lax id (load op) (load (T.operand op)) := by
  cases op with
  | register name =>
    refine .bind tracks_registers fun r => ?_
    show Tracks T lax id (pure (r.read name)) (pure ((T.regs r).read (T.register name)))
    rw [Translation.read_register h]
    exact .pure id _
  | memory address => exact tracks_readByte address

/-- An operand that is carried takes the same value there. -/
theorem tracks_store {op : Operand} (h : T.CarriesOperand op) (v : Byte) :
    Tracks T lax id (store op v) (store (T.operand op) v) := by
  cases op with
  | register name =>
    show Tracks T lax id (modifyRegisters fun r => r.write name v)
      (modifyRegisters fun r => r.write (T.register name) v)
    exact tracks_modifyRegisters fun r => Translation.write_register h r v
  | memory address => exact tracks_writeByte address v

end Z80.Action
