import Z80.Proofs.Inspection

/-!
# Breaking off in time

Most instructions look first and act afterwards, when nothing can go wrong any more. Such an
instruction spares (`Law.spares`): if a memory breaks it off, it has done nothing but look. For this
it has to be known of its last part that it succeeds (`Law.succeeds`). What only changes registers
does, as do accesses to the ports; and so does a write to an address that has been read before,
since memory that answered a read answers a write as well. What has been read is passed on as a
condition `p` on the size of memory.

The instructions that do not spare are those that change something and access memory afterwards
(`Instruction.leavesMark`).
-/

namespace Z80

variable {α γ δ : Type} {p : Nat → Prop}

/-! ## What succeeds -/

/-- The law of what no memory breaks off whose size is as `p` says. -/
def Law.succeeds (p : Nat → Prop) : Law := fun _ a =>
  ∀ (δ : Type) [Device δ] (cpu : Cpu) (m : Memory δ), p m.size →
    ((a cpu).run m).result.isOk = true

instance : (Law.succeeds p).Composes where
  done _ _ _ _ _ _ := rfl
  look _ _ _ _ _ := rfl
  bind {_ _ a k} ha hk δ _ cpu m hp := by
    have hfirst := ha δ cpu m hp
    have hsize := Dialogue.run_keeps (Memory.bus_keeps_size m.size) (a cpu) rfl
    rw [Action.run_bind]
    generalize (a cpu).run m = out at hfirst hsize
    obtain ⟨fault | x, c, bus⟩ := out
    · cases hfirst
    · exact hk x δ c bus (hsize.symm ▸ hp)

namespace Action

/-- What succeeds is done in any memory of such a size. -/
theorem isOk_run (a : Action α) [h : Obeys (.succeeds p) a] [Device δ] (cpu : Cpu) {m : Memory δ}
    (hp : p m.size) : ((a cpu).run m).result.isOk = true :=
  h.obeys δ cpu m hp

instance (f : Cpu → Cpu) : Obeys (.succeeds p) (modify f : Action Unit) :=
  ⟨fun _ _ _ _ _ => rfl⟩

instance (change : Registers → Registers) : Obeys (.succeeds p) (modifyRegisters change) :=
  ⟨fun _ _ _ _ _ => rfl⟩

/-- Ports always answer. -/
instance (port : Word) : Obeys (.succeeds p) (inputByte port) :=
  ⟨fun _ _ _ _ _ => rfl⟩

instance (port : Word) (value : Byte) : Obeys (.succeeds p) (outputByte port value) :=
  ⟨fun _ _ _ _ _ => rfl⟩

/-- A write succeeds where memory is known to be. -/
theorem succeeds_writeByte {address : Word} (h : ∀ size, p size → address.toNat < size)
    (value : Byte) : Obeys (.succeeds p) (writeByte address value) := by
  refine ⟨fun δ _ cpu m hp => ?_⟩
  rw [writeByte, Dialogue.run_write_memory, if_pos (h m.size hp)]
  rfl

end Action

/-! ## What spares -/

/-- The law of what has only looked if it breaks off, over a memory whose size is as `p` says. It is
no law that composes: what acts may not come before what breaks off. -/
def Law.spares (p : Nat → Prop) : Law := fun _ a =>
  ∀ (δ : Type) [Device δ] (cpu : Cpu) (m : Memory δ) (fault : Fault), p m.size →
    ((a cpu).run m).result = .error fault → ((a cpu).run m).Untouched cpu m

namespace Action

/-- What spares has changed nothing if a memory breaks it off. -/
theorem untouched_of_error (a : Action α) [h : Obeys (.spares fun _ => True) a] [Device δ]
    {cpu : Cpu} {m : Memory δ} {fault : Fault} (hfault : ((a cpu).run m).result = .error fault) :
    ((a cpu).run m).Untouched cpu m :=
  h.obeys δ cpu m fault trivial hfault

theorem spares_of_inspects {a : Action α} (h : Obeys .inspects a) : Obeys (.spares p) a :=
  ⟨fun _ _ cpu m _ _ _ => untouched a cpu m⟩

theorem spares_of_succeeds {a : Action α} (h : Obeys (.succeeds p) a) : Obeys (.spares p) a := by
  refine ⟨fun δ _ cpu m fault hp hfault => ?_⟩
  have hok := isOk_run a cpu hp
  rw [hfault] at hok
  cases hok

/-- What spares may follow what only looks. -/
theorem spares_after {a : Action α} {k : α → Action γ} (ha : Obeys .inspects a)
    (hk : ∀ x, Obeys (.spares p) (k x)) : Obeys (.spares p) (a >>= k) := by
  refine ⟨fun δ _ cpu m fault hp h => ?_⟩
  have hfirst := untouched a cpu m
  rw [run_bind] at h ⊢
  generalize (a cpu).run m = out at hfirst h
  obtain ⟨_ | x, c, bus⟩ := out
  · exact ⟨hfirst.cpu, hfirst.bus⟩
  · obtain rfl : bus = m := hfirst.bus
    have hrest := (hk x).obeys δ c bus fault hp h
    exact ⟨hfirst.cpu.trans hrest.cpu, hrest.bus⟩

/-- What succeeds may follow what spares. -/
theorem spares_before {a : Action α} {k : α → Action γ} (ha : Obeys (.spares p) a)
    (hk : ∀ x, Obeys (.succeeds p) (k x)) : Obeys (.spares p) (a >>= k) := by
  refine ⟨fun δ _ cpu m fault hp h => ?_⟩
  have hfirst := ha.obeys δ cpu m
  have hsize := Dialogue.run_keeps (Memory.bus_keeps_size m.size) (a cpu) rfl
  rw [run_bind] at h ⊢
  generalize (a cpu).run m = out at hfirst hsize h
  obtain ⟨fault' | x, c, bus⟩ := out
  · have huntouched := hfirst fault' hp rfl
    exact ⟨huntouched.cpu, huntouched.bus⟩
  · have hok := isOk_run (k x) c (m := bus) (hsize.symm ▸ hp)
    rw [show ((k x c).run bus).result = _ from h] at hok
    cases hok

/-- After a byte has been read, memory is known to be there. -/
theorem spares_after_readByte {address : Word} {k : Byte → Action α}
    (hk : ∀ x, Obeys (.spares fun size => p size ∧ address.toNat < size) (k x)) :
    Obeys (.spares p) (readByte address >>= k) := by
  refine ⟨fun δ _ cpu m fault hp h => ?_⟩
  have hread : (readByte address >>= k) cpu = .read cpu address fun x => k x cpu := rfl
  rw [hread, Dialogue.run_read_memory] at h ⊢
  by_cases hinside : address.toNat < m.size
  · rw [Memory.read_of_inside hinside] at h ⊢
    exact (hk _).obeys δ cpu m fault ⟨hp, hinside⟩ h
  · rw [Memory.read_of_outside hinside]
    exact ⟨.refl cpu m, rfl⟩

instance (priority := low) (a : Action α) [ha : Obeys .inspects a] : Obeys (.spares p) a :=
  spares_of_inspects ha

instance (priority := low) (a : Action α) [ha : Obeys (.succeeds p) a] : Obeys (.spares p) a :=
  spares_of_succeeds ha

instance (a : Action α) (k : α → Action γ) [ha : Obeys .inspects a]
    [hk : ∀ x, Obeys (.spares p) (k x)] : Obeys (.spares p) (a >>= k) :=
  spares_after ha hk

instance (a : Action α) (k : α → Action γ) [ha : Obeys (.spares p) a]
    [hk : ∀ x, Obeys (.succeeds p) (k x)] : Obeys (.spares p) (a >>= k) :=
  spares_before ha hk

instance (address : Word) (value : Byte) : Obeys (.spares p) (writeByte address value) := by
  refine ⟨fun δ _ cpu m fault _ h => ?_⟩
  rw [writeByte, Dialogue.run_write_memory] at h ⊢
  split at h
  · cases h
  · next hout =>
    rw [if_neg hout]
    exact ⟨.refl cpu m, rfl⟩

instance (operand : Operand) (x : Byte) : Obeys (.spares p) (store operand x) := by
  unfold store
  cases operand <;> infer_instance

instance (a : Action Unit) [Obeys (.spares p) a] : Obeys (.spares p) (always a) := by
  unfold always
  infer_instance

instance : Obeys (.spares p) pop := by
  unfold pop
  infer_instance

instance : Obeys (.spares p) ret := by
  unfold ret
  infer_instance

instance (op : BitOperation) (x : Byte) : Obeys (.spares p) (transform op x) := by
  cases op <;>
    simp only [transform] <;>
    infer_instance

/-- A bit operation on memory: what is done with the byte it makes may rely on the byte it read. -/
theorem spares_transform (op : BitOperation) (address : Word) {k : Byte → Action Unit}
    (hk : ∀ result, Obeys (.succeeds fun size => p size ∧ address.toNat < size) (k result)) :
    Obeys (.spares p) (do
      let x ← readByte address
      if let some result ← transform op x then
        k result) := by
  refine spares_after_readByte fun x => spares_before inferInstance fun result => ?_
  cases result with
  | some result => exact hk result
  | none => infer_instance

/-! ## Instructions -/

instance (op : BitOperation) (place : Place) : Obeys (.spares p) (bits op place) := by
  refine spares_after inferInstance fun operand => ?_
  cases operand with
  | register name =>
    refine spares_after inferInstance fun x => spares_before inferInstance fun result => ?_
    cases result <;> infer_instance
  | memory address =>
    exact spares_transform op address fun result => succeeds_writeByte (fun _ h => h.2) result

instance (op : BitOperation) (index : Index) (displacement : Byte) (copy : Option Register) :
    Obeys (.spares p) (indexedBits op index displacement copy) := by
  refine spares_after inferInstance fun regs => spares_transform op _ fun result => ?_
  refine .bind (succeeds_writeByte (fun _ h => h.2) result) fun _ => ?_
  cases copy <;> infer_instance

/-- EX (SP): both bytes have been read when they are written. -/
instance (name : Pair) : Obeys (.spares p) (exchangeStackTop name) := by
  refine spares_after inferInstance fun regs => ?_
  simp only [readWord, writeWord, bind_assoc, pure_bind]
  refine spares_after_readByte fun low => spares_after_readByte fun high =>
    spares_after inferInstance ?_
  refine fun w => spares_of_succeeds (.bind (succeeds_writeByte (fun _ h => h.1.2) _) fun _ => ?_)
  exact .bind (succeeds_writeByte (fun _ h => h.2) _) fun _ => inferInstance

end Action

namespace Instruction

/-- Whether an instruction changes something and accesses memory afterwards, which may break it
off. -/
def leavesMark : Instruction → Bool
  | .decrementAndJump | .push _ | .call _ | .restart _ | .storePair _ | .storeIndex _
  | .block .input _ _ => true
  | _ => false

end Instruction

namespace Action

/-- **An instruction that leaves no mark spares.** -/
theorem spares_execute (i : Instruction) (h : i.leavesMark = false) :
    Obeys (.spares p) (execute i) := by
  cases i with
  | decrementAndJump | push | call | restart | storePair | storeIndex => cases h
  | inputTo target =>
    simp only [execute, inputTo]
    cases target <;> infer_instance
  | block kind =>
    cases kind with
    | input => cases h
    | load =>
      -- The last access is the write; all that comes after it succeeds.
      refine spares_before (spares_after inferInstance fun regs => spares_after inferInstance
        fun x => spares_before inferInstance fun _ => ?_) fun more => inferInstance
      infer_instance
    | compare | output =>
      simp only [execute, block, blockPass, blockCompare, blockOutput]
      infer_instance
  | _ =>
    simp only [execute, move, moveImmediate, loadAFrom, storeATo, loadSpecial, movePairImmediate,
      loadPair, copyPair, exchangeDeHl, inputImmediate, outputImmediate, outputFrom, operate,
      stepByte, accumulator, addPair, combinePair, rotateDigit, jump, jumpRelative, jumpBy, retIf,
      retInterrupt, halt, enableInterrupts, disableInterrupts]
    infer_instance

end Action

end Z80
