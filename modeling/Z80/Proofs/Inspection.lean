import Z80.Proofs.Decoding
import Z80.Proofs.Handler

/-!
# Looking before acting

What an instruction does first is to look: it fetches its opcode, reads what belongs to it, and asks
what the processor may run. `Law.inspects` is the law of the actions that do no more than that. Over
a memory such an action leaves the memory as it was, and the processor too but for the program
counter, which has passed bytes that are there; and this whether it is done or breaks off.

Reading an opcode is of this kind, so that a step over a memory breaks off untouched or is the
instruction whose opcode it read (`Cpu.step_over_memory`).
-/

namespace Z80

variable {α γ δ : Type}

/-! ## Untouched outcomes -/

namespace Cpu

@[simp]
theorem pastByte_pc (cpu : Cpu) : cpu.pastByte.regs.pc = cpu.regs.pc + 1 :=
  rfl

/-- Going past some bytes and then past more is going past them all. -/
theorem past_past (cpu : Cpu) (count more : Nat) :
    (cpu.past count).past more = cpu.past (count + more) := by
  simp only [past, UInt16.ofNat_add, UInt16.add_assoc]

/-- The processor `c` is `cpu` after some fetches of bytes that are in memory, and nothing else. -/
def Fetched (cpu : Cpu) (m : Memory δ) (c : Cpu) : Prop :=
  ∃ count, c = cpu.past count ∧ ∀ i < count, (cpu.past i).regs.pc.toNat < m.size

variable {m : Memory δ} {cpu c d : Cpu}

theorem Fetched.refl (cpu : Cpu) (m : Memory δ) : cpu.Fetched m cpu :=
  ⟨0, cpu.past_zero.symm, fun _ h => absurd h (Nat.not_lt_zero _)⟩

/-- What has been fetched in two parts has been fetched. -/
theorem Fetched.trans (h : cpu.Fetched m c) (h' : c.Fetched m d) : cpu.Fetched m d := by
  obtain ⟨count, rfl, hcount⟩ := h
  obtain ⟨more, rfl, hmore⟩ := h'
  refine ⟨count + more, past_past cpu count more, fun i hi => ?_⟩
  by_cases hlt : i < count
  · exact hcount i hlt
  · have hi' := hmore (i - count) (by omega)
    rwa [past_past, Nat.add_sub_cancel' (Nat.le_of_not_lt hlt)] at hi'

/-- One byte that is in memory has been fetched. -/
theorem fetched_pastByte (h : cpu.regs.pc.toNat < m.size) : cpu.Fetched m cpu.pastByte := by
  refine ⟨1, ?_, fun i hi => ?_⟩
  · rw [past_succ, past_zero]
  · obtain rfl : i = 0 := Nat.lt_one_iff.1 hi
    rwa [past_zero]

/-- But for the program counter the processor is as it was. -/
theorem Fetched.eq (h : cpu.Fetched m c) : c = { cpu with regs.pc := c.regs.pc } := by
  obtain ⟨count, rfl, -⟩ := h
  rfl

end Cpu

/-- What comes of no more than looking around from `cpu`, over the memory `m`. -/
structure Outcome.Untouched (cpu : Cpu) (m : Memory δ) (out : Outcome (Memory δ) α) : Prop where
  cpu : cpu.Fetched m out.cpu
  bus : out.bus = m

theorem Memory.read_of_inside {m : Memory δ} {address : Word} (h : address.toNat < m.size) :
    m.read address = .ok (m.byte address) := by
  have h' : address.toNat < m.bytes.size := h
  simp [read, byte, h']

theorem Memory.read_of_outside {m : Memory δ} {address : Word} (h : ¬ address.toNat < m.size) :
    m.read address = .error (m.outside address) :=
  dif_neg h

variable [Device δ]

namespace Dialogue

/-- Reading memory for a report does not change it. -/
theorem readAvailable_bus (count : Nat) (address : Word) (m : Memory δ) :
    (readAvailable count address m).2 = m := by
  induction count generalizing address with
  | zero => rfl
  | succ count ih =>
    have hanswer : Bus.read m address = (m.read address, m) := rfl
    rw [readAvailable, hanswer]
    cases m.read address <;> exact ih (address + 1)

/-- A refusal looks at the bytes to report them, and changes nothing. -/
theorem untouched_reject (cpu : Cpu) (m : Memory δ) :
    ((.reject cpu : Dialogue α).run m).Untouched cpu m :=
  ⟨.refl cpu m, readAvailable_bus _ _ m⟩

end Dialogue

/-! ## Actions that only look -/

/-- The law of what leaves every memory, and the processor but for its fetches, as they were. -/
def Law.inspects : Law := fun _ a =>
  ∀ (δ : Type) [Device δ] (cpu : Cpu) (m : Memory δ), ((a cpu).run m).Untouched cpu m

instance : Law.inspects.Composes where
  done _ _ _ cpu m := ⟨.refl cpu m, rfl⟩
  look _ _ cpu m := ⟨.refl cpu m, rfl⟩
  bind {_ _ a k} ha hk δ _ cpu m := by
    have hfirst := ha δ cpu m
    rw [Action.run_bind]
    generalize (a cpu).run m = out at hfirst
    obtain ⟨fault | x, c, bus⟩ := out
    · exact ⟨hfirst.cpu, hfirst.bus⟩
    · obtain rfl : bus = m := hfirst.bus
      have hrest := hk x δ c bus
      exact ⟨hfirst.cpu.trans hrest.cpu, hrest.bus⟩

namespace Action

/-- What only looks leaves a memory, and the processor but for its fetches, as they were. -/
theorem untouched (a : Action α) [h : Obeys .inspects a] (cpu : Cpu) (m : Memory δ) :
    ((a cpu).run m).Untouched cpu m :=
  h.obeys δ cpu m

instance : Obeys .inspects requireUndocumented := by
  refine ⟨fun δ _ cpu m => ?_⟩
  unfold requireUndocumented
  split
  · exact ⟨.refl cpu m, rfl⟩
  · exact Dialogue.untouched_reject cpu m

instance (address : Word) : Obeys .inspects (readByte address) := by
  refine ⟨fun δ _ cpu m => ?_⟩
  rw [readByte, Dialogue.run_read_memory]
  cases m.read address <;> exact ⟨.refl cpu m, rfl⟩

instance : Obeys .inspects fetch := by
  refine ⟨fun δ _ cpu m => ?_⟩
  show ((Dialogue.read cpu cpu.regs.pc fun b => .done b cpu.pastByte).run m).Untouched cpu m
  rw [Dialogue.run_read_memory]
  by_cases h : cpu.regs.pc.toNat < m.size
  · rw [Memory.read_of_inside h]
    exact ⟨Cpu.fetched_pastByte h, rfl⟩
  · rw [Memory.read_of_outside h]
    exact ⟨.refl cpu m, rfl⟩

instance : Obeys .inspects fetchOpcode :=
  obeys_fetchOpcode fun _ _ _ cpu m => ⟨.refl cpu m, rfl⟩

/-! ## Opcodes -/

/-- An opcode is admitted or refused, and nothing else happens. -/
theorem admitOpcode_cases (opcode : Opcode) (cpu : Cpu) :
    admitOpcode opcode cpu = .done () cpu ∨ admitOpcode opcode cpu = .reject cpu := by
  unfold admitOpcode
  split
  · exact .inl rfl
  · unfold requireUndocumented
    split
    · exact .inl rfl
    · exact .inr rfl

/-- Runs an opcode that has been read after some prefixes without effect; its instruction is
returned with its clock cycles. -/
def observed (selected : Nat × Opcode) : Action (Nat × Instruction) := do
  let cycles ← perform selected.2
  return (ignoredPrefixCycles * selected.1 + cycles, selected.2.instruction)

/-- An instruction that is observed has its opcode read and is then run. -/
theorem observedInstruction_eq : observedInstruction = fetchOpcode >>= observed :=
  rfl

/-- The clock cycles of an instruction on the processor that has run it, with those of the prefixes
without effect before it. -/
def cyclesAfter (ignored : Nat) (i : Instruction) (taken : Bool) (cpu : Cpu) : Nat :=
  ignoredPrefixCycles * ignored + i.cycles cpu.variant.timing taken

variable {ignored : Nat} {opcode : Opcode} {cpu : Cpu}

/-- Where the opcode is refused nothing is run. -/
theorem observed_of_refused (h : admitOpcode opcode cpu = .reject cpu) :
    observed (ignored, opcode) cpu = .reject cpu := by
  show ((admitOpcode opcode cpu).bind _).bind _ = _
  rw [h]
  rfl

/-- Where the opcode is admitted its instruction is executed and its clock cycles are counted. -/
theorem observed_of_admitted (h : admitOpcode opcode cpu = .done () cpu) :
    observed (ignored, opcode) cpu = (execute opcode.instruction cpu).bind fun taken c =>
      .done (cyclesAfter ignored opcode.instruction taken c, opcode.instruction) c := by
  show ((admitOpcode opcode cpu).bind fun _ c => complete opcode.instruction c).bind _ = _
  rw [h]
  exact Dialogue.bind_bind (execute opcode.instruction cpu)
    (fun taken c => .done (opcode.instruction.cycles c.variant.timing taken) c)
    fun cycles c => .done (ignoredPrefixCycles * ignored + cycles, opcode.instruction) c

end Action

/-! ## Steps over a memory -/

/-- Reads an opcode and has it admitted; the instruction it selects is returned. -/
def Action.admitted : Action Instruction := do
  let selected ← fetchOpcode
  admitOpcode selected.2
  return selected.2.instruction

namespace Cpu

/-- The instruction that a step comes to run, and the processor when it has read the opcode. -/
def reads {β : Type} [Bus β] (cpu : Cpu) (bus : β) : Option (Instruction × Cpu) :=
  let out := (Action.admitted cpu.begin).run bus
  out.result.toOption.map fun i => (i, out.cpu)

variable {cpu : Cpu} {m : Memory δ}

/-- Whether a step comes to an instruction of which `p` holds on the processor that has read the
opcode. -/
def Selects (cpu : Cpu) (m : Memory δ) (p : Instruction → Cpu → Prop) : Prop :=
  ∃ i c, cpu.reads m = some (i, c) ∧ p i c

/-- A step comes to one instruction at most, and on one processor. -/
theorem selects_iff {i : Instruction} {c : Cpu} (h : cpu.reads m = some (i, c))
    {p : Instruction → Cpu → Prop} : cpu.Selects m p ↔ p i c := by
  refine ⟨fun ⟨i', c', h', hp⟩ => ?_, fun hp => ⟨i, c, h, hp⟩⟩
  rw [h] at h'
  cases h'
  exact hp

/-- A step whose opcode is not read, or is refused, comes to no instruction. -/
theorem not_selects {p : Instruction → Cpu → Prop} (h : cpu.reads m = none) :
    ¬ cpu.Selects m p := by
  rintro ⟨i, c, hsome, -⟩
  rw [h] at hsome
  cases hsome

/-- A step comes to the instruction of the opcode that it reads, if the manual lists it. -/
theorem reads_of_fetchOpcode {ignored : Nat} {opcode : Opcode} {c : Cpu}
    (h : (Action.fetchOpcode cpu.begin).run m
      = { result := .ok (ignored, opcode), cpu := c, bus := m })
    (hlisted : opcode.isDocumented = true) : cpu.reads m = some (opcode.instruction, c) := by
  have hallowed : Action.admitOpcode opcode = pure () := by
    rw [Action.admitOpcode, hlisted]
    rfl
  have hrun : (Action.admitted cpu.begin).run m
      = { result := .ok opcode.instruction, cpu := c, bus := m } := by
    rw [Action.admitted, Action.run_bind, h]
    show ((Action.admitOpcode opcode >>= fun _ => pure opcode.instruction) c).run m = _
    rw [hallowed]
    rfl
  rw [reads, hrun]
  rfl

/-- **A step over a memory breaks off before it has done anything, or it is the instruction whose
opcode it read.** -/
theorem step_over_memory (cpu : Cpu) (m : Memory δ) :
    (∃ fault, (cpu.step m).result = .error fault ∧ cpu.reads m = none ∧ cpu.executed m = none ∧
      (cpu.step m).Untouched cpu.begin m) ∨
    ∃ i c, cpu.reads m = some (i, c) ∧ cpu.begin.Fetched m c ∧
      cpu.executed m = ((Action.execute i c).run m).result.toOption.map (fun _ => i) ∧
      ∃ cycles : Bool → Cpu → Nat,
        cpu.step m = (((Action.execute i c).run m).bind fun taken c m =>
          { result := .ok (cycles taken c), cpu := c, bus := m }).blame cpu.regs.pc := by
  have hlook := Action.untouched Action.fetchOpcode cpu.begin m
  rw [step_eq_observed, executed, reads, Action.observedInstruction_eq, Action.admitted,
    Action.run_bind, Action.run_bind]
  generalize (Action.fetchOpcode cpu.begin).run m = out at hlook
  obtain ⟨fault | ⟨ignored, opcode⟩, c, bus⟩ := out
  · exact .inl ⟨_, rfl, rfl, rfl, hlook.cpu, hlook.bus⟩
  · obtain rfl : bus = m := hlook.bus
    have hrest : (({ result := .ok (ignored, opcode), cpu := c, bus } : Outcome _ _).bind
        fun selected c bus => (Action.observed selected c).run bus)
        = (Action.observed (ignored, opcode) c).run bus := rfl
    have hadmitted : (({ result := .ok (ignored, opcode), cpu := c, bus } : Outcome _ _).bind
        fun selected c bus => ((do
          Action.admitOpcode selected.2
          return selected.2.instruction : Action Instruction) c).run bus)
        = ((Action.admitOpcode opcode c).bind fun _ => .done opcode.instruction).run bus := rfl
    rw [hrest, hadmitted]
    rcases Action.admitOpcode_cases opcode c with hallowed | hrefuse
    · rw [Action.observed_of_admitted hallowed, hallowed, Dialogue.run_bind]
      refine .inr ⟨opcode.instruction, c, rfl, hlook.cpu, ?_,
        Action.cyclesAfter ignored opcode.instruction, ?_⟩
      · rcases (Action.execute opcode.instruction c).run bus with ⟨_ | _, _, _⟩ <;> rfl
      · rcases (Action.execute opcode.instruction c).run bus with ⟨_ | _, _, _⟩ <;> rfl
    · have hreject : ((.reject c : Dialogue (Nat × Instruction)).run bus).Untouched c bus :=
        Dialogue.untouched_reject c bus
      rw [Action.observed_of_refused hrefuse, hrefuse]
      exact .inl ⟨_, rfl, rfl, rfl, hlook.cpu.trans hreject.cpu, hreject.bus⟩

end Cpu

end Z80
