import Z80.Proofs.Harm

/-!
# More memory

The size of memory bounds what can be done and has no other part in it. What runs over a memory, and
does not end at an address outside, runs over a longer memory the same way: every access gets the
same answer, and the bytes that have been added stay zero. Only the report of an invalid opcode
needs a thought, since it reads memory again and passes over what it cannot read; but it reads
nothing that has not been fetched before.
-/

namespace Z80

variable {α γ δ : Type}

/-- Whether a fault is an address outside memory. -/
def Fault.isOutside : Fault → Bool
  | .outOfRange .. => true
  | _ => false

/-- Whether a result is the fault of an address outside memory. -/
def isOutside : Except Fault α → Bool :=
  failsBy Fault.isOutside

theorem isOutside_map (f : α → γ) (result : Except Fault α) :
    isOutside (result.map f) = isOutside result := by
  cases result <;> rfl

namespace Memory

/-- Memory with more bytes after its own, all zero. -/
def grown (more : Nat) (m : Memory δ) : Memory δ :=
  { m with bytes := m.bytes ++ Array.replicate more 0 }

variable {more : Nat} {m m' : Memory δ} {address start : Word} {v : Byte} {block : Array Byte}

theorem size_grown : (m.grown more).size = m.size + more := by
  simp [grown, size]

/-- What is inside is read in the larger memory as before. -/
theorem read_grown (h : address.toNat < m.size) : (m.grown more).read address = m.read address := by
  have h' : address.toNat < m.bytes.size := h
  have hlt : address.toNat < m.bytes.size + more := Nat.lt_add_right more h'
  simp [read, grown, h', hlt]

theorem byte_grown (h : address.toNat < m.size) : (m.grown more).byte address = m.byte address := by
  have h' : address.toNat < m.bytes.size := h
  have hlt : address.toNat < m.bytes.size + more := Nat.lt_add_right more h'
  simp [byte, grown, h', hlt]

/-- What is inside is written in the larger memory as before. -/
theorem write_grown (h : address.toNat < m.size) :
    ((m.grown more).write address v).2 = ((m.write address v).2).grown more := by
  have h' : address.toNat < m.bytes.size := h
  have hlt : address.toNat < m.bytes.size + more := Nat.lt_add_right more h'
  simp [write, grown, h', hlt]

/-- A block that fits in the smaller memory is loaded into the larger one as well. -/
theorem load_grown (h : m.load start block = .ok m') :
    (m.grown more).load start block = .ok (m'.grown more) := by
  simp only [load] at h ⊢
  split at h
  · cases h
  · next hfits =>
    have hstop : start.toNat + block.size ≤ m.bytes.size := Nat.le_of_not_lt hfits
    have hfits' : ¬ (m.grown more).size < start.toNat + block.size := by
      rw [size_grown]
      omega
    -- Before the block and behind it, what is kept is kept of both, and the zeros come last.
    have hbefore : (m.grown more).bytes.extract 0 start.toNat = m.bytes.extract 0 start.toNat := by
      have hstart : start.toNat - m.bytes.size = 0 := by omega
      simp [grown, hstart]
    have hbehind : (m.grown more).bytes.extract (start.toNat + block.size) (m.grown more).bytes.size
        = m.bytes.extract (start.toNat + block.size) m.bytes.size ++ Array.replicate more 0 := by
      have hstart : start.toNat + block.size - m.bytes.size = 0 := by omega
      have hend : m.bytes.extract (start.toNat + block.size) (m.bytes.size + more)
          = m.bytes.extract (start.toNat + block.size) m.bytes.size :=
        Array.extract_eq_extract_right.2 (by omega)
      simp [grown, hstart, hend]
    cases h
    rw [if_neg hfits', hbefore, hbehind]
    simp only [grown, Array.append_assoc]

/-- A block that fits is loaded. -/
theorem exists_load (h : start.toNat + block.size ≤ m.size) :
    ∃ m', m.load start block = .ok m' := by
  simp only [load]
  rw [if_neg (Nat.not_lt.2 h)]
  exact ⟨_, rfl⟩

theorem zeroed_grown (size more : Nat) (device : δ) :
    (zeroed size device).grown more = zeroed (size + more) device := by
  simp [zeroed, grown]

end Memory

/-- The outcome over a memory that has more bytes after its own. -/
def Outcome.grown (more : Nat) (out : Outcome (Memory δ) α) : Outcome (Memory δ) α :=
  { out with bus := out.bus.grown more }

/-- Whether an outcome over a memory is the failure at an address outside. -/
def Outcome.Misses (out : Outcome (Memory δ) α) : Prop :=
  ∃ address : Word, ¬ address.toNat < out.bus.size ∧ out.result = .error (out.bus.outside address)

/-- An address outside is reported with the size of the memory it was outside of. -/
theorem Outcome.Misses.blame {out : Outcome (Memory δ) α} {size : Nat} (h : out.Misses)
    (hsize : out.bus.size = size) (pc : Word) :
    ∃ address : Word, ¬ address.toNat < size ∧
      (out.blame pc).result = .error (.outOfRange pc address size) := by
  obtain ⟨address, houtside, hresult⟩ := h
  rw [hsize] at houtside
  refine ⟨address, houtside, ?_⟩
  rw [Outcome.blame, hresult, ← hsize]
  rfl

variable [Device δ] {more : Nat}

/-! ## Dialogues -/

namespace Dialogue

/-- A dialogue fails at an address outside, or is the same over more memory, or ends with a report
made over either. -/
theorem run_grown (d : Dialogue α) (m : Memory δ) (more : Nat) :
    (d.run m).Misses ∨ d.run (m.grown more) = (d.run m).grown more ∨
    ∃ c m', d.run m = report c m' ∧ d.run (m.grown more) = report c (m'.grown more) := by
  induction d generalizing m with
  | done | fail => exact .inr (.inl rfl)
  | reject c => exact .inr (.inr ⟨c, m, rfl, rfl⟩)
  | read c address next ih =>
    rw [run_read_memory, run_read_memory]
    by_cases hinside : address.toNat < m.size
    · rw [Memory.read_grown hinside, Memory.read_of_inside hinside]
      exact ih _ m
    · rw [Memory.read_of_outside hinside]
      exact .inl ⟨address, hinside, rfl⟩
  | write c address v d ih =>
    rw [run_write_memory, run_write_memory]
    by_cases hinside : address.toNat < m.size
    · have hinside' : address.toNat < (m.grown more).size := by
        rw [Memory.size_grown]
        exact Nat.lt_add_right more hinside
      rw [if_pos hinside, if_pos hinside', Memory.write_grown hinside]
      exact ih _
    · rw [if_neg hinside]
      exact .inl ⟨address, hinside, rfl⟩
  | input c port next ih => exact ih _ { m with device := (Device.input m.device port).2 }
  | output c port v d ih => exact ih { m with device := Device.output m.device port v }

theorem readAvailable_inside {m : Memory δ} {address : Word} (h : address.toNat < m.size)
    (count : Nat) : readAvailable (count + 1) address m
      = (m.byte address :: (readAvailable count (address + 1) m).1, m) := by
  have hread : Bus.read m address = (.ok (m.byte address), m) :=
    congrArg (·, m) (Memory.read_of_inside h)
  rw [readAvailable, hread]
  exact congrArg (Prod.mk _) (readAvailable_bus count (address + 1) m)

/-- A report of bytes that are inside is the same in a larger memory. -/
theorem readAvailable_grown {m : Memory δ} (more count : Nat) (address : Word)
    (h : ∀ i < count, (address + UInt16.ofNat i).toNat < m.size) :
    (readAvailable count address (m.grown more)).1 = (readAvailable count address m).1 := by
  induction count generalizing address with
  | zero => rfl
  | succ count ih =>
    have hinside : address.toNat < m.size := by
      have hfirst := h 0 (Nat.zero_lt_succ count)
      rwa [show UInt16.ofNat 0 = 0 from rfl, UInt16.add_zero] at hfirst
    have hinside' : address.toNat < (m.grown more).size := by
      rw [Memory.size_grown]
      exact Nat.lt_add_right more hinside
    rw [readAvailable_inside hinside, readAvailable_inside hinside', Memory.byte_grown hinside,
      ih (address + 1) fun i hi => ?_]
    have hnext := h (i + 1) (Nat.succ_lt_succ hi)
    rwa [Nat.add_comm, UInt16.ofNat_add, ← UInt16.add_assoc] at hnext

/-- A report over a memory does not change it. -/
theorem report_over_memory (cpu : Cpu) (m : Memory δ) :
    (report cpu m : Outcome (Memory δ) α) =
      { result := .error (.invalidOpcode cpu.start
          (readAvailable (min (cpu.regs.pc - cpu.start).toNat reportLimit) cpu.start m).1)
        cpu
        bus := m } :=
  congrArg (Outcome.mk _ cpu) (readAvailable_bus _ cpu.start m)

/-- A report of bytes inside memory is the same over more memory. -/
theorem report_grown {cpu : Cpu} {m : Memory δ}
    (h : ∀ i < (cpu.regs.pc - cpu.start).toNat, (cpu.start + UInt16.ofNat i).toNat < m.size) :
    (report cpu (m.grown more) : Outcome (Memory δ) α) = (report cpu m).grown more := by
  have hbytes := readAvailable_grown more (min (cpu.regs.pc - cpu.start).toNat reportLimit)
    cpu.start fun i hi => h i (Nat.lt_of_lt_of_le hi (Nat.min_le_left ..))
  rw [report_over_memory, report_over_memory, hbytes]
  rfl

end Dialogue

/-! ## Steps -/

omit [Device δ] in
/-- What has been fetched since an instruction started lies in memory. -/
theorem Cpu.Fetched.inside {cpu c : Cpu} {m : Memory δ} (h : cpu.begin.Fetched m c) {i : Nat}
    (hi : i < (c.regs.pc - c.start).toNat) : (c.start + UInt16.ofNat i).toNat < m.size := by
  obtain ⟨count, rfl, hcount⟩ := h
  refine hcount i (Nat.lt_of_lt_of_le hi ?_)
  have hfetched : (cpu.begin.past count).regs.pc - (cpu.begin.past count).start
      = UInt16.ofNat count := by
    show cpu.regs.pc + UInt16.ofNat count - cpu.regs.pc = UInt16.ofNat count
    grind
  rw [hfetched, UInt16.toNat_ofNat']
  exact Nat.mod_le ..

/-- A step fails at an address outside, or is the same over more memory. -/
theorem Cpu.step_grown_or_outside (cpu : Cpu) (m : Memory δ) (more : Nat) :
    (∃ address : Word, ¬ address.toNat < m.size ∧
      (cpu.step m).result = .error (.outOfRange cpu.regs.pc address m.size)) ∨
    cpu.step (m.grown more) = (cpu.step m).grown more := by
  have hsize : ((Action.instruction cpu.begin).run m).bus.size = m.size :=
    Dialogue.run_keeps (Memory.bus_keeps_size m.size) _ rfl
  have hstep (m : Memory δ) :
      cpu.step m = ((Action.instruction cpu.begin).run m).blame cpu.regs.pc := rfl
  rcases (Action.instruction cpu.begin).run_grown m more with
    hmisses | hgrown | ⟨c, m', hreport, hgrown⟩
  · exact .inl (hmisses.blame hsize cpu.regs.pc)
  · rw [hstep, hstep, hgrown]
    exact .inr rfl
  · -- The opcode was refused, so nothing but fetches came before.
    obtain ⟨bytes, hresult⟩ :
        ∃ bytes, (cpu.step m).result = .error (.invalidOpcode c.start bytes) := by
      rw [hstep, hreport]
      exact ⟨_, rfl⟩
    have huntouched := step_untouched_of_invalidOpcode hresult
    rw [hstep, hreport, Dialogue.report_over_memory] at huntouched
    obtain rfl : m' = m := huntouched.bus
    have hc : cpu.begin.Fetched m' c := huntouched.cpu
    rw [hstep, hstep, hgrown, hreport, Dialogue.report_grown fun i hi => hc.inside hi]
    exact .inr rfl

/-- A step that stays inside does the same in a larger memory. -/
theorem Cpu.step_grown (cpu : Cpu) (m : Memory δ) (h : isOutside (cpu.step m).result = false) :
    cpu.step (m.grown more) = (cpu.step m).grown more := by
  rcases cpu.step_grown_or_outside m more with ⟨address, -, hresult⟩ | hgrown
  · rw [hresult] at h
    cases h
  · exact hgrown

namespace Machine

/-- The machine with more memory. -/
def grown (more : Nat) (m : Machine δ) : Machine δ :=
  { m with memory := m.memory.grown more }

omit [Device δ] in
theorem settle_grown (m : Machine δ) (out : Outcome (Memory δ) Nat) :
    (m.grown more).settle (out.grown more) = (m.settle out).grown more := by
  obtain ⟨_ | _, cpu, bus⟩ := out <;> rfl

/-- A step of a machine that stays inside does the same in a larger memory. -/
theorem step_grown (m : Machine δ) (h : isOutside m.step.1 = false) :
    (m.grown more).step = (m.step.1, m.step.2.grown more) := by
  rw [step_eq] at h ⊢
  have hcpu : (m.grown more).cpu.step (m.grown more).memory = _ := m.cpu.step_grown m.memory h
  rw [hcpu, settle_grown, step_eq]
  rfl

/-- A run that meets no address outside is the same run over more memory. -/
theorem run_grown (m : Machine δ) (h : isOutside m.run.1 = false) :
    (m.grown more).run = (m.run.1, m.run.2.grown more) :=
  runFor_commutes (f := grown more) (q := Fault.isOutside) step_grown (fun _ => rfl) (fun _ => rfl)
    (m.limit - m.iterations) m h

end Machine

/-! ## Whole lives -/

/-- The snapshot of a machine that has more bytes after its own. -/
def Snapshot.grown (more : Nat) (s : Snapshot) : Snapshot :=
  { s with memory := s.memory ++ Array.replicate more 0 }

namespace Setup

/-- The setup with `size` bytes of memory. -/
def withSize (s : Setup) (size : Nat) : Setup :=
  { s with memorySize := size }

variable {s : Setup} {size : Nat}

theorem problem_eq_none_iff : s.problem? = none ↔
    (s.memorySize ≠ 0 ∧ s.memorySize ≤ addressSpace) ∧ s.image.size ≤ s.memorySize ∧
      s.loadAddress.toNat + s.program.size ≤ s.memorySize := by
  unfold problem?
  split
  · exact iff_of_false nofun (by omega)
  split
  · exact iff_of_false nofun (by omega)
  split
  · exact iff_of_false nofun (by omega)
  · exact iff_of_true rfl (by omega)

/-- What fits into memory fits into more. -/
theorem problem_withSize (h : s.problem? = none) (hsize : s.memorySize ≤ size)
    (hle : size ≤ addressSpace) : (s.withSize size).problem? = none := by
  obtain ⟨⟨hne, -⟩, himage, hprogram⟩ := problem_eq_none_iff.1 h
  refine problem_eq_none_iff.2 ⟨⟨?_, hle⟩, Nat.le_trans himage hsize,
    Nat.le_trans hprogram hsize⟩
  show size ≠ 0
  omega

omit [Device δ] in
theorem memory_withSize {device : δ} {memory : Memory δ} (h : s.memory device = .ok memory)
    (hsize : s.memorySize ≤ size) :
    (s.withSize size).memory device = .ok (memory.grown (size - s.memorySize)) := by
  obtain ⟨filled, himage, hprogram⟩ := memory_eq_ok_iff.1 h
  have hblank : (Memory.zeroed s.memorySize device).grown (size - s.memorySize)
      = Memory.zeroed size device := by
    rw [Memory.zeroed_grown, Nat.add_sub_cancel' hsize]
  refine memory_eq_ok_iff.2 ⟨filled.grown (size - s.memorySize), ?_, Memory.load_grown hprogram⟩
  exact hblank ▸ Memory.load_grown himage

omit [Device δ] in
/-- A machine with a larger memory is the smaller one, grown. -/
theorem build_withSize {device : δ} {m : Machine δ} (h : s.build device = .ok m)
    (hsize : s.memorySize ≤ size) (hle : size ≤ addressSpace) :
    (s.withSize size).build device = .ok (m.grown (size - s.memorySize)) := by
  obtain ⟨hproblem, memory, hmemory, rfl⟩ := of_build h
  unfold build
  rw [problem_withSize hproblem hsize hle, memory_withSize hmemory hsize]
  rfl

omit [Device δ] in
/-- The memory of a setup that nothing stands in the way of can be filled. -/
theorem exists_memory (h : s.problem? = none) (device : δ) :
    ∃ memory, s.memory device = .ok memory := by
  obtain ⟨-, himage, hprogram⟩ := problem_eq_none_iff.1 h
  have hsize : (Memory.zeroed s.memorySize device).size = s.memorySize := Array.size_replicate
  obtain ⟨filled, hfilled⟩ : ∃ m, (Memory.zeroed s.memorySize device).load 0 s.image = .ok m :=
    Memory.exists_load (by rw [hsize]; exact (Nat.zero_add _).symm ▸ himage)
  obtain ⟨memory, hmemory⟩ : ∃ m, filled.load s.loadAddress s.program = .ok m :=
    Memory.exists_load (by rw [(Memory.load_keeps hfilled).1, hsize]; exact hprogram)
  exact ⟨memory, memory_eq_ok_iff.2 ⟨filled, hfilled, hmemory⟩⟩

omit [Device δ] in
/-- What stands in the way of a machine is the setup. -/
theorem of_build_error {device : δ} {fault : Fault} (h : s.build device = .error fault) :
    ∃ problem, fault = .setup problem := by
  unfold build at h
  cases hproblem : s.problem? with
  | some problem =>
    rw [hproblem] at h
    exact ⟨problem, (Except.error.inj h).symm⟩
  | none =>
    obtain ⟨memory, hmemory⟩ := exists_memory hproblem device
    rw [hproblem, hmemory] at h
    cases h

/-- An execution that meets no address outside is the same over more memory. -/
theorem execute_grown {m : Machine LatchedPorts} (h : s.build {} = .ok m)
    (hexecute : isOutside s.execute = false) (hsize : s.memorySize ≤ size)
    (hle : size ≤ addressSpace) :
    (s.withSize size).execute = s.execute.map (Snapshot.grown (size - s.memorySize)) := by
  rw [execute_of_build h, isOutside_map] at hexecute
  rw [execute_of_build h, execute_of_build (build_withSize h hsize hle), m.run_grown hexecute]
  cases m.run.1 <;> rfl

/-- **The size of memory bounds a run and has no other part in it.** If the execution of a setup
is done, it is done over more memory too, and the two ends are told apart by the zero bytes at the
end of memory alone; and if it is refused an opcode, so it is over more memory. -/
theorem execute_withSize (s : Setup) {size : Nat} (hsize : s.memorySize ≤ size)
    (hle : size ≤ addressSpace) :
    (∀ snapshot, s.execute = .ok snapshot → (s.withSize size).execute = .ok
      { snapshot with
        memory := snapshot.memory ++ Array.replicate (size - s.memorySize) 0 }) ∧
    ∀ pc bytes, s.execute = .error (.invalidOpcode pc bytes) →
      (s.withSize size).execute = .error (.invalidOpcode pc bytes) := by
  refine ⟨fun snapshot h => ?_, fun pc bytes h => ?_⟩
  · obtain ⟨m, hbuilt, -⟩ := of_execute h
    rw [execute_grown hbuilt (by rw [h]; rfl) hsize hle, h]
    rfl
  · cases hbuilt : s.build ({} : LatchedPorts) with
    | error fault =>
      -- Nothing is refused before there is a machine.
      obtain ⟨problem, rfl⟩ := of_build_error hbuilt
      rw [execute_of_error hbuilt] at h
      cases h
    | ok m =>
      rw [execute_grown hbuilt (by rw [h]; rfl) hsize hle, h]
      rfl

/-- INC A and HALT, and a prefix that is refused: two bytes of memory or four. -/
theorem execute_withSize_inc :
    let s : Setup := { memorySize := 2, program := #[0x3C, 0x76] }
    let refused : Setup := { memorySize := 2, program := #[0xDD, 0x00] }
    s.memorySize ≤ 4 ∧ 4 ≤ addressSpace ∧
    (∃ snapshot, s.execute = .ok snapshot ∧ snapshot.registers.acc.a = 1 ∧
      (s.withSize 4).execute = .ok
        { snapshot with memory := snapshot.memory ++ Array.replicate 2 0 }) ∧
    refused.execute = .error (.invalidOpcode 0 [0xDD, 0x00]) ∧
    (refused.withSize 4).execute = .error (.invalidOpcode 0 [0xDD, 0x00]) := by
  intro s refused
  have hle : 4 ≤ addressSpace := by decide
  obtain ⟨snapshot, hexecute, ha⟩ : ∃ snapshot, s.execute = .ok snapshot ∧
      snapshot.registers.acc.a = 1 :=
    of_toOption_map (by decide +kernel)
  have hrefused : refused.execute = .error (.invalidOpcode 0 [0xDD, 0x00]) :=
    error_of_causeOf (by decide +kernel)
  exact ⟨by decide, hle,
    ⟨snapshot, hexecute, ha, (execute_withSize s (by decide) hle).1 snapshot hexecute⟩,
    hrefused, (execute_withSize refused (by decide) hle).2 0 _ hrefused⟩

end Setup

end Z80
