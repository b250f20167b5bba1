import Mathlib
import Z80.Proofs.Acceptance
import Z80.Proofs.Growth
import Z80.Proofs.Totality

/-!
# What a fault says

A fault of a machine names the instruction that the machine was at, and says why it failed: an
address past the end of memory, or the bytes that were refused. To see that a step over a small
memory fails in no other way, it is compared with the step over memory of full size. Where the two
part, the smaller memory was left; where they do not, the step was refused, as what the manual does
not list is.

A step that fails is not counted. So a run that ends with a fault is the steps that completed, and
their account, followed by the one that failed (`of_runFor_error`).
-/

namespace Z80

variable {α δ : Type} [Device δ]

theorem error_of_map {ε γ : Type} {f : α → γ} {result : Except ε α} {cause : ε}
    (h : result.map f = .error cause) : result = .error cause := by
  cases result with
  | error =>
    cases h
    rfl
  | ok => cases h

/-! ## Steps -/

/-- A refusal covers two bytes or four. -/
theorem Manual.length_unlisted_mem (b0 b1 b2 b3 : Byte) :
    (unlisted b0 b1 b2 b3).length ∈ [2, 4] := by
  unfold unlisted
  split <;> simp

namespace Cpu

variable {cpu c : Cpu} {m : Memory δ} {fault : Fault}

/-- The fault is that of an address outside memory, asked for by the instruction at the program
counter. -/
def Misses (cpu : Cpu) (m : Memory δ) (fault : Fault) : Prop :=
  ∃ address : Word, ¬ address.toNat < m.size ∧
    fault = .outOfRange cpu.regs.pc address m.size

/-- The number of bytes between the program counter of `cpu` and that of `c`. -/
def distance (cpu c : Cpu) : Nat :=
  (c.regs.pc - cpu.regs.pc).toNat

/-- The fault is the refusal of the bytes from the program counter of `cpu` up to that of `c`, all
of which are in memory. -/
structure Refuses (cpu c : Cpu) (m : Memory δ) (fault : Fault) : Prop where
  count : cpu.distance c ∈ [2, 4]
  inside : ∀ i < cpu.distance c, (cpu.regs.pc + UInt16.ofNat i).toNat < m.size
  fault_eq : fault = .invalidOpcode cpu.regs.pc
    ((List.range (cpu.distance c)).map fun i => m.byte (cpu.regs.pc + UInt16.ofNat i))

/-- What a refusal covers is far less than what an address can count. -/
theorem distance_past {count : Nat} (h : count ≤ Dialogue.reportLimit) :
    cpu.distance (cpu.begin.past count) = count := by
  show (cpu.regs.pc + UInt16.ofNat count - cpu.regs.pc).toNat = count
  rw [UInt16.add_comm, UInt16.add_sub_cancel, UInt16.toNat_ofNat_of_lt']
  exact Nat.lt_of_le_of_lt h (by decide)

omit [Device δ] in
/-- What can only end at an address outside is charged to the instruction at the program counter. -/
theorem misses_of_ends {v : Variant} {out : Outcome (Memory δ) α} (hends : out.Ends v)
    (hsize : out.bus.size = m.size) (h : (out.blame cpu.regs.pc).result = .error fault) :
    cpu.Misses m fault := by
  obtain ⟨cause | x, c, bus⟩ := out
  · obtain ⟨address, houtside, hcause⟩ := hends
    have hmisses : (⟨.error cause, c, bus⟩ : Outcome (Memory δ) α).Misses :=
      ⟨address, houtside, congrArg Except.error hcause⟩
    obtain ⟨address, houtside, hresult⟩ := hmisses.blame hsize cpu.regs.pc
    rw [h] at hresult
    exact ⟨address, houtside, Except.error.inj hresult⟩
  · cases h

/-- Where the manual counts and memory is everywhere, a step that fails has fetched two bytes or
four and refused them. -/
theorem step_error_of_full (hc : cpu.variant.conformance = .documented)
    (hm : m.size = addressSpace) (h : (cpu.step m).result = .error fault) :
    ∃ count ∈ [2, 4], (cpu.step m).cpu = cpu.begin.past count ∧
      fault = .invalidOpcode cpu.regs.pc ((List.range count).map (cpu.ahead m)) := by
  have hunlisted : ¬ Manual.Lists (cpu.ahead m 0) (cpu.ahead m 1) (cpu.ahead m 3) := by
    intro hlisted
    obtain ⟨cycles, hok⟩ := step_of_listed hm hlisted
    rw [h] at hok
    cases hok
  let bytes := Manual.unlisted (cpu.ahead m 0) (cpu.ahead m 1) (cpu.ahead m 2) (cpu.ahead m 3)
  have hbytes : (List.range bytes.length).map (cpu.ahead m) = bytes :=
    Manual.unlisted_eq (cpu.ahead m)
  have hstep : cpu.step m = _ := step_of_unlisted hc hm hunlisted
  rw [hstep] at h
  refine ⟨bytes.length, Manual.length_unlisted_mem _ _ _ _, congrArg Outcome.cpu hstep, ?_⟩
  rw [hbytes]
  exact (Except.error.inj h).symm

/-- Where the manual counts, a step fails at an address outside or is refused. -/
theorem step_error_of_documented (hc : cpu.variant.conformance = .documented)
    (hm : m.size ≤ addressSpace) (h : (cpu.step m).result = .error fault) :
    cpu.Misses m fault ∨ cpu.Refuses (cpu.step m).cpu m fault := by
  rcases cpu.step_grown_or_outside m (addressSpace - m.size) with
    ⟨address, houtside, hresult⟩ | hgrown
  · rw [h] at hresult
    exact .inl ⟨address, houtside, Except.error.inj hresult⟩
  · right
    have hfull : (m.grown (addressSpace - m.size)).size = addressSpace := by
      rw [Memory.size_grown, Nat.add_sub_cancel' hm]
    have hresult : (cpu.step (m.grown (addressSpace - m.size))).result = .error fault := by
      rw [hgrown]
      exact h
    obtain ⟨count, hcount, hcpu, hfault⟩ := step_error_of_full hc hfull hresult
    rw [hgrown] at hcpu
    replace hcpu : (cpu.step m).cpu = cpu.begin.past count := hcpu
    have hle : count ≤ Dialogue.reportLimit := by
      unfold Dialogue.reportLimit
      grind
    have hdistance : cpu.distance (cpu.step m).cpu = count := by
      rw [hcpu, distance_past hle]
    -- What has been fetched is in the smaller memory too.
    have hfetched := (step_untouched_of_invalidOpcode (h.trans (congrArg Except.error hfault))).cpu
    have hinside : ∀ i < count, (cpu.regs.pc + UInt16.ofNat i).toNat < m.size := by
      intro i hi
      rw [hcpu] at hfetched
      exact hfetched.inside (Nat.lt_of_lt_of_eq hi (distance_past hle).symm)
    refine ⟨hdistance.symm ▸ hcount, hdistance.symm ▸ hinside, ?_⟩
    rw [hfault, hdistance]
    refine congrArg (Fault.invalidOpcode cpu.regs.pc) (List.map_congr_left fun i hi => ?_)
    exact Memory.byte_grown (hinside i (List.mem_range.1 hi))

/-- The instruction at the program counter is nothing but prefixes, without end. -/
def IsEndless (cpu : Cpu) (m : Memory δ) : Prop :=
  cpu.variant.conformance = .undocumented ∧ m.OnlyPrefixes

/-- A step that fails asks for an address outside, is refused, or finds prefixes without an end. -/
theorem step_error (hm : m.size ≤ addressSpace) (h : (cpu.step m).result = .error fault) :
    cpu.Misses m fault ∨ cpu.Refuses (cpu.step m).cpu m fault ∨
      cpu.IsEndless m ∧ fault = .endlessPrefixes cpu.regs.pc := by
  cases hc : cpu.variant.conformance with
  | documented =>
    rcases step_error_of_documented hc hm h with hmisses | hrefuses
    · exact .inl hmisses
    · exact .inr (.inl hrefuses)
  | undocumented =>
    -- Nothing is refused here, so that only memory or an endless opcode can be the cause.
    by_cases hprefixes : m.OnlyPrefixes
    · rw [step_onlyPrefixes hc hprefixes] at h
      exact .inr (.inr ⟨⟨hc, hprefixes⟩, (Except.error.inj h).symm⟩)
    · have hends : ((Action.instruction cpu.begin).run m).Ends cpu.variant :=
        Action.instruction_ends rfl hc hm hprefixes
      have hsize : ((Action.instruction cpu.begin).run m).bus.size = m.size :=
        Dialogue.run_keeps (Memory.bus_keeps_size m.size) _ rfl
      exact .inl (misses_of_ends hends hsize h)

end Cpu

/-! ## Interrupts -/

namespace Action

variable {cpu : Cpu} {m : Memory δ} {data : Byte} {fault : Fault}

/-- Whether a byte is a restart instruction. -/
def isRestart (data : Byte) : Bool :=
  data &&& 0xC7 == 0xC7

/-- A byte that is a restart is decoded as one. -/
theorem mainInstruction_of_isRestart (h : isRestart data = true) :
    Opcode.mainInstruction .hl data = .restart (UInt16.ofNat (8 * Opcode.fieldY data)) := by
  revert data
  exact @forall_byte _ (by decide +kernel)

theorem completes_enterHandler (handler : Word) (cpu : Cpu) :
    (enterHandler handler cpu).Completes cpu.variant := by
  rw [enterHandler_eq]
  exact .write (.write (.done rfl))

/-- A handler is found, unless the byte for mode 0 is no restart instruction. -/
theorem handlerFor_completes_or (data : Byte) (cpu : Cpu) :
    (handlerFor data cpu).Completes cpu.variant ∨
      cpu.mode = .mode0 ∧ isRestart data = false ∧
        handlerFor data cpu = .fail (.invalidOpcode cpu.regs.pc [data]) cpu := by
  rw [handlerFor_eq]
  cases cpu.mode with
  | mode0 =>
    cases hrestart : isRestart data with
    | true =>
      rw [mainInstruction_of_isRestart hrestart]
      exact .inl (.done rfl)
    | false =>
      dsimp only
      split
      · exact .inl (.done rfl)
      · exact .inr ⟨rfl, rfl, rfl⟩
  | mode1 => exact .inl (.done rfl)
  | mode2 => exact .inl (.read fun _ => .read fun _ => .done rfl)

end Action

namespace Cpu

variable {cpu : Cpu} {m : Memory δ} {data : Byte} {fault : Fault}

/-- Entering a handler fails only where an address is outside. -/
theorem enterHandler_error {handler : Word} {c : Cpu}
    (h : (((Action.enterHandler handler c).run m).blame cpu.regs.pc).result = .error fault) :
    cpu.Misses m fault := by
  have hsize : ((Action.enterHandler handler c).run m).bus.size = m.size :=
    Dialogue.run_keeps (Memory.bus_keeps_size m.size) _ rfl
  exact misses_of_ends ((Action.completes_enterHandler handler c).run_ends m) hsize h

/-- The fault is the refusal of a byte on the data bus that is no restart instruction. -/
def RefusesData (cpu : Cpu) (data : Byte) (fault : Fault) : Prop :=
  cpu.mode = .mode0 ∧ Action.isRestart data = false ∧
    fault = .invalidOpcode cpu.regs.pc [data]

/-- An interrupt fails at an address outside, or because the byte on the bus is no restart. -/
theorem interrupt_error
    (h : ((cpu.interrupt data m).blame cpu.regs.pc).result = .error fault) :
    cpu.Misses m fault ∨ cpu.RefusesData data fault := by
  rcases cpu.interrupt_cases data m with
    ⟨-, he⟩ | ⟨-, cause, bus', hfind, he⟩ | ⟨-, handler, cycles, bus', hfind, he⟩
  · rw [he] at h
    cases h
  · rw [he] at h
    have hfound : (((Action.handlerFor data cpu).run m).blame cpu.regs.pc).result
        = .error fault := by
      rw [hfind]
      exact congrArg Except.error (Except.error.inj h)
    rcases Action.handlerFor_completes_or data cpu with hcompletes | ⟨hmode, hdata, hfail⟩
    · have hsize : ((Action.handlerFor data cpu).run m).bus.size = m.size :=
        Dialogue.run_keeps (Memory.bus_keeps_size m.size) _ rfl
      exact .inl (misses_of_ends (hcompletes.run_ends m) hsize hfound)
    · rw [hfail] at hfound
      exact .inr ⟨hmode, hdata, (Except.error.inj hfound).symm⟩
  · have hbus : ((Action.handlerFor data cpu).run m).bus = m :=
      Action.run_handlerFor_bus data cpu m
    rw [hfind] at hbus
    obtain rfl : bus' = m := hbus
    rw [he, Outcome.map_blame] at h
    exact .inl (enterHandler_error (error_of_map h))

/-- A non-maskable interrupt fails only at an address outside. -/
theorem nonMaskableInterrupt_error
    (h : ((cpu.nonMaskableInterrupt m).blame cpu.regs.pc).result = .error fault) :
    cpu.Misses m fault := by
  rw [nonMaskableInterrupt_eq, Outcome.map_blame] at h
  exact enterHandler_error (error_of_map h)

end Cpu

/-! ## Machines -/

namespace Machine

variable {m after : Machine δ} {fault : Fault}

/-- What a machine has counted. -/
def counts (m : Machine δ) : Nat × Nat :=
  (m.cycles, m.iterations)

/-- A step of `m` that fails leads to `after`: the fault names the instruction and its cause, and
the instruction is not counted. -/
structure FailsWith (m : Machine δ) (fault : Fault) (after : Machine δ) : Prop where
  cause : m.cpu.Misses m.memory fault ∨ m.cpu.Refuses after.cpu m.memory fault ∨
    m.cpu.IsEndless m.memory ∧ fault = .endlessPrefixes m.cpu.regs.pc
  counts : after.counts = m.counts
  status : after.status = .faulted

/-- A step of a machine that fails leaves its counts, and its fault says why. -/
theorem step_failsWith (hm : m.memory.size ≤ addressSpace) (h : m.step = (.error fault, after)) :
    m.FailsWith fault after := by
  rw [step_eq] at h
  obtain ⟨hresult, hafter⟩ := Prod.mk.inj h
  rw [settle, hresult] at hafter
  subst hafter
  exact ⟨Cpu.step_error hm hresult, rfl, rfl⟩

/-- A run that fails is some steps that complete and one that fails. -/
theorem of_runFor_error {count : Nat} (h : m.runFor count = (.error fault, after)) :
    ∃ (costs : List Nat) (last : Machine δ), m.steps costs.length = (costs.map .ok, last) ∧
      last.step = (.error fault, after) := by
  -- The costs are collected from the front: the run after the first step fails in the same way.
  induction count generalizing m with
  | zero => cases h
  | succ count ih =>
    rcases hs : m.step with ⟨cause | cycles, next⟩
    · rw [runFor_of_error hs] at h
      cases h
      exact ⟨[], m, rfl, hs⟩
    · by_cases hh : next.status = .halted
      · rw [runFor_of_halted hs hh] at h
        cases h
      · rw [runFor_of_running hs hh] at h
        obtain ⟨costs, last, hsteps, hlast⟩ := ih h
        refine ⟨cycles :: costs, last, ?_, hlast⟩
        rw [List.length_cons, steps, hs]
        simp only [hsteps, List.map_cons]

/-- What a step that completes adds to the account; the size of memory stays. -/
theorem step_account {cycles : Nat} (h : m.step = (.ok cycles, after)) :
    after.counts = (m.cycles + cycles, m.iterations + 1) ∧
      after.memory.size = m.memory.size := by
  rw [step_eq] at h
  obtain ⟨hresult, hafter⟩ := Prod.mk.inj h
  rw [settle, hresult] at hafter
  subst hafter
  exact ⟨rfl, Cpu.step_keeps (Memory.bus_keeps_size m.memory.size) m.cpu rfl⟩

/-- Steps that are done add their clock cycles to the account, and one iteration each. -/
theorem steps_account {costs : List Nat} (h : m.steps costs.length = (costs.map .ok, after)) :
    after.counts = (m.cycles + costs.sum, m.iterations + costs.length) ∧
      after.memory.size = m.memory.size := by
  induction costs generalizing m with
  | nil =>
    cases h
    exact ⟨rfl, rfl⟩
  | cons cycles costs ih =>
    rcases hs : m.step with ⟨result, next⟩
    rw [List.length_cons, steps, hs] at h
    obtain ⟨hresults, hafter⟩ := Prod.mk.inj h
    obtain ⟨rfl, hrest⟩ := List.cons.inj hresults
    obtain ⟨hcounts, hsize⟩ := ih (Prod.ext hrest hafter)
    obtain ⟨hstep, hkept⟩ := step_account hs
    obtain ⟨hcycles, hiterations⟩ := Prod.mk.inj hstep
    refine ⟨hcounts.trans ?_, hsize.trans hkept⟩
    rw [hcycles, hiterations, List.sum_cons, List.length_cons]
    exact Prod.ext (Nat.add_assoc ..) (Nat.add_right_comm ..)

/-- An interrupt that fails leaves the counts. -/
theorem of_interrupt_error {data : Byte} (h : m.interrupt data = (.error fault, after)) :
    (m.cpu.Misses m.memory fault ∨ m.cpu.RefusesData data fault) ∧ after.counts = m.counts := by
  unfold interrupt at h
  rcases hout : (m.cpu.interrupt data m.memory).blame m.cpu.regs.pc with ⟨cause | _ | _, c, bus⟩
  · rw [hout] at h
    cases h
    exact ⟨Cpu.interrupt_error (congrArg Outcome.result hout), rfl⟩
  · rw [hout] at h
    cases h
  · rw [hout] at h
    cases h

/-- A non-maskable interrupt that fails leaves the counts. -/
theorem of_nonMaskableInterrupt_error (h : m.nonMaskableInterrupt = (.error fault, after)) :
    m.cpu.Misses m.memory fault ∧ after.counts = m.counts := by
  unfold nonMaskableInterrupt at h
  rcases hout : (m.cpu.nonMaskableInterrupt m.memory).blame m.cpu.regs.pc with ⟨cause | _, c, bus⟩
  · rw [hout] at h
    cases h
    exact ⟨Cpu.nonMaskableInterrupt_error (congrArg Outcome.result hout), rfl⟩
  · rw [hout] at h
    cases h

end Machine

/-- **Every fault names the instruction it happened to, and nothing is counted for it.** Let a
machine be reachable. If it fails at a step, the fault has the address the step began at, and it is
an address outside memory or the bytes that the instruction had fetched and that were refused; a
chain of prefixes without end apart, it is nothing else. If it fails in the course of a run, it has
counted the instructions that completed, and then failed at a step. If it fails on the way to a
handler, the fault has the address it was at, and it is an address outside or, in mode 0, the byte
on the data bus that is no restart instruction. -/
theorem faults_attributed {m : Machine δ} (hm : m.Reachable) :
    (∀ fault after, m.step = (.error fault, after) → m.FailsWith fault after) ∧
    (∀ fault after, m.run = (.error fault, after) → ∃ (costs : List Nat) (last : Machine δ),
      m.steps costs.length = (costs.map .ok, last) ∧ last.step = (.error fault, after) ∧
      last.FailsWith fault after ∧
      after.counts = (m.cycles + costs.sum, m.iterations + costs.length)) ∧
    (∀ data fault after, m.interrupt data = (.error fault, after) →
      (m.cpu.Misses m.memory fault ∨ m.cpu.RefusesData data fault) ∧ after.counts = m.counts) ∧
    ∀ fault after, m.nonMaskableInterrupt = (.error fault, after) →
      m.cpu.Misses m.memory fault ∧ after.counts = m.counts := by
  have hsize := hm.size.2
  refine ⟨fun _ _ => Machine.step_failsWith hsize, fun fault after h => ?_,
    fun _ _ _ => Machine.of_interrupt_error, fun _ _ => Machine.of_nonMaskableInterrupt_error⟩
  obtain ⟨costs, last, hsteps, hlast⟩ := Machine.of_runFor_error h
  obtain ⟨hcounts, hkept⟩ := Machine.steps_account hsteps
  have hfails : last.FailsWith fault after :=
    Machine.step_failsWith (Nat.le_trans (Nat.le_of_eq hkept) hsize) hlast
  exact ⟨costs, last, hsteps, hlast, hfails, hfails.counts.trans hcounts⟩

/-- LD A,1 completes, and the next instruction would lie past the end of memory. -/
theorem faults_attributed_past_end :
    let s : Setup := { memorySize := 2, program := #[0x3E, 0x01] }
    ∃ built : Machine LatchedPorts, s.build {} = .ok built ∧ built.Reachable ∧
      built.run.1 = .error (.outOfRange 2 2 2) ∧
      ∃ (costs : List Nat) (last : Machine LatchedPorts),
        built.steps costs.length = (costs.map .ok, last) ∧
        last.FailsWith (.outOfRange 2 2 2) built.run.2 ∧ costs.sum = 7 ∧ costs.length = 1 := by
  intro s
  obtain ⟨built, hbuilt, hran⟩ : ∃ built : Machine LatchedPorts, s.build {} = .ok built ∧
      (built.counts, causeOf built.run.1, built.run.2.counts)
        = ((0, 0), some (.outOfRange 2 2 2), (7, 1)) :=
    of_toOption_map (by decide +kernel)
  obtain ⟨hstart, hrest⟩ := Prod.mk.inj hran
  obtain ⟨hcause, hend⟩ := Prod.mk.inj hrest
  obtain ⟨hcycles, hiterations⟩ := Prod.mk.inj hstart
  have hfault : built.run.1 = .error (.outOfRange 2 2 2) := error_of_causeOf hcause
  have hreachable : built.Reachable := .build hbuilt
  obtain ⟨costs, last, hsteps, -, hfails, hcounts⟩ :=
    (faults_attributed hreachable).2.1 _ _ (Prod.ext hfault rfl)
  rw [hend, hcycles, hiterations, Nat.zero_add, Nat.zero_add] at hcounts
  obtain ⟨hsum, hlength⟩ := Prod.mk.inj hcounts
  exact ⟨built, hbuilt, hreachable, hfault, costs, last, hsteps, hfails, hsum.symm, hlength.symm⟩

end Z80
