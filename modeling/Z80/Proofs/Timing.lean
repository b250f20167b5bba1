import Z80.Proofs.Frame
import Z80.Proofs.Run
import Z80.Proofs.Translation.Variant

/-!
# The two tables of clock cycles

The timing of a processor is asked once in an instruction, when all else of it has been done. So two
runs that differ in their timing perform the same instructions and end in the same state, and their
counts of clock cycles are apart by what the two tables are apart for these instructions: one for
each INC or DEC of BC, DE, HL or SP (`Machine.steps_behind`, `Machine.runFor_behind`).

`Action.untimed` is an instruction without its clock cycles, which is what the two runs have in
common.
-/

namespace Z80

variable {β δ : Type}

/-! ## What the tables differ in -/

/-- Whether an instruction is INC or DEC of BC, DE, HL or SP. -/
def Instruction.stepsPair : Instruction → Bool
  | .incrementPair target | .decrementPair target => [Pair.bc, .de, .hl, .sp].contains target
  | _ => false

/-- INC and DEC of a pair, if an opcode selects it, is of one of these or of an index register. -/
theorem Opcode.cycles_datasheet (opcode : Opcode) (taken : Bool) :
    opcode.instruction.cycles .datasheet taken
      = opcode.instruction.cycles .reference taken + opcode.instruction.stepsPair.toNat := by
  cases opcode with
  | main index byte =>
    revert byte
    cases index <;> cases taken <;> exact forall_byte (by decide +kernel)
  | bits byte => cases h : bitOperation byte <;> simp only [instruction, h] <;> rfl
  | indexedBits _ _ byte => cases h : bitOperation byte <;> simp only [instruction, h] <;> rfl
  | extended byte =>
    revert byte
    cases taken <;> exact forall_byte (by decide +kernel)

/-! ## Instructions without their clock cycles -/

/-- What is known of an instruction when it is done, its clock cycles aside. -/
structure Performed where
  /-- The prefixes without effect before it. -/
  ignored : Nat
  opcode : Opcode
  taken : Bool

/-- The clock cycles by one of the tables. -/
def Performed.cycles (p : Performed) (timing : Timing) : Nat :=
  Action.ignoredPrefixCycles * p.ignored + p.opcode.instruction.cycles timing p.taken

/-- The datasheet gives INC and DEC of a pair one clock cycle more, and nothing else. -/
theorem Performed.cycles_datasheet (p : Performed) :
    p.cycles .datasheet = p.cycles .reference + p.opcode.instruction.stepsPair.toNat := by
  rw [cycles, cycles, p.opcode.cycles_datasheet, Nat.add_assoc]

namespace Action

/-- Runs the instruction at the program counter and leaves its clock cycles open. -/
def untimed : Action Performed := do
  let (ignored, opcode) ← fetchOpcode
  admitOpcode opcode
  let taken ← execute opcode.instruction
  return { ignored, opcode, taken }

/-- The clock cycles are worked out at the end, and nothing before asks for them. -/
theorem observedInstruction_eq_untimed :
    observedInstruction = untimed >>= fun p => do
      return (p.cycles (← get).variant.timing, p.opcode.instruction) := by
  simp only [observedInstruction, untimed, perform, Performed.cycles, bind_assoc, pure_bind]

theorem untimed_leaves (cpu : Cpu) :
    (untimed cpu).Leaves (·.control = cpu.control)
      fun p c => c.control = p.opcode.instruction.control cpu.control := by
  refine (leaves_kept Cpu.control fetchOpcode cpu).bind fun selected c hc => ?_
  rw [← hc]
  refine (leaves_kept Cpu.control (admitOpcode selected.2) c).bind fun _ c' hc' => ?_
  rw [← hc']
  exact (execute_leaves selected.2.instruction c').bind fun taken c'' hc'' => .done hc''

/-- The clock cycles of an instruction are known when it is done. -/
theorem run_observedInstruction [Bus β] (cpu : Cpu) (bus : β) :
    (observedInstruction cpu).run bus
      = ((untimed cpu).run bus).map
          (fun p => (p.cycles cpu.variant.timing, p.opcode.instruction)) id := by
  have hleaves := (untimed_leaves cpu).run bus
  rw [observedInstruction_eq_untimed, run_bind]
  generalize (untimed cpu).run bus = out at hleaves
  obtain ⟨fault | p, c, bus'⟩ := out
  · rfl
  · -- The table is read when the instruction is done, which has left it as it was.
    have hcontrol : c.control = p.opcode.instruction.control cpu.control := hleaves
    have hvariant : c.variant = cpu.variant :=
      (congrArg Cpu.variant hcontrol).trans (Instruction.control_frame _ cpu.control).2.2.2
    show (⟨.ok (p.cycles c.variant.timing, p.opcode.instruction), c, bus'⟩ : Outcome _ _) = _
    rw [hvariant]
    rfl

open Translation (ofVariant)

/-- The table of clock cycles has no part in an instruction without them. -/
theorem tracks_untimed {f : Variant → Variant} (hf : KeepsFlagModel (ofVariant f)) {lax : Prop}
    (hv : Admits (ofVariant f) lax) : Tracks (ofVariant f) lax id untimed untimed := by
  refine .bind (.bind tracks_fetch fun byte => tracks_select hv (fun _ => rfl) _ _ _ byte)
    fun selected => ?_
  refine .bind (tracks_admitOpcode hv selected.2) fun _ => ?_
  have hexecute := tracks_execute Translation.ofVariant_faithful hv selected.2.instruction
    (fun _ => hf) (fun _ => rfl)
  rw [Translation.ofVariant_instruction] at hexecute
  exact .bind hexecute fun taken => .pure id _

end Action

/-- The processor with one of the tables of clock cycles. -/
def Cpu.timed (timing : Timing) (cpu : Cpu) : Cpu :=
  { cpu with variant.timing := timing }

/-- Without its clock cycles an instruction runs alike under both timings. -/
theorem Action.run_untimed [Bus β] (timing : Timing) (cpu : Cpu) (bus : β) :
    (untimed (cpu.timed timing)).run bus
      = ((untimed cpu).run bus).map id (Cpu.timed timing) := by
  have hcpu : (Translation.ofVariant fun v => { v with timing }).cpu = Cpu.timed timing :=
    funext fun c => Translation.ofVariant_cpu _ c
  have hkeeps : KeepsFlagModel (.ofVariant fun v => { v with timing }) := fun _ => rfl
  have hadmits : Admits (.ofVariant fun v => { v with timing }) False := .inl fun _ => rfl
  have hparallel := tracks_untimed hkeeps hadmits cpu
  rw [hcpu] at hparallel
  exact hparallel.run_eq (f := Cpu.timed timing) (fun _ => ⟨rfl, rfl⟩) bus False.elim

/-! ## Steps -/

/-- What an instruction costs more by the datasheet, if one has been completed. -/
def extraCycles (completed : Option Instruction) : Nat :=
  (completed.any Instruction.stepsPair).toNat

namespace Cpu

variable [Bus β]

/-- A step is an instruction and its clock cycles. -/
theorem step_eq_untimed (cpu : Cpu) (bus : β) :
    cpu.step bus
      = (((Action.untimed cpu.begin).run bus).map (·.cycles cpu.variant.timing) id).blame
          cpu.regs.pc := by
  rw [step_eq_observed, Action.run_observedInstruction]
  rcases (Action.untimed cpu.begin).run bus with ⟨_ | _, _, _⟩ <;> rfl

theorem executed_eq_untimed (cpu : Cpu) (bus : β) :
    cpu.executed bus
      = ((Action.untimed cpu.begin).run bus).result.toOption.map (·.opcode.instruction) := by
  rw [executed, Action.run_observedInstruction]
  rcases (Action.untimed cpu.begin).run bus with ⟨_ | _, _, _⟩ <;> rfl

/-- The same instruction is performed by both tables. -/
theorem executed_timed (timing : Timing) (cpu : Cpu) (bus : β) :
    (cpu.timed timing).executed bus = cpu.executed bus := by
  have huntimed := Action.run_untimed timing cpu.begin bus
  have hbegin : (cpu.timed timing).begin = cpu.begin.timed timing := rfl
  rw [executed_eq_untimed, executed_eq_untimed, hbegin, huntimed]
  rcases (Action.untimed cpu.begin).run bus with ⟨_ | _, _, _⟩ <;> rfl

/-- A step by the datasheet is a step by the reference, but for its clock cycles. -/
theorem step_datasheet {cpu : Cpu} (h : cpu.variant.timing = .reference) (bus : β) :
    (cpu.timed .datasheet).step bus
      = (cpu.step bus).map (· + extraCycles (cpu.executed bus)) (timed .datasheet) := by
  have huntimed := Action.run_untimed .datasheet cpu.begin bus
  have hbegin : (cpu.timed .datasheet).begin = cpu.begin.timed .datasheet := rfl
  rw [step_eq_untimed, step_eq_untimed, executed_eq_untimed, hbegin, huntimed, h]
  rcases (Action.untimed cpu.begin).run bus with ⟨_ | p, c, bus'⟩
  · rfl
  · show (⟨.ok (p.cycles .datasheet), c.timed .datasheet, bus'⟩ : Outcome β Nat) = _
    rw [p.cycles_datasheet]
    rfl

/-- A step leaves the variant. -/
theorem step_variant (cpu : Cpu) (bus : β) : (cpu.step bus).cpu.variant = cpu.variant := by
  show (cpu.step bus).cpu.control.variant = cpu.begin.control.variant
  rcases cpu.step_cases bus with ⟨_, -, -, hcontrol⟩ | ⟨_, i, -, -, hcontrol⟩
  · rw [hcontrol]
  · rw [hcontrol, (i.control_frame cpu.begin.control).2.2.2]

/-- A step that fails has completed nothing. -/
theorem extraCycles_of_error {cpu : Cpu} {bus : β} {fault : Fault}
    (h : (cpu.step bus).result = .error fault) : extraCycles (cpu.executed bus) = 0 := by
  rcases cpu.step_cases bus with ⟨_, -, hnone, -⟩ | ⟨_, _, hok, -, -⟩
  · rw [hnone]
    rfl
  · rw [h] at hok
    cases hok

end Cpu

/-! ## Machines -/

/-- How many of the instructions that have been completed are INC or DEC of BC, DE, HL or SP. -/
def pairSteps (completed : List (Option Instruction)) : Nat :=
  completed.countP (·.any Instruction.stepsPair)

theorem pairSteps_cons (i : Option Instruction) (completed : List (Option Instruction)) :
    pairSteps (i :: completed) = extraCycles i + pairSteps completed := by
  rw [pairSteps, List.countP_cons, Nat.add_comm]
  unfold extraCycles pairSteps
  cases i.any Instruction.stepsPair <;> rfl

namespace Machine

/-- The machine with one of the tables of clock cycles. -/
def timed (timing : Timing) (m : Machine δ) : Machine δ :=
  { m with cpu := m.cpu.timed timing }

/-- The machine by the datasheet, with `extra` clock cycles more. -/
def behind (extra : Nat) (m : Machine δ) : Machine δ :=
  { m with cpu := m.cpu.timed .datasheet, cycles := m.cycles + extra }

/-- A machine whose account is behind settles what it has run, and is behind by so much more. -/
theorem settle_behind {m : Machine δ} {out : Outcome (Memory δ) Nat} {extra more : Nat}
    (h : ∀ fault, out.result = .error fault → more = 0) :
    (m.behind extra).settle (out.map (· + more) (Cpu.timed .datasheet))
      = (m.settle out).behind (extra + more) := by
  obtain ⟨fault | cycles, c, bus⟩ := out
  · obtain rfl := h fault rfl
    rfl
  · have hcycles : m.cycles + extra + (cycles + more) = m.cycles + cycles + (extra + more) := by
      omega
    unfold settle behind
    simp only [Outcome.map, Except.map, hcycles]
    rfl

variable [Device δ]

/-- The instructions that are completed in `count` steps, with `none` for a step that fails. -/
def completed : (count : Nat) → Machine δ → List (Option Instruction)
  | 0, _ => []
  | count + 1, m => m.cpu.executed m.memory :: completed count m.step.2

/-- The instructions that are completed in a run of up to `count`. -/
def completedFor : (count : Nat) → Machine δ → List (Option Instruction)
  | 0, _ => []
  | count + 1, m =>
    m.cpu.executed m.memory ::
      match m.step with
      | (.ok _, after) => if after.status = .halted then [] else completedFor count after
      | (.error _, _) => []

variable {m : Machine δ}

/-- One step makes a machine fall behind by the extra cycles of its instruction. -/
theorem step_behind (h : m.cpu.variant.timing = .reference) (extra : Nat) :
    (m.behind extra).step
      = (m.step.1.map (· + extraCycles (m.cpu.executed m.memory)),
          m.step.2.behind (extra + extraCycles (m.cpu.executed m.memory))) := by
  have hcpu : (m.behind extra).cpu.step (m.behind extra).memory
      = (m.cpu.step m.memory).map (· + extraCycles (m.cpu.executed m.memory))
          (Cpu.timed .datasheet) := Cpu.step_datasheet h m.memory
  rw [step_eq, hcpu, settle_behind fun fault => Cpu.extraCycles_of_error, step_eq]
  rfl

theorem executed_behind (m : Machine δ) (extra : Nat) :
    (m.behind extra).cpu.executed (m.behind extra).memory = m.cpu.executed m.memory :=
  Cpu.executed_timed .datasheet m.cpu m.memory

/-- No step changes the table. -/
theorem step_timing (h : m.cpu.variant.timing = .reference) :
    m.step.2.cpu.variant.timing = .reference := by
  rw [step_cpu, Cpu.step_variant, h]

/-! ### Lists of steps -/

theorem completed_behind (count : Nat) (h : m.cpu.variant.timing = .reference) (extra : Nat) :
    (m.behind extra).completed count = m.completed count := by
  induction count generalizing m extra with
  | zero => rfl
  | succ count ih =>
    rw [completed, completed, executed_behind, step_behind h, ih (step_timing h)]

/-- Each step costs the same by both tables, or one more by the datasheet. -/
theorem steps_behind (count : Nat) (h : m.cpu.variant.timing = .reference) (extra : Nat) :
    (m.behind extra).steps count
      = (List.zipWith (fun result i => result.map (· + extraCycles i)) (m.steps count).1
            (m.completed count),
          (m.steps count).2.behind (extra + pairSteps (m.completed count))) := by
  induction count generalizing m extra with
  | zero => rfl
  | succ count ih =>
    rw [completed, pairSteps_cons, ← Nat.add_assoc]
    simp only [steps, step_behind h, ih (step_timing h), List.zipWith_cons_cons]

/-! ### Runs -/

section runs

variable {count cycles : Nat} {after : Machine δ}

theorem completedFor_of_error {fault : Fault} (h : m.step = (.error fault, after)) :
    m.completedFor (count + 1) = [m.cpu.executed m.memory] := by
  rw [completedFor, h]

theorem completedFor_of_halted (h : m.step = (.ok cycles, after)) (hs : after.status = .halted) :
    m.completedFor (count + 1) = [m.cpu.executed m.memory] := by
  rw [completedFor, h]
  simp only [if_pos hs]

theorem completedFor_of_running (h : m.step = (.ok cycles, after))
    (hs : after.status ≠ .halted) :
    m.completedFor (count + 1) = m.cpu.executed m.memory :: after.completedFor count := by
  rw [completedFor, h]
  simp only [if_neg hs]

end runs

/-- A run by the datasheet completes the instructions of the run by the reference, and ends as it
does. -/
theorem runFor_behind (count : Nat) (h : m.cpu.variant.timing = .reference) (extra : Nat) :
    (m.behind extra).completedFor count = m.completedFor count ∧
    (m.behind extra).runFor count
      = ((m.runFor count).1,
          (m.runFor count).2.behind (extra + pairSteps (m.completedFor count))) := by
  induction count generalizing m extra with
  | zero => exact ⟨rfl, rfl⟩
  | succ count ih =>
    have hstep := step_behind h extra
    have hexecuted := executed_behind m extra
    have hafter := step_timing h
    rcases hs : m.step with ⟨fault | cycles, after⟩
    · rw [hs] at hstep
      rw [completedFor_of_error hs, completedFor_of_error hstep, runFor_of_error hs,
        runFor_of_error hstep, hexecuted, pairSteps_cons]
      exact ⟨rfl, rfl⟩
    · rw [hs] at hstep hafter
      -- The status is the same by both tables, so the two runs stop together.
      by_cases hh : after.status = .halted
      · rw [completedFor_of_halted hs hh, completedFor_of_halted hstep hh, runFor_of_halted hs hh,
          runFor_of_halted hstep hh, hexecuted, pairSteps_cons]
        exact ⟨rfl, rfl⟩
      · obtain ⟨hcompleted, hrun⟩ := ih hafter (extra + extraCycles (m.cpu.executed m.memory))
        rw [completedFor_of_running hs hh, completedFor_of_running hstep hh,
          runFor_of_running hs hh, runFor_of_running hstep hh, hexecuted, hcompleted, hrun,
          pairSteps_cons, Nat.add_assoc]
        exact ⟨rfl, rfl⟩

/-- The instructions that a run completes. -/
def completedRun (m : Machine δ) : List (Option Instruction) :=
  m.completedFor (m.limit - m.iterations)

/-- Any number of steps do the same under both timings, but for the account. -/
theorem steps_timed (m : Machine δ) (count : Nat) :
    let r := m.timed .reference
    let d := m.timed .datasheet
    d.completed count = r.completed count ∧
    (d.steps count).1 = List.zipWith (fun result i => result.map (· + extraCycles i))
      (r.steps count).1 (r.completed count) ∧
    (d.steps count).2 = (r.steps count).2.behind (pairSteps (r.completed count)) := by
  intro r d
  have hcompleted : d.completed count = r.completed count :=
    completed_behind (m := r) count rfl 0
  have hsteps : d.steps count = _ := steps_behind (m := r) count rfl 0
  rw [Nat.zero_add] at hsteps
  exact ⟨hcompleted, congrArg Prod.fst hsteps, congrArg Prod.snd hsteps⟩

/-- A run does the same under both timings, but for the account. -/
theorem run_timed (m : Machine δ) :
    let r := m.timed .reference
    let d := m.timed .datasheet
    d.completedRun = r.completedRun ∧
    d.run = (r.run.1, r.run.2.behind (pairSteps r.completedRun)) := by
  intro r d
  obtain ⟨hcompleted, hrun⟩ := runFor_behind (m := r) (m.limit - m.iterations) rfl 0
  rw [Nat.zero_add] at hrun
  exact ⟨hcompleted, hrun⟩

end Machine

/-! ## Whole lives -/

namespace Setup

/-- The setup of a machine with one of the tables of clock cycles. -/
def timed (timing : Timing) (s : Setup) : Setup :=
  { s with variant.timing := timing }

/-- The timing has no part in building a machine. -/
theorem build_timed (timing : Timing) (s : Setup) (device : δ) :
    (s.timed timing).build device = (s.build device).map (Machine.timed timing) := by
  have hproblem : (s.timed timing).problem? = s.problem? := rfl
  have hmemory : (s.timed timing).memory device = s.memory device := rfl
  unfold build
  rw [hproblem, hmemory]
  cases s.problem? with
  | some problem => rfl
  | none => cases s.memory device <;> rfl

/-- The instructions that an execution completes. -/
def completed (s : Setup) : List (Option Instruction) :=
  match s.build ({} : LatchedPorts) with
  | .ok m => m.completedRun
  | .error _ => []

end Setup

/-- The snapshot of a machine by the datasheet, with `extra` clock cycles more. -/
def Snapshot.behind (extra : Nat) (s : Snapshot) : Snapshot :=
  { s with variant.timing := .datasheet, cycles := s.cycles + extra }

/-- An execution by the datasheet is the execution by the reference, but for its clock cycles. -/
theorem Setup.execute_behind (s : Setup) :
    (s.timed .datasheet).completed = (s.timed .reference).completed ∧
    (s.timed .datasheet).execute = (s.timed .reference).execute.map
      (Snapshot.behind (pairSteps (s.timed .reference).completed)) := by
  have hdatasheet := s.build_timed .datasheet ({} : LatchedPorts)
  have hreference := s.build_timed .reference ({} : LatchedPorts)
  cases hb : s.build ({} : LatchedPorts) with
  | error fault =>
    rw [hb] at hdatasheet hreference
    rw [execute_of_error hdatasheet, execute_of_error hreference, completed, completed, hdatasheet,
      hreference]
    exact ⟨rfl, rfl⟩
  | ok m =>
    rw [hb] at hdatasheet hreference
    obtain ⟨hcompleted, hrun⟩ := m.run_timed
    rw [execute_of_build hdatasheet, execute_of_build hreference, completed, completed, hdatasheet,
      hreference]
    refine ⟨hcompleted, ?_⟩
    rw [hrun]
    show (m.timed .reference).run.1.map _ = ((m.timed .reference).run.1.map _).map _
    cases (m.timed .reference).run.1 <;> rfl

/-- **The table of clock cycles affects nothing but the count of clock cycles.** A setup builds the
same machine, or fails the same way. The machines complete the same instructions, step by step, and
in a run; a step costs one cycle more by the datasheet if it is INC or DEC of BC, DE, HL or SP, and
the same cycles or the same error otherwise; and the machines they lead to, the ends of a run and
what is seen of them are apart only by these cycles, added up. -/
theorem timing_only_counts [Device δ] :
    (∀ (s : Setup) (device : δ), (s.timed .datasheet).build device
      = ((s.timed .reference).build device).map (Machine.timed .datasheet)) ∧
    (∀ (m : Machine δ) (count : Nat),
      let r := m.timed .reference
      let d := m.timed .datasheet
      d.completed count = r.completed count ∧
      (d.steps count).1 = List.zipWith (fun result i => result.map (· + extraCycles i))
        (r.steps count).1 (r.completed count) ∧
      (d.steps count).2 = (r.steps count).2.behind (pairSteps (r.completed count))) ∧
    (∀ m : Machine δ,
      let r := m.timed .reference
      let d := m.timed .datasheet
      d.completedRun = r.completedRun ∧
      d.run = (r.run.1, r.run.2.behind (pairSteps r.completedRun))) ∧
    ∀ s : Setup,
      (s.timed .datasheet).completed = (s.timed .reference).completed ∧
      (s.timed .datasheet).execute = (s.timed .reference).execute.map
        (Snapshot.behind (pairSteps (s.timed .reference).completed)) := by
  refine ⟨fun s device => ?_, Machine.steps_timed, Machine.run_timed, Setup.execute_behind⟩
  rw [Setup.build_timed, Setup.build_timed]
  cases s.build device <;> rfl

/-- INC BC, the same after a prefix that is dropped, and INC IX. -/
example :
    let s : Setup :=
      { memorySize := 6, program := #[0x03, 0xDD, 0x03, 0xDD, 0x23, 0x76]
        variant := { conformance := .undocumented } }
    pairSteps s.completed = 2 := by
  decide +kernel

end Z80
