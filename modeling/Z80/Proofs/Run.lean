import Z80.Proofs.Alike
import Z80.Snapshot

/-!
# Steps and runs

A step of a machine is an instruction and its account: `Machine.settle` is the account, and
`Machine.step_eq` says that there is no more to a step. A run takes steps until one of them halts or
fails, or the count is used up; the three equations of `runFor` say so. An execution is a run of
what was built.

What is proved here looks neither into the processor nor into its memory.
-/

namespace Z80

/-- Whether a result is a fault of which `q` holds. -/
def failsBy {α : Type} (q : Fault → Bool) : Except Fault α → Bool
  | .error fault => q fault
  | .ok _ => false

namespace Machine

variable {δ : Type}

/-- What a machine makes of the outcome of an instruction. -/
def settle (m : Machine δ) (out : Outcome (Memory δ) Nat) : Machine δ :=
  match out.result with
  | .ok cycles =>
    { m with
      cpu := out.cpu
      memory := out.bus
      cycles := m.cycles + cycles
      iterations := m.iterations + 1
      status := statusAfter out.cpu }
  | .error _ => { m with cpu := out.cpu, memory := out.bus, status := .faulted }

theorem memory_settle (m : Machine δ) (out : Outcome (Memory δ) Nat) :
    (m.settle out).memory = out.bus := by
  obtain ⟨_ | _, cpu, bus⟩ := out <;> rfl

variable [Device δ]

/-- A step of a machine is a step of its processor over its memory, settled. -/
theorem step_eq (m : Machine δ) :
    m.step = ((m.cpu.step m.memory).result, m.settle (m.cpu.step m.memory)) := by
  obtain ⟨cpu, memory, cycles, iterations, maxIterations, status⟩ := m
  simp only [step, settle]
  rcases cpu.step memory with ⟨_ | _, _, _⟩ <;> rfl

theorem step_cpu (m : Machine δ) : m.step.2.cpu = (m.cpu.step m.memory).cpu := by
  rw [step_eq]
  unfold settle
  cases (m.cpu.step m.memory).result <;> rfl

theorem step_memory (m : Machine δ) : m.step.2.memory = (m.cpu.step m.memory).bus := by
  rw [step_eq, memory_settle]

/-- Runs `count` instructions one after another, those that fail included; the results are
listed. -/
def steps : (count : Nat) → Machine δ → List (Except Fault Nat) × Machine δ
  | 0, m => ([], m)
  | count + 1, m =>
    let (result, m) := m.step
    let (results, m) := steps count m
    (result :: results, m)

/-! ## The first step of a run -/

variable {count cycles : Nat} {m after : Machine δ}

/-- A run ends with a step that fails. -/
theorem runFor_of_error {fault : Fault} (h : m.step = (.error fault, after)) :
    m.runFor (count + 1) = (.error fault, after) := by
  rw [runFor, h]

/-- A run ends with a step that halts. -/
theorem runFor_of_halted (h : m.step = (.ok cycles, after)) (hs : after.status = .halted) :
    m.runFor (count + 1) = (.ok .halted, after) := by
  rw [runFor, h]
  simp only [if_pos hs]

/-- A run goes on from a step after which the machine still runs. -/
theorem runFor_of_running (h : m.step = (.ok cycles, after)) (hs : after.status ≠ .halted) :
    m.runFor (count + 1) = after.runFor count := by
  rw [runFor, h]
  simp only [if_neg hs]

/-! ## Whole runs -/

/-- A run leaves its result as the status. -/
theorem runFor_status (count : Nat) (m : Machine δ) {status : Status}
    (h : (m.runFor count).1 = .ok status) : (m.runFor count).2.status = status := by
  induction count generalizing m with
  | zero =>
    cases h
    rfl
  | succ count ih =>
    rcases hs : m.step with ⟨fault | cycles, after⟩
    · rw [runFor_of_error hs] at h
      cases h
    · by_cases hh : after.status = .halted
      · rw [runFor_of_halted hs hh] at h ⊢
        cases h
        exact hh
      · rw [runFor_of_running hs hh] at h ⊢
        exact ih after h

/-- A run that has used up its count goes on from where it stopped, with the rest of a larger one.
The status it left there is not looked at. -/
theorem runFor_add (count more : Nat) (m : Machine δ)
    (h : (m.runFor count).1 = .ok .iterationLimit) :
    m.runFor (count + more) = (m.runFor count).2.runFor more := by
  induction count generalizing m with
  | zero =>
    -- Only the status has been set, and the next step does not look at it.
    rw [Nat.zero_add]
    cases more <;> rfl
  | succ count ih =>
    have hc : count + 1 + more = count + more + 1 := by omega
    rw [hc]
    rcases hs : m.step with ⟨fault | cycles, after⟩
    · rw [runFor_of_error hs] at h
      cases h
    · by_cases hh : after.status = .halted
      · rw [runFor_of_halted hs hh] at h
        cases h
      · rw [runFor_of_running hs hh] at h
        rw [runFor_of_running hs hh, runFor_of_running hs hh]
        exact ih after h

/-- If steps commute with a map of machines unless they fail with a fault that `q` excludes, so do
runs. The map has to leave the status alone. -/
theorem runFor_commutes {ε : Type} [Device ε] {f : Machine δ → Machine ε} {q : Fault → Bool}
    (hstep : ∀ m : Machine δ, failsBy q m.step.1 = false → (f m).step = (m.step.1, f m.step.2))
    (hstatus : ∀ m, (f m).status = m.status)
    (hlimit : ∀ m, f { m with status := .iterationLimit } = { f m with status := .iterationLimit })
    (count : Nat) (m : Machine δ) (h : failsBy q (m.runFor count).1 = false) :
    (f m).runFor count = ((m.runFor count).1, f (m.runFor count).2) := by
  induction count generalizing m with
  | zero => exact congrArg (Prod.mk _) (hlimit m).symm
  | succ count ih =>
    rcases hs : m.step with ⟨fault | cycles, after⟩
    · -- The run ends with the fault of this step, so this step commutes too.
      rw [runFor_of_error hs] at h ⊢
      have hf : (f m).step = (.error fault, f after) := by
        rw [hstep m (by rw [hs]; exact h), hs]
      exact runFor_of_error hf
    · have hf : (f m).step = (.ok cycles, f after) := by
        rw [hstep m (by rw [hs]; rfl), hs]
      by_cases hh : after.status = .halted
      · rw [runFor_of_halted hs hh, runFor_of_halted hf ((hstatus after).trans hh)]
      · rw [runFor_of_running hs hh] at h ⊢
        rw [runFor_of_running hf (hstatus after ▸ hh)]
        exact ih after h

/-- What a step keeps, and the mark of the limit, a run keeps. -/
theorem runFor_invariant {P : Machine δ → Prop} (hstep : ∀ m, P m → P m.step.2)
    (hlimit : ∀ m, P m → P { m with status := .iterationLimit }) (count : Nat) (m : Machine δ)
    (h : P m) : P (m.runFor count).2 := by
  induction count generalizing m with
  | zero => exact hlimit m h
  | succ count ih =>
    have hafter : P m.step.2 := hstep m h
    rcases hs : m.step with ⟨fault | cycles, after⟩
    · rw [hs] at hafter
      rw [runFor_of_error hs]
      exact hafter
    · rw [hs] at hafter
      by_cases hh : after.status = .halted
      · rw [runFor_of_halted hs hh]
        exact hafter
      · rw [runFor_of_running hs hh]
        exact ih after hafter

/-- What every access to memory keeps, a run keeps. -/
theorem runFor_keeps {P : Memory δ → Prop} (hP : Bus.Keeps P) (count : Nat) (m : Machine δ)
    (h : P m.memory) : P (m.runFor count).2.memory := by
  refine runFor_invariant (P := fun m => P m.memory) (fun m h => ?_) (fun _ h => h) count m h
  rw [step_memory]
  exact Cpu.step_keeps hP m.cpu h

end Machine

/-! ## Executions -/

namespace Setup

variable {s : Setup}

/-- What cannot be built is not run. -/
theorem execute_of_error {fault : Fault} (h : s.build ({} : LatchedPorts) = .error fault) :
    s.execute = .error fault := by
  unfold execute
  rw [h]
  rfl

/-- What has been built is run to its end, and its snapshot is the result. -/
theorem execute_of_build {m : Machine LatchedPorts} (h : s.build {} = .ok m) :
    s.execute = m.run.1.map fun _ => m.run.2.snapshot := by
  unfold execute
  rw [h]
  show (m.run.1.bind fun _ => Except.ok m.run.2.snapshot) = _
  cases m.run.1 <;> rfl

/-- A machine is built from a setup that nothing stands in the way of, with its memory filled. -/
theorem of_build {δ : Type} {device : δ} {m : Machine δ} (h : s.build device = .ok m) :
    s.problem? = none ∧ ∃ memory, s.memory device = .ok memory ∧
      m = { cpu := s.cpu, memory, maxIterations := s.maxIterations } := by
  unfold build at h
  cases hp : s.problem? with
  | some problem =>
    rw [hp] at h
    cases h
  | none =>
    rw [hp] at h
    cases hm : s.memory device with
    | error fault =>
      rw [hm] at h
      cases h
    | ok memory =>
      rw [hm] at h
      exact ⟨rfl, memory, rfl, (Except.ok.inj h).symm⟩

/-- An execution that is done ran a machine that was built. -/
theorem of_execute {snapshot : Snapshot} (h : s.execute = .ok snapshot) :
    ∃ m, s.build ({} : LatchedPorts) = .ok m ∧ m.run.2.snapshot = snapshot := by
  cases hb : s.build ({} : LatchedPorts) with
  | error fault =>
    rw [execute_of_error hb] at h
    cases h
  | ok m =>
    rw [execute_of_build hb] at h
    refine ⟨m, rfl, ?_⟩
    cases hr : m.run.1 with
    | error fault =>
      rw [hr] at h
      cases h
    | ok status =>
      rw [hr] at h
      exact Except.ok.inj h

end Setup

end Z80
