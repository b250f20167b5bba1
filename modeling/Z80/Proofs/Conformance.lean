import Z80.Proofs.Run
import Z80.Proofs.Translation.Variant

/-!
# Runs of either conformance

A processor that runs all opcodes runs those of the manual as a processor does that runs no others.
So a run that meets no invalid opcode is the same run on both, whatever errors of memory it meets,
and the conformance is all that tells the two ends apart.

The comparison is a translation that changes the variant alone, made lax: past an opcode that one
side refuses, nothing is asked of the other.
-/

namespace Z80

/-- The variant that runs all opcodes. -/
def Variant.permissive (v : Variant) : Variant :=
  { v with conformance := .undocumented }

/-- The processor, running all opcodes. -/
def Cpu.permissive (cpu : Cpu) : Cpu :=
  { cpu with variant := cpu.variant.permissive }

/-- The machine, running all opcodes. -/
def Machine.permissive {δ : Type} (m : Machine δ) : Machine δ :=
  { m with cpu := m.cpu.permissive }

/-- The setup of a machine that runs all opcodes. -/
def Setup.permissive (s : Setup) : Setup :=
  { s with variant := s.variant.permissive }

/-- The snapshot of a machine that runs all opcodes. -/
def Snapshot.permissive (s : Snapshot) : Snapshot :=
  { s with variant := s.variant.permissive }

/-! ## Steps -/

/-- An instruction that is not refused runs alike if all opcodes are allowed. -/
theorem Cpu.step_permissive {β : Type} [Bus β] (cpu : Cpu) (bus : β)
    (h : isRejection (cpu.step bus).result = false) :
    cpu.permissive.step bus = (cpu.step bus).map id Cpu.permissive := by
  have hcpu : (Translation.ofVariant Variant.permissive).cpu = Cpu.permissive :=
    funext fun c => Translation.ofVariant_cpu Variant.permissive c
  -- Past an opcode that is refused here, nothing is asked.
  have htracks : Action.Tracks (.ofVariant Variant.permissive) True id Action.instruction
      Action.instruction :=
    Action.tracks_instruction (fun _ => rfl) (.inr ⟨trivial, fun _ => rfl⟩) fun _ => rfl
  have hparallel := htracks cpu.begin
  rw [hcpu] at hparallel
  have hrun := hparallel.run_eq (f := Cpu.permissive) (fun _ => ⟨rfl, rfl⟩) bus
    fun _ => (Outcome.isRejection_blame cpu.regs.pc _).symm.trans h
  show ((Action.instruction cpu.begin.permissive).run bus).blame cpu.regs.pc = _
  rw [hrun, Outcome.map_blame]
  rfl

namespace Machine

variable {δ : Type}

theorem settle_permissive (m : Machine δ) (out : Outcome (Memory δ) Nat) :
    m.permissive.settle (out.map id Cpu.permissive) = (m.settle out).permissive := by
  obtain ⟨_ | _, cpu, bus⟩ := out <;> rfl

variable [Device δ]

/-- A step that is not refused is the same on the permissive machine. -/
theorem step_permissive (m : Machine δ) (h : isRejection m.step.1 = false) :
    m.permissive.step = (m.step.1, m.step.2.permissive) := by
  rw [step_eq] at h ⊢
  have hcpu : m.permissive.cpu.step m.permissive.memory = _ := Cpu.step_permissive m.cpu m.memory h
  rw [hcpu, settle_permissive, step_eq]
  rcases m.cpu.step m.memory with ⟨_ | _, _, _⟩ <;> rfl

/-- A list of steps none of which is refused is the same list if all opcodes are allowed. -/
theorem steps_permissive (count : Nat) (m : Machine δ)
    (h : ∀ result ∈ (m.steps count).1, isRejection result = false) :
    m.permissive.steps count = ((m.steps count).1, (m.steps count).2.permissive) := by
  induction count generalizing m with
  | zero => rfl
  | succ count ih =>
    have hfirst : isRejection m.step.1 = false := h _ (List.mem_cons_self ..)
    have hrest := ih m.step.2 fun result hr => h result (List.mem_cons_of_mem _ hr)
    show (m.permissive.step.1 :: (m.permissive.step.2.steps count).1,
      (m.permissive.step.2.steps count).2) = _
    rw [step_permissive m hfirst, hrest]
    rfl

/-- So is a run; it is refused an opcode only where it ends. -/
theorem runFor_permissive (count : Nat) (m : Machine δ)
    (h : isRejection (m.runFor count).1 = false) :
    m.permissive.runFor count = ((m.runFor count).1, (m.runFor count).2.permissive) :=
  runFor_commutes (f := Machine.permissive) (q := Fault.isInvalidOpcode) step_permissive
    (fun _ => rfl) (fun _ => rfl) count m h

/-- A run that is not refused is the same on the permissive machine. -/
theorem run_permissive (m : Machine δ) (h : isRejection m.run.1 = false) :
    m.permissive.run = (m.run.1, m.run.2.permissive) :=
  runFor_permissive (m.limit - m.iterations) m h

end Machine

/-! ## Whole lives -/

/-- The conformance has no part in building a machine. -/
theorem Setup.build_permissive {δ : Type} (s : Setup) (device : δ) :
    s.permissive.build device = (s.build device).map Machine.permissive := by
  have hproblem : s.permissive.problem? = s.problem? := rfl
  have hmemory : s.permissive.memory device = s.memory device := rfl
  unfold build
  rw [hproblem, hmemory]
  cases s.problem? with
  | some problem => rfl
  | none => cases s.memory device <;> rfl

/-- An execution that is not refused is the same under the permissive setup. -/
theorem Setup.execute_permissive (s : Setup) (h : isRejection s.execute = false) :
    s.permissive.execute = s.execute.map Snapshot.permissive := by
  have hbuild := build_permissive s ({} : LatchedPorts)
  cases hb : s.build ({} : LatchedPorts) with
  | error fault =>
    rw [hb] at hbuild
    rw [execute_of_error hb, execute_of_error hbuild]
    rfl
  | ok m =>
    rw [hb] at hbuild
    rw [execute_of_build hb, isRejection_map] at h
    rw [execute_of_build hb, execute_of_build hbuild, m.run_permissive h]
    cases m.run.1 <;> rfl

/-- **What runs as the manual has it runs no differently where all opcodes are allowed.** The setup
builds the same machine, or fails the same way. If no instruction of a list of steps is refused,
every step has the same clock cycles or the same error, and the machines they lead to differ in
their conformance alone; so do the ends of a run that is not refused an opcode, and what is seen of
them. -/
theorem permissive_simulates {δ : Type} [Device δ] :
    (∀ (s : Setup) (device : δ),
      s.permissive.build device = (s.build device).map Machine.permissive) ∧
    (∀ (m : Machine δ) (count : Nat), (∀ result ∈ (m.steps count).1, isRejection result = false) →
      m.permissive.steps count = ((m.steps count).1, (m.steps count).2.permissive)) ∧
    (∀ m : Machine δ, isRejection m.run.1 = false →
      m.permissive.run = (m.run.1, m.run.2.permissive)) ∧
    (∀ s : Setup, isRejection s.execute = false →
      s.permissive.execute = s.execute.map Snapshot.permissive) :=
  ⟨Setup.build_permissive, fun m count => Machine.steps_permissive count m, Machine.run_permissive,
    Setup.execute_permissive⟩

/-- NOP, and then nothing: the memory of the machine is one byte long. Its second step fails for
either conformance, and its third. So does the run of the setup. -/
theorem permissive_simulates_nop :
    let s : Setup := { memorySize := 1 }
    let m : Machine LatchedPorts := { cpu := s.cpu, memory := { bytes := #[0], device := {} } }
    (∀ result ∈ (m.steps 3).1, isRejection result = false) ∧
    m.permissive.steps 3 = ((m.steps 3).1, (m.steps 3).2.permissive) ∧
    m.permissive.run = (m.run.1, m.run.2.permissive) ∧
    s.permissive.execute = s.execute.map Snapshot.permissive := by
  intro s m
  obtain ⟨-, hsteps, hrun, hexecute⟩ := permissive_simulates (δ := LatchedPorts)
  have h : ∀ result ∈ (m.steps 3).1, isRejection result = false := by decide +kernel
  exact ⟨h, hsteps m 3 h, hrun m (by decide +kernel), hexecute s (by decide +kernel)⟩

end Z80
