import Z80.Proofs.Control
import Z80.Proofs.Resumption

/-!
# Operations on a machine

Four things are done to a machine: it is stepped, run, and interrupted in two ways. Each may fail,
and the machine is used on as it is left. `Machine.Reachable` is what can come of any number of
these from a setup that can be built; what holds of every machine built and is kept by each of them
holds of every reachable machine (`Machine.Reachable.invariant`).

An interrupt of the machine is an interrupt of its processor and its account, as a step is.
-/

namespace Z80

/-- A result that is known to be there is that result. -/
theorem ok_of_toOption {ε α : Type} {result : Except ε α} {x : α} (h : result.toOption = some x) :
    result = .ok x := by
  cases result with
  | error => cases h
  | ok => exact congrArg Except.ok (Option.some.inj h)

/-- If something is known of what an attempt came to, it came to something. -/
theorem of_toOption_map {ε α γ : Type} {result : Except ε α} {f : α → γ} {y : γ}
    (h : result.toOption.map f = some y) : ∃ x, result = .ok x ∧ f x = y := by
  cases result with
  | error => cases h
  | ok x => exact ⟨x, rfl, Option.some.inj h⟩

/-- What an attempt has failed with. -/
def causeOf {ε α : Type} : Except ε α → Option ε
  | .ok _ => none
  | .error cause => some cause

theorem error_of_causeOf {ε α : Type} {result : Except ε α} {cause : ε}
    (h : causeOf result = some cause) : result = .error cause := by
  cases result with
  | error => exact congrArg Except.error (Option.some.inj h)
  | ok => cases h

/-- What moves a machine by an instruction or an interrupt. -/
inductive Stimulus
  | step
  | interrupt (data : Byte)
  | nonMaskableInterrupt
deriving DecidableEq

/-- What is done to a machine. -/
inductive Operation
  | run
  | apply (stimulus : Stimulus)
deriving DecidableEq

/-- What a machine answers to a stimulus. -/
inductive Answer
  | step (cycles : Except Fault Nat)
  | interrupt (accepted : Except Fault Bool)
  | nonMaskableInterrupt (done : Except Fault Unit)

namespace Machine

variable {δ : Type} [Device δ]

/-! ## Interrupts and their account -/

/-- A machine answers an interrupt by whether its processor has accepted it. -/
theorem interrupt_answer (m : Machine δ) (data : Byte) :
    (m.interrupt data).1
      = ((m.cpu.interrupt data m.memory).blame m.cpu.regs.pc).result.map Option.isSome := by
  unfold interrupt
  rcases (m.cpu.interrupt data m.memory).blame m.cpu.regs.pc with ⟨_ | _ | _, _, _⟩ <;> rfl

@[simp]
theorem interrupt_cpu (m : Machine δ) (data : Byte) :
    (m.interrupt data).2.cpu = (m.cpu.interrupt data m.memory).cpu := by
  unfold interrupt
  rcases m.cpu.interrupt data m.memory with ⟨_ | _ | _, _, _⟩ <;> rfl

@[simp]
theorem interrupt_memory (m : Machine δ) (data : Byte) :
    (m.interrupt data).2.memory = (m.cpu.interrupt data m.memory).bus := by
  unfold interrupt
  rcases m.cpu.interrupt data m.memory with ⟨_ | _ | _, _, _⟩ <;> rfl

/-- A machine answers a non-maskable interrupt by nothing but its success. -/
theorem nonMaskableInterrupt_answer (m : Machine δ) :
    m.nonMaskableInterrupt.1
      = ((m.cpu.nonMaskableInterrupt m.memory).blame m.cpu.regs.pc).result.map fun _ => () := by
  unfold nonMaskableInterrupt
  rcases (m.cpu.nonMaskableInterrupt m.memory).blame m.cpu.regs.pc with ⟨_ | _, _, _⟩ <;> rfl

@[simp]
theorem nonMaskableInterrupt_cpu (m : Machine δ) :
    m.nonMaskableInterrupt.2.cpu = (m.cpu.nonMaskableInterrupt m.memory).cpu := by
  unfold nonMaskableInterrupt
  rcases m.cpu.nonMaskableInterrupt m.memory with ⟨_ | _, _, _⟩ <;> rfl

@[simp]
theorem nonMaskableInterrupt_memory (m : Machine δ) :
    m.nonMaskableInterrupt.2.memory = (m.cpu.nonMaskableInterrupt m.memory).bus := by
  unfold nonMaskableInterrupt
  rcases m.cpu.nonMaskableInterrupt m.memory with ⟨_ | _, _, _⟩ <;> rfl

/-! ## Operations -/

/-- Applies a stimulus; the answer is the result. -/
def respond (m : Machine δ) : Stimulus → Answer × Machine δ
  | .step => (.step m.step.1, m.step.2)
  | .interrupt data => (.interrupt (m.interrupt data).1, (m.interrupt data).2)
  | .nonMaskableInterrupt =>
    (.nonMaskableInterrupt m.nonMaskableInterrupt.1, m.nonMaskableInterrupt.2)

/-- The machine after an operation, whether that failed or not. -/
def operate (m : Machine δ) : Operation → Machine δ
  | .run => m.run.2
  | .apply stimulus => (m.respond stimulus).2

/-- The machine after some operations, the first one first. -/
def operateAll (m : Machine δ) (operations : List Operation) : Machine δ :=
  operations.foldl operate m

/-- What every stimulus keeps, and the mark of the limit, every operation keeps. -/
theorem operate_invariant {P : Machine δ → Prop}
    (hrespond : ∀ m stimulus, P m → P (m.respond stimulus).2)
    (hlimit : ∀ m, P m → P { m with status := .iterationLimit }) {m : Machine δ} (h : P m)
    (operation : Operation) : P (m.operate operation) := by
  cases operation with
  | run => exact runFor_invariant (fun m => hrespond m .step) hlimit _ m h
  | apply stimulus => exact hrespond m stimulus h

/-- A machine that can come of a setup. -/
inductive Reachable : Machine δ → Prop
  | build {s : Setup} {device : δ} {m : Machine δ} (built : s.build device = .ok m) : Reachable m
  | operate {m : Machine δ} (reachable : Reachable m) (operation : Operation) :
    Reachable (m.operate operation)

/-- What holds of every machine that is built, and is kept, holds of every reachable machine. -/
theorem Reachable.invariant {P : Machine δ → Prop}
    (hbuild : ∀ {s : Setup} {device : δ} {m : Machine δ}, s.build device = .ok m → P m)
    (hrespond : ∀ m stimulus, P m → P (m.respond stimulus).2)
    (hlimit : ∀ m, P m → P { m with status := .iterationLimit }) {m : Machine δ}
    (h : m.Reachable) : P m := by
  induction h with
  | build built => exact hbuild built
  | operate _ operation ih => exact operate_invariant hrespond hlimit ih operation

/-- What every access to memory keeps, every stimulus keeps. -/
theorem respond_keeps {P : Memory δ → Prop} (hP : Bus.Keeps P) (m : Machine δ)
    (stimulus : Stimulus) (h : P m.memory) : P (m.respond stimulus).2.memory := by
  cases stimulus with
  | step =>
    show P m.step.2.memory
    rw [step_memory]
    exact Cpu.step_keeps hP m.cpu h
  | interrupt data =>
    show P (m.interrupt data).2.memory
    rw [interrupt_memory]
    exact Dialogue.run_keeps hP _ h
  | nonMaskableInterrupt =>
    show P m.nonMaskableInterrupt.2.memory
    rw [nonMaskableInterrupt_memory]
    exact Dialogue.run_keeps hP _ h

/-! ## The size of memory -/

end Machine

/-- No access changes the number of bytes. -/
theorem Memory.bus_keeps_size {δ : Type} [Device δ] (size : Nat) :
    Bus.Keeps fun m : Memory δ => m.size = size where
  read h _ := h
  write {m} h address v := (size_write m address v).trans h
  input h _ := h
  output h _ _ := h

/-- The memory of a reachable machine is neither empty nor larger than the address space. -/
theorem Machine.Reachable.size {δ : Type} [Device δ] {m : Machine δ} (h : m.Reachable) :
    m.memory.size ≠ 0 ∧ m.memory.size ≤ addressSpace := by
  refine h.invariant (P := fun m => m.memory.size ≠ 0 ∧ m.memory.size ≤ addressSpace)
    (fun built => ?_) (fun m stimulus hm => ?_) fun _ hm => hm
  · obtain ⟨hproblem, memory, hmemory, rfl⟩ := Setup.of_build built
    rw [(Setup.memory_keeps hmemory).1]
    exact Setup.size_of_problem hproblem
  · rw [respond_keeps (Memory.bus_keeps_size m.memory.size) m stimulus rfl]
    exact hm

/-! ## From a snapshot -/

/-- The machine that goes on from the snapshot of another, around a device: what a snapshot does not
show is as it is at the start. -/
def Machine.rebuilt {δ ε : Type} (m : Machine δ) (device : ε) : Machine ε where
  cpu := { m.cpu with halted := false, eiShadow := false, start := 0 }
  memory := { bytes := m.memory.bytes, device }

/-- A machine that can be reached is built again from its snapshot, as far as that shows it. -/
theorem Machine.Reachable.build_snapshot {δ ε : Type} [Device δ] {m : Machine δ} (h : m.Reachable)
    (device : ε) : m.snapshot.toSetup.build device = .ok (m.rebuilt device) := by
  have hproblem : m.snapshot.toSetup.problem? = none :=
    Snapshot.problem_toSetup h.size.1 h.size.2
  have hmemory : m.snapshot.toSetup.memory device = .ok { bytes := m.memory.bytes, device } :=
    Snapshot.memory_toSetup m.snapshot device
  unfold Setup.build
  rw [hproblem, hmemory]
  rfl

end Z80
