import Z80.Proofs.Halting

/-!
# Reproducing a machine from its snapshot

A machine that goes on from a snapshot has the registers, the memory and the flip-flops of the one
that was looked at. It does not know that the processor has stopped, or that an EI holds interrupts
off. A step resets both, so that only an interrupt that comes before the first step can tell the two
machines apart, and `Machine.Reachable.snapshot_reproduces` says when it can.

`Machine.Mirrors` is the bisimulation: one machine is the other with a different hold of interrupts
that makes no difference to which are answered.
-/

namespace Z80

variable {α β δ : Type}

/-! ## What a handler does not look at -/

/-- The processor with another record of the last instruction. -/
def Cpu.marked (cpu : Cpu) (eiShadow : Bool) (start : Word) : Cpu :=
  { cpu with eiShadow, start }

namespace Action

variable [Bus β] (cpu : Cpu) (eiShadow : Bool) (start : Word) (bus : β)

/-- An access made by a marked processor, where the record makes no difference later on. -/
theorem follow_marked {γ : Type} {next next' : γ → Dialogue α} {answer : Except Fault γ × β}
    (ih : ∀ v (bus : β), (next' v).run bus = ((next v).run bus).map id (·.marked eiShadow start)) :
    Dialogue.follow (cpu.marked eiShadow start) next' answer
      = (Dialogue.follow cpu next answer).map id (·.marked eiShadow start) :=
  Dialogue.follow_map fun v bus _ => ih v bus

/-- Entering a handler asks for neither of the two marks. -/
theorem run_enterHandler_marked (handler : Word) :
    (enterHandler handler (cpu.marked eiShadow start)).run bus
      = ((enterHandler handler cpu).run bus).map id (·.marked eiShadow start) := by
  have hsp : (cpu.marked eiShadow start).regs.sp = cpu.regs.sp := rfl
  have hreturn : (cpu.marked eiShadow start).returnAddress = cpu.returnAddress := rfl
  rw [enterHandler_eq, enterHandler_eq, hsp, hreturn, Dialogue.run_write_eq, Dialogue.run_write_eq]
  refine follow_marked (cpu.entering (cpu.regs.sp - 1)) eiShadow start fun _ bus => ?_
  rw [Dialogue.run_write_eq, Dialogue.run_write_eq]
  exact follow_marked (cpu.entering (cpu.regs.sp - 2)) eiShadow start fun _ _ => rfl

theorem run_handlerFor_marked (data : Byte) :
    (handlerFor data (cpu.marked eiShadow start)).run bus
      = ((handlerFor data cpu).run bus).map id (·.marked eiShadow start) := by
  have hmode : (cpu.marked eiShadow start).mode = cpu.mode := rfl
  have hregs : (cpu.marked eiShadow start).regs = cpu.regs := rfl
  rw [handlerFor_eq, handlerFor_eq, hmode, hregs]
  cases cpu.mode with
  | mode0 => cases Opcode.mainInstruction .hl data <;> rfl
  | mode1 => rfl
  | mode2 =>
    rw [Dialogue.run_read_eq, Dialogue.run_read_eq]
    refine follow_marked cpu eiShadow start fun low bus => ?_
    rw [Dialogue.run_read_eq, Dialogue.run_read_eq]
    exact follow_marked cpu eiShadow start fun high _ => rfl

end Action

namespace Cpu

variable {cpu : Cpu}

/-- With interrupts shut off the record makes no difference. -/
theorem acceptsInterrupt_marked (h : cpu.iff1 = false) (eiShadow : Bool) (start : Word) :
    (cpu.marked eiShadow start).acceptsInterrupt = cpu.acceptsInterrupt := by
  show (cpu.iff1 && !eiShadow) = (cpu.iff1 && !cpu.eiShadow)
  rw [h, Bool.false_and, Bool.false_and]

variable [Bus β] {eiShadow : Bool} {start : Word}

/-- An interrupt is answered alike under other marks that accept it as these do. -/
theorem interrupt_marked
    (h : (cpu.marked eiShadow start).acceptsInterrupt = cpu.acceptsInterrupt) (data : Byte)
    (bus : β) :
    (cpu.marked eiShadow start).interrupt data bus
      = (cpu.interrupt data bus).map id (·.marked eiShadow start) := by
  rw [interrupt_eq, interrupt_eq, h, Action.run_handlerFor_marked]
  cases cpu.acceptsInterrupt with
  | false => rfl
  | true =>
    rcases (Action.handlerFor data cpu).run bus with ⟨fault | ⟨handler, cycles⟩, c, bus⟩
    · rfl
    · show ((Action.enterHandler handler (c.masked.marked eiShadow start)).run bus).map _ id
        = ((((Action.enterHandler handler c.masked).run bus).map _ id).map id _)
      rw [Action.run_enterHandler_marked]
      rcases (Action.enterHandler handler c.masked).run bus with ⟨_ | _, _, _⟩ <;> rfl

/-- A non-maskable interrupt asks for neither of the two marks. -/
theorem nonMaskableInterrupt_marked (bus : β) :
    (cpu.marked eiShadow start).nonMaskableInterrupt bus
      = (cpu.nonMaskableInterrupt bus).map id (·.marked eiShadow start) := by
  rw [nonMaskableInterrupt_eq, nonMaskableInterrupt_eq]
  show ((Action.enterHandler _ (({ cpu with iff1 := false, iff2 := cpu.iff1 } : Cpu).marked
    eiShadow start)).run bus).map _ id = _
  rw [Action.run_enterHandler_marked]
  rcases (Action.enterHandler Action.nonMaskableHandler
    { cpu with iff1 := false, iff2 := cpu.iff1 }).run bus with ⟨_ | _, _, _⟩ <;> rfl

/-- A step depends on what the beginning of an instruction leaves alone. -/
theorem step_of_begin {cpu cpu' : Cpu} (h : cpu'.begin = cpu.begin) (bus : β) :
    cpu'.step bus = cpu.step bus := by
  have hpc : cpu'.regs.pc = cpu.regs.pc := congrArg (·.regs.pc) h
  unfold step
  rw [h, hpc]

end Cpu

/-! ## Machines side by side -/

/-- What is seen of a machine between two stimuli. -/
structure View (δ : Type) where
  regs : Registers
  memory : Memory δ
  iff1 : Bool
  iff2 : Bool
  mode : InterruptMode

namespace Machine

/-- Looks at a machine, memory and device included. -/
def view (m : Machine δ) : View δ where
  regs := m.cpu.regs
  memory := m.memory
  iff1 := m.cpu.iff1
  iff2 := m.cpu.iff2
  mode := m.cpu.mode

/-- The machine `m'` is `m` with another record of the last instruction, by which it answers the
same interrupts. -/
structure Mirrors (m m' : Machine δ) : Prop where
  cpu : ∃ eiShadow start, m'.cpu = m.cpu.marked eiShadow start
  memory : m'.memory = m.memory
  accepts : m'.cpu.acceptsInterrupt = m.cpu.acceptsInterrupt

theorem Mirrors.view {m m' : Machine δ} (h : Mirrors m m') : m'.view = m.view := by
  obtain ⟨eiShadow, start, hcpu⟩ := h.cpu
  unfold Machine.view
  rw [hcpu, h.memory]
  rfl

variable [Device δ]

/-- Applies stimuli one after another, and notes each answer and what is seen after it. -/
def observe : List Stimulus → Machine δ → List (Answer × View δ)
  | [], _ => []
  | stimulus :: stimuli, m =>
    let (answer, m) := m.respond stimulus
    (answer, m.view) :: observe stimuli m

variable {m m' : Machine δ}

/-- From the same beginning both take the same step, and are equal after it. -/
theorem mirrors_step (hcpu : m'.cpu.begin = m.cpu.begin) (hmemory : m'.memory = m.memory) :
    m'.step.1 = m.step.1 ∧ Mirrors m.step.2 m'.step.2 := by
  have hstep : m'.cpu.step m'.memory = m.cpu.step m.memory := by
    rw [hmemory, Cpu.step_of_begin hcpu]
  have hafter : m'.step.2.cpu = m.step.2.cpu := by
    rw [step_cpu, step_cpu, hstep]
  refine ⟨?_, ⟨_, _, hafter⟩, ?_, ?_⟩
  · rw [step_eq, step_eq, hstep]
  · rw [step_memory, step_memory, hstep]
  · rw [hafter]

theorem Mirrors.interrupt (h : Mirrors m m') (data : Byte) :
    (m'.interrupt data).1 = (m.interrupt data).1 ∧
      Mirrors (m.interrupt data).2 (m'.interrupt data).2 := by
  obtain ⟨⟨eiShadow, start, hcpu⟩, hmemory, haccepts⟩ := h
  have hpc : m'.cpu.regs.pc = m.cpu.regs.pc := congrArg (·.regs.pc) hcpu
  rw [hcpu] at haccepts
  have hout : m'.cpu.interrupt data m'.memory
      = (m.cpu.interrupt data m.memory).map id (·.marked eiShadow start) := by
    rw [hcpu, hmemory, Cpu.interrupt_marked haccepts]
  have hafter : (m'.interrupt data).2.cpu = (m.interrupt data).2.cpu.marked eiShadow start := by
    rw [interrupt_cpu, interrupt_cpu, hout]
    rfl
  refine ⟨?_, ⟨eiShadow, start, hafter⟩, ?_, ?_⟩
  · rw [interrupt_answer, interrupt_answer, hout, hpc, Outcome.map_blame]
    rcases (m.cpu.interrupt data m.memory).blame m.cpu.regs.pc with ⟨_ | _, _, _⟩ <;> rfl
  · rw [interrupt_memory, interrupt_memory, hout]
    rfl
  · -- Either the processor is as it was, or further interrupts are shut off.
    rw [hafter, interrupt_cpu]
    rcases m.cpu.interrupt_control data m.memory with ⟨-, hsame⟩ | ⟨-, hc⟩
    · rw [hsame]
      exact haccepts
    · exact Cpu.acceptsInterrupt_marked (Cpu.of_control hc).1 eiShadow start

theorem Mirrors.nonMaskableInterrupt (h : Mirrors m m') :
    m'.nonMaskableInterrupt.1 = m.nonMaskableInterrupt.1 ∧
      Mirrors m.nonMaskableInterrupt.2 m'.nonMaskableInterrupt.2 := by
  obtain ⟨⟨eiShadow, start, hcpu⟩, hmemory, -⟩ := h
  have hpc : m'.cpu.regs.pc = m.cpu.regs.pc := congrArg (·.regs.pc) hcpu
  have hout : m'.cpu.nonMaskableInterrupt m'.memory
      = (m.cpu.nonMaskableInterrupt m.memory).map id (·.marked eiShadow start) := by
    rw [hcpu, hmemory, Cpu.nonMaskableInterrupt_marked]
  have hafter : m'.nonMaskableInterrupt.2.cpu
      = m.nonMaskableInterrupt.2.cpu.marked eiShadow start := by
    rw [nonMaskableInterrupt_cpu, nonMaskableInterrupt_cpu, hout]
    rfl
  refine ⟨?_, ⟨eiShadow, start, hafter⟩, ?_, ?_⟩
  · rw [nonMaskableInterrupt_answer, nonMaskableInterrupt_answer, hout, hpc, Outcome.map_blame]
    rcases (m.cpu.nonMaskableInterrupt m.memory).blame m.cpu.regs.pc with ⟨_ | _, _, _⟩ <;> rfl
  · rw [nonMaskableInterrupt_memory, nonMaskableInterrupt_memory, hout]
    rfl
  · rw [hafter, nonMaskableInterrupt_cpu]
    exact Cpu.acceptsInterrupt_marked
      (Cpu.of_control (m.cpu.nonMaskableInterrupt_control m.memory)).1 eiShadow start

/-- Machines that mirror each other answer alike, and mirror each other afterwards. -/
theorem Mirrors.respond (h : Mirrors m m') (stimulus : Stimulus) :
    (m'.respond stimulus).1 = (m.respond stimulus).1 ∧
      Mirrors (m.respond stimulus).2 (m'.respond stimulus).2 := by
  cases stimulus with
  | step =>
    have hbegin : m'.cpu.begin = m.cpu.begin := by
      obtain ⟨eiShadow, start, hcpu⟩ := h.cpu
      rw [hcpu]
      rfl
    exact (mirrors_step hbegin h.memory).imp_left (congrArg Answer.step)
  | interrupt data => exact (h.interrupt data).imp_left (congrArg Answer.interrupt)
  | nonMaskableInterrupt =>
    exact h.nonMaskableInterrupt.imp_left (congrArg Answer.nonMaskableInterrupt)

theorem observe_cons (m : Machine δ) (stimulus : Stimulus) (stimuli : List Stimulus) :
    m.observe (stimulus :: stimuli) =
      ((m.respond stimulus).1, (m.respond stimulus).2.view) ::
        (m.respond stimulus).2.observe stimuli := rfl

/-- Nothing tells two such machines apart. -/
theorem Mirrors.observe (h : Mirrors m m') (stimuli : List Stimulus) :
    m'.observe stimuli = m.observe stimuli := by
  induction stimuli generalizing m m' with
  | nil => rfl
  | cons stimulus stimuli ih =>
    obtain ⟨hanswer, hafter⟩ := h.respond stimulus
    rw [observe_cons, observe_cons, hanswer, hafter.view, ih hafter]

theorem observe_of_respond {stimulus : Stimulus}
    (hanswer : (m'.respond stimulus).1 = (m.respond stimulus).1)
    (hafter : Mirrors (m.respond stimulus).2 (m'.respond stimulus).2) (stimuli : List Stimulus) :
    m'.observe (stimulus :: stimuli) = m.observe (stimulus :: stimuli) := by
  rw [observe_cons, observe_cons, hanswer, hafter.view, hafter.observe stimuli]

end Machine

/-! ## What tells a machine from its reproduction -/

theorem lowByte_add_one_ne (w : Word) : lowByte (w + 1) ≠ lowByte w := by
  intro h
  have hnat : (w.toNat + 1) % 65536 % 256 = w.toNat % 256 := by
    have := congrArg UInt8.toNat h
    rwa [toNat_lowByte, toNat_lowByte, UInt16.toNat_add] at this
  omega

/-- Two processors that cannot be told apart on the way to a handler push the same low byte. -/
theorem Action.lowByte_of_enterHandler [Device δ] {handler : Word} {m : Memory δ} (cpu cpu' : Cpu)
    (hsp : cpu'.regs.sp = cpu.regs.sp)
    (hpc : ((enterHandler handler cpu').run m).cpu.regs.pc
      = ((enterHandler handler cpu).run m).cpu.regs.pc)
    (hbus : ((enterHandler handler cpu').run m).bus = ((enterHandler handler cpu).run m).bus) :
    lowByte cpu'.returnAddress = lowByte cpu.returnAddress := by
  obtain ⟨hreached, hfailed⟩ := run_enterHandler_shows handler cpu m
  obtain ⟨hreached', hfailed'⟩ := run_enterHandler_shows handler cpu' m
  have hboth : ((enterHandler handler cpu').run m).result.isOk
      = ((enterHandler handler cpu).run m).result.isOk := by
    rw [Bool.eq_iff_iff, isOk_run_enterHandler, isOk_run_enterHandler, hsp]
  cases hok : ((enterHandler handler cpu).run m).result.isOk with
  | true =>
    have hread := hreached' (hboth.trans hok)
    rw [hbus, hsp, hreached hok] at hread
    exact (Except.ok.inj hread).symm
  | false => rw [← hfailed' (hboth.trans hok), hpc, hfailed hok]

namespace Machine

variable [Device δ] {m : Machine δ}

/-- A stopped machine is given away by a non-maskable interrupt: it goes on after its HALT. -/
theorem halted_of_observe
    (h : (m.rebuilt m.memory.device).observe [.nonMaskableInterrupt]
      = m.observe [.nonMaskableInterrupt]) : m.cpu.halted = false := by
  let entering (cpu : Cpu) : Cpu := { cpu with iff1 := false, iff2 := cpu.iff1 }
  have hview : (m.rebuilt m.memory.device).nonMaskableInterrupt.2.view
      = m.nonMaskableInterrupt.2.view := (Prod.mk.inj (List.cons.inj h).1).2
  have hregs := congrArg View.regs hview
  have hmemory := congrArg View.memory hview
  simp only [view, nonMaskableInterrupt_cpu, nonMaskableInterrupt_memory,
    Cpu.nonMaskableInterrupt_eq] at hregs hmemory
  have hlow := Action.lowByte_of_enterHandler (entering m.cpu)
    (entering (m.rebuilt m.memory.device).cpu) rfl (congrArg Registers.pc hregs) hmemory
  cases hhalted : m.cpu.halted with
  | false => rfl
  | true =>
    -- One pushes the address after the HALT, the other that of the HALT.
    have hafter : (entering m.cpu).returnAddress = m.cpu.regs.pc + 1 := by
      show (if m.cpu.halted then m.cpu.regs.pc + 1 else m.cpu.regs.pc) = _
      rw [hhalted, if_pos rfl]
    rw [hafter] at hlow
    exact absurd hlow.symm (lowByte_add_one_ne m.cpu.regs.pc)

/-- The machine says so of an interrupt that is held off, and of no other. -/
theorem interrupt_answer_iff (m : Machine δ) (data : Byte) :
    (m.interrupt data).1 = .ok false ↔ m.cpu.acceptsInterrupt = false := by
  rw [interrupt_answer]
  rcases m.cpu.interrupt_cases data m.memory with
    ⟨hheld, he⟩ | ⟨hopen, fault, bus, -, he⟩ | ⟨hopen, handler, cycles, bus, -, he⟩
  · rw [he]
    exact ⟨fun _ => hheld, fun _ => rfl⟩
  · rw [he, hopen]
    exact ⟨nofun, nofun⟩
  · rw [he, hopen]
    rcases (Action.enterHandler handler m.cpu.masked).run bus with ⟨_ | _, _, _⟩
    · exact ⟨nofun, nofun⟩
    · exact ⟨nofun, nofun⟩

/-- A machine that an EI holds off is given away by an interrupt: it does not answer. -/
theorem iff1_of_observe
    (h : (m.rebuilt m.memory.device).observe [.interrupt 0] = m.observe [.interrupt 0])
    (hshadow : m.cpu.eiShadow = true) : m.cpu.iff1 = false := by
  have hanswer : ((m.rebuilt m.memory.device).interrupt 0).1 = (m.interrupt 0).1 :=
    Answer.interrupt.inj (Prod.mk.inj (List.cons.inj h).1).1
  have hheld : m.cpu.acceptsInterrupt = false := by
    rw [Cpu.acceptsInterrupt, hshadow, Bool.not_true, Bool.and_false]
  have hrebuilt : (m.rebuilt m.memory.device).cpu.acceptsInterrupt = false := by
    rw [← interrupt_answer_iff _ 0, hanswer, interrupt_answer_iff]
    exact hheld
  have hiff1 : (m.cpu.iff1 && !false) = false := hrebuilt
  rw [Bool.not_false, Bool.and_true] at hiff1
  exact hiff1

omit [Device δ] in
/-- A machine that has not halted, and in which no EI holds off an open IFF1, is mirrored by the one
rebuilt from it. -/
theorem mirrors_rebuilt (hhalted : m.cpu.halted = false)
    (hshadow : m.cpu.eiShadow = true → m.cpu.iff1 = false) :
    Mirrors m (m.rebuilt m.memory.device) where
  cpu := by
    refine ⟨false, 0, ?_⟩
    simp only [rebuilt, Cpu.marked, hhalted]
  memory := rfl
  accepts := by
    cases hs : m.cpu.eiShadow with
    | false =>
      show (m.cpu.iff1 && !false) = (m.cpu.iff1 && !m.cpu.eiShadow)
      rw [hs]
    | true => exact Cpu.acceptsInterrupt_marked (hshadow hs) false 0

/-- **A snapshot reproduces its machine**, around a device in the same state, from the next step on.
Under any stimuli at all the two cannot be told apart exactly if the machine has not stopped at a
HALT and no EI holds off an interrupt. -/
theorem Reachable.snapshot_reproduces (h : m.Reachable) :
    ∃ m', m.snapshot.toSetup.build m.memory.device = .ok m' ∧
      (∀ stimuli, m'.observe (.step :: stimuli) = m.observe (.step :: stimuli)) ∧
      ((∀ stimuli, m'.observe stimuli = m.observe stimuli) ↔
        m.cpu.halted = false ∧ (m.cpu.eiShadow = true → m.cpu.iff1 = false)) := by
  refine ⟨m.rebuilt m.memory.device, h.build_snapshot m.memory.device, fun stimuli => ?_, ?_⟩
  · obtain ⟨hanswer, hafter⟩ : (m.rebuilt m.memory.device).step.1 = m.step.1 ∧
        Mirrors m.step.2 (m.rebuilt m.memory.device).step.2 := mirrors_step rfl rfl
    have hanswer' : ((m.rebuilt m.memory.device).respond .step).1 = (m.respond .step).1 :=
      congrArg Answer.step hanswer
    exact observe_of_respond hanswer' hafter stimuli
  · constructor
    · intro hsame
      exact ⟨halted_of_observe (hsame [.nonMaskableInterrupt]),
        iff1_of_observe (hsame [.interrupt 0])⟩
    · rintro ⟨hhalted, hshadow⟩ stimuli
      exact (mirrors_rebuilt hhalted hshadow).observe stimuli

/-- An INC A has been stepped: the snapshot reproduces the machine. -/
theorem snapshot_reproduces_inc :
    let s : Setup := { memorySize := 2, program := #[0x3C, 0x76] }
    ∃ built m' : Machine LatchedPorts, s.build {} = .ok built ∧
      let m := built.step.2
      m.Reachable ∧ m.snapshot.toSetup.build m.memory.device = .ok m' ∧
        ∀ stimuli, m'.observe stimuli = m.observe stimuli := by
  intro s
  obtain ⟨built, hbuilt, hstepped⟩ : ∃ built : Machine LatchedPorts, s.build {} = .ok built ∧
      (built.step.2.cpu.halted, built.step.2.cpu.eiShadow) = (false, false) :=
    of_toOption_map (by decide +kernel)
  obtain ⟨hhalted, hfree⟩ := Prod.mk.inj hstepped
  have hreachable : built.step.2.Reachable := .operate (.build hbuilt) (.apply .step)
  obtain ⟨m', hbuilt', -, hsame⟩ := Reachable.snapshot_reproduces hreachable
  refine ⟨built, m', hbuilt, hreachable, hbuilt', hsame.2 ⟨hhalted, fun hshadow => ?_⟩⟩
  rw [hfree] at hshadow
  cases hshadow

/-- After an EI, an interrupt is held off, but not by the machine that goes on from the snapshot. -/
theorem snapshot_forgets_ei :
    let s : Setup := { registers := { sp := 4 }, memorySize := 4, program := #[0xFB] }
    ∃ built m' : Machine LatchedPorts, s.build {} = .ok built ∧
      let m := built.step.2
      m.Reachable ∧ m.snapshot.toSetup.build m.memory.device = .ok m' ∧
        (m.interrupt 0xFF).1 = .ok false ∧ (m'.interrupt 0xFF).1 = .ok true := by
  intro s
  obtain ⟨built, hbuilt, hanswers⟩ : ∃ built : Machine LatchedPorts, s.build {} = .ok built ∧
      (fun m : Machine LatchedPorts => ((m.interrupt 0xFF).1.toOption,
        ((m.rebuilt m.memory.device).interrupt 0xFF).1.toOption)) built.step.2
        = (some false, some true) :=
    of_toOption_map (by decide +kernel)
  have hreachable : built.step.2.Reachable := .operate (.build hbuilt) (.apply .step)
  obtain ⟨hheld, hanswered⟩ := Prod.mk.inj hanswers
  exact ⟨built, _, hbuilt, hreachable, hreachable.build_snapshot _, ok_of_toOption hheld,
    ok_of_toOption hanswered⟩

end Machine

end Z80
