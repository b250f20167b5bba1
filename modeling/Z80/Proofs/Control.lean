import Z80.Interrupt
import Z80.Proofs.Keeping
import Z80.Proofs.Parallel

/-!
# The control state

Next to its registers a processor has a control state: the interrupt flip-flops and the interrupt
mode, whether it has stopped, whether an EI holds interrupts off. Few instructions set any of it,
and each does so in one way, `Instruction.control`. So it is known of every step and every
interrupt, over every bus, how it leaves the control state: `Cpu.step_cases`,
`Cpu.interrupt_control`, `Cpu.nonMaskableInterrupt_control`.
-/

namespace Z80

variable {α γ β : Type}

/-! ## Instructions -/

/-- The processor but for its registers: the control state. -/
def Cpu.control (cpu : Cpu) : Cpu :=
  { cpu with regs := {} }

/-- What is read off a control state. -/
theorem Cpu.of_control {c k : Cpu} (h : c.control = k) :
    c.iff1 = k.iff1 ∧ c.iff2 = k.iff2 ∧ c.halted = k.halted ∧ c.eiShadow = k.eiShadow := by
  subst h
  exact ⟨rfl, rfl, rfl, rfl⟩

/-- The control state in which an instruction that is done leaves a processor of control state
`c`. -/
def Instruction.control (c : Cpu) : Instruction → Cpu
  | .halt => { c with halted := true }
  | .disableInterrupts => { c with iff1 := false, iff2 := false }
  | .enableInterrupts => { c with iff1 := true, iff2 := true, eiShadow := true }
  | .setMode mode => { c with mode }
  | .retInterrupt => { c with iff1 := c.iff2 }
  | _ => c

theorem Instruction.control_eq {i : Instruction} (h : i.setsControl = false) (c : Cpu) :
    i.control c = c := by
  cases i with
  | halt | disableInterrupts | enableInterrupts | setMode | retInterrupt => cases h
  | _ => rfl

namespace Action

/-- The control state does not show the registers. -/
instance (change : Registers → Registers) :
    Obeys (.keeps Cpu.control) (modifyRegisters change) :=
  keeps_modifyRegisters fun _ => rfl

/-- An instruction that breaks off leaves the control state alone; RETN, which can break off in its
return, sets the flip-flop after that. -/
theorem execute_leaves (i : Instruction) (cpu : Cpu) :
    (execute i cpu).Leaves (·.control = cpu.control)
      fun _ c => c.control = i.control cpu.control := by
  cases hi : i.setsControl with
  | false =>
    rw [Instruction.control_eq hi]
    have hkept : Obeys (.keeps Cpu.control) (execute i) :=
      obeys_execute i hi fun _ => inferInstance
    exact hkept.obeys cpu
  | true =>
    cases i with
    | halt | disableInterrupts | enableInterrupts | setMode => exact .done rfl
    | retInterrupt =>
      refine Dialogue.Leaves.bind (Dialogue.Leaves.bind (leaves_kept Cpu.control ret cpu)
        fun _ c hc => ?_) fun _ c hc => .done hc
      refine .done ?_
      show ({ c.control with iff1 := c.control.iff2 } : Cpu) = _
      rw [hc]
      rfl
    | _ => cases hi

/-- CALL, once it has fetched its address. -/
def callAt (condition : Option Condition) (target : Word) : Action Bool := do
  let taken ← test condition
  if taken then
    push (← registers).pc
    jumpTo target
  return taken

section callAt

variable {condition : Option Condition} {cpu : Cpu}

theorem execute_call (condition : Option Condition) :
    execute (.call condition) = fetchWord >>= callAt condition := rfl

theorem callAt_of_not_taken {target : Word}
    (h : condition.all (·.holds cpu.regs.acc.f) = false) :
    callAt condition target cpu = .done false cpu := by
  show (if condition.all (·.holds cpu.regs.acc.f) = true then _ else pure _ : Action Bool) cpu = _
  rw [h]
  rfl

theorem callAt_of_taken {target : Word} (h : condition.all (·.holds cpu.regs.acc.f) = true) :
    callAt condition target cpu
      = (push cpu.regs.pc >>= fun _ => jumpTo target >>= fun _ => pure true) cpu := by
  show (if condition.all (·.holds cpu.regs.acc.f) = true then _ else pure _ : Action Bool) cpu = _
  rw [h]
  rfl

end callAt

/-- Runs the instruction at the program counter; it is returned with its clock cycles. -/
def observedInstruction : Action (Nat × Instruction) := do
  let (ignored, opcode) ← fetchOpcode
  let cycles ← perform opcode
  return (ignoredPrefixCycles * ignored + cycles, opcode.instruction)

theorem instruction_eq_observed : instruction = Prod.fst <$> observedInstruction := by
  unfold instruction observedInstruction
  simp only [map_eq_pure_bind, bind_assoc, pure_bind]

/-- The control bits after an instruction are those that it is listed with. -/
theorem observedInstruction_leaves (cpu : Cpu) :
    (observedInstruction cpu).Leaves (·.control = cpu.control)
      fun observed c => c.control = observed.2.control cpu.control := by
  refine (leaves_kept Cpu.control fetchOpcode cpu).bind fun selected c hc => ?_
  rw [← hc]
  refine Dialogue.Leaves.bind
    (P := fun _ c' => c'.control = selected.2.instruction.control c.control)
    ?_ fun cycles c' hc' => .done hc'
  refine (leaves_kept Cpu.control (admitOpcode selected.2) c).bind fun _ c' hc' => ?_
  rw [← hc']
  exact (execute_leaves selected.2.instruction c').bind fun taken c'' hc'' => .done hc''

end Action

namespace Cpu

variable [Bus β]

/-- The instruction that a step over a bus completes, if it does. -/
def executed (cpu : Cpu) (bus : β) : Option Instruction :=
  ((Action.observedInstruction cpu.begin).run bus).result.toOption.map Prod.snd

/-- A step runs its instruction, and charges a fault to the program counter it has started from. -/
theorem step_eq_observed (cpu : Cpu) (bus : β) :
    cpu.step bus
      = (((Action.observedInstruction cpu.begin).run bus).map Prod.fst id).blame cpu.regs.pc := by
  unfold step
  rw [Action.instruction_eq_observed, map_eq_pure_bind, Action.run_bind]
  rcases (Action.observedInstruction cpu.begin).run bus with ⟨_ | _, _, _⟩ <;> rfl

/-- A step fails and leaves the control state as it was at the beginning of the instruction, or it
completes an instruction. -/
theorem step_cases (cpu : Cpu) (bus : β) :
    (∃ fault, (cpu.step bus).result = .error fault ∧ cpu.executed bus = none ∧
      (cpu.step bus).cpu.control = cpu.begin.control) ∨
    ∃ cycles i, (cpu.step bus).result = .ok cycles ∧ cpu.executed bus = some i ∧
      (cpu.step bus).cpu.control = i.control cpu.begin.control := by
  have hleaves := (Action.observedInstruction_leaves cpu.begin).run bus
  rw [step_eq_observed, executed]
  generalize (Action.observedInstruction cpu.begin).run bus = out at hleaves
  obtain ⟨fault | ⟨cycles, i⟩, c, bus'⟩ := out
  · exact .inl ⟨_, rfl, rfl, hleaves⟩
  · exact .inr ⟨cycles, i, rfl, rfl, hleaves⟩

end Cpu

/-! ## Interrupts -/

namespace Cpu

/-- The address that an interrupt pushes: a stopped processor goes on after its HALT. -/
def returnAddress (cpu : Cpu) : Word :=
  if cpu.halted then cpu.regs.pc + 1 else cpu.regs.pc

/-- The processor on the way to a handler, with the stack pointer at `sp`. -/
def entering (cpu : Cpu) (sp : Word) : Cpu :=
  { cpu with halted := false, regs := { cpu.regs with pc := cpu.returnAddress, sp } }

/-- The processor at its handler. -/
def entered (cpu : Cpu) (handler : Word) : Cpu :=
  { cpu with
    halted := false
    regs := { cpu.regs with pc := handler, sp := cpu.regs.sp - 2 } }

end Cpu

namespace Action

/-- On the way to a handler the return address is pushed and nothing else is accessed. -/
theorem enterHandler_eq (handler : Word) (cpu : Cpu) :
    enterHandler handler cpu =
      .write (cpu.entering (cpu.regs.sp - 1)) (cpu.regs.sp - 1) (highByte cpu.returnAddress)
        (.write (cpu.entering (cpu.regs.sp - 2)) (cpu.regs.sp - 2) (lowByte cpu.returnAddress)
          (.done () (cpu.entered handler))) := by
  have hsp : cpu.regs.sp - 2 = cpu.regs.sp - 1 - 1 := by grind
  obtain ⟨regs, iff1, iff2, mode, halted, eiShadow, variant, start⟩ := cpu
  unfold Cpu.entered
  rw [hsp]
  cases halted <;> rfl

/-- Whether it is reached or not, a processor on the way to a handler has left its HALT. -/
theorem enterHandler_control [Bus β] (handler : Word) (cpu : Cpu) (bus : β) :
    ((enterHandler handler cpu).run bus).cpu.control = { cpu.control with halted := false } := by
  have hleaves : (enterHandler handler cpu).Leaves
      (·.control = { cpu.control with halted := false })
      fun _ c => c.control = { cpu.control with halted := false } := by
    rw [enterHandler_eq]
    exact .write rfl (.write rfl (.done rfl))
  have hout := hleaves.run bus
  generalize (enterHandler handler cpu).run bus = out at hout
  obtain ⟨_ | _, c, bus⟩ := out
  · exact hout
  · exact hout

/-- A handler is found from the byte on the data bus alone, or read from a table. -/
theorem handlerFor_eq (data : Byte) (cpu : Cpu) :
    handlerFor data cpu =
      match cpu.mode with
      | .mode0 =>
        match Opcode.mainInstruction .hl data with
        | .restart handler => .done (handler, 13) cpu
        | _ => .fail (.invalidOpcode cpu.regs.pc [data]) cpu
      | .mode1 => .done (mode1Handler, 13) cpu
      | .mode2 =>
        let table := wordOf cpu.regs.i data
        .read cpu table fun low => .read cpu (table + 1) fun high => .done (wordOf high low, 19) cpu
      := by
  obtain ⟨regs, iff1, iff2, mode, halted, eiShadow, variant, start⟩ := cpu
  cases mode with
  | mode0 =>
    unfold handlerFor
    generalize Opcode.mainInstruction .hl data = i
    cases i <;> rfl
  | mode1 | mode2 => rfl

/-- Looking for a handler changes nothing of the processor. -/
theorem handlerFor_leaves (data : Byte) (cpu : Cpu) :
    (handlerFor data cpu).Leaves (· = cpu) fun _ c => c = cpu := by
  rw [handlerFor_eq]
  split
  · split
    · exact .done rfl
    · exact .fail rfl
  · exact .done rfl
  · exact .read rfl fun _ => .read rfl fun _ => .done rfl

end Action

namespace Cpu

variable [Bus β]

/-- The processor when it has shut off further interrupts, on its way to a handler. -/
def masked (cpu : Cpu) : Cpu :=
  { cpu with iff1 := false, iff2 := false }

/-- An interrupt that is not held off finds its handler, shuts off further interrupts and goes
there. -/
theorem interrupt_eq (cpu : Cpu) (data : Byte) (bus : β) :
    cpu.interrupt data bus =
      if cpu.acceptsInterrupt then
        ((Action.handlerFor data cpu).run bus).bind fun found c bus =>
          ((Action.enterHandler found.1 c.masked).run bus).map (fun _ => some found.2) id
      else { result := .ok none, cpu, bus } := by
  have hentry (found : Word × Nat) (c : Cpu) (bus : β) :
      ((do
        Action.disableInterrupts
        Action.enterHandler found.1
        return some found.2 : Action (Option Nat)) c).run bus
        = ((Action.enterHandler found.1 c.masked).run bus).map (fun _ => some found.2) id := by
    show ((Action.enterHandler found.1 >>= fun _ => pure (some found.2)) c.masked).run bus = _
    rw [Action.run_bind]
    rcases (Action.enterHandler found.1 c.masked).run bus with ⟨_ | _, _, _⟩ <;> rfl
  have hchoice : Action.interrupt data cpu =
      (if cpu.acceptsInterrupt then do
        let found ← Action.handlerFor data
        Action.disableInterrupts
        Action.enterHandler found.1
        return some found.2
      else return none : Action (Option Nat)) cpu := rfl
  unfold interrupt
  rw [hchoice]
  cases cpu.acceptsInterrupt with
  | false => rfl
  | true =>
    rw [if_pos rfl, if_pos rfl, Action.run_bind]
    simp only [hentry]

/-- A maskable interrupt is held off, or no handler is found for it, or the processor goes to its
handler with further interrupts shut off. -/
theorem interrupt_cases (cpu : Cpu) (data : Byte) (bus : β) :
    (cpu.acceptsInterrupt = false ∧
      cpu.interrupt data bus = { result := .ok none, cpu, bus }) ∨
    (cpu.acceptsInterrupt = true ∧ ∃ fault bus',
      (Action.handlerFor data cpu).run bus = { result := .error fault, cpu, bus := bus' } ∧
      cpu.interrupt data bus = { result := .error fault, cpu, bus := bus' }) ∨
    (cpu.acceptsInterrupt = true ∧ ∃ handler cycles bus',
      (Action.handlerFor data cpu).run bus
        = { result := .ok (handler, cycles), cpu, bus := bus' } ∧
      cpu.interrupt data bus
        = ((Action.enterHandler handler cpu.masked).run bus').map (fun _ => some cycles) id) := by
  have hcpu := (Action.handlerFor_leaves data cpu).run bus
  rw [interrupt_eq]
  cases cpu.acceptsInterrupt with
  | false => exact .inl ⟨rfl, rfl⟩
  | true =>
    generalize (Action.handlerFor data cpu).run bus = out at hcpu
    obtain ⟨fault | ⟨handler, cycles⟩, c, bus'⟩ := out
    · obtain rfl : c = cpu := hcpu
      exact .inr (.inl ⟨rfl, fault, bus', rfl, rfl⟩)
    · obtain rfl : c = cpu := hcpu
      exact .inr (.inr ⟨rfl, handler, cycles, bus', rfl, rfl⟩)

theorem nonMaskableInterrupt_eq (cpu : Cpu) (bus : β) :
    cpu.nonMaskableInterrupt bus =
      ((Action.enterHandler Action.nonMaskableHandler
        { cpu with iff1 := false, iff2 := cpu.iff1 }).run bus).map (fun _ => 11) id := by
  show ((Action.enterHandler Action.nonMaskableHandler >>= fun _ => pure 11) _).run bus = _
  rw [Action.run_bind]
  rcases (Action.enterHandler Action.nonMaskableHandler
    { cpu with iff1 := false, iff2 := cpu.iff1 }).run bus with ⟨_ | _, _, _⟩ <;> rfl

/-- An interrupt is not answered and leaves the processor as it is, or it shuts off further
interrupts. -/
theorem interrupt_control (cpu : Cpu) (data : Byte) (bus : β) :
    ((∀ cycles, (cpu.interrupt data bus).result ≠ .ok (some cycles)) ∧
      (cpu.interrupt data bus).cpu = cpu) ∨
    (cpu.acceptsInterrupt = true ∧
      (cpu.interrupt data bus).cpu.control = { cpu.masked.control with halted := false }) := by
  rcases cpu.interrupt_cases data bus with
    ⟨-, he⟩ | ⟨-, fault, bus', -, he⟩ | ⟨hopen, handler, cycles, bus', -, he⟩
  · rw [he]
    exact .inl ⟨nofun, rfl⟩
  · rw [he]
    exact .inl ⟨nofun, rfl⟩
  · rw [he]
    exact .inr ⟨hopen, Action.enterHandler_control handler cpu.masked bus'⟩

/-- A non-maskable interrupt keeps the first flip-flop in the second. -/
theorem nonMaskableInterrupt_control (cpu : Cpu) (bus : β) :
    (cpu.nonMaskableInterrupt bus).cpu.control
      = { cpu.control with iff1 := false, iff2 := cpu.iff1, halted := false } := by
  rw [nonMaskableInterrupt_eq]
  exact Action.enterHandler_control Action.nonMaskableHandler
    { cpu with iff1 := false, iff2 := cpu.iff1 } bus

end Cpu

end Z80
