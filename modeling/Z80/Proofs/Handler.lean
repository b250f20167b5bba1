import Z80.Proofs.Completion
import Z80.Proofs.Operation

/-!
# Going to a handler over memory

An interrupt that is answered writes the return address to the two bytes below the stack pointer,
and that is all it changes of memory. So it is known when a machine reaches a handler and how it is
left otherwise: `Machine.respond_sent`.
-/

namespace Z80

variable {α δ : Type} [Device δ]

/-! ## Accesses to memory -/

namespace Dialogue

/-- A read does not change memory. -/
theorem run_read_memory (c : Cpu) (address : Word) (next : Byte → Dialogue α) (m : Memory δ) :
    (Dialogue.read c address next).run m =
      match m.read address with
      | .ok b => (next b).run m
      | .error fault => { result := .error fault, cpu := c, bus := m } := by
  rw [run_read_eq, show Bus.read m address = (m.read address, m) from rfl]
  cases m.read address <;> rfl

/-- A write succeeds inside memory. -/
theorem run_write_memory (c : Cpu) (address : Word) (v : Byte) (d : Dialogue α) (m : Memory δ) :
    (Dialogue.write c address v d).run m =
      if address.toNat < m.size then d.run (m.write address v).2
      else { result := .error (m.outside address), cpu := c, bus := m } := by
  rw [run_write_eq]
  by_cases h : address.toNat < m.size
  · obtain ⟨m', hwrite, -⟩ := Memory.write_inside h v
    rw [if_pos h, hwrite]
    exact follow_ok hwrite
  · rw [if_neg h]
    exact follow_error (dif_neg h)

theorem run_read_of_full {m : Memory δ} (hm : m.size = addressSpace) (c : Cpu) (address : Word)
    (next : Byte → Dialogue α) :
    (Dialogue.read c address next).run m = (next (m.byte address)).run m := by
  rw [run_read_memory, Memory.read_of_full hm]

theorem run_write_of_full {m : Memory δ} (hm : m.size = addressSpace) (c : Cpu) (address : Word)
    (v : Byte) (d : Dialogue α) :
    (Dialogue.write c address v d).run m = d.run (m.write address v).2 := by
  rw [run_write_memory, if_pos (hm ▸ address.toNat_lt)]

end Dialogue

namespace Action

/-- Looking for a handler does not change memory. -/
theorem run_handlerFor_bus (data : Byte) (cpu : Cpu) (m : Memory δ) :
    ((handlerFor data cpu).run m).bus = m := by
  rw [handlerFor_eq]
  split
  · split <;> rfl
  · rfl
  · rw [Dialogue.run_read_memory]
    split
    · rw [Dialogue.run_read_memory]
      split <;> rfl
    · rfl

/-- A handler is reached if both bytes below the stack pointer lie in memory. -/
theorem isOk_run_enterHandler (handler : Word) (cpu : Cpu) (m : Memory δ) :
    ((enterHandler handler cpu).run m).result.isOk = true ↔
      (cpu.regs.sp - 1).toNat < m.size ∧ (cpu.regs.sp - 2).toNat < m.size := by
  rw [enterHandler_eq, Dialogue.run_write_memory, Dialogue.run_write_memory, Memory.size_write]
  by_cases hhigh : (cpu.regs.sp - 1).toNat < m.size
  · by_cases hlow : (cpu.regs.sp - 2).toNat < m.size
    · rw [if_pos hhigh, if_pos hlow]
      exact iff_of_true rfl ⟨hhigh, hlow⟩
    · rw [if_pos hhigh, if_neg hlow]
      exact iff_of_false nofun fun h => hlow h.2
  · rw [if_neg hhigh]
    exact iff_of_false nofun fun h => hhigh h.1

/-- On the way to a handler the return address can be seen: in memory if the handler is reached, and
in the program counter otherwise. -/
theorem run_enterHandler_shows (handler : Word) (cpu : Cpu) (m : Memory δ) :
    let out := (enterHandler handler cpu).run m
    (out.result.isOk = true → out.bus.read (cpu.regs.sp - 2) = .ok (lowByte cpu.returnAddress)) ∧
      (out.result.isOk = false → out.cpu.regs.pc = cpu.returnAddress) := by
  rw [enterHandler_eq, Dialogue.run_write_memory, Dialogue.run_write_memory]
  by_cases hhigh : (cpu.regs.sp - 1).toNat < m.size
  · let m' := (m.write (cpu.regs.sp - 1) (highByte cpu.returnAddress)).2
    by_cases hlow : (cpu.regs.sp - 2).toNat < m'.size
    · rw [if_pos hhigh, if_pos hlow]
      exact ⟨fun _ => m'.read_write_self (lowByte cpu.returnAddress) hlow, nofun⟩
    · rw [if_pos hhigh, if_neg hlow]
      exact ⟨nofun, fun _ => rfl⟩
  · rw [if_neg hhigh]
    exact ⟨nofun, fun _ => rfl⟩

end Action

/-! ## Machines -/

namespace Machine

/-- Whether a stimulus sends the machine to a handler: a maskable interrupt that is not held off and
finds one, and every non-maskable interrupt. -/
def Enters (m : Machine δ) : Stimulus → Prop
  | .step => False
  | .interrupt data =>
    m.cpu.acceptsInterrupt = true ∧
      ((Action.handlerFor data m.cpu).run m.memory).result.isOk = true
  | .nonMaskableInterrupt => True

/-- Whether a return address can be pushed. -/
def HasStack (m : Machine δ) : Prop :=
  (m.cpu.regs.sp - 1).toNat < m.memory.size ∧ (m.cpu.regs.sp - 2).toNat < m.memory.size

/-- How a machine that was sent to a handler is left: it has left its HALT, and its status is set
if the handler was reached. -/
structure Sent (m after : Machine δ) : Prop where
  going : after.cpu.halted = false
  reached : m.HasStack → after.status = .running
  failed : ¬ m.HasStack → after.status = m.status

theorem sent_of_enterHandler {m after : Machine δ} (handler : Word) (cpu : Cpu)
    (hsp : cpu.regs.sp = m.cpu.regs.sp)
    (hcpu : after.cpu = ((Action.enterHandler handler cpu).run m.memory).cpu)
    (hstatus : after.status =
      if ((Action.enterHandler handler cpu).run m.memory).result.isOk then .running
      else m.status) : Sent m after := by
  have hstack := Action.isOk_run_enterHandler handler cpu m.memory
  rw [hsp] at hstack
  constructor
  · rw [hcpu]
    obtain ⟨-, -, hgoing, -⟩ :=
      Cpu.of_control (Action.enterHandler_control handler cpu m.memory)
    exact hgoing
  · intro h
    rw [hstatus, if_pos (hstack.2 h)]
  · intro h
    rw [hstatus, if_neg fun hok => h (hstack.1 hok)]

theorem interrupt_sent (m : Machine δ) (data : Byte) :
    ¬ m.Enters (.interrupt data) ∧ (m.interrupt data).2 = m ∨
      m.Enters (.interrupt data) ∧ Sent m (m.interrupt data).2 := by
  -- The handler may be read from memory, which leaves that as it is.
  have hmemory := Action.run_handlerFor_bus data m.cpu m.memory
  rcases m.cpu.interrupt_cases data m.memory with
    ⟨hheld, he⟩ | ⟨-, fault, bus, hfound, he⟩ | ⟨hopen, handler, cycles, bus, hfound, he⟩
  · left
    refine ⟨fun h => ?_, ?_⟩
    · rw [Enters, hheld] at h
      cases h.1
    · unfold interrupt
      rw [he]
      rfl
  · rw [hfound] at hmemory
    obtain rfl : bus = m.memory := hmemory
    left
    refine ⟨fun h => ?_, ?_⟩
    · rw [Enters, hfound] at h
      cases h.2
    · unfold interrupt
      rw [he]
      rfl
  · rw [hfound] at hmemory
    obtain rfl : bus = m.memory := hmemory
    right
    refine ⟨⟨hopen, congrArg (Except.isOk ·.result) hfound⟩, ?_⟩
    refine sent_of_enterHandler handler m.cpu.masked rfl ?_ ?_
    · rw [interrupt_cpu, he]
      rfl
    · unfold interrupt
      rw [he]
      rcases (Action.enterHandler handler m.cpu.masked).run m.memory with ⟨_ | _, _, _⟩ <;> rfl

theorem nonMaskableInterrupt_sent (m : Machine δ) : Sent m m.nonMaskableInterrupt.2 := by
  refine sent_of_enterHandler Action.nonMaskableHandler
    { m.cpu with iff1 := false, iff2 := m.cpu.iff1 } rfl ?_ ?_
  · rw [nonMaskableInterrupt_cpu, Cpu.nonMaskableInterrupt_eq]
    rfl
  · unfold nonMaskableInterrupt
    rw [Cpu.nonMaskableInterrupt_eq]
    rcases (Action.enterHandler Action.nonMaskableHandler
      { m.cpu with iff1 := false, iff2 := m.cpu.iff1 }).run m.memory with ⟨_ | _, _, _⟩ <;> rfl

/-- An interrupt that is held off or finds no handler is without effect, and any other sends the
machine to a handler. -/
theorem respond_sent (m : Machine δ) (stimulus : Stimulus) :
    stimulus = .step ∨ ¬ m.Enters stimulus ∧ (m.respond stimulus).2 = m ∨
      m.Enters stimulus ∧ Sent m (m.respond stimulus).2 := by
  cases stimulus with
  | step => exact .inl rfl
  | interrupt data => exact .inr (m.interrupt_sent data)
  | nonMaskableInterrupt => exact .inr (.inr ⟨trivial, m.nonMaskableInterrupt_sent⟩)

end Machine

end Z80
