import Z80.Dialogue

/-!
# Actions of the processor

An `Action` starts from a state of the processor and leads to a dialogue with the buses. Actions
are a monad whose state is the processor, and instructions are written in it. This file has the
steps they are made of: single accesses, the register file, words in memory, and the stack.

The order of accesses is part of what an instruction does, and so is the state in between: a word
is fetched and read low byte first, and pushed high byte first, with the stack pointer moved before
each of the two writes but after both reads of a pop.
-/

namespace Z80

/-- What the processor does from a given state on. -/
def Action (α : Type) : Type :=
  Cpu → Dialogue α

namespace Action

instance : Monad Action where
  pure value := fun cpu => .done value cpu
  bind action k := fun cpu => (action cpu).bind k

instance : LawfulMonad Action :=
  LawfulMonad.mk' Action
    (fun action => funext fun cpu => Dialogue.bind_done (action cpu))
    (fun _ _ => rfl)
    (fun action k k' => funext fun cpu => Dialogue.bind_bind (action cpu) k k')

/-- What is done after an action is done over the bus that the action leaves. -/
theorem run_bind {α β γ : Type} [Bus β] (a : Action α) (k : α → Action γ) (cpu : Cpu) (bus : β) :
    ((a >>= k) cpu).run bus = ((a cpu).run bus).bind fun x c bus => (k x c).run bus :=
  Dialogue.run_bind (a cpu) k bus

instance : MonadStateOf Cpu Action where
  get := fun cpu => .done cpu cpu
  set cpu := fun _ => .done () cpu
  modifyGet f := fun cpu => .done (f cpu).1 (f cpu).2

/-- Reads memory. -/
def readByte (address : Word) : Action Byte := fun cpu =>
  .read cpu address fun v => .done v cpu

/-- Writes memory. -/
def writeByte (address : Word) (value : Byte) : Action Unit := fun cpu =>
  .write cpu address value (.done () cpu)

/-- Takes a byte from a port. -/
def inputByte (port : Word) : Action Byte := fun cpu =>
  .input cpu port fun v => .done v cpu

/-- Sends a byte to a port. -/
def outputByte (port : Word) (value : Byte) : Action Unit := fun cpu =>
  .output cpu port value (.done () cpu)

/-- Fails with a fault of the processor's own. -/
def fail {α : Type} (fault : Fault) : Action α := fun cpu =>
  .fail fault cpu

/-- Goes on only if the processor runs what the manual does not list. -/
def requireUndocumented : Action Unit := fun cpu =>
  match cpu.variant.conformance with
  | .undocumented => .done () cpu
  | .documented => .reject cpu

/-- A processor that runs all opcodes refuses none. -/
theorem requireUndocumented_of_undocumented {cpu : Cpu}
    (h : cpu.variant.conformance = .undocumented) : requireUndocumented cpu = .done () cpu := by
  rw [requireUndocumented, h]

/-- A processor that runs the listed opcodes refuses where it is asked for another. -/
theorem requireUndocumented_of_documented {cpu : Cpu}
    (h : cpu.variant.conformance = .documented) : requireUndocumented cpu = .reject cpu := by
  rw [requireUndocumented, h]

/-! ## Registers -/

/-- The register file. -/
def registers : Action Registers := fun cpu =>
  .done cpu.regs cpu

/-- Changes the register file. -/
def modifyRegisters (f : Registers → Registers) : Action Unit := fun cpu =>
  .done () { cpu with regs := f cpu.regs }

/-- The flags. -/
def flags : Action Flags := fun cpu =>
  .done cpu.regs.acc.f cpu

/-- Replaces the flags. -/
def setFlags (f : Flags) : Action Unit :=
  modifyRegisters fun regs => { regs with acc.f := f }

/-- Replaces the accumulator and the flags. -/
def setAccumulator (out : Alu.Result) : Action Unit :=
  modifyRegisters fun regs => { regs with acc := { a := out.value, f := out.flags } }

/-- Goes on at an address. -/
def jumpTo (address : Word) : Action Unit :=
  modifyRegisters fun regs => { regs with pc := address }

/-! ## Words in memory, and the stack -/

/-- Takes the byte at the program counter, which moves past it. -/
def fetch : Action Byte := do
  let v ← readByte (← registers).pc
  modifyRegisters fun regs => { regs with pc := regs.pc + 1 }
  return v

/-- Takes the word at the program counter, low byte first. -/
def fetchWord : Action Word := do
  let low ← fetch
  let high ← fetch
  return wordOf high low

/-- Reads a word, low byte first. -/
def readWord (address : Word) : Action Word := do
  let low ← readByte address
  let high ← readByte (address + 1)
  return wordOf high low

/-- Writes a word, low byte first. -/
def writeWord (address : Word) (w : Word) : Action Unit := do
  writeByte address (lowByte w)
  writeByte (address + 1) (highByte w)

/-- Moves the stack pointer down and writes a byte there. -/
def pushByte (v : Byte) : Action Unit := do
  modifyRegisters fun regs => { regs with sp := regs.sp - 1 }
  writeByte (← registers).sp v

/-- Pushes a word, high byte first, so that it lies in memory with the low byte first. -/
def push (w : Word) : Action Unit := do
  pushByte (highByte w)
  pushByte (lowByte w)

/-- Pops a word; the stack pointer moves once both bytes have been read. -/
def pop : Action Word := do
  let w ← readWord (← registers).sp
  modifyRegisters fun regs => { regs with sp := regs.sp + 2 }
  return w

end Action

end Z80
