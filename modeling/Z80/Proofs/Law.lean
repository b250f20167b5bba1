import Z80.Proofs.Selection

/-!
# Laws of actions

Much of what is said of instructions passes from their parts to the whole: that they leave something
of the processor as it was, that they complete, that they do no more than look. Such a property of
actions is a `Law`, and an action `Obeys` it.

Actions are put together from accesses to the bus and changes of the registers. Which of these obey
a law is for each law to say, and so is whether the law `Composes`. What is put together from them
is gone through here, once for all laws and in the order in which the actions are built up.
-/

namespace Z80

/-- A property of actions, whatever their value. -/
def Law : Type 1 :=
  ∀ α : Type, Action α → Prop

/-- An action that obeys a law. -/
class Action.Obeys {α : Type} (L : Law) (a : Action α) : Prop where
  obeys : L α a

/-- A law that an action obeys if its parts do, and that looking at the processor does not break. -/
class Law.Composes (L : Law) : Prop where
  done {α : Type} (x : α) : L α (pure x)
  look : L Cpu get
  bind {α γ : Type} {a : Action α} {k : α → Action γ} (first : L α a) (rest : ∀ x, L γ (k x)) :
    L γ (a >>= k)

/-! ## Changes of the registers -/

/-- The registers that instructions work with. -/
inductive Worked
  | a | f | bank | pc | sp
deriving DecidableEq

/-- Whether a change of the register file changes no more than what is named. -/
def Worked.Confines (change : Registers → Registers) : Worked → Prop
  | .a => ∀ regs, change regs = { regs with acc.a := (change regs).acc.a }
  | .f => ∀ regs, change regs = { regs with acc.f := (change regs).acc.f }
  | .bank => ∀ regs, change regs = { regs with bank := (change regs).bank }
  | .pc => ∀ regs, change regs = { regs with pc := (change regs).pc }
  | .sp => ∀ regs, change regs = { regs with sp := (change regs).sp }

/-- A law that what changes no more than this does not break. -/
class Law.Allows (L : Law) (worked : Worked) : Prop where
  change {change : Registers → Registers} (h : worked.Confines change) :
    L Unit (Action.modifyRegisters change)

namespace Action

variable {α γ : Type} {L : Law}

/-- A change of the registers obeys a law that allows it. -/
theorem obeys_modifyRegisters (worked : Worked) [L.Allows worked] {change : Registers → Registers}
    (h : worked.Confines change) : Obeys L (modifyRegisters change) :=
  ⟨Law.Allows.change h⟩

instance [h : ∀ change, Obeys L (modifyRegisters change)] (worked : Worked) : L.Allows worked :=
  ⟨fun _ => (h _).obeys⟩

/-! ## Steps -/

instance (q : Prop) [Decidable q] (a b : Action α) [ha : Obeys L a] [hb : Obeys L b] :
    Obeys L (if q then a else b) := by
  split
  · exact ha
  · exact hb

section composes

variable [L.Composes]

/-- Two actions that obey a law obey it one after the other. -/
theorem Obeys.bind {a : Action α} {k : α → Action γ} (ha : Obeys L a) (hk : ∀ x, Obeys L (k x)) :
    Obeys L (a >>= k) :=
  ⟨Law.Composes.bind ha.obeys fun x => (hk x).obeys⟩

instance (a : Action α) (k : α → Action γ) [ha : Obeys L a] [hk : ∀ x, Obeys L (k x)] :
    Obeys L (a >>= k) :=
  .bind ha hk

instance (x : α) : Obeys L (pure x) :=
  ⟨Law.Composes.done x⟩

instance : Obeys L (get : Action Cpu) :=
  ⟨Law.Composes.look⟩

instance : Obeys L registers :=
  inferInstanceAs (Obeys L (get >>= fun cpu : Cpu => pure cpu.regs))

instance : Obeys L flags :=
  inferInstanceAs (Obeys L (get >>= fun cpu : Cpu => pure cpu.regs.acc.f))

instance (name : Pair) : Obeys L (readPair name) :=
  inferInstanceAs (Obeys L (get >>= fun cpu : Cpu => pure (cpu.regs.readPair name)))

instance (condition : Option Condition) : Obeys L (test condition) := by
  unfold test
  infer_instance

instance (a : Action Unit) [Obeys L a] : Obeys L (always a) := by
  unfold always
  infer_instance

theorem Obeys.always {a : Action Unit} (h : Obeys L a) : Obeys L (always a) :=
  inferInstance

end composes

/-! ## Registers -/

instance [L.Allows .pc] (address : Word) : Obeys L (jumpTo address) :=
  obeys_modifyRegisters .pc fun _ => rfl

instance [L.Allows .pc] (w : Word) : Obeys L (writePair .pc w) :=
  obeys_modifyRegisters .pc fun _ => rfl

instance [L.Allows .sp] (w : Word) : Obeys L (writePair .sp w) :=
  obeys_modifyRegisters .sp fun _ => rfl

instance [L.Allows .bank] (w : Word) : Obeys L (writePair .hl w) :=
  obeys_modifyRegisters .bank fun _ => rfl

instance [L.Allows .bank] (w : Word) : Obeys L (writePair .de w) :=
  obeys_modifyRegisters .bank fun _ => rfl

instance [L.Allows .a] (x : Byte) : Obeys L (setA x) := by
  show Obeys L (modifyRegisters fun regs => regs.write .a x)
  exact obeys_modifyRegisters .a fun _ => rfl

instance [L.Allows .f] (f : Flags) : Obeys L (setFlags f) :=
  obeys_modifyRegisters .f fun _ => rfl

instance [L.Composes] [L.Allows .f] (f : Flags) (x : Byte) : Obeys L (settleFlags f x) :=
  inferInstanceAs (Obeys L (get >>= fun cpu : Cpu => setFlags (cpu.variant.flagModel.settle f x)))

instance [L.Composes] [L.Allows .a] [L.Allows .f] (out : Alu.Result) :
    Obeys L (setAccumulator out) :=
  inferInstanceAs (Obeys L (setA out.value >>= fun _ => setFlags out.flags))

section anyChange

variable [∀ change, Obeys L (modifyRegisters change)]

instance (name : Pair) (w : Word) : Obeys L (writePair name w) := by
  unfold writePair
  infer_instance

instance (name : Register) (x : Byte) : Obeys L (store (.register name) x) := by
  unfold store
  infer_instance

end anyChange

/-! ## Words, the stack and operands -/

section access

variable [L.Composes]

section read

variable [∀ address, Obeys L (readByte address)]

instance (address : Word) : Obeys L (readWord address) := by
  unfold readWord
  infer_instance

instance (operand : Operand) : Obeys L (load operand) := by
  unfold load
  cases operand <;> infer_instance

instance [L.Allows .pc] : Obeys L fetch := by
  have hpast : Obeys L (modifyRegisters fun regs => { regs with pc := regs.pc + 1 }) :=
    obeys_modifyRegisters .pc fun _ => rfl
  unfold fetch
  infer_instance

instance [L.Allows .sp] : Obeys L pop := by
  have hup : Obeys L (modifyRegisters fun regs => { regs with sp := regs.sp + 2 }) :=
    obeys_modifyRegisters .sp fun _ => rfl
  unfold pop
  infer_instance

instance [L.Allows .a] (address : Word) : Obeys L (loadAFrom address) := by
  unfold loadAFrom
  infer_instance

end read

section write

variable [∀ address x, Obeys L (writeByte address x)]

instance (address w : Word) : Obeys L (writeWord address w) := by
  unfold writeWord
  infer_instance

instance [L.Allows .sp] (w : Word) : Obeys L (push w) := by
  have hdown : Obeys L (modifyRegisters fun regs => { regs with sp := regs.sp - 1 }) :=
    obeys_modifyRegisters .sp fun _ => rfl
  unfold push pushByte
  infer_instance

end write

section fetch

variable [Obeys L fetch]

instance : Obeys L fetchWord := by
  unfold fetchWord
  infer_instance

instance (index : Index) : Obeys L (indirectAddress index) := by
  unfold indirectAddress
  cases index <;> infer_instance

instance (place : Place) : Obeys L (locate place) := by
  unfold locate
  cases place <;> infer_instance

instance : Obeys L immediatePort := by
  unfold immediatePort
  infer_instance

/-- An operand that has been found is the register that the opcode named, or lies in memory. -/
theorem obeys_locate {place : Place} {k : Operand → Action α}
    (hregister : ∀ name, place = .register name → Obeys L (k (.register name)))
    (hmemory : ∀ address, Obeys L (k (.memory address))) : Obeys L (locate place >>= k) := by
  cases place with
  | register name => exact hregister name rfl
  | indirect index =>
    have heq : locate (.indirect index) >>= k
        = indirectAddress index >>= fun address => k (.memory address) :=
      bind_assoc (indirectAddress index) (fun address => pure (Operand.memory address)) k
    rw [heq]
    exact .bind inferInstance hmemory

end fetch

end access

/-! ## Opcodes -/

section opcodes

variable [L.Composes] [Obeys L requireUndocumented]

instance (opcode : Opcode) : Obeys L (admitOpcode opcode) := by
  unfold admitOpcode
  infer_instance

/-- Reading on to the end of an opcode obeys a law, if giving up does. -/
theorem obeys_readsOn [Obeys L fetch]
    (hfail : ∀ fault : Cpu → Fault, L (Nat × Opcode) fun cpu => .fail (fault cpu) cpu)
    {byte : Byte} {a : Action (Nat × Opcode)} (h : Opcode.ReadsOn byte a) : Obeys L a := by
  induction h with
  | fail fault => exact ⟨hfail fault⟩
  | ask => infer_instance
  | fetch => infer_instance
  | finished => infer_instance

/-- Reading an opcode fetches and asks what the processor runs, and may be given up. -/
theorem obeys_fetchOpcode [Obeys L fetch]
    (hfail : ∀ fault : Cpu → Fault, L (Nat × Opcode) fun cpu => .fail (fault cpu) cpu) :
    Obeys L fetchOpcode :=
  .bind inferInstance fun byte =>
    obeys_readsOn hfail (Opcode.readsOn_select addressSpace 0 .hl byte)

end opcodes

/-! ## What instructions are made of -/

section work

variable [L.Composes]

instance [L.Allows .a] [L.Allows .f] (op : Alu.Operation) (x : Byte) : Obeys L (operate op x) := by
  unfold operate
  infer_instance

instance [L.Allows .a] [L.Allows .f] (change : Byte → Flags → Alu.Result) :
    Obeys L (accumulator change) := by
  unfold accumulator
  infer_instance

/-- An operation on bits obeys a law that allows the flags; only SLL asks what the processor
runs. -/
theorem obeys_transform [L.Allows .f] (op : BitOperation) (x : Byte)
    (h : op = .shift .sll → Obeys L requireUndocumented) : Obeys L (transform op x) := by
  cases op with
  | shift kind =>
    by_cases hk : kind = .sll
    · subst hk
      have := h rfl
      unfold transform
      infer_instance
    · simp only [transform, if_neg hk]
      infer_instance
  | test | reset | set =>
    unfold transform
    infer_instance

instance [L.Allows .f] [h : Obeys L requireUndocumented] (op : BitOperation) (x : Byte) :
    Obeys L (transform op x) :=
  obeys_transform op x fun _ => h

section operands

variable [Obeys L fetch] [∀ address x, Obeys L (writeByte address x)] {place : Place}

/-- What is stored to a place obeys a law if it does where the opcode named a register. -/
theorem obeys_store (h : ∀ name, place = .register name → ∀ x, Obeys L (store (.register name) x))
    {k : Operand → Action α}
    (hk : ∀ operand, (∀ x, Obeys L (store operand x)) → Obeys L (k operand)) :
    Obeys L (locate place >>= k) :=
  obeys_locate (fun name e => hk (.register name) (h name e)) fun address =>
    hk (.memory address) fun x => inferInstanceAs (Obeys L (writeByte address x))

variable [∀ operand, Obeys L (load operand)]

theorem obeys_move (source : Place)
    (h : ∀ name, place = .register name → ∀ x, Obeys L (store (.register name) x)) :
    Obeys L (move place source) :=
  obeys_store h fun _ _ => inferInstance

omit [∀ operand, Obeys L (load operand)] in
theorem obeys_moveImmediate
    (h : ∀ name, place = .register name → ∀ x, Obeys L (store (.register name) x)) :
    Obeys L (moveImmediate place) :=
  obeys_store h fun _ _ => inferInstance

theorem obeys_stepByte [L.Allows .f] (change : Byte → Flags → Alu.Result)
    (h : ∀ name, place = .register name → ∀ x, Obeys L (store (.register name) x)) :
    Obeys L (stepByte change place) :=
  obeys_store h fun _ _ => inferInstance

/-- An operation on the bits of a place, if the place can be stored to. -/
theorem obeys_bits (op : BitOperation) [∀ x, Obeys L (transform op x)]
    (h : ∀ name, place = .register name → ∀ x, Obeys L (store (.register name) x)) :
    Obeys L (bits op place) := by
  refine obeys_store h fun operand _ => .bind inferInstance fun x => .bind inferInstance ?_
  rintro (_ | written) <;> infer_instance

end operands

/-- An operation on the bits at a displacement, if the register that gets a copy can be stored
to. -/
theorem obeys_indexedBits [∀ address, Obeys L (readByte address)]
    [∀ address x, Obeys L (writeByte address x)] (op : BitOperation) [∀ x, Obeys L (transform op x)]
    (index : Index) (displacement : Byte) {copy : Option Register}
    (h : ∀ name, copy = some name → ∀ x, Obeys L (store (.register name) x)) :
    Obeys L (indexedBits op index displacement copy) := by
  refine .bind inferInstance fun regs => .bind inferInstance fun x => .bind inferInstance ?_
  rintro (_ | written)
  · infer_instance
  · refine .bind inferInstance fun _ => ?_
    cases copy with
    | none => infer_instance
    | some name => exact h name rfl written

/-- IN from the port in BC, if the register it fills can be stored to. -/
theorem obeys_inputTo [∀ port, Obeys L (inputByte port)] [L.Allows .f] {target : Option Register}
    (h : ∀ name, target = some name → ∀ x, Obeys L (store (.register name) x)) :
    Obeys L (inputTo target) := by
  refine .bind inferInstance fun regs => .bind inferInstance fun x => ?_
  cases target with
  | none => infer_instance
  | some name =>
    have := h name rfl
    infer_instance

/-! ### Blocks -/

section blocks

variable [L.Allows .bank]

instance (backwards : Bool) : Obeys L (advancePair backwards .hl) :=
  obeys_modifyRegisters .bank fun _ => rfl

instance (backwards : Bool) : Obeys L (advancePair backwards .de) :=
  obeys_modifyRegisters .bank fun _ => rfl

instance : Obeys L countDown := by
  have hbc : Obeys L (modifyRegisters fun regs => regs.writePair .bc (regs.bc - 1)) :=
    obeys_modifyRegisters .bank fun _ => rfl
  unfold countDown
  infer_instance

instance [L.Allows .f] : Obeys L countDownB := by
  have hb (out : Alu.Result) : Obeys L
      (modifyRegisters fun regs => { regs with bank.b := out.value, acc.f := out.flags }) := by
    have hvalue : Obeys L (modifyRegisters fun regs => { regs with bank.b := out.value }) :=
      obeys_modifyRegisters .bank fun _ => rfl
    exact inferInstanceAs (Obeys L (modifyRegisters (fun regs =>
      { regs with bank.b := out.value }) >>= fun _ => setFlags out.flags))
  unfold countDownB
  infer_instance

variable [L.Allows .f] [∀ address, Obeys L (readByte address)]
  [∀ address x, Obeys L (writeByte address x)] [∀ port, Obeys L (inputByte port)]
  [∀ port x, Obeys L (outputByte port x)]

instance (kind : BlockKind) (backwards : Bool) : Obeys L (blockPass kind backwards) := by
  cases kind with
  | load =>
    exact .bind inferInstance fun _ => .bind inferInstance fun _ => .bind inferInstance fun _ =>
      inferInstance
  | compare | input | output =>
    unfold blockPass blockCompare blockInput blockOutput
    infer_instance

instance [L.Allows .pc] (kind : BlockKind) (backwards repeats : Bool) :
    Obeys L (block kind backwards repeats) := by
  have hback : Obeys L (modifyRegisters fun regs => { regs with pc := regs.pc - 2 }) :=
    obeys_modifyRegisters .pc fun _ => rfl
  unfold block
  infer_instance

end blocks

/-! ### Transfers of control -/

section transfers

variable [L.Allows .pc]

/-- HALT sets one bit and takes the program counter back. -/
theorem obeys_halt (h : Obeys L (modify fun cpu => { cpu with halted := true } : Action Unit)) :
    Obeys L halt := by
  have hback : Obeys L (modifyRegisters fun regs => { regs with pc := regs.pc - 1 }) :=
    obeys_modifyRegisters .pc fun _ => rfl
  unfold halt
  infer_instance

instance [Obeys L pop] : Obeys L ret := by
  unfold ret
  infer_instance

instance [Obeys L ret] (condition : Condition) : Obeys L (retIf condition) := by
  unfold retIf
  infer_instance

instance [∀ w, Obeys L (push w)] (target : Word) : Obeys L (restart target) := by
  unfold restart
  infer_instance

variable [Obeys L fetch]

instance (condition : Option Condition) : Obeys L (jump condition) := by
  unfold jump
  infer_instance

instance (taken : Bool) : Obeys L (jumpBy taken) := by
  unfold jumpBy
  infer_instance

instance (condition : Option Condition) : Obeys L (jumpRelative condition) := by
  unfold jumpRelative
  infer_instance

instance [L.Allows .bank] : Obeys L decrementAndJump := by
  have hb : Obeys L (modifyRegisters fun regs => { regs with bank.b := regs.bank.b - 1 }) :=
    obeys_modifyRegisters .bank fun _ => rfl
  unfold decrementAndJump
  infer_instance

instance [∀ w, Obeys L (push w)] (condition : Option Condition) : Obeys L (call condition) := by
  unfold call
  infer_instance

end transfers

end work

end Action

/-! ## Instructions -/

namespace Instruction

/-- What an instruction does to the bits of its operand, if that is what it is for. -/
def bitOperation? : Instruction → Option BitOperation
  | .bits op _ | .indexedBits op _ _ _ => some op
  | _ => none

/-- Whether an instruction is for setting something of the processor that is not a register. -/
def setsControl : Instruction → Bool
  | .halt | .disableInterrupts | .enableInterrupts | .setMode _ | .retInterrupt => true
  | _ => false

end Instruction

namespace Action

variable {L : Law} [L.Composes] [∀ address, Obeys L (readByte address)]
  [∀ address x, Obeys L (writeByte address x)] [∀ port, Obeys L (inputByte port)]
  [∀ port x, Obeys L (outputByte port x)] [∀ change, Obeys L (modifyRegisters change)]

/-- A law that all accesses and all changes of the registers obey is obeyed by all instructions but
those for setting something that is not a register. The shift that moves a one in also asks for a
processor that runs what the manual does not list. -/
theorem obeys_execute (i : Instruction) (hi : i.setsControl = false)
    (h : i.bitOperation? = some (.shift .sll) → Obeys L requireUndocumented) :
    Obeys L (execute i) := by
  cases i with
  | halt | disableInterrupts | enableInterrupts | setMode | retInterrupt => cases hi
  | nop | nothing => exact inferInstanceAs (Obeys L (pure false))
  | load target source => exact .always (obeys_move source fun _ _ => inferInstance)
  | storeSpecial target => exact .always (obeys_move (.register .a) fun _ _ => inferInstance)
  | loadImmediate target => exact .always (obeys_moveImmediate fun _ _ => inferInstance)
  | increment operand | decrement operand =>
    exact .always (obeys_stepByte _ fun _ _ => inferInstance)
  | bits op operand =>
    have := fun x => obeys_transform op x fun e => h (congrArg some e)
    exact .always (obeys_bits op fun _ _ => inferInstance)
  | indexedBits op index displacement copy =>
    have := fun x => obeys_transform op x fun e => h (congrArg some e)
    exact .always (obeys_indexedBits op index displacement fun _ _ => inferInstance)
  | inputTo target => exact .always (obeys_inputTo fun _ _ => inferInstance)
  | _ =>
    simp only [execute, storeATo, loadSpecial, movePairImmediate, loadPair, storePair, copyPair,
      exchangeDeHl, exchangeStackTop, inputImmediate, outputImmediate, outputFrom, addPair,
      combinePair, rotateDigit]
    infer_instance

end Action

end Z80
