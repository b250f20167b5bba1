import Z80.Proofs.Frame
import Z80.Proofs.Harm
import Z80.Proofs.IndexedBits
import Z80.Proofs.Record

/-!
# What instructions do outside the processor

Reading memory leaves no trace. The other accesses of an instruction are its *effects*: the
addresses it stores to and the ports it turns to, in order. `Instruction.effects` lists them for
every instruction, from the registers before it and the bytes that follow its opcode.

`Dialogue.Makes` says of a dialogue which effects it has over a memory of known contents, and
`Makes.run` that the record of the bus shows these. What is not stored to is unchanged
(`Recorded.keeps_unstored`), so that the list also says which bytes of memory a step can change.
-/

namespace Z80

variable {α γ δ : Type}

/-! ## The effects of an instruction -/

/-- An access other than reading memory, without the byte that it sends. -/
inductive Effect
  | store (address : Word)
  | input (port : Word)
  | output (port : Word)
deriving DecidableEq

namespace Access

/-- The effect that an access is, if it is one. -/
def effect? : Access → Option Effect
  | .read _ => none
  | .write address _ => some (.store address)
  | .input port => some (.input port)
  | .output port _ => some (.output port)

/-- The effects among some accesses, in order. -/
def effects (accesses : List Access) : List Effect :=
  accesses.filterMap effect?

theorem effects_append (log more : List Access) :
    effects (log ++ more) = effects log ++ effects more :=
  List.filterMap_append

end Access

/-- The operand that a place stands for, if `d` is the byte that comes next. -/
def Place.found (regs : Registers) (d : Byte) : Place → Operand
  | .register name => .register name
  | .indirect .hl => .memory regs.hl
  | .indirect index => .memory (regs.addressFrom index.pair d)

/-- The effects of storing to an operand. -/
def Operand.stores : Operand → List Effect
  | .register _ => []
  | .memory address => [.store address]

/-- The effects of pushing a word. -/
def Registers.pushes (regs : Registers) : List Effect :=
  [.store (regs.sp - 1), .store (regs.sp - 2)]

/-- The effects of an instruction that is done, from the registers before it. The byte after its
opcode is `d`, which is its displacement or its port if it has one there, and `nn` is the word. -/
def Instruction.effects (regs : Registers) (d : Byte) (nn : Word) : Instruction → List Effect
  | .load target _ | .loadImmediate target | .increment target | .decrement target =>
    (target.found regs d).stores
  | .bits (.test _) _ | .indexedBits (.test _) _ _ _ => []
  | .bits _ target => (target.found regs d).stores
  | .indexedBits _ index displacement _ => [.store (regs.addressFrom index.pair displacement)]
  | .rotateDigitLeft | .rotateDigitRight => [.store regs.hl]
  | .storeAccumulatorTo pointer => [.store (regs.readPair pointer)]
  | .storeAccumulator => [.store nn]
  | .storeIndex _ | .storePair _ => [.store nn, .store (nn + 1)]
  | .push _ | .restart _ => regs.pushes
  | .call condition => if condition.all (·.holds regs.acc.f) then regs.pushes else []
  | .exchangeStackTop _ => [.store regs.sp, .store (regs.sp + 1)]
  | .input => [.input (wordOf regs.acc.a d)]
  | .output => [.output (wordOf regs.acc.a d)]
  | .inputTo _ => [.input regs.bc]
  | .outputFrom _ => [.output regs.bc]
  | .block .load _ _ => [.store regs.de]
  | .block .input _ _ => [.input regs.bc, .store regs.hl]
  | .block .output _ _ => [.output (wordOf (regs.bank.b - 1) regs.bank.c)]
  | _ => []

/-! ## The effects of a dialogue -/

/-- The effects that a dialogue has if it is done, over a memory with these contents. After a write
the contents may be any. -/
inductive Dialogue.Makes : (Word → Byte) → List Effect → Dialogue α → Prop
  | done {contents x c} : Makes contents [] (.done x c)
  | fail {contents effects fault c} : Makes contents effects (.fail fault c)
  | reject {contents effects c} : Makes contents effects (.reject c)
  | read {contents effects c address k} (next : Makes contents effects (k (contents address))) :
    Makes contents effects (.read c address k)
  | write {contents effects c address v d} (next : ∀ contents', Makes contents' effects d) :
    Makes contents (.store address :: effects) (.write c address v d)
  | input {contents effects c port k} (next : ∀ v, Makes contents effects (k v)) :
    Makes contents (.input port :: effects) (.input c port k)
  | output {contents effects c port v d} (next : Makes contents effects d) :
    Makes contents (.output port :: effects) (.output c port v d)

namespace Dialogue

variable {contents : Word → Byte} {effects : List Effect} {d : Dialogue α}

/-- Without a write the contents are as before, so that more may come after a dialogue that has no
effects. -/
theorem Makes.after {k : α → Cpu → Dialogue γ} (hd : d.Makes contents [])
    (hk : ∀ x c, (k x c).Makes contents effects) : (d.bind k).Makes contents effects := by
  generalize hnone : ([] : List Effect) = nothing at hd
  induction hd with
  | done => exact hk _ _
  | fail => exact .fail
  | reject => exact .reject
  | read _ ih => exact .read (ih hk hnone)
  | write | input | output => cases hnone

/-- A dialogue that has no effects may come after any. -/
theorem Makes.before {k : α → Cpu → Dialogue γ} (hd : d.Makes contents effects)
    (hk : ∀ x c contents, (k x c).Makes contents []) : (d.bind k).Makes contents effects := by
  induction hd with
  | done => exact hk _ _ _
  | fail => exact .fail
  | reject => exact .reject
  | read _ ih => exact .read ih
  | write _ ih => exact .write ih
  | input _ ih => exact .input ih
  | output _ ih => exact .output ih

end Dialogue

/-! ## Actions without effects -/

/-- The law of what has no effects, whatever the contents of memory. -/
def Law.quiet : Law := fun _ a =>
  ∀ cpu contents, (a cpu).Makes contents []

instance : Law.quiet.Composes where
  done _ _ _ := .done
  look _ _ := .done
  bind ha hk cpu contents := .after (ha cpu contents) fun x c => hk x c contents

namespace Action

instance (address : Word) : Obeys .quiet (readByte address) :=
  ⟨fun _ _ => .read .done⟩

instance (change : Registers → Registers) : Obeys .quiet (modifyRegisters change) :=
  ⟨fun _ _ => .done⟩

instance : Obeys .quiet requireUndocumented := by
  refine ⟨fun cpu contents => ?_⟩
  unfold requireUndocumented
  split
  · exact .done
  · exact .reject

end Action

/-! ## The effects of instructions -/

namespace Action

variable {contents : Word → Byte} {effects : List Effect} {cpu : Cpu}

/-- Reading an opcode has no effects. -/
theorem makes_fetchOpcode (cpu : Cpu) (contents : Word → Byte) :
    (fetchOpcode cpu).Makes contents [] := by
  have hquiet : Obeys .quiet fetchOpcode := obeys_fetchOpcode fun _ _ _ => .fail
  exact hquiet.obeys cpu contents

/-- What only reads can come first, and adds no effect. -/
theorem makes_after {a : Action α} {k : α → Action γ} [ha : Obeys .quiet a]
    (hk : ∀ x c, (k x c).Makes contents effects) : ((a >>= k) cpu).Makes contents effects :=
  .after (ha.obeys cpu contents) hk

/-- What only reads can come last, and adds no effect. -/
theorem makes_before {a : Action α} {k : α → Action γ} (ha : (a cpu).Makes contents effects)
    (hk : ∀ x, Obeys .quiet (k x)) : ((a >>= k) cpu).Makes contents effects :=
  .before ha fun x => (hk x).obeys

theorem makes_always {a : Action Unit} (h : (a cpu).Makes contents effects) :
    (always a cpu).Makes contents effects :=
  makes_before h fun _ => inferInstance

/-- Storing to an operand has one effect if it lies in memory, and none if not. -/
theorem makes_store (operand : Operand) (v : Byte) :
    (store operand v cpu).Makes contents operand.stores := by
  cases operand with
  | register name => exact .done
  | memory address => exact .write fun _ => .done

/-- Finding an operand takes the displacement from memory. -/
theorem makes_locate {place : Place} {k : Operand → Action α}
    (hk : ∀ c, (k (place.found cpu.regs (contents cpu.regs.pc)) c).Makes contents effects) :
    ((locate place >>= k) cpu).Makes contents effects := by
  cases place with
  | register name => exact hk cpu
  | indirect index =>
    cases index with
    | hl => exact hk cpu
    | ix | iy => exact .read (hk _)

theorem makes_fetchWord {k : Word → Action α}
    (hk : (k (wordOf (contents (cpu.regs.pc + 1)) (contents cpu.regs.pc))
      cpu.pastByte.pastByte).Makes contents effects) :
    ((fetchWord >>= k) cpu).Makes contents effects :=
  .read (.read hk)

/-- A push has two effects, the upper byte first. -/
theorem makes_push (w : Word) (cpu : Cpu) : (push w cpu).Makes contents cpu.regs.pushes := by
  rw [push_eq]
  exact .write fun _ => .write fun _ => .done

/-- INC and DEC of a place store to it alone. -/
theorem makes_stepByte (change : Byte → Flags → Alu.Result) (place : Place) :
    (stepByte change place cpu).Makes contents
      (place.found cpu.regs (contents cpu.regs.pc)).stores := by
  refine makes_locate fun _ => makes_after fun v _ => makes_after fun f _ => ?_
  exact makes_before (makes_store _ _) fun _ => inferInstance

/-- A bit operation goes on with what it made of the byte, if it is not refused. -/
theorem makes_transform {op : BitOperation} {v : Byte} {k : Option Byte → Action α}
    (hk : ∀ c, (k (op.made v cpu.regs.acc.f) c).Makes contents effects) :
    ((transform op v >>= k) cpu).Makes contents effects := by
  show ((transform op v cpu).bind k).Makes contents effects
  rcases transform_cases op v cpu with hrefused | hdone
  · rw [hrefused]
    exact .reject
  · rw [hdone]
    exact hk _

/-- An operation on the bits of a place stores to it, if it yields a byte. -/
theorem makes_bits (op : BitOperation) (place : Place) :
    (bits op place cpu).Makes contents ((Instruction.bits op place).effects cpu.regs
      (contents cpu.regs.pc) (wordOf (contents (cpu.regs.pc + 1)) (contents cpu.regs.pc))) := by
  refine makes_locate fun _ => makes_after fun v _ => makes_transform fun c => ?_
  cases op with
  | test bit => exact .done
  | shift | reset | set => exact makes_store _ _

/-- At a displacement the byte is stored to memory, whether it is copied or not. -/
theorem makes_indexedBits (op : BitOperation) (index : Index) (d : Byte) (copy : Option Register) :
    (indexedBits op index d copy cpu).Makes contents
      ((Instruction.indexedBits op index d copy).effects cpu.regs (contents cpu.regs.pc)
        (wordOf (contents (cpu.regs.pc + 1)) (contents cpu.regs.pc))) := by
  refine .read (makes_transform fun c => ?_)
  cases op with
  | test bit => exact .done
  | shift | reset | set => cases copy <;> exact .write fun _ => .done

/-- One pass over a byte has the one effect of its kind. -/
theorem makes_blockPass (kind : BlockKind) (backwards repeats : Bool) :
    (blockPass kind backwards cpu).Makes contents
      ((Instruction.block kind backwards repeats).effects cpu.regs (contents cpu.regs.pc)
        (wordOf (contents (cpu.regs.pc + 1)) (contents cpu.regs.pc))) := by
  cases kind with
  | load => exact .read (.write fun _ => .done)
  | compare => exact .read .done
  | input => exact .input fun _ => .write fun _ => .done
  | output => exact .read (.output .done)

/-- CALL pushes if it is taken, and has no effect if not. -/
theorem makes_call (condition : Option Condition) :
    (call condition cpu).Makes contents
      (if condition.all (·.holds cpu.regs.acc.f) then cpu.regs.pushes else []) := by
  refine makes_fetchWord ?_
  show (callAt condition _ cpu.pastByte.pastByte).Makes contents _
  split
  · next htaken =>
    have hpast : condition.all (·.holds cpu.pastByte.pastByte.regs.acc.f) = true := htaken
    have hpush (w : Word) :
        (push w cpu.pastByte.pastByte).Makes contents cpu.regs.pushes :=
      makes_push w cpu.pastByte.pastByte
    rw [callAt_of_taken hpast]
    exact makes_before (hpush _) fun _ => inferInstance
  · next hkept =>
    have hpast : condition.all (·.holds cpu.pastByte.pastByte.regs.acc.f) = false :=
      Bool.eq_false_iff.2 hkept
    rw [callAt_of_not_taken hpast]
    exact .done

/-- **The effects of an instruction are those of the table.** -/
theorem makes_execute (i : Instruction) (cpu : Cpu) (contents : Word → Byte) :
    (execute i cpu).Makes contents (i.effects cpu.regs (contents cpu.regs.pc)
      (wordOf (contents (cpu.regs.pc + 1)) (contents cpu.regs.pc))) := by
  have hquiet {a : Action Bool} (ha : Obeys .quiet a) : (a cpu).Makes contents [] :=
    ha.obeys cpu contents
  cases i with
  | load target source =>
    refine makes_always (makes_locate fun _ => makes_after fun _ _ => makes_after fun v _ => ?_)
    exact makes_store _ v
  | loadImmediate target =>
    exact makes_always (makes_locate fun _ => makes_after fun v _ => makes_store _ v)
  | increment operand | decrement operand => exact makes_always (makes_stepByte _ operand)
  | bits op operand => exact makes_always (makes_bits op operand)
  | indexedBits op index d copy => exact makes_always (makes_indexedBits op index d copy)
  | rotateDigitLeft | rotateDigitRight => exact .read (.write fun _ => .done)
  | storeAccumulatorTo pointer => exact .write fun _ => .done
  | storeAccumulator => exact .read (.read (.write fun _ => .done))
  | storeIndex source | storePair source =>
    exact .read (.read (.write fun _ => .write fun _ => .done))
  | push source => exact makes_always (makes_push (cpu.regs.readPair source) cpu)
  | restart target =>
    have hpush : ((push cpu.regs.pc >>= fun _ => jumpTo target) cpu).Makes contents
        cpu.regs.pushes := makes_before (makes_push _ _) fun _ => inferInstance
    exact makes_always hpush
  | call condition => exact makes_call condition
  | exchangeStackTop index =>
    exact .read (.read (.write fun _ => .write fun _ => .done))
  | input => exact .read (.input fun _ => .done)
  | output => exact .read (.output .done)
  | inputTo target => cases target <;> exact .input fun _ => .done
  | outputFrom source => exact .output .done
  | block kind backwards repeats =>
    exact makes_before (makes_blockPass kind backwards repeats) fun _ => inferInstance
  | disableInterrupts | enableInterrupts | setMode | storeSpecial | halt => exact .done
  | retInterrupt => exact makes_always (makes_after fun _ _ => .done)
  | _ =>
    refine hquiet ?_
    simp only [execute, loadSpecial, movePairImmediate, loadPair, copyPair, exchangeDeHl, addPair,
      combinePair]
    infer_instance

end Action

/-! ## What the record shows -/

namespace Memory

theorem byte_of_read {m : Memory δ} {address : Word} {v : Byte} (h : m.read address = .ok v) :
    m.byte address = v := by
  by_cases hin : address.toNat < m.size
  · rw [read_of_inside hin] at h
    exact Except.ok.inj h
  · rw [read_of_outside hin] at h
    cases h

theorem byte_congr {m m' : Memory δ} (h : m.bytes = m'.bytes) (address : Word) :
    m.byte address = m'.byte address := by
  rw [byte, byte, h]

/-- A write changes the byte at its address alone. -/
theorem byte_write_of_ne (m : Memory δ) {address other : Word} (v : Byte) (h : other ≠ address) :
    (m.write address v).2.byte other = m.byte other := by
  have hn : address.toNat ≠ other.toNat := fun e => h (UInt16.toNat_inj.1 e).symm
  unfold write byte
  split
  · simp [Array.getD, Array.getElem_set, hn]
  · rfl

end Memory

namespace Recorded

/-- Whether memory is still `m` but for the bytes that were stored to by the record. -/
def Unstored (m : Memory δ) (r : Recorded (Memory δ)) : Prop :=
  r.bus.size = m.size ∧
    ∀ address, .store address ∉ Access.effects r.accesses → r.bus.byte address = m.byte address

/-- An access that changes no byte leaves it so, whatever is noted. -/
theorem Unstored.note {m : Memory δ} {r : Recorded (Memory δ)} (h : r.Unstored m) {m' : Memory δ}
    (hm : m'.bytes = r.bus.bytes) (access : Access) :
    Unstored m { bus := m', accesses := r.accesses ++ [access] } := by
  refine ⟨(congrArg Array.size hm).trans h.1, fun address hn => ?_⟩
  rw [Access.effects_append, List.mem_append, not_or] at hn
  exact (Memory.byte_congr hm address).trans (h.2 address hn.1)

/-- A byte of memory that has not been stored to is as it was. -/
theorem keeps_unstored [Device δ] (m : Memory δ) : Bus.Keeps (Unstored m) := by
  constructor
  · exact fun h a => h.note rfl (.read a)
  · rintro r h a v
    refine ⟨(Memory.size_write r.bus a v).trans h.1, fun address hn => ?_⟩
    have heffects : Access.effects (Bus.write r a v).2.accesses
        = Access.effects r.accesses ++ [.store a] := Access.effects_append _ _
    rw [heffects, List.mem_append, List.mem_singleton, not_or] at hn
    have hne : address ≠ a := fun e => hn.2 (congrArg Effect.store e)
    exact (r.bus.byte_write_of_ne v hne).trans (h.2 address hn.1)
  · exact fun h p => h.note rfl (.input p)
  · exact fun h p v => h.note rfl (.output p v)

end Recorded

namespace Dialogue

variable [Device δ] {d : Dialogue α} {contents : Word → Byte} {effects : List Effect}

/-- One access: it stands first among what is added to the record. -/
theorem Makes.follow {cpu : Cpu} {next : γ → Dialogue α} {r : Recorded (Memory δ)} {x : α}
    (access : Access) (answer : Except Fault γ × Memory δ)
    (hok : (Dialogue.follow cpu next (r.note access answer)).result = .ok x)
    (ih : ∀ v m, answer = (.ok v, m) →
      let r' : Recorded (Memory δ) := { bus := m, accesses := r.accesses ++ [access] }
      ((next v).run r').result = .ok x →
      Access.effects ((next v).run r').bus.accesses = Access.effects r'.accesses ++ effects) :
    Access.effects (Dialogue.follow cpu next (r.note access answer)).bus.accesses
      = Access.effects r.accesses ++ (Access.effects [access] ++ effects) := by
  obtain ⟨v, r', hanswer, hrun⟩ := of_follow_ok hok
  obtain ⟨hv, rfl⟩ := Prod.mk.inj hanswer
  rw [hrun] at hok ⊢
  rw [← List.append_assoc, ← Access.effects_append]
  exact ih v answer.2 (Prod.ext hv rfl) hok

/-- A dialogue that is done over a memory with these contents has added its effects to the
record. -/
theorem Makes.run (h : d.Makes contents effects) {r : Recorded (Memory δ)}
    (hr : ∀ address, r.bus.byte address = contents address) {x : α}
    (hok : (d.run r).result = .ok x) :
    Access.effects (d.run r).bus.accesses = Access.effects r.accesses ++ effects := by
  induction h generalizing r with
  | done => exact (List.append_nil _).symm
  | fail => cases hok
  | reject => cases hok
  | @read _ _ _ address _ _ ih =>
    rw [run_read_eq] at hok ⊢
    refine Makes.follow (.read address) (Bus.read r.bus address) hok fun v m hanswer => ?_
    -- The byte that memory gives is the one that the contents have at the address.
    obtain ⟨hv, rfl⟩ := Prod.mk.inj hanswer
    obtain rfl : v = _ := (Memory.byte_of_read hv).symm.trans (hr address)
    exact ih hr
  | @write _ _ _ address v _ _ ih =>
    rw [run_write_eq] at hok ⊢
    exact Makes.follow (.write address v) (Bus.write r.bus address v) hok fun _ m _ =>
      ih m.byte fun _ => rfl
  | @input _ _ _ port _ _ ih =>
    rw [run_input_eq] at hok ⊢
    refine Makes.follow (.input port) (Bus.input r.bus port) hok fun v m hanswer => ih v ?_
    have hbytes : m.bytes = r.bus.bytes := (congrArg (·.2.bytes) hanswer).symm
    exact fun a => (Memory.byte_congr hbytes a).trans (hr a)
  | @output _ _ _ port v _ _ ih =>
    rw [run_output_eq] at hok ⊢
    refine Makes.follow (.output port v) (Bus.output r.bus port v) hok fun _ m hanswer => ih ?_
    have hbytes : m.bytes = r.bus.bytes := (congrArg (·.2.bytes) hanswer).symm
    exact fun a => (Memory.byte_congr hbytes a).trans (hr a)

end Dialogue

/-! ## Steps -/

/-- An opcode does not name the program counter as a pointer, which is the one register that reading
the opcode has moved. -/
theorem Opcode.effects_past (opcode : Opcode) (regs : Registers) (pc : Word) (d : Byte)
    (nn : Word) :
    opcode.instruction.effects { regs with pc } d nn = opcode.instruction.effects regs d nn := by
  have hpointer : opcode.instruction ≠ .storeAccumulatorTo .pc := by
    cases opcode with
    | main index byte =>
      revert byte
      cases index <;> exact forall_byte (by decide +kernel)
    | indexedBits => nofun
    | bits => nofun
    | extended byte =>
      revert byte
      exact forall_byte (by decide +kernel)
  have hfound (target : Place) : target.found { regs with pc } d = target.found regs d := by
    cases target with
    | register => rfl
    | indirect index => cases index <;> rfl
  generalize opcode.instruction = i at hpointer
  cases i with
  | load target | loadImmediate target | increment target | decrement target =>
    exact congrArg Operand.stores (hfound target)
  | bits op target => cases op <;> first | rfl | exact congrArg Operand.stores (hfound target)
  | indexedBits op index => cases op <;> cases index <;> rfl
  | storeAccumulatorTo pointer =>
    cases pointer with
    | pc => exact absurd rfl hpointer
    | _ => rfl
  | block kind => cases kind <;> rfl
  | _ => rfl

namespace Cpu

variable [Device δ] {cpu : Cpu} {m : Memory δ}

/-- A step over a memory that completes was the instruction whose opcode it read. -/
theorem reads_of_step_ok {cycles ignored : Nat} {opcode : Opcode} {c : Cpu}
    (h : (cpu.step m).result = .ok cycles)
    (hfetch : (Action.fetchOpcode cpu.begin).run m
      = { result := .ok (ignored, opcode), cpu := c, bus := m }) :
    cpu.reads m = some (opcode.instruction, c) := by
  rcases cpu.step_over_memory m with ⟨fault, herror, -⟩ | ⟨i, c', hreads, -⟩
  · rw [h] at herror
    cases herror
  · have hrest : (({ result := .ok (ignored, opcode), cpu := c, bus := m } : Outcome _ _).bind
        fun selected c bus => ((do
          Action.admitOpcode selected.2
          return selected.2.instruction : Action Instruction) c).run bus)
        = ((Action.admitOpcode opcode c).bind fun _ => .done opcode.instruction).run m := rfl
    rw [hreads]
    rw [reads, Action.admitted, Action.run_bind, hfetch, hrest] at hreads
    rcases Action.admitOpcode_cases opcode c with hallowed | hrefuse
    · rw [hallowed] at hreads
      exact hreads.symm
    · rw [hrefuse] at hreads
      cases hreads

/-- The effects of a step over a memory that completes are those of its instruction, from the
registers before the step and the bytes that follow the opcode. -/
theorem effects_of_step_ok {cycles : Nat} (h : (cpu.step m).result = .ok cycles) :
    ∃ i c, cpu.reads m = some (i, c) ∧ cpu.executed m = some i ∧
      Access.effects (cpu.accesses m) = i.effects cpu.regs (m.byte c.regs.pc)
        (wordOf (m.byte (c.regs.pc + 1)) (m.byte c.regs.pc)) := by
  let r : Recorded (Memory δ) := { bus := m }
  have hstep := (Recorded.step_recorded cpu r).result.trans h
  obtain ⟨ignored, opcode, c, r', taken, hfetch, -, hexecute⟩ := of_step_ok hstep
  -- The opcode is read alike over memory itself, which does not change.
  obtain ⟨hresult, hcpu, hbus⟩ := Dialogue.run_alike Recorded.alike (Action.fetchOpcode cpu.begin)
    (show r.bus = m from rfl)
  have hlook := (Action.untouched Action.fetchOpcode cpu.begin m).bus
  rw [hfetch] at hresult hcpu hbus
  have hr' : r'.bus = m := hbus.trans hlook
  have hfetched : (Action.fetchOpcode cpu.begin).run m
      = { result := .ok (ignored, opcode), cpu := c, bus := m } := by
    rw [show (Action.fetchOpcode cpu.begin).run m = ⟨_, _, _⟩ from rfl, ← hresult, ← hcpu, hlook]
  have hexecuted : cpu.executed m = some opcode.instruction := by
    obtain ⟨_, opcode', _, _, _, hfetch', hexecuted', -⟩ := of_step_ok h
    rw [hfetched] at hfetch'
    cases hfetch'
    exact hexecuted'
  obtain ⟨pc, rfl⟩ := Action.of_run_fetchOpcode hfetch
  refine ⟨opcode.instruction, _, reads_of_step_ok h hfetched, hexecuted, ?_⟩
  have hbefore : Access.effects r'.accesses = [] := by
    have hrun := (Action.makes_fetchOpcode cpu.begin m.byte).run (r := r) (fun _ => rfl)
      (congrArg Outcome.result hfetch)
    rw [hfetch] at hrun
    exact hrun
  have hrun := (Action.makes_execute opcode.instruction { cpu.begin with regs.pc := pc }
    m.byte).run (fun address => by rw [hr']) (congrArg Outcome.result hexecute)
  rw [hexecute, hbefore, List.nil_append, Opcode.effects_past] at hrun
  exact hrun

end Cpu

/-- **What a step does outside the processor.** Let a step over a memory, with any device, complete
an instruction. The stores and the turns to a port that it has made are those that the instruction
has by the table, each once and in this order, where the operands are taken from the registers
before the step and from the bytes that follow the opcode. A byte of memory has changed only if it
was stored to. -/
theorem step_traffic [Device δ] {cpu : Cpu} {m : Memory δ} {cycles : Nat}
    (h : (cpu.step m).result = .ok cycles) :
    ∃ i c, cpu.reads m = some (i, c) ∧ cpu.executed m = some i ∧
      let d := m.byte c.regs.pc
      let nn := wordOf (m.byte (c.regs.pc + 1)) (m.byte c.regs.pc)
      Access.effects (cpu.accesses m) = i.effects cpu.regs d nn ∧
      (cpu.step m).bus.size = m.size ∧
      ∀ address, (cpu.step m).bus.byte address ≠ m.byte address →
        .store address ∈ i.effects cpu.regs d nn := by
  obtain ⟨i, c, hreads, hexecuted, heffects⟩ := Cpu.effects_of_step_ok h
  let r : Recorded (Memory δ) := { bus := m }
  obtain ⟨hsize, hbytes⟩ : (cpu.step r).bus.Unstored m :=
    Cpu.step_keeps (Recorded.keeps_unstored m) cpu ⟨rfl, fun _ _ => rfl⟩
  rw [(Recorded.step_recorded cpu r).bus] at hsize hbytes
  refine ⟨i, c, hreads, hexecuted, heffects, hsize, fun address hne => ?_⟩
  rw [← heffects]
  exact Decidable.byContradiction fun hn => hne (hbytes address hn)

/-- INI with BC at 0107, HL at 3 and 55 at the port: one byte is taken from port 0107 and stored at
address 3. -/
theorem step_traffic_input :
    let cpu : Cpu := { regs := { bank := { b := 0x01, c := 0x07, l := 0x03 } } }
    let m : Memory LatchedPorts :=
      { bytes := #[0xED, 0xA2, 0, 0], device := ({} : LatchedPorts).setInput 0x07 0x55 }
    (cpu.step m).result = .ok 16 ∧ cpu.executed m = some (.block .input false false) ∧
    Access.effects (cpu.accesses m) = [.input 0x0107, .store 3] ∧
    ((cpu.step m).bus.byte 2 ≠ m.byte 2 → Effect.store 2 ∈ [Effect.input 0x0107, .store 3]) ∧
    (cpu.step m).bus.bytes = #[0xED, 0xA2, 0, 0x55] := by
  intro cpu m
  have hok : (cpu.step m).result = .ok 16 := ok_of_toOption (by decide +kernel)
  have hinput : cpu.executed m = some (.block .input false false) := by decide +kernel
  obtain ⟨i, c, -, hexecuted, heffects, -, hstored⟩ := step_traffic hok
  obtain rfl : i = .block .input false false := Option.some.inj (hexecuted.symm.trans hinput)
  exact ⟨hok, hinput, heffects, hstored 2, by decide +kernel⟩

end Z80
