import Z80.Proofs.Record
import Z80.Proofs.Timing

/-!
# The two flag models

INC and DEC of a byte and CP leave P/V to the flag model, and they ask for it when all else is done.
So a step goes as far as it can without the flag model, `Action.pending`, and is then settled. What
comes before is the same for both models, and what is settled is P/V.

What P/V then says depends on the operand. Where this is no register, it is the byte that the bus
has handed out last, and a displacement to where it stands has been handed out right before it.
`Overheard β` is a bus that remembers what it has handed out, and `Place.Gives` finds the operand
there.
-/

namespace Z80

variable {α γ β : Type}

/-! ## Before P/V is settled -/

/-- The flags that wait for the flag model, and the byte that has been computed. -/
structure Unsettled where
  flags : Flags
  computed : Byte

namespace Action

/-- INC or DEC of a byte, but for the flags. -/
def stepPending (change : Byte → Flags → Alu.Result) (place : Place) : Action Unsettled := do
  let operand ← locate place
  let v ← load operand
  let out := change v (← flags)
  store operand out.value
  return { flags := out.flags, computed := out.value }

/-- CP with a byte, but for the flags. -/
def comparePending (v : Byte) : Action Unsettled := do
  let acc := (← registers).acc
  return { flags := (Alu.compareByte acc.a v).flags, computed := acc.a - v }

/-- An instruction up to where it asks for the flag model, or as a whole if it does not. -/
def executePending : Instruction → Action (Bool × Option Unsettled)
  | .increment place => do return (false, some (← stepPending Alu.incByte place))
  | .decrement place => do return (false, some (← stepPending Alu.decByte place))
  | .operate .cp place => do return (false, some (← comparePending (← load (← locate place))))
  | .operateImmediate .cp => do return (false, some (← comparePending (← fetch)))
  | i => do return (← execute i, none)

/-- Settles what waits for the flag model, if anything does. -/
def settle : Option Unsettled → Action Unit
  | some u => settleFlags u.flags u.computed
  | none => pure ()

/-- An instruction asks for the flag model when all else is done. -/
theorem execute_eq_pending (i : Instruction) :
    execute i = executePending i >>= fun out => do
      settle out.2
      return out.1 := by
  have hnone (i : Instruction) : execute i
      = (do return (← execute i, none) : Action (Bool × Option Unsettled)) >>= fun out => do
          settle out.2
          return out.1 := by
    simp [settle]
  cases i with
  | increment place | decrement place =>
    simp [execute, executePending, always, stepByte, stepPending, settle]
  | operate op place =>
    cases op with
    | cp =>
      simp [execute, executePending, always, operate, comparePending, settle, Alu.Operation.apply]
    | _ => exact hnone _
  | operateImmediate op =>
    cases op with
    | cp =>
      simp [execute, executePending, always, operate, comparePending, settle, Alu.Operation.apply]
    | _ => exact hnone _
  | _ => exact hnone _

/-- The instructions that do not ask are done by then. -/
theorem executePending_of_asksNot {i : Instruction} (h : i.asksFlagModel = false) :
    executePending i = do return (← execute i, none) := by
  cases i with
  | increment | decrement => cases h
  | operate op | operateImmediate op =>
    cases op with
    | cp => cases h
    | _ => rfl
  | _ => rfl

/-- Runs the instruction at the program counter up to where it asks for the flag model. -/
def pending : Action (Performed × Option Unsettled) := do
  let (ignored, opcode) ← fetchOpcode
  admitOpcode opcode
  let (taken, unsettled) ← executePending opcode.instruction
  return ({ ignored, opcode, taken }, unsettled)

/-- P/V is settled at the end, and nothing before asks for it. -/
theorem untimed_eq_pending :
    untimed = pending >>= fun out => do
      settle out.2
      return out.1 := by
  simp only [untimed, pending, execute_eq_pending, bind_assoc, pure_bind]

/-! ## The same for both models -/

section tracks

variable {T : Translation} {lax : Prop}

theorem tracks_locate_of_index (hT : T.Faithful) (hi : ∀ index, T.index index = index)
    (place : Place) : Tracks T lax T.operand (locate place) (locate place) := by
  have h : Tracks T lax T.operand (locate place) _ := tracks_locate hT place fun _ _ => hi .hl
  rwa [Translation.place_of_index hi] at h

/-- INC and DEC that leave P/V open ask for no flag model. -/
theorem tracks_stepPending (hT : T.Faithful) (hi : ∀ index, T.index index = index)
    (change : Byte → Flags → Alu.Result) (place : Place) :
    Tracks T lax id (stepPending change place) (stepPending change place) := by
  refine .bind (tracks_locate_of_index hT hi place) fun operand => ?_
  refine .bind (tracks_load (hT.operand operand)) fun v => ?_
  refine .bind tracks_flags fun f => ?_
  refine .bind (tracks_store (hT.operand operand) (change v f).value) fun _ => ?_
  exact .pure id _

/-- CP that leaves P/V open asks for no flag model. -/
theorem tracks_comparePending (v : Byte) :
    Tracks T lax id (comparePending v) (comparePending v) := by
  refine .bind tracks_registers fun r => ?_
  exact .pure id _

/-- A translation that names everything as it is named here may change the flag model. -/
theorem tracks_executePending (hT : T.Faithful) (hi : ∀ index, T.index index = index)
    (hv : Admits T lax) (i : Instruction) :
    Tracks T lax id (executePending i) (executePending i) := by
  cases hasks : i.asksFlagModel with
  | false =>
    have h := tracks_execute hT hv i (by rw [hasks]; nofun) fun _ => hi .hl
    rw [Translation.instruction_of_index hi] at h
    rw [executePending_of_asksNot hasks]
    exact .bind h fun taken => .pure id _
  | true =>
    cases i with
    | increment place | decrement place =>
      exact .bind (tracks_stepPending hT hi _ place) fun u => .pure id _
    | operate op place =>
      obtain rfl : op = .cp := of_decide_eq_true hasks
      refine .bind (tracks_locate_of_index hT hi place) fun operand => ?_
      refine .bind (tracks_load (hT.operand operand)) fun v => ?_
      exact .bind (tracks_comparePending v) fun u => .pure id _
    | operateImmediate op =>
      obtain rfl : op = .cp := of_decide_eq_true hasks
      refine .bind tracks_fetch fun v => ?_
      exact .bind (tracks_comparePending v) fun u => .pure id _
    | _ => cases hasks

/-- An instruction that leaves P/V open runs alike under both flag models. -/
theorem tracks_pending (hT : T.Faithful) (hi : ∀ index, T.index index = index)
    (hs : ∀ w, T.start w = w) (hv : Admits T lax) : Tracks T lax id pending pending := by
  refine .bind (.bind tracks_fetch fun byte => tracks_select hv hs _ _ _ byte) fun selected => ?_
  refine .bind (tracks_admitOpcode hv selected.2) fun _ => ?_
  exact .bind (tracks_executePending hT hi hv selected.2.instruction) fun out => .pure id _

end tracks

end Action

namespace Cpu

/-- The processor with one of the flag models. -/
def modelled (model : FlagModel) (cpu : Cpu) : Cpu :=
  { cpu with variant.flagModel := model }

/-- The processor when what waited for the flag model has been settled. -/
def settled (cpu : Cpu) : Option Unsettled → Cpu
  | some u => { cpu with regs.acc.f := cpu.variant.flagModel.settle u.flags u.computed }
  | none => cpu

theorem settle_eq (unsettled : Option Unsettled) (cpu : Cpu) :
    Action.settle unsettled cpu = .done () (cpu.settled unsettled) := by
  cases unsettled <;> rfl

variable [Bus β]

/-- An instruction is run with P/V open, and P/V is settled on the processor that it leaves. -/
theorem run_untimed_eq (cpu : Cpu) (bus : β) :
    (Action.untimed cpu).run bus = ((Action.pending cpu).run bus).bind fun out c bus =>
      { result := .ok out.1, cpu := c.settled out.2, bus } := by
  have hsettle (out : Performed × Option Unsettled) (c : Cpu) (bus : β) :
      ((do Action.settle out.2; return out.1 : Action Performed) c).run bus
        = { result := .ok out.1, cpu := c.settled out.2, bus } := by
    show ((Action.settle out.2 c).bind _).run bus = _
    rw [settle_eq]
    rfl
  rw [Action.untimed_eq_pending, Action.run_bind]
  simp only [hsettle]

/-- With P/V open the flag model has no part in what is done. -/
theorem run_pending_modelled (model : FlagModel) (cpu : Cpu) (bus : β) :
    (Action.pending (cpu.modelled model)).run bus
      = ((Action.pending cpu).run bus).map id (modelled model) := by
  have hcpu : (Translation.ofVariant fun v => { v with flagModel := model }).cpu = modelled model :=
    funext fun c => Translation.ofVariant_cpu _ c
  have htracks : Action.Tracks (.ofVariant fun v => { v with flagModel := model }) False id
      Action.pending Action.pending :=
    Action.tracks_pending Translation.ofVariant_faithful (fun _ => rfl) (fun _ => rfl)
      (.inl fun _ => rfl)
  have hparallel := htracks cpu
  rw [hcpu] at hparallel
  exact hparallel.run_eq (f := modelled model) (fun _ => ⟨rfl, rfl⟩) bus False.elim

end Cpu

/-! ## What the bus has handed out -/

/-- A byte that a bus has handed out, and the address or the port that it was asked for. -/
structure Handed where
  source : Word
  byte : Byte
deriving DecidableEq, Repr

/-- A bus that remembers what it has handed out, the last byte first. -/
structure Overheard (β : Type) where
  bus : β
  heard : List Handed := []

namespace Overheard

/-- Passes on an answer and remembers the byte in it. -/
def hear (o : Overheard β) (source : Word) (answer : Except Fault Byte × β) :
    Except Fault Byte × Overheard β :=
  (answer.1,
    { bus := answer.2, heard := answer.1.toOption.elim o.heard (⟨source, ·⟩ :: o.heard) })

/-- Passes on an answer without a byte. -/
def pass (o : Overheard β) (answer : Except Fault Unit × β) : Except Fault Unit × Overheard β :=
  (answer.1, { o with bus := answer.2 })

theorem heard_of_hear {o o' : Overheard β} {source : Word} {answer : Except Fault Byte × β}
    {v : Byte} (h : o.hear source answer = (.ok v, o')) : o'.heard = ⟨source, v⟩ :: o.heard := by
  obtain ⟨hv, rfl⟩ := Prod.mk.inj h
  show answer.1.toOption.elim o.heard (⟨source, ·⟩ :: o.heard) = _
  rw [hv]
  rfl

theorem heard_of_pass {o o' : Overheard β} {answer : Except Fault Unit × β}
    {result : Except Fault Unit} (h : o.pass answer = (result, o')) : o'.heard = o.heard := by
  obtain ⟨-, rfl⟩ := Prod.mk.inj h
  rfl

instance [Bus β] : Bus (Overheard β) where
  read o address := o.hear address (Bus.read o.bus address)
  write o address value := o.pass (Bus.write o.bus address value)
  input o port := o.hear port (Bus.input o.bus port)
  output o port value := o.pass (Bus.output o.bus port value)

/-- Such a bus answers as the bus itself. -/
theorem alike [Bus β] : Bus.Alike fun (o : Overheard β) (b : β) => o.bus = b := by
  constructor
  · rintro o _ rfl a
    exact ⟨rfl, rfl⟩
  · rintro o _ rfl a v
    exact ⟨rfl, rfl⟩
  · rintro o _ rfl p
    exact ⟨rfl, rfl⟩
  · rintro o _ rfl p v
    exact ⟨rfl, rfl⟩

end Overheard

namespace Dialogue

/-- If a dialogue is done, `Q` holds of the bytes that have been handed out, of its value and of the
processor; `log` is what has been handed out before it. -/
inductive Hears (Q : List Handed → α → Cpu → Prop) : (log : List Handed) → Dialogue α → Prop
  | done {log x c} (ends : Q log x c) : Hears Q log (.done x c)
  | fail {log fault c} : Hears Q log (.fail fault c)
  | reject {log c} : Hears Q log (.reject c)
  | read {log c address k} (next : ∀ v, Hears Q (⟨address, v⟩ :: log) (k v)) :
    Hears Q log (.read c address k)
  | write {log c address v d} (next : Hears Q log d) : Hears Q log (.write c address v d)
  | input {log c port k} (next : ∀ v, Hears Q (⟨port, v⟩ :: log) (k v)) :
    Hears Q log (.input c port k)
  | output {log c port v d} (next : Hears Q log d) : Hears Q log (.output c port v d)

namespace Hears

variable {P : List Handed → α → Cpu → Prop} {Q : List Handed → γ → Cpu → Prop}
  {log : List Handed} {d : Dialogue α}

/-- What has been heard is kept from one part of a dialogue to the next. -/
theorem bind {k : α → Cpu → Dialogue γ} (h : d.Hears P log)
    (hk : ∀ log x c, P log x c → (k x c).Hears Q log) : (d.bind k).Hears Q log := by
  induction h with
  | done ends => exact hk _ _ _ ends
  | fail => exact .fail
  | reject => exact .reject
  | read _ ih => exact .read ih
  | write _ ih => exact .write ih
  | input _ ih => exact .input ih
  | output _ ih => exact .output ih

/-- What a dialogue leaves it leaves whatever it has been handed. -/
theorem of_leaves {N : Cpu → Prop} {R : α → Cpu → Prop} (h : d.Leaves N R) (log : List Handed) :
    d.Hears (fun _ => R) log := by
  induction h generalizing log with
  | done ends => exact .done ends
  | fail => exact .fail
  | reject => exact .reject
  | read _ _ ih => exact .read fun v => ih v _
  | write _ _ ih => exact .write (ih log)
  | input _ _ ih => exact .input fun v => ih v _
  | output _ _ ih => exact .output (ih log)

/-- One access: it was answered, and the dialogue went on over the bus that the answer left. -/
theorem follow [Bus β] {δ : Type} {cpu : Cpu} {next : δ → Dialogue α}
    {answer : Except Fault δ × Overheard β} {x : α}
    (hok : (Dialogue.follow cpu next answer).result = .ok x)
    (ih : ∀ v o, answer = (.ok v, o) → ((next v).run o).result = .ok x →
      P ((next v).run o).bus.heard x ((next v).run o).cpu) :
    P (Dialogue.follow cpu next answer).bus.heard x (Dialogue.follow cpu next answer).cpu := by
  obtain ⟨v, o, hanswer, hrun⟩ := of_follow_ok hok
  rw [hrun] at hok ⊢
  exact ih v o hanswer hok

/-- What is said of a dialogue's end holds of the bytes that the bus remembers to have handed
out. -/
theorem run [Bus β] (h : d.Hears P log) {o : Overheard β} (ho : o.heard = log) {x : α}
    (hok : (d.run o).result = .ok x) : P (d.run o).bus.heard x (d.run o).cpu := by
  induction h generalizing o with
  | done ends =>
    cases hok
    exact ho ▸ ends
  | fail => cases hok
  | reject => cases hok
  | read _ ih =>
    rw [run_read_eq] at hok ⊢
    exact follow hok fun v o h => ih v ((Overheard.heard_of_hear h).trans (ho ▸ rfl))
  | input _ ih =>
    rw [run_input_eq] at hok ⊢
    exact follow hok fun v o h => ih v ((Overheard.heard_of_hear h).trans (ho ▸ rfl))
  | write _ ih =>
    rw [run_write_eq] at hok ⊢
    exact follow hok fun _ o h => ih ((Overheard.heard_of_pass h).trans ho)
  | output _ ih =>
    rw [run_output_eq] at hok ⊢
    exact follow hok fun _ o h => ih ((Overheard.heard_of_pass h).trans ho)

end Hears

end Dialogue

/-! ## The operand -/

/-- Where the operand at a place is found: in a register, or in what has been handed out, when the
instruction has started with `regs` and is done at `pc`. A displacement was handed out from right
before that. -/
inductive Place.Gives (regs : Registers) (pc : Word) : Place → List Handed → Byte → Prop
  | register {name log} : Gives regs pc (.register name) log (regs.read name)
  | indirect {v log} : Gives regs pc (.indirect .hl) (⟨regs.hl, v⟩ :: log) v
  | indexed {index source d v log} (hindex : index ≠ .hl) (hsource : source + 1 = pc) :
    Gives regs pc (.indirect index)
      (⟨regs.addressFrom index.pair d, v⟩ :: ⟨source, d⟩ :: log) v

/-- What the program counter was is not asked. -/
theorem Place.Gives.of_pc {regs : Registers} {start pc : Word} {place : Place} {log : List Handed}
    {v : Byte} (h : place.Gives { regs with pc := start } pc log v) :
    place.Gives regs pc log v := by
  cases h with
  | @register name => cases name <;> exact .register
  | indirect => exact .indirect
  | @indexed index source d v log hindex hsource =>
    cases index with
    | hl => exact absurd rfl hindex
    | ix | iy => exact .indexed hindex hsource

/-- A byte as a two's-complement number. -/
def signed (v : Byte) : Int :=
  v.toInt8.toInt

/-- What INC, DEC or CP computes. -/
structure Computation where
  /-- The number, without regard to the size of a byte. -/
  exact : Int
  /-- The byte. -/
  byte : Byte

namespace Computation

/-- Signed overflow: the number is none that a byte can hold. -/
def overflows (c : Computation) : Bool :=
  c.exact < -128 || 127 < c.exact

end Computation

namespace Instruction

/-- Where INC, DEC and CP have their operand. An immediate byte is the last byte of the
instruction. -/
def HasOperand (regs : Registers) (pc : Word) (log : List Handed) (v : Byte) : Instruction → Prop
  | .increment place | .decrement place | .operate _ place => place.Gives regs pc log v
  | _ => ∃ source rest, source + 1 = pc ∧ log = ⟨source, v⟩ :: rest

/-- What INC, DEC or CP computes from the accumulator and its operand. -/
def computation (a v : Byte) : Instruction → Computation
  | .increment _ => { exact := signed v + 1, byte := v + 1 }
  | .decrement _ => { exact := signed v - 1, byte := v - 1 }
  | _ => { exact := signed a - signed v, byte := a - v }

end Instruction

namespace Alu

theorem signed_eq (v : Byte) :
    signed v = if v.toNat < 128 then (v.toNat : Int) else v.toNat - 256 := by
  revert v
  exact forall_byte (by decide +kernel)

/-- INC sets P/V where one more is out of the range of a byte with a sign. -/
theorem parity_incByte (v : Byte) (f : Flags) :
    (incByte v f).flags.parity = (⟨signed v + 1, v + 1⟩ : Computation).overflows := by
  show (v == 127) = _
  revert v
  exact forall_byte (by decide +kernel)

/-- DEC sets P/V where one less is out of the range of a byte with a sign. -/
theorem parity_decByte (v : Byte) (f : Flags) :
    (decByte v f).flags.parity = (⟨signed v - 1, v - 1⟩ : Computation).overflows := by
  show (v == 128) = _
  revert v
  exact forall_byte (by decide +kernel)

/-- A difference overflows if its operands have different signs and its own is not the first. -/
theorem parity_compareByte (a v : Byte) :
    (compareByte a v).flags.parity = (⟨signed a - signed v, a - v⟩ : Computation).overflows := by
  have ha := a.toNat_lt
  have hv := v.toNat_lt
  have hvalue : (UInt8.ofNat (a.toNat + 256 - v.toNat)).toNat = (a.toNat + 256 - v.toNat) % 256 :=
    UInt8.toNat_ofNat'
  rw [Bool.eq_iff_iff]
  simp only [compareByte, subByte, isNegative, Computation.overflows, signed_eq, Bool.toNat_false,
    Nat.add_zero, hvalue, Bool.and_eq_true, bne_iff_ne, ne_eq, decide_eq_decide, Bool.or_eq_true,
    decide_eq_true_eq]
  split <;> split <;> omega

end Alu

namespace Action

/-- What waits for P/V is what the instruction has computed from its operand. -/
def Awaits (i : Instruction) (regs : Registers) (pc : Word) (log : List Handed) (u : Unsettled) :
    Prop :=
  ∃ v, i.HasOperand regs pc log v ∧ u.computed = (i.computation regs.acc.a v).byte ∧
    u.flags.parity = (i.computation regs.acc.a v).overflows

theorem Awaits.of_pc {i : Instruction} {regs : Registers} {start pc : Word} {log : List Handed}
    {u : Unsettled} (h : Awaits i { regs with pc := start } pc log u) : Awaits i regs pc log u := by
  obtain ⟨v, hoperand, hcomputes⟩ := h
  refine ⟨v, ?_, hcomputes⟩
  cases i with
  | increment | decrement | operate => exact Place.Gives.of_pc hoperand
  | _ => exact hoperand

/-- INC and DEC compute from the byte that they have been handed for their operand. -/
theorem hears_stepPending (change : Byte → Flags → Alu.Result) (place : Place) (cpu : Cpu)
    (log : List Handed) :
    (stepPending change place cpu).Hears (fun log u c =>
      ∃ v f, place.Gives cpu.regs c.regs.pc log v ∧
        u = ⟨(change v f).flags, (change v f).value⟩) log := by
  cases place with
  | register name =>
    refine .done ⟨_, _, ?_, rfl⟩
    exact .register
  | indirect index =>
    cases index with
    | hl => exact .read fun v => .write (.done ⟨_, _, .indirect, rfl⟩)
    | ix | iy =>
      -- The displacement is handed out first, and then the operand.
      exact .read fun d => .read fun v => .write (.done ⟨_, _, .indexed (by decide) rfl, rfl⟩)

/-- The byte in an operand; the accumulator is as it was. -/
theorem hears_operand (place : Place) (cpu : Cpu) (log : List Handed) :
    ((locate place >>= load) cpu).Hears (fun log v c =>
      place.Gives cpu.regs c.regs.pc log v ∧ c.regs.acc = cpu.regs.acc) log := by
  cases place with
  | register name => exact .done ⟨.register, rfl⟩
  | indirect index =>
    cases index with
    | hl => exact .read fun v => .done ⟨.indirect, rfl⟩
    | ix | iy =>
      exact .read fun d => .read fun v => .done ⟨.indexed (by decide) rfl, rfl⟩

theorem hears_awaiting {i : Instruction} {regs : Registers} {log : List Handed} {u : Unsettled}
    {c : Cpu} (h : Awaits i regs c.regs.pc log u) :
    (Dialogue.done (false, some u) c).Hears (fun log out c =>
      out.2.isSome = true ∧ ∀ u ∈ out.2, Awaits i regs c.regs.pc log u) log :=
  .done ⟨rfl, fun _ hu => Option.some.inj hu ▸ h⟩

/-- Where an instruction asks for the flag model, what waits is what it computes. -/
theorem hears_executePending (i : Instruction) (cpu : Cpu) (log : List Handed) :
    (executePending i cpu).Hears (fun log out c =>
      out.2.isSome = i.asksFlagModel ∧ ∀ u ∈ out.2, Awaits i cpu.regs c.regs.pc log u) log := by
  cases hasks : i.asksFlagModel with
  | false =>
    rw [executePending_of_asksNot hasks]
    refine (Dialogue.Hears.of_leaves (execute_leaves i cpu) log).bind fun _ _ _ _ => ?_
    exact .done ⟨rfl, nofun⟩
  | true =>
    cases i with
    | increment place =>
      refine (hears_stepPending Alu.incByte place cpu log).bind ?_
      rintro log _ c ⟨v, f, hv, rfl⟩
      exact hears_awaiting ⟨v, hv, rfl, Alu.parity_incByte v f⟩
    | decrement place =>
      refine (hears_stepPending Alu.decByte place cpu log).bind ?_
      rintro log _ c ⟨v, f, hv, rfl⟩
      exact hears_awaiting ⟨v, hv, rfl, Alu.parity_decByte v f⟩
    | operate op place =>
      obtain rfl : op = .cp := of_decide_eq_true hasks
      have hassoc : executePending (.operate .cp place) = (locate place >>= load) >>= fun v => do
          return (false, some (← comparePending v)) := (bind_assoc _ _ _).symm
      rw [hassoc]
      refine (hears_operand place cpu log).bind ?_
      rintro log v c ⟨hv, hacc⟩
      refine hears_awaiting ⟨v, hv, ?_⟩
      rw [hacc]
      exact ⟨rfl, Alu.parity_compareByte cpu.regs.acc.a v⟩
    | operateImmediate op =>
      obtain rfl : op = .cp := of_decide_eq_true hasks
      refine .read fun v => hears_awaiting ⟨v, ⟨_, _, rfl, rfl⟩, rfl, ?_⟩
      exact Alu.parity_compareByte _ v
    | _ => cases hasks

/-- Only INC, DEC and CP leave P/V open, with what they have computed from their operand. -/
theorem hears_pending (cpu : Cpu) (log : List Handed) :
    (pending cpu).Hears (fun log out c =>
      out.2.isSome = out.1.opcode.instruction.asksFlagModel ∧
        ∀ u ∈ out.2, Awaits out.1.opcode.instruction cpu.regs c.regs.pc log u) log := by
  refine (Dialogue.Hears.of_leaves (leaves_movedPc fetchOpcode cpu) log).bind ?_
  rintro log ⟨ignored, opcode⟩ _ ⟨pc, rfl⟩
  refine (Dialogue.Hears.of_leaves (leaves_movedPc (admitOpcode opcode) _) log).bind ?_
  rintro log _ _ ⟨pc, rfl⟩
  refine (hears_executePending opcode.instruction _ log).bind ?_
  rintro log out c ⟨hasks, hwaits⟩
  refine .done ⟨hasks, fun u hu => ?_⟩
  have hu : Awaits opcode.instruction { cpu.regs with pc } c.regs.pc log u := hwaits u hu
  exact hu.of_pc

end Action

/-! ## Steps -/

namespace Cpu

variable [Bus β]

/-- What the bus hands out in a step, opcodes and displacements included, the last byte first. -/
def heard (cpu : Cpu) (bus : β) : List Handed :=
  (cpu.step ({ bus } : Overheard β)).bus.heard

/-- A step with one of the flag models, from where P/V waits for it. -/
theorem step_modelled (model : FlagModel) (cpu : Cpu) (bus : β) :
    (cpu.modelled model).step bus
      = ((((Action.pending cpu.begin).run bus).map id (modelled model)).bind fun out c bus =>
          { result := .ok (out.1.cycles cpu.variant.timing), cpu := c.settled out.2, bus }).blame
            cpu.regs.pc := by
  rw [step_eq_untimed, show (cpu.modelled model).begin = cpu.begin.modelled model from rfl,
    run_untimed_eq, run_pending_modelled]
  rcases (Action.pending cpu.begin).run bus with ⟨_ | _, _, _⟩ <;> rfl

/-- Which instruction is executed does not depend on the flag model. -/
theorem executed_modelled (model : FlagModel) (cpu : Cpu) (bus : β) :
    (cpu.modelled model).executed bus
      = ((Action.pending cpu.begin).run bus).result.toOption.map (·.1.opcode.instruction) := by
  rw [executed_eq_untimed, show (cpu.modelled model).begin = cpu.begin.modelled model from rfl,
    run_untimed_eq, run_pending_modelled]
  rcases (Action.pending cpu.begin).run bus with ⟨_ | _, _, _⟩ <;> rfl

/-- What the bus has seen does not depend on the flag model. -/
theorem bus_step_modelled (model : FlagModel) (cpu : Cpu) (bus : β) :
    ((cpu.modelled model).step bus).bus = ((Action.pending cpu.begin).run bus).bus := by
  rw [step_modelled]
  rcases (Action.pending cpu.begin).run bus with ⟨_ | _, _, _⟩ <;> rfl

/-- The accesses have all been made when P/V is settled. -/
theorem accesses_modelled (cpu : Cpu) (bus : β) :
    (cpu.modelled .overflow).accesses bus = (cpu.modelled .parity).accesses bus := by
  rw [accesses, accesses, bus_step_modelled, bus_step_modelled]

/-- If an instruction has come to where it asks for the flag model, what waits is what it computes
from its operand. -/
theorem awaits_of_pending (model : FlagModel) {cpu c : Cpu} {bus bus' : β} {p : Performed}
    {unsettled : Option Unsettled}
    (h : (Action.pending cpu.begin).run bus
      = { result := .ok (p, unsettled), cpu := c, bus := bus' }) :
    unsettled.isSome = p.opcode.instruction.asksFlagModel ∧
    ∀ u ∈ unsettled, Action.Awaits p.opcode.instruction cpu.regs c.regs.pc
      ((cpu.modelled model).heard bus) u := by
  have halike := Dialogue.run_alike Overheard.alike (Action.pending cpu.begin)
    (b := ({ bus } : Overheard β)) (c := bus) rfl
  have hhears := (Action.hears_pending cpu.begin []).run (o := ({ bus } : Overheard β)) rfl
    (x := (p, unsettled)) (by rw [halike.result, h])
  rwa [← bus_step_modelled model, halike.cpu, h] at hhears

/-- By either model a step comes to the same, or to what one of INC, DEC and CP computes and P/V
by the model. -/
theorem step_modelled_cases (cpu : Cpu) (bus : β) :
    (∃ (executed : Option Instruction) (result : Except Fault Nat) (c : Cpu) (bus' : β),
      executed.any Instruction.asksFlagModel = false ∧
      ∀ model, (cpu.modelled model).executed bus = executed ∧
        (cpu.modelled model).step bus = { result, cpu := c.modelled model, bus := bus' }) ∨
    ∃ (i : Instruction) (u : Unsettled) (cycles : Nat) (c : Cpu) (bus' : β),
      i.asksFlagModel = true ∧
      Action.Awaits i cpu.regs c.regs.pc ((cpu.modelled .parity).heard bus) u ∧
      ∀ model, (cpu.modelled model).executed bus = some i ∧
        (cpu.modelled model).step bus
          = { result := .ok cycles, cpu := (c.modelled model).settled (some u), bus := bus' } := by
  rcases hrun : (Action.pending cpu.begin).run bus with ⟨fault | ⟨p, unsettled⟩, c, bus'⟩
  · refine .inl ⟨none, .error (fault.blame cpu.regs.pc), c, bus', rfl, fun model => ?_⟩
    rw [executed_modelled, step_modelled, hrun]
    exact ⟨rfl, rfl⟩
  · -- What waits is the same for both models, and so is what the bus has handed out.
    obtain ⟨hasks, hwaits⟩ := cpu.awaits_of_pending .parity hrun
    cases unsettled with
    | none =>
      refine .inl ⟨some p.opcode.instruction, .ok (p.cycles cpu.variant.timing), c, bus',
        hasks.symm, fun model => ?_⟩
      rw [executed_modelled, step_modelled, hrun]
      exact ⟨rfl, rfl⟩
    | some u =>
      refine .inr ⟨p.opcode.instruction, u, p.cycles cpu.variant.timing, c, bus', hasks.symm,
        hwaits u rfl, fun model => ?_⟩
      rw [executed_modelled, step_modelled, hrun]
      exact ⟨rfl, rfl⟩

end Cpu

/-- **The flag model affects P/V after INC, DEC and CP and nothing else.** Over every bus, a step by
one flag model ends as the step by the other: with the same clock cycles or the same error, after
the same accesses, and with the same processor but for P/V. That too is the same unless an INC or
DEC of a byte or a CP has been completed, which no block instruction is. After one of these it is
the parity of the byte that was computed from the operand, or the overflow. -/
theorem step_flagModel [Bus β] (cpu : Cpu) (bus : β) :
    let parity := cpu.modelled .parity
    let overflow := cpu.modelled .overflow
    let out := parity.step bus
    let out' := overflow.step bus
    out'.result = out.result ∧ out'.bus = out.bus ∧
    overflow.accesses bus = parity.accesses bus ∧
    overflow.executed bus = parity.executed bus ∧
    (∃ pv, out'.cpu = { out.cpu.modelled .overflow with regs.acc.f.parity := pv }) ∧
    ((parity.executed bus).any Instruction.asksFlagModel = false →
      out'.cpu = out.cpu.modelled .overflow) ∧
    (∀ i, parity.executed bus = some i → i.asksFlagModel = true →
      ∃ v, i.HasOperand cpu.regs out.cpu.regs.pc (parity.heard bus) v ∧
        let n := i.computation cpu.regs.acc.a v
        out.cpu.regs.acc.f.parity = Alu.evenParity n.byte ∧
        out'.cpu.regs.acc.f.parity = n.overflows) ∧
    ∀ kind backwards repeats, parity.executed bus = some (.block kind backwards repeats) →
      out'.cpu = out.cpu.modelled .overflow := by
  intro parity overflow out out'
  have haccesses : overflow.accesses bus = parity.accesses bus := cpu.accesses_modelled bus
  rcases cpu.step_modelled_cases bus with ⟨executed, result, c, bus', hnot, hboth⟩
    | ⟨i, u, cycles, c, bus', hasks, ⟨v, hoperand, hbyte, hoverflows⟩, hboth⟩
  · obtain ⟨hexecuted, hout⟩ : parity.executed bus = executed ∧ out = _ := hboth .parity
    obtain ⟨hexecuted', hout'⟩ : overflow.executed bus = executed ∧ out' = _ := hboth .overflow
    rw [hout, hout', hexecuted, hexecuted']
    refine ⟨rfl, rfl, haccesses, rfl, ⟨_, rfl⟩, fun _ => rfl, ?_, fun _ _ _ _ => rfl⟩
    rintro i rfl hasks
    exact absurd (hnot.symm.trans hasks) (by decide)
  · obtain ⟨hexecuted, hout⟩ : parity.executed bus = some i ∧ out = _ := hboth .parity
    obtain ⟨hexecuted', hout'⟩ : overflow.executed bus = some i ∧ out' = _ := hboth .overflow
    rw [hout, hout', hexecuted, hexecuted']
    refine ⟨rfl, rfl, haccesses, rfl, ⟨_, rfl⟩, fun hnot => ?_, ?_, ?_⟩
    · exact absurd (hasks.symm.trans hnot) (by decide)
    · intro j hj _
      obtain rfl := Option.some.inj hj
      exact ⟨v, hoperand, congrArg Alu.evenParity hbyte, hoverflows⟩
    · intro kind backwards repeats hblock
      -- No block instruction asks for the flag model.
      obtain rfl := Option.some.inj hblock
      cases hasks

/-- DEC (IX+4) hears its opcode, its displacement and its operand. -/
example :
    let m : Memory LatchedPorts := { bytes := #[0xDD, 0x35, 0x04, 0x00, 0x80], device := {} }
    ({} : Cpu).heard m = [⟨4, 0x80⟩, ⟨2, 0x04⟩, ⟨1, 0x35⟩, ⟨0, 0xDD⟩] := by
  decide +kernel

end Z80
