import Z80.Proofs.Frame
import Z80.Proofs.IndexedBits

/-!
# What instructions do to the flags

Each instruction affects some of the six condition flags, `Instruction.affects`, and leaves the
others as they were. An instruction that affects none leaves the whole register F alone, the two
bits that nothing computes included; one that affects some leaves these two as they were or clears
them. Only POP AF and EX AF load F as a byte.

The argument follows the definitions. The arithmetic unit computes each flag register from the one
before it (`Flags.ChangedIn`), and an instruction sets F once, with what obeys `Law.steady` before
and after (`Action.Flagged`).
-/

namespace Z80

variable {α γ β : Type}

/-! ## The flags that an instruction affects -/

namespace Flag

/-- All six conditions. -/
def all : List Flag :=
  [.sign, .zero, .half, .parity, .subtract, .carry]

/-- What an operation affects that keeps the carry. -/
def allButCarry : List Flag :=
  [.sign, .zero, .half, .parity, .subtract]

/-- What an operation affects that keeps what was said of an earlier result. -/
def carries : List Flag :=
  [.half, .subtract, .carry]

end Flag

/-- The flags that a bit operation may change. -/
def BitOperation.affects : BitOperation → List Flag
  | .shift _ => Flag.all
  | .test _ => Flag.allButCarry
  | .reset _ | .set _ => []

namespace Instruction

/-- The flags that an instruction may change. -/
def affects : Instruction → List Flag
  | .operate _ _ | .operateImmediate _ | .negate | .addPairCarry _ | .subPairCarry _ => Flag.all
  | .increment _ | .decrement _ | .rotateDigitLeft | .rotateDigitRight | .inputTo _
  | .loadSpecial _ => Flag.allButCarry
  | .addPair _ _ | .shiftAccumulator _ | .setCarry | .flipCarry => Flag.carries
  | .decimalAdjust => [.sign, .zero, .half, .parity, .carry]
  | .complement => [.half, .subtract]
  | .bits op _ | .indexedBits op _ _ _ => op.affects
  | .block .load _ _ => [.half, .parity, .subtract]
  | .block _ _ _ => Flag.allButCarry
  | .pop .af | .exchangeAccumulator => Flag.all
  | _ => []

/-- Whether an instruction writes to F, or to the pair it belongs to, as one writes to any other
register. -/
def namesFlags : Instruction → Bool
  | .load target _ | .loadImmediate target | .increment target | .decrement target
  | .bits _ target => target = .register .f
  | .storeSpecial target => target = .f
  | .indexedBits _ _ _ target | .inputTo target => target = some .f
  | .loadPairImmediate target | .loadPair target | .incrementPair target
  | .decrementPair target => target = .af
  | _ => false

end Instruction

/-- No opcode selects such an instruction. -/
theorem Opcode.namesFlags_instruction (opcode : Opcode) :
    opcode.instruction.namesFlags = false := by
  cases opcode with
  | main index byte =>
    revert byte
    cases index <;> exact forall_byte (by decide +kernel)
  | bits byte | extended byte =>
    revert byte
    exact forall_byte (by decide +kernel)
  | indexedBits index displacement byte =>
    have hcopy : ∀ byte, decide (Register.ofField (fieldZ byte) = some .f) = false :=
      forall_byte (by decide +kernel)
    exact hcopy byte

/-! ## Flag registers before and after -/

/-- What can have become of the flags `f` when some were affected: the others are as they were, and
no bit is newly set that nothing computes. -/
structure Flags.ChangedIn (affected : List Flag) (f g : Flags) : Prop where
  unaffected : affected = [] → g = f
  test : ∀ name, name ∉ affected → g.test name = f.test name
  bit5 : g.bit5 = true → f.bit5 = true
  bit3 : g.bit3 = true → f.bit3 = true

namespace Flags.ChangedIn

variable {affected : List Flag} {f g : Flags}

/-- Flags that are as they were, whatever may have been affected. -/
theorem refl (affected : List Flag) (f : Flags) : ChangedIn affected f f :=
  ⟨fun _ => rfl, fun _ _ => rfl, id, id⟩

/-- A flag register all of whose conditions have been computed. -/
theorem of_computed (h5 : g.bit5 = false) (h3 : g.bit3 = false) : ChangedIn Flag.all f g := by
  refine ⟨nofun, fun name hn => ?_, by simp [h5], by simp [h3]⟩
  exact absurd (by cases name <;> decide) hn

/-- Flags all of which have been computed but the carry. -/
theorem of_carry (hc : g.carry = f.carry) (h5 : g.bit5 = false) (h3 : g.bit3 = false) :
    ChangedIn Flag.allButCarry f g := by
  refine ⟨nofun, fun name hn => ?_, by simp [h5], by simp [h3]⟩
  cases name with
  | carry => exact hc
  | _ => exact absurd (by decide) hn

/-- Flags that a sum of pairs or a rotation of the accumulator leaves: sign, zero and parity
stay. -/
theorem of_result (hs : g.sign = f.sign) (hz : g.zero = f.zero) (hp : g.parity = f.parity)
    (h5 : g.bit5 = false) (h3 : g.bit3 = false) : ChangedIn Flag.carries f g := by
  refine ⟨nofun, fun name hn => ?_, by simp [h5], by simp [h3]⟩
  cases name with
  | sign => exact hs
  | zero => exact hz
  | parity => exact hp
  | _ => exact absurd (by decide) hn

/-- Whatever the flag model puts in P/V. -/
theorem settle (h : ChangedIn affected f g) (hp : .parity ∈ affected) (model : FlagModel)
    (v : Byte) : ChangedIn affected f (model.settle g v) := by
  cases model with
  | overflow => exact h
  | parity =>
    refine ⟨fun e => ?_, fun name hn => ?_, h.bit5, h.bit3⟩
    · rw [e] at hp
      cases hp
    · rw [← h.test name hn]
      cases name with
      | parity => exact absurd hp hn
      | _ => rfl

end Flags.ChangedIn

namespace Alu

open Flags (ChangedIn)

/-! ### The arithmetic unit -/

/-- Each of the eight operations on A computes all flags. -/
theorem changedIn_apply (op : Operation) (a b : Byte) (f : Flags) :
    ChangedIn Flag.all f (op.apply a b f).flags := by
  cases op <;> exact .of_computed rfl rfl

/-- DAA computes all flags but N, on which its direction depends. -/
theorem changedIn_decimalAdjust (a : Byte) (f : Flags) :
    ChangedIn [.sign, .zero, .half, .parity, .carry] f (decimalAdjust a f).flags := by
  refine ⟨nofun, fun name hn => ?_, nofun, nofun⟩
  cases name with
  | subtract => rfl
  | _ => exact absurd (by decide) hn

/-- The complement is the one operation that keeps the bits which nothing computes. -/
theorem changedIn_complement (a : Byte) (f : Flags) :
    ChangedIn [.half, .subtract] f (complement a f).flags := by
  refine ⟨nofun, fun name hn => ?_, id, id⟩
  cases name with
  | half | subtract => exact absurd (by decide) hn
  | _ => rfl

end Alu

/-- A shift computes all flags, a test all but the carry; to reset or set a bit affects none. -/
theorem BitOperation.changedIn_flags (op : BitOperation) (v : Byte) (f : Flags) :
    Flags.ChangedIn op.affects f (op.flags v f) := by
  cases op with
  | shift kind => exact .of_computed rfl rfl
  | test bit => exact .of_carry rfl rfl rfl
  | reset | set => exact .refl [] f

/-! ## Leaving the flags alone -/

/-- The flags of a processor. -/
def Cpu.flags (cpu : Cpu) : Flags :=
  cpu.regs.acc.f

/-- The law of what leaves the flags alone. -/
abbrev Law.steady : Law :=
  .keeps Cpu.flags

/-- Only the flags themselves are out of bounds. -/
theorem Law.steady_allows {worked : Worked} (h : worked ≠ .f) : Law.steady.Allows worked := by
  refine keeps_allows fun change hchange cpu => ?_
  show (change cpu.regs).acc.f = cpu.regs.acc.f
  cases worked with
  | f => exact absurd rfl h
  | a | bank | pc | sp => rw [hchange]

instance : Law.steady.Allows .a :=
  Law.steady_allows (by decide)

instance : Law.steady.Allows .bank :=
  Law.steady_allows (by decide)

instance : Law.steady.Allows .pc :=
  Law.steady_allows (by decide)

instance : Law.steady.Allows .sp :=
  Law.steady_allows (by decide)

namespace Action

/-- Every pair but AF can be written with the flags as they are. -/
theorem steady_writePair {name : Pair} (h : name ≠ .af) (w : Word) :
    Obeys .steady (writePair name w) := by
  refine keeps_modifyRegisters fun cpu => ?_
  cases name with
  | af => exact absurd rfl h
  | _ => rfl

instance (index : Index) (w : Word) : Obeys .steady (writePair index.pair w) :=
  steady_writePair (by cases index <;> decide) w

/-- Every operand but F can be stored to with the flags as they are. -/
theorem steady_store {operand : Operand} (h : operand ≠ .register .f) (x : Byte) :
    Obeys .steady (store operand x) := by
  cases operand with
  | register name =>
    show Obeys .steady (modifyRegisters fun regs => regs.write name x)
    refine keeps_modifyRegisters fun cpu => ?_
    cases name with
    | f => exact absurd rfl h
    | _ => rfl
  | memory address => exact inferInstanceAs (Obeys .steady (writeByte address x))

/-- A place that is not F can be stored to. -/
theorem steady_storeTo {place : Place} (h : place ≠ .register .f) (name : Register)
    (e : place = .register name) (x : Byte) : Obeys .steady (store (.register name) x) :=
  steady_store (fun hname => h (e.trans (congrArg _ (Operand.register.inj hname)))) x

end Action

/-! ## Setting the flags once -/

namespace Action

open Flags (ChangedIn)

/-- An action that, if it is done, leaves flags of which `Q` holds, started with the flags `f`. -/
def Flagged (f : Flags) (Q : Flags → Prop) (a : Action α) : Prop :=
  ∀ cpu, cpu.regs.acc.f = f → (a cpu).Leaves (fun _ => True) fun _ c => Q c.regs.acc.f

namespace Flagged

variable {f g : Flags} {P Q : Flags → Prop} {a : Action α} {k : α → Action γ}

/-- The flags that the first action leaves are those that the second starts with. -/
theorem bind (ha : Flagged f P a) (hk : ∀ x g, P g → Flagged g Q (k x)) :
    Flagged f Q (a >>= k) :=
  fun cpu hcpu => (ha cpu hcpu).bind fun x c hc => hk x c.regs.acc.f hc c rfl

/-- What held of the flags still holds after an action that leaves them alone. -/
theorem steady [Obeys .steady a] (h : Q f) : Flagged f Q a := by
  rintro cpu rfl
  exact leaves_of_kept Cpu.flags a (Q := Q) h

/-- What leaves the flags alone can come first. -/
theorem after [Obeys .steady a] (hk : ∀ x, Flagged f Q (k x)) : Flagged f Q (a >>= k) := by
  refine bind (P := (· = f)) (steady rfl) fun x g hg => ?_
  rw [hg]
  exact hk x

/-- What leaves the flags alone can come last. -/
theorem before (ha : Flagged f Q a) (hk : ∀ x, Obeys .steady (k x)) : Flagged f Q (a >>= k) :=
  bind ha fun x _ hg => have := hk x; steady hg

theorem registers_bind {k : Registers → Action γ}
    (hk : ∀ regs : Registers, regs.acc.f = f → Flagged f Q (k regs)) :
    Flagged f Q (registers >>= k) :=
  fun cpu hcpu => hk cpu.regs hcpu cpu hcpu

theorem flags_bind {k : Flags → Action γ} (hk : Flagged f Q (k f)) : Flagged f Q (flags >>= k) := by
  intro cpu hcpu
  show (k cpu.regs.acc.f cpu).Leaves _ _
  rw [hcpu]
  exact hk cpu hcpu

theorem setFlags (h : Q g) : Flagged f Q (setFlags g) :=
  fun _ _ => .done h

theorem setAccumulator {out : Alu.Result} (h : Q out.flags) : Flagged f Q (setAccumulator out) :=
  fun _ _ => .done h

/-- Flags that are settled, if `Q` holds under either flag model. -/
theorem settleFlags {v : Byte} (h : ∀ model : FlagModel, Q (model.settle g v)) :
    Flagged f Q (settleFlags g v) :=
  fun cpu _ => .done (h cpu.variant.flagModel)

theorem always {a : Action Unit} (h : Flagged f Q a) : Flagged f Q (always a) :=
  before h fun _ => inferInstance

end Flagged

variable {f : Flags} {Q : Flags → Prop}

/-- An operand that has been found is F only if the opcode named it so. -/
theorem flagged_locate {place : Place} (h : place ≠ .register .f) {k : Operand → Action α}
    (hk : ∀ operand, operand ≠ .register .f → Flagged f Q (k operand)) :
    Flagged f Q (locate place >>= k) := by
  cases place with
  | register name => exact hk (.register name) fun e => h (by cases e; rfl)
  | indirect index =>
    have heq : locate (.indirect index) >>= k
        = indirectAddress index >>= fun address => k (.memory address) :=
      bind_assoc (indirectAddress index) (fun address => pure (Operand.memory address)) k
    rw [heq]
    exact .after fun address => hk (.memory address) nofun

/-! ### Arithmetic -/

/-- An operation on A and a byte computes all flags, whatever P/V is to say. -/
theorem flagged_operate (op : Alu.Operation) (v : Byte) :
    Flagged f (ChangedIn Flag.all f) (operate op v) := by
  refine .registers_bind fun regs hregs => ?_
  have hchanged := Alu.changedIn_apply op regs.acc.a v f
  rw [← hregs] at hchanged ⊢
  split
  · exact .settleFlags fun model => hchanged.settle (by decide) model _
  · exact .setAccumulator hchanged

/-- What changes A and the flags together leaves the flags that it has computed. -/
theorem flagged_accumulator {change : Byte → Flags → Alu.Result} (h : ∀ a, Q (change a f).flags) :
    Flagged f Q (accumulator change) := by
  refine .registers_bind fun regs hregs => .setAccumulator ?_
  rw [hregs]
  exact h regs.acc.a

/-- INC and DEC write their operand first, so that the flags they set are the last word. -/
theorem flagged_stepByte {change : Byte → Flags → Alu.Result} {place : Place}
    (hplace : place ≠ .register .f)
    (h : ∀ v, ChangedIn Flag.allButCarry f (change v f).flags) :
    Flagged f (ChangedIn Flag.allButCarry f) (stepByte change place) := by
  refine flagged_locate hplace fun operand hoperand => .after fun v => .flags_bind ?_
  have := fun w => steady_store hoperand w
  exact .after fun _ => .settleFlags fun model => (h v).settle (by decide) model _

/-- ADD of pairs computes H, N and C only. -/
theorem flagged_addPair (target : Index) (source : Pair) :
    Flagged f (ChangedIn Flag.carries f) (addPair target source) := by
  refine .registers_bind fun regs hregs => .after fun _ => .setFlags ?_
  rw [hregs]
  exact .of_result rfl rfl rfl rfl rfl

/-- ADC and SBC of pairs leave the flags of the whole word. -/
theorem flagged_combinePair {combine : Word → Word → Bool → Word × Flags}
    (h : ∀ a b c, Q (combine a b c).2) (source : Pair) :
    Flagged f Q (combinePair combine source) :=
  .registers_bind fun _ _ => .after fun _ => .setFlags (h _ _ _)

/-- RLD and RRD leave the flags of the digits they have moved. -/
theorem flagged_rotateDigit {rotate : Byte → Byte → Flags → Alu.DigitResult}
    (h : ∀ a m, Q (rotate a m f).flags) : Flagged f Q (rotateDigit rotate) := by
  refine .registers_bind fun regs hregs => .after fun m => .after fun _ => .setAccumulator ?_
  rw [hregs]
  exact h regs.acc.a m

/-! ### Bits -/

/-- An operation on bits, if it is done, affects the flags that it is listed with. -/
theorem flagged_transform (op : BitOperation) (v : Byte) :
    Flagged f (ChangedIn op.affects f) (transform op v) := by
  intro cpu hcpu
  rcases transform_cases op v cpu with hrefused | hdone
  · rw [hrefused]
    exact .reject trivial
  · rw [hdone]
    exact .done (hcpu ▸ op.changedIn_flags v cpu.regs.acc.f)

/-- An operation on the bits of any place but F affects the flags that it is listed with. -/
theorem flagged_bits (op : BitOperation) {place : Place} (h : place ≠ .register .f) :
    Flagged f (ChangedIn op.affects f) (bits op place) := by
  refine flagged_locate h fun operand hoperand => .after fun v => ?_
  refine .before (flagged_transform op v) fun result => ?_
  cases result with
  | none => exact inferInstanceAs (Obeys .steady (pure ()))
  | some written => exact steady_store hoperand written

/-- The same at a displacement, with any copy but one to F. -/
theorem flagged_indexedBits (op : BitOperation) (index : Index) (d : Byte) {copy : Option Register}
    (h : copy ≠ some .f) :
    Flagged f (ChangedIn op.affects f) (indexedBits op index d copy) := by
  refine .registers_bind fun regs _ => .after fun v => ?_
  refine .before (flagged_transform op v) fun result => ?_
  cases result with
  | none => exact inferInstanceAs (Obeys .steady (pure ()))
  | some written =>
    refine .bind inferInstance fun _ => ?_
    cases copy with
    | none => exact inferInstanceAs (Obeys .steady (pure ()))
    | some name =>
      exact steady_store (fun e => h (congrArg some (Operand.register.inj e))) written

/-! ### Blocks and ports -/

/-- Counting B down sets the flags as DEC B does, the carry kept. -/
theorem flagged_countDownB : Flagged f (ChangedIn Flag.allButCarry f) countDownB := by
  refine .registers_bind fun regs hregs => ?_
  rw [hregs]
  exact fun _ _ => .done (.of_carry rfl rfl rfl)

/-- One pass over a byte affects the flags that the block instruction is listed with. -/
theorem flagged_blockPass (kind : BlockKind) (backwards repeats : Bool) :
    Flagged f (ChangedIn (Instruction.block kind backwards repeats).affects f)
      (blockPass kind backwards) := by
  cases kind with
  | load =>
    refine .after fun _ => .after fun _ => .after fun _ => .after fun _ => .after fun _ =>
      .after fun left => .flags_bind (.before (.setFlags ?_) fun _ => inferInstance)
    show ChangedIn [.half, .parity, .subtract] f _
    refine ⟨nofun, fun name hn => ?_, nofun, nofun⟩
    cases name with
    | sign | zero | carry => rfl
    | _ => exact absurd (by decide) hn
  | compare =>
    refine .after fun _ => .after fun _ => .after fun _ => .after fun left =>
      .flags_bind (.before (.setFlags ?_) fun _ => inferInstance)
    exact .of_carry rfl rfl rfl
  | input =>
    refine .after fun _ => .after fun _ => .after fun _ => .after fun _ => ?_
    exact flagged_countDownB
  | output =>
    refine .after fun _ => .after fun _ => ?_
    exact .before flagged_countDownB fun _ => inferInstance

/-- Going back to the instruction touches no flag, so the pass is all there is to see. -/
theorem flagged_block (kind : BlockKind) (backwards repeats : Bool) :
    Flagged f (ChangedIn (Instruction.block kind backwards repeats).affects f)
      (block kind backwards repeats) := by
  refine .before (flagged_blockPass kind backwards repeats) fun more => ?_
  have hback : Obeys .steady (modifyRegisters fun regs => { regs with pc := regs.pc - 2 }) :=
    obeys_modifyRegisters .pc fun _ => rfl
  infer_instance

/-- IN from the port in BC computes all flags but the carry. -/
theorem flagged_inputTo {target : Option Register} (h : target ≠ some .f) :
    Flagged f (ChangedIn Flag.allButCarry f) (inputTo target) := by
  have hset (v : Byte) : Flagged f (ChangedIn Flag.allButCarry f)
      (flags >>= fun prior => Action.setFlags (Alu.portFlags v prior)) :=
    .flags_bind (.setFlags (.of_carry rfl rfl rfl))
  refine .after fun _ => .after fun v => ?_
  cases target with
  | none => exact hset v
  | some name =>
    have := steady_store (fun e => h (congrArg some (Operand.register.inj e))) v
    exact .after fun _ => hset v

/-- LD A,I and LD A,R compute all flags but the carry. -/
theorem flagged_loadSpecial (source : Register) :
    Flagged f (ChangedIn Flag.allButCarry f) (loadSpecial source) := by
  intro cpu hcpu
  refine .done ?_
  show ChangedIn _ f (Alu.specialFlags _ _ cpu.regs.acc.f)
  rw [hcpu]
  exact .of_carry rfl rfl rfl

/-! ### Instructions -/

/-- **An instruction that is done has changed the flags it affects and no others**, if it does not
load F as a byte. -/
theorem flagged_execute {i : Instruction} (hnames : i.namesFlags = false) (hpop : i ≠ .pop .af)
    (hexchange : i ≠ .exchangeAccumulator) : Flagged f (ChangedIn i.affects f) (execute i) := by
  -- The instructions that affect no flag leave them alone from the first step to the last.
  have hsteady {a : Action Bool} (ha : Obeys .steady a) : Flagged f (ChangedIn [] f) a :=
    .steady (.refl [] f)
  cases i with
  | exchangeAccumulator => exact absurd rfl hexchange
  | load target source =>
    exact hsteady (.always (obeys_move source (steady_storeTo (of_decide_eq_false hnames))))
  | storeSpecial target =>
    have hname : Place.register target ≠ .register .f :=
      fun e => of_decide_eq_false hnames (Place.register.inj e)
    exact hsteady (.always (obeys_move (.register .a) (steady_storeTo hname)))
  | loadImmediate target =>
    exact hsteady (.always (obeys_moveImmediate (steady_storeTo (of_decide_eq_false hnames))))
  | operate op operand =>
    exact .always (.after fun _ => .after fun v => flagged_operate op v)
  | operateImmediate op => exact .always (.after fun v => flagged_operate op v)
  | increment operand | decrement operand =>
    exact .always (flagged_stepByte (of_decide_eq_false hnames) fun v => .of_carry rfl rfl rfl)
  | decimalAdjust =>
    exact .always (flagged_accumulator fun a => Alu.changedIn_decimalAdjust a f)
  | complement => exact .always (flagged_accumulator fun a => Alu.changedIn_complement a f)
  | negate => exact .always (flagged_accumulator fun a => .of_computed rfl rfl)
  | shiftAccumulator kind =>
    exact .always (flagged_accumulator fun a => .of_result rfl rfl rfl rfl rfl)
  | setCarry | flipCarry =>
    exact .always (.flags_bind (.setFlags (.of_result rfl rfl rfl rfl rfl)))
  | rotateDigitLeft | rotateDigitRight =>
    exact .always (flagged_rotateDigit fun a m => .of_carry rfl rfl rfl)
  | addPair target source => exact .always (flagged_addPair target source)
  | addPairCarry source | subPairCarry source =>
    exact .always (flagged_combinePair (fun _ _ _ => .of_computed rfl rfl) source)
  | bits op operand => exact .always (flagged_bits op (of_decide_eq_false hnames))
  | indexedBits op index displacement copy =>
    exact .always (flagged_indexedBits op index displacement (of_decide_eq_false hnames))
  | inputTo target => exact .always (flagged_inputTo (of_decide_eq_false hnames))
  | loadSpecial source => exact .always (flagged_loadSpecial source)
  | block kind backwards repeats => exact flagged_block kind backwards repeats
  | loadPairImmediate target | loadPair target | incrementPair target | decrementPair target =>
    have := fun w => steady_writePair (of_decide_eq_false hnames) w
    refine hsteady ?_
    simp only [execute, movePairImmediate, loadPair]
    infer_instance
  | pop target =>
    have htarget : target ≠ .af := fun e => hpop (congrArg _ e)
    have haffects : (Instruction.pop target).affects = [] := by
      cases target with
      | af => exact absurd rfl htarget
      | _ => rfl
    have := fun w => steady_writePair htarget w
    rw [haffects]
    exact hsteady (.always inferInstance)
  | disableInterrupts | enableInterrupts | setMode =>
    exact hsteady (.always (keeps_modify fun _ => rfl))
  | exchangeBank => exact hsteady (.always (keeps_modifyRegisters fun _ => rfl))
  | halt => exact hsteady (.always (obeys_halt (keeps_modify fun _ => rfl)))
  | retInterrupt =>
    exact hsteady (.always (.bind inferInstance fun _ => keeps_modify fun _ => rfl))
  | _ =>
    refine hsteady ?_
    simp only [execute, storeATo, loadPair, storePair, copyPair, exchangeDeHl, exchangeStackTop,
      inputImmediate, outputImmediate, outputFrom]
    infer_instance

end Action

/-! ## Steps -/

/-- **What a step does to the flags.** Let a step complete an instruction, over any bus. An
instruction that affects no flag has left all eight bits of F alone; the others have left alone the
conditions that they do not affect, and have not set the two bits that nothing computes, unless they
load F as a byte. -/
theorem step_flags [Bus β] {cpu : Cpu} {bus : β} {cycles : Nat}
    (h : (cpu.step bus).result = .ok cycles) :
    ∃ i, cpu.executed bus = some i ∧
      let before := cpu.regs.acc.f
      let after := (cpu.step bus).cpu.regs.acc.f
      (i.affects = [] → after = before) ∧
      (∀ name, name ∉ i.affects → after.test name = before.test name) ∧
      (i ≠ .pop .af → i ≠ .exchangeAccumulator →
        (after.bit5 = true → before.bit5 = true) ∧ (after.bit3 = true → before.bit3 = true)) := by
  obtain ⟨_, opcode, c, bus', _, hfetch, hexecuted, hexecute⟩ := Cpu.of_step_ok h
  refine ⟨opcode.instruction, hexecuted, ?_⟩
  -- Reading the opcode moved the program counter only.
  obtain ⟨pc, rfl⟩ := Action.of_run_fetchOpcode hfetch
  have hall : ∀ name : Flag, name ∈ Flag.all := by
    intro name
    cases name <;> decide
  by_cases hpop : opcode.instruction = .pop .af
  · rw [hpop]
    exact ⟨nofun, fun name hn => absurd (hall name) hn, fun hne => absurd rfl hne⟩
  by_cases hexchange : opcode.instruction = .exchangeAccumulator
  · rw [hexchange]
    exact ⟨nofun, fun name hn => absurd (hall name) hn, fun _ hne => absurd rfl hne⟩
  have hleaves := (Action.flagged_execute opcode.namesFlags_instruction hpop hexchange
    { cpu.begin with regs.pc := pc } rfl).run bus'
  rw [hexecute] at hleaves
  exact ⟨hleaves.unaffected, hleaves.test, fun _ _ => ⟨hleaves.bit5, hleaves.bit3⟩⟩

/-- INC A after two prefixes that are dropped, from a flag register with all bits set: C is kept,
and the two bits that nothing computes are cleared. -/
theorem step_flags_increment :
    let cpu : Cpu :=
      { regs := { acc := { a := 0x7F, f := .ofByte 0xFF } }
        variant := { conformance := .undocumented, flagModel := .overflow } }
    let m : Memory LatchedPorts := { bytes := #[0xFD, 0xDD, 0x3C], device := {} }
    (cpu.step m).result = .ok 12 ∧ cpu.executed m = some (.increment (.register .a)) ∧
    (cpu.step m).cpu.regs.acc.f.test .carry = cpu.regs.acc.f.test .carry ∧
    ((cpu.step m).cpu.regs.acc.f.bit5 = true → cpu.regs.acc.f.bit5 = true) ∧
    (cpu.step m).cpu.regs.acc.f.toByte = 0x95 := by
  intro cpu m
  have hok : (cpu.step m).result = .ok 12 := ok_of_toOption (by decide +kernel)
  have hincrement : cpu.executed m = some (.increment (.register .a)) := by decide +kernel
  obtain ⟨i, hexecuted, -, htest, hunused⟩ := step_flags hok
  obtain rfl : i = .increment (.register .a) :=
    Option.some.inj (hexecuted.symm.trans hincrement)
  exact ⟨hok, hincrement, htest .carry (by decide), (hunused (by decide) (by decide)).1,
    by decide +kernel⟩

end Z80
