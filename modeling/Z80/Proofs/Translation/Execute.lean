import Z80.Proofs.Selection
import Z80.Proofs.Translation.Steps

/-!
# Translated instructions

Every instruction behaves under a faithful translation as its own translation does. What remains to
be asked comes from the uses of HL and of the variant that the instruction does not name: HL must
keep its name for an instruction that uses HL whatever its operands are, and the variant must keep
its flag model for one that leaves P/V to it.
-/

namespace Z80

/-- An instruction with its operands named as they are there. -/
def Translation.instruction (T : Translation) : Instruction → Instruction
  | .load target source => .load (T.place target) (T.place source)
  | .loadImmediate target => .loadImmediate (T.place target)
  | .loadAccumulatorFrom pointer => .loadAccumulatorFrom (T.pair pointer)
  | .storeAccumulatorTo pointer => .storeAccumulatorTo (T.pair pointer)
  | .loadSpecial source => .loadSpecial (T.register source)
  | .storeSpecial target => .storeSpecial (T.register target)
  | .loadPairImmediate target => .loadPairImmediate (T.pair target)
  | .loadIndex target => .loadIndex (T.index target)
  | .storeIndex source => .storeIndex (T.index source)
  | .loadPair target => .loadPair (T.pair target)
  | .storePair source => .storePair (T.pair source)
  | .loadStackPointer source => .loadStackPointer (T.index source)
  | .push source => .push (T.pair source)
  | .pop target => .pop (T.pair target)
  | .exchangeStackTop index => .exchangeStackTop (T.index index)
  | .operate op operand => .operate op (T.place operand)
  | .increment operand => .increment (T.place operand)
  | .decrement operand => .decrement (T.place operand)
  | .addPair target source => .addPair (T.index target) (T.pair source)
  | .addPairCarry source => .addPairCarry (T.pair source)
  | .subPairCarry source => .subPairCarry (T.pair source)
  | .incrementPair target => .incrementPair (T.pair target)
  | .decrementPair target => .decrementPair (T.pair target)
  | .bits op operand => .bits op (T.place operand)
  | .indexedBits op index displacement copy =>
    .indexedBits op (T.index index) displacement (copy.map T.register)
  | .jumpIndex target => .jumpIndex (T.index target)
  | .inputTo target => .inputTo (target.map T.register)
  | .outputFrom source => .outputFrom (source.map T.register)
  | other => other

/-- Whether an instruction uses HL in another way than as a pair, or half of one, that it names. -/
def Instruction.usesHl : Instruction → Bool
  | .load (.indirect _) _ | .load _ (.indirect _) | .loadImmediate (.indirect _)
  | .operate _ (.indirect _) | .increment (.indirect _) | .decrement (.indirect _)
  | .bits _ (.indirect _) => true
  | .exchangeBank | .exchangeDeHl | .rotateDigitLeft | .rotateDigitRight => true
  | .addPairCarry _ | .subPairCarry _ | .block _ _ _ => true
  | _ => false

/-- Whether an instruction leaves P/V as the flag model has it: INC and DEC of a byte, and CP. -/
def Instruction.asksFlagModel : Instruction → Bool
  | .increment _ | .decrement _ => true
  | .operate op _ | .operateImmediate op => op = .cp
  | _ => false

namespace Action

variable {T : Translation} {lax : Prop}

/-! ## Loads, exchanges and ports -/

/-- LD of an immediate byte, once its operand has been found. -/
def fetchInto (target : Operand) : Action Unit := do
  store target (← fetch)

/-- LD between two operands that have been found. -/
def copyByte (target source : Operand) : Action Unit := do
  store target (← load source)

/-- The byte that follows is stored in the same operand, named as it is there. -/
theorem tracks_fetchInto {target : Operand} (h : T.CarriesOperand target) :
    Tracks T lax id (fetchInto target) (fetchInto (T.operand target)) := by
  refine .bind tracks_fetch fun v => ?_
  exact tracks_store h v

/-- A byte goes from operand to operand alike, if both are carried. -/
theorem tracks_copyByte {target source : Operand} (ht : T.CarriesOperand target)
    (hs : T.CarriesOperand source) :
    Tracks T lax id (copyByte target source)
      (copyByte (T.operand target) (T.operand source)) := by
  refine .bind (tracks_load hs) fun v => ?_
  exact tracks_store ht v

/-- LD between two places is the same transfer there. HL keeps its name if either place is
memory. -/
theorem tracks_move (hT : T.Faithful) (target source : Place)
    (hl : (Instruction.load target source).usesHl = true → T.index .hl = .hl) :
    Tracks T lax id (move target source) (move (T.place target) (T.place source)) := by
  refine .bind (tracks_locate hT target ?_) fun t => ?_
  · rintro index rfl
    exact hl (by cases source <;> rfl)
  refine .bind (tracks_locate hT source ?_) fun s => ?_
  · rintro index rfl
    exact hl (by cases target <;> rfl)
  exact tracks_copyByte (hT.operand t) (hT.operand s)

/-- LD of an immediate byte fills the same place there, where a place in memory asks for HL's
name. -/
theorem tracks_moveImmediate (hT : T.Faithful) (target : Place)
    (hl : (Instruction.loadImmediate target).usesHl = true → T.index .hl = .hl) :
    Tracks T lax id (moveImmediate target) (moveImmediate (T.place target)) := by
  refine .bind (tracks_locate hT target ?_) fun t => ?_
  · rintro index rfl
    exact hl rfl
  exact tracks_fetchInto (hT.operand t)

theorem tracks_setA (v : Byte) : Tracks T lax id (setA v) (setA v) :=
  tracks_store (show T.CarriesOperand (.register .a) from trivial) v

/-- An address is no register, so A is filled from the same byte under any translation. -/
theorem tracks_loadAFrom (address : Word) :
    Tracks T lax id (loadAFrom address) (loadAFrom address) := by
  refine .bind (tracks_readByte address) fun v => ?_
  exact tracks_setA v

/-- A is no half of a pair that is renamed, so the same byte goes to the same address. -/
theorem tracks_storeATo (address : Word) :
    Tracks T lax id (storeATo address) (storeATo address) := by
  refine .bind tracks_registers fun r => ?_
  exact tracks_writeByte address r.acc.a

/-- LD A,I and LD A,R read a register that is carried, and IFF2 is the same on both sides. -/
theorem tracks_loadSpecial (hT : T.Faithful) (source : Register) :
    Tracks T lax id (loadSpecial source) (loadSpecial (T.register source)) := by
  refine .bind tracks_get fun c => ?_
  show Tracks T lax id
    (setAccumulator ⟨c.regs.read source, Alu.specialFlags (c.regs.read source) c.iff2 _⟩)
    (setAccumulator ⟨(T.regs c.regs).read (T.register source),
      Alu.specialFlags ((T.regs c.regs).read (T.register source)) c.iff2 _⟩)
  rw [Translation.read_register (hT.register source)]
  exact tracks_setAccumulator _

/-- LD of an immediate word fills the pair that has the name of `target` there. -/
theorem tracks_movePairImmediate (hT : T.Faithful) (target : Pair) :
    Tracks T lax id (movePairImmediate target) (movePairImmediate (T.pair target)) := by
  refine .bind tracks_fetchWord fun w => ?_
  exact tracks_writePair hT target w

/-- A pair is loaded from memory under its name there, from the same address. -/
theorem tracks_loadPair (hT : T.Faithful) (target : Pair) :
    Tracks T lax id (loadPair target) (loadPair (T.pair target)) := by
  refine .bind tracks_fetchWord fun address => ?_
  refine .bind (tracks_readWord address) fun w => ?_
  exact tracks_writePair hT target w

/-- A pair is stored with the value that its name has there. -/
theorem tracks_storePair (hT : T.Faithful) (source : Pair) :
    Tracks T lax id (storePair source) (storePair (T.pair source)) := by
  refine .bind tracks_fetchWord fun address => ?_
  refine .bind (tracks_readPair hT source) fun w => ?_
  exact tracks_writeWord address w

/-- One pair goes to another, both under their names there. -/
theorem tracks_copyPair (hT : T.Faithful) (target source : Pair) :
    Tracks T lax id (copyPair target source) (copyPair (T.pair target) (T.pair source)) := by
  refine .bind (tracks_readPair hT source) fun w => ?_
  exact tracks_writePair hT target w

/-- EX DE,HL means HL whatever the prefix, so HL must keep its name. -/
theorem tracks_exchangeDeHl (hT : T.Faithful) (hl : T.index .hl = .hl) :
    Tracks T lax id exchangeDeHl exchangeDeHl := by
  refine .bind tracks_registers fun r => ?_
  rw [hT.hl_eq hl]
  refine .bind (tracks_writePair hT .de r.hl) fun _ => ?_
  exact tracks_writeHl hT hl r.de

/-- EX (SP) exchanges the word at the top of the stack with the renamed pair. -/
theorem tracks_exchangeStackTop (hT : T.Faithful) (name : Pair) :
    Tracks T lax id (exchangeStackTop name) (exchangeStackTop (T.pair name)) := by
  refine .bind tracks_registers fun r => ?_
  refine .bind (tracks_readWord r.sp) fun top => ?_
  refine .bind (tracks_readPair hT name) fun w => ?_
  refine .bind (tracks_writeWord r.sp w) fun _ => ?_
  exact tracks_writePair hT name top

/-- A port with an immediate low byte has A above it, which no translation changes. -/
theorem tracks_immediatePort : Tracks T lax id immediatePort immediatePort := by
  refine .bind tracks_fetch fun low => ?_
  refine .bind tracks_registers fun r => ?_
  exact .pure id (wordOf r.acc.a low)

theorem tracks_inputImmediate : Tracks T lax id inputImmediate inputImmediate := by
  refine .bind tracks_immediatePort fun port => ?_
  refine .bind (tracks_inputByte port) fun v => ?_
  exact tracks_setA v

theorem tracks_outputImmediate : Tracks T lax id outputImmediate outputImmediate := by
  refine .bind tracks_immediatePort fun port => ?_
  refine .bind tracks_registers fun r => ?_
  exact tracks_outputByte port r.acc.a

/-- IN from the port in BC sets the same flags, and fills the register named there, if one is
filled. -/
theorem tracks_inputTo (hT : T.Faithful) (target : Option Register) :
    Tracks T lax id (inputTo target) (inputTo (target.map T.register)) := by
  refine .bind tracks_registers fun r => ?_
  refine .bind (tracks_inputByte r.bc) fun v => ?_
  cases target with
  | none =>
    refine .bind tracks_flags fun f => ?_
    exact tracks_setFlags (Alu.portFlags v f)
  | some name =>
    refine .bind (tracks_store (hT.operand (.register name)) v) fun _ => ?_
    refine .bind tracks_flags fun f => ?_
    exact tracks_setFlags (Alu.portFlags v f)

/-- OUT to the port in BC sends what the register named there holds, or 0 if none is named. -/
theorem tracks_outputFrom (hT : T.Faithful) (source : Option Register) :
    Tracks T lax id (outputFrom source) (outputFrom (source.map T.register)) := by
  refine .bind tracks_registers fun r => ?_
  cases source with
  | none => exact tracks_outputByte r.bc 0
  | some name =>
    show Tracks T lax id (outputByte r.bc (r.read name))
      (outputByte r.bc ((T.regs r).read (T.register name)))
    rw [Translation.read_register (hT.register name)]
    exact tracks_outputByte r.bc _

/-! ## Arithmetic -/

/-- INC or DEC of a byte, once its operand has been found. -/
def stepOperand (change : Byte → Flags → Alu.Result) (operand : Operand) : Action Unit := do
  let v ← load operand
  let out := change v (← flags)
  store operand out.value
  settleFlags out.flags out.value

/-- A translation that keeps the flag model. -/
abbrev KeepsFlagModel (T : Translation) : Prop :=
  ∀ v, (T.variant v).flagModel = v.flagModel

/-- P/V is settled alike where the flag model is the same. -/
theorem tracks_settleFlags (hf : KeepsFlagModel T) (f : Flags) (v : Byte) :
    Tracks T lax id (settleFlags f v) (settleFlags f v) := by
  intro cpu
  show Dialogue.Parallel _ _ _ (setFlags (cpu.variant.flagModel.settle f v) cpu)
    (setFlags ((T.variant cpu.variant).flagModel.settle f v) (T.cpu cpu))
  rw [hf]
  exact tracks_setFlags _ cpu

/-- An operation on A and a byte is the same there; only CP leaves its P/V to the flag model. -/
theorem tracks_operate {op : Alu.Operation} (hf : op = .cp → KeepsFlagModel T) (v : Byte) :
    Tracks T lax id (operate op v) (operate op v) := by
  refine .bind tracks_registers fun r => ?_
  exact .ite_of (fun hop => tracks_settleFlags (hf hop) _ _) fun _ => tracks_setAccumulator _

/-- INC and DEC change an operand that is carried alike, P/V by the flag model. -/
theorem tracks_stepOperand (hf : KeepsFlagModel T) (change : Byte → Flags → Alu.Result)
    {op : Operand} (h : T.CarriesOperand op) :
    Tracks T lax id (stepOperand change op) (stepOperand change (T.operand op)) := by
  refine .bind (tracks_load h) fun v => ?_
  refine .bind tracks_flags fun f => ?_
  refine .bind (tracks_store h (change v f).value) fun _ => ?_
  exact tracks_settleFlags hf _ _

/-- INC and DEC of a place, in memory only where HL keeps its name. -/
theorem tracks_stepByte (hT : T.Faithful) (hf : KeepsFlagModel T)
    (change : Byte → Flags → Alu.Result) (place : Place)
    (hl : (Instruction.increment place).usesHl = true → T.index .hl = .hl) :
    Tracks T lax id (stepByte change place) (stepByte change (T.place place)) := by
  refine .bind (tracks_locate hT place ?_) fun op => ?_
  · rintro index rfl
    exact hl rfl
  exact tracks_stepOperand hf change (hT.operand op)

/-- What is done to A and the flags alone is done alike under every translation. -/
theorem tracks_accumulator (change : Byte → Flags → Alu.Result) :
    Tracks T lax id (accumulator change) (accumulator change) := by
  refine .bind tracks_registers fun r => ?_
  exact tracks_setAccumulator (change r.acc.a r.acc.f)

/-- ADD of pairs adds the same values, and the sum goes to the name that the target has there. -/
theorem tracks_addPair (hT : T.Faithful) (target : Index) (source : Pair) :
    Tracks T lax id (addPair target source) (addPair (T.index target) (T.pair source)) := by
  refine .bind tracks_registers fun r => ?_
  rw [← T.pair_index, hT.readPair, hT.readPair]
  refine .bind (tracks_writePair hT target.pair _) fun _ => ?_
  exact tracks_setFlags _

/-- ADC and SBC of pairs work on HL itself, so HL must keep its name. -/
theorem tracks_combinePair (hT : T.Faithful) (hl : T.index .hl = .hl)
    (combine : Word → Word → Bool → Word × Flags) (source : Pair) :
    Tracks T lax id (combinePair combine source) (combinePair combine (T.pair source)) := by
  refine .bind tracks_registers fun r => ?_
  rw [hT.hl_eq hl, hT.readPair]
  refine .bind (tracks_writeHl hT hl _) fun _ => ?_
  exact tracks_setFlags _

/-- RLD and RRD use the byte at HL itself, so HL must keep its name. -/
theorem tracks_rotateDigit (hT : T.Faithful) (hl : T.index .hl = .hl)
    (rotate : Byte → Byte → Flags → Alu.DigitResult) :
    Tracks T lax id (rotateDigit rotate) (rotateDigit rotate) := by
  refine .bind tracks_registers fun r => ?_
  rw [hT.hl_eq hl]
  refine .bind (tracks_readByte r.hl) fun m => ?_
  refine .bind (tracks_writeByte r.hl _) fun _ => ?_
  exact tracks_setAccumulator _

/-! ## Bits -/

/-- Whether the opcodes that the manual does not list are refused alike, or the comparison lets that
go. -/
abbrev Admits (T : Translation) (lax : Prop) : Prop :=
  (∀ v, (T.variant v).conformance = v.conformance) ∨
    lax ∧ ∀ v, (T.variant v).conformance = .undocumented

/-- An operation on bits gives the same byte and flags, and SLL is admitted alike. -/
theorem tracks_transform (hv : Admits T lax) (op : BitOperation) (v : Byte) :
    Tracks T lax id (transform op v) (transform op v) := by
  cases op with
  | shift kind =>
    have h : Tracks T lax id
        (do let out := Alu.shift kind v (← flags); setFlags out.flags; return some out.value)
        (do let out := Alu.shift kind v (← flags); setFlags out.flags; return some out.value) := by
      refine .bind tracks_flags fun f => ?_
      refine .bind (tracks_setFlags _) fun _ => ?_
      exact .pure id _
    by_cases hk : kind = .sll
    · subst hk
      exact .bind (tracks_requireUndocumented hv) fun _ => h
    · simp only [transform, if_neg hk]
      exact h
  | test bit =>
    refine .bind tracks_flags fun f => ?_
    refine .bind (tracks_setFlags (Alu.testBit bit v f)) fun _ => ?_
    exact .pure id none
  | reset bit => exact .pure id (some (Alu.clearBit bit v))
  | set bit => exact .pure id (some (Alu.setBit bit v))

/-- The CB page on a place of the main page, in memory only where HL keeps its name. -/
theorem tracks_bits (hT : T.Faithful) (hv : Admits T lax) (op : BitOperation) (place : Place)
    (hl : (Instruction.bits op place).usesHl = true → T.index .hl = .hl) :
    Tracks T lax id (bits op place) (bits op (T.place place)) := by
  refine .bind (tracks_locate hT place ?_) fun operand => ?_
  · rintro index rfl
    exact hl rfl
  refine .bind (tracks_load (hT.operand operand)) fun v => ?_
  refine .bind (tracks_transform hv op v) fun result => ?_
  cases result with
  | none => exact .pure id ()
  | some result => exact tracks_store (hT.operand operand) result

/-- The CB page behind a displacement: the byte lies at the same address, and the copy goes to the
register that is named there. -/
theorem tracks_indexedBits (hT : T.Faithful) (hv : Admits T lax) (op : BitOperation)
    (index : Index) (displacement : Byte) (copy : Option Register) :
    Tracks T lax id (indexedBits op index displacement copy)
      (indexedBits op (T.index index) displacement (copy.map T.register)) := by
  refine .bind tracks_registers fun r => ?_
  have ha : (T.regs r).addressFrom (T.index index).pair displacement
      = r.addressFrom index.pair displacement := by
    rw [Registers.addressFrom, (hT index).readPair, Registers.addressFrom]
  rw [ha]
  refine .bind (tracks_readByte _) fun v => ?_
  refine .bind (tracks_transform hv op v) fun result => ?_
  cases result with
  | none => exact .pure id ()
  | some result =>
    refine .bind (tracks_writeByte _ result) fun _ => ?_
    cases copy with
    | none => exact .pure id ()
    | some name => exact tracks_store (hT.operand (.register name)) result

/-! ## Blocks -/

/-- A pair moves on to the next address under its name there. -/
theorem tracks_advancePair (hT : T.Faithful) (backwards : Bool) (name : Pair) :
    Tracks T lax id (advancePair backwards name) (advancePair backwards (T.pair name)) := by
  refine tracks_modifyRegisters fun r => ?_
  rw [hT.readPair, hT.writePair]

theorem tracks_advanceHl (hT : T.Faithful) (hl : T.index .hl = .hl) (backwards : Bool) :
    Tracks T lax id (advancePair backwards .hl) (advancePair backwards .hl) := by
  have h : Tracks T lax id (advancePair backwards .hl) (advancePair backwards (T.pair .hl)) :=
    tracks_advancePair hT backwards .hl
  rwa [Translation.pair, hl] at h

/-- The counter BC has no other name anywhere, nor another value. -/
theorem tracks_countDown : Tracks T lax id countDown countDown := by
  refine .bind (tracks_modifyRegisters fun _ => rfl) fun _ => ?_
  exact fun _ => .done ⟨rfl, rfl⟩

theorem tracks_countDownB : Tracks T lax id countDownB countDownB := by
  refine .bind tracks_registers fun r => ?_
  refine .bind (tracks_modifyRegisters fun _ => rfl) fun _ => ?_
  exact .pure id _

/-- One pass of LDI or LDD copies from HL itself, so HL must keep its name. -/
theorem tracks_blockLoad (hT : T.Faithful) (hl : T.index .hl = .hl) (backwards : Bool) :
    Tracks T lax id (blockLoad backwards) (blockLoad backwards) := by
  refine .bind tracks_registers fun r => ?_
  rw [hT.hl_eq hl]
  refine .bind (tracks_readByte r.hl) fun v => ?_
  refine .bind (tracks_writeByte r.de v) fun _ => ?_
  refine .bind (tracks_advanceHl hT hl backwards) fun _ => ?_
  refine .bind (tracks_advancePair hT backwards .de) fun _ => ?_
  refine .bind tracks_countDown fun left => ?_
  refine .bind tracks_flags fun prior => ?_
  refine .bind (tracks_setFlags _) fun _ => ?_
  exact .pure id _

/-- One pass of CPI or CPD reads at HL itself, so HL must keep its name. -/
theorem tracks_blockCompare (hT : T.Faithful) (hl : T.index .hl = .hl) (backwards : Bool) :
    Tracks T lax id (blockCompare backwards) (blockCompare backwards) := by
  refine .bind tracks_registers fun r => ?_
  rw [hT.hl_eq hl]
  refine .bind (tracks_readByte r.hl) fun v => ?_
  refine .bind (tracks_advanceHl hT hl backwards) fun _ => ?_
  refine .bind tracks_countDown fun left => ?_
  refine .bind tracks_flags fun prior => ?_
  refine .bind (tracks_setFlags _) fun _ => ?_
  exact .pure id _

/-- One pass of INI or IND stores at HL itself, so HL must keep its name. -/
theorem tracks_blockInput (hT : T.Faithful) (hl : T.index .hl = .hl) (backwards : Bool) :
    Tracks T lax id (blockInput backwards) (blockInput backwards) := by
  refine .bind tracks_registers fun r => ?_
  rw [hT.hl_eq hl]
  refine .bind (tracks_inputByte r.bc) fun v => ?_
  refine .bind (tracks_writeByte r.hl v) fun _ => ?_
  refine .bind (tracks_advanceHl hT hl backwards) fun _ => ?_
  exact tracks_countDownB

/-- One pass of OUTI or OUTD reads at HL itself, so HL must keep its name. -/
theorem tracks_blockOutput (hT : T.Faithful) (hl : T.index .hl = .hl) (backwards : Bool) :
    Tracks T lax id (blockOutput backwards) (blockOutput backwards) := by
  refine .bind tracks_registers fun r => ?_
  rw [hT.hl_eq hl]
  refine .bind (tracks_readByte r.hl) fun v => ?_
  refine .bind tracks_countDownB fun more => ?_
  refine .bind tracks_registers fun r' => ?_
  refine .bind (tracks_outputByte r'.bc v) fun _ => ?_
  refine .bind (tracks_advanceHl hT hl backwards) fun _ => ?_
  exact .pure id more

/-- A block instruction does the same pass there, and goes back to itself there if it does here. -/
theorem tracks_block (hT : T.Faithful) (hl : T.index .hl = .hl) (kind : BlockKind)
    (backwards repeats : Bool) :
    Tracks T lax id (block kind backwards repeats) (block kind backwards repeats) := by
  have hpass : Tracks T lax id (blockPass kind backwards) (blockPass kind backwards) := by
    cases kind with
    | load => exact tracks_blockLoad hT hl backwards
    | compare => exact tracks_blockCompare hT hl backwards
    | input => exact tracks_blockInput hT hl backwards
    | output => exact tracks_blockOutput hT hl backwards
  refine .bind hpass fun more => ?_
  refine .ite ?_ ?_
  · refine .bind (tracks_modifyRegisters fun _ => rfl) fun _ => ?_
    exact .pure id _
  · exact .pure id _

/-! ## Transfers of control -/

/-- A condition asks only for the flags, which are the same on both sides. -/
theorem tracks_test (condition : Option Condition) :
    Tracks T lax id (test condition) (test condition) := by
  refine .bind tracks_flags fun f => ?_
  exact .pure id _

theorem tracks_jump (condition : Option Condition) :
    Tracks T lax id (jump condition) (jump condition) := by
  refine .bind tracks_fetchWord fun target => ?_
  refine .bind (tracks_test condition) fun taken => ?_
  refine .ite ?_ (.pure id taken)
  exact .bind (tracks_jumpTo target) fun _ => .pure id taken

/-- A relative jump leaves from the same address by the same displacement. -/
theorem tracks_jumpBy (taken : Bool) : Tracks T lax id (jumpBy taken) (jumpBy taken) := by
  refine .bind tracks_fetch fun d => ?_
  refine .ite ?_ (.pure id taken)
  refine .bind tracks_registers fun r => ?_
  exact .bind (tracks_jumpTo (displaced r.pc d)) fun _ => .pure id taken

theorem tracks_jumpRelative (condition : Option Condition) :
    Tracks T lax id (jumpRelative condition) (jumpRelative condition) := by
  refine .bind (tracks_test condition) fun taken => ?_
  exact tracks_jumpBy taken

/-- DJNZ counts in B, which no translation renames, and jumps alike. -/
theorem tracks_decrementAndJump : Tracks T lax id decrementAndJump decrementAndJump := by
  refine .bind (tracks_modifyRegisters fun _ => rfl) fun _ => ?_
  refine .bind tracks_registers fun r => ?_
  exact tracks_jumpBy (r.bank.b != 0)

/-- RST pushes the same address to return to and jumps to the same target. -/
theorem tracks_restart (target : Word) : Tracks T lax id (restart target) (restart target) := by
  refine .bind tracks_registers fun r => ?_
  refine .bind (tracks_push r.pc) fun _ => ?_
  exact tracks_jumpTo target

/-- CALL fetches its target whether it is taken or not, and pushes alike if it is. -/
theorem tracks_call (condition : Option Condition) :
    Tracks T lax id (call condition) (call condition) := by
  refine .bind tracks_fetchWord fun target => ?_
  refine .bind (tracks_test condition) fun taken => ?_
  refine .ite ?_ (.pure id taken)
  refine .bind tracks_registers fun r => ?_
  refine .bind (tracks_push r.pc) fun _ => ?_
  exact .bind (tracks_jumpTo target) fun _ => .pure id taken

theorem tracks_ret : Tracks T lax id ret ret := by
  refine .bind tracks_pop fun w => ?_
  exact tracks_jumpTo w

theorem tracks_retIf (condition : Condition) :
    Tracks T lax id (retIf condition) (retIf condition) := by
  refine .bind (tracks_test (some condition)) fun taken => ?_
  refine .ite ?_ (.pure id taken)
  exact .bind tracks_ret fun _ => .pure id taken

theorem tracks_retInterrupt : Tracks T lax id retInterrupt retInterrupt := by
  refine .bind tracks_ret fun _ => ?_
  exact tracks_modify fun _ => rfl

/-! ## Instructions as a whole -/

/-- What holds of an action holds of it as an instruction without a condition. -/
theorem tracks_always {a a' : Action Unit} (h : Tracks T lax id a a') :
    Tracks T lax id (always a) (always a') :=
  .bind h fun _ => .pure id false

/-- A translation that keeps the name of HL touches nothing that EXX exchanges. -/
theorem tracks_exchangeBank (hT : T.Faithful) (hl : T.index .hl = .hl) :
    Tracks T lax id (modifyRegisters Registers.exchangeBank)
      (modifyRegisters Registers.exchangeBank) := by
  refine tracks_modifyRegisters fun r => ?_
  have hget := (hT .hl).get r.indexes
  have hset := (hT .hl).set r.indexes r.exchangeBank.hl
  rw [hl] at hget hset
  have hbank : (T.regs r).bank = r.bank := by
    show ({ r.bank with
      h := highByte ((T.values r.indexes).get .hl)
      l := lowByte ((T.values r.indexes).get .hl) } : Bank) = r.bank
    rw [hget]
    simp [Registers.indexes, Registers.hl, Indexes.get]
  have hindexes : r.exchangeBank.indexes = r.indexes.set .hl r.exchangeBank.hl := rfl
  show ({ T.regs r with bank := r.bankShadow, bankShadow := (T.regs r).bank } : Registers) = _
  rw [hbank, Translation.regs, Translation.regs, hindexes, hset]
  simp [Registers.exchangeBank, Registers.withIndexes, Indexes.set, Registers.hl]

/-- An instruction does from a translated state what it does here, under the names that hold
there. -/
theorem tracks_execute (hT : T.Faithful) (hv : Admits T lax) (i : Instruction)
    (hf : i.asksFlagModel = true → KeepsFlagModel T) (hl : i.usesHl = true → T.index .hl = .hl) :
    Tracks T lax id (execute i) (execute (T.instruction i)) := by
  -- Where HL is used by itself, `hl` says that it is also called HL there.
  cases i with
  | nop | nothing => exact .pure id false
  | halt =>
    refine tracks_always (.bind (tracks_modify fun _ => rfl) fun _ => ?_)
    exact tracks_modifyRegisters fun _ => rfl
  | disableInterrupts | enableInterrupts => exact tracks_always (tracks_modify fun _ => rfl)
  | setMode mode => exact tracks_always (tracks_modify fun _ => rfl)
  | load target source => exact tracks_always (tracks_move hT target source hl)
  | loadImmediate target => exact tracks_always (tracks_moveImmediate hT target hl)
  | loadAccumulatorFrom pointer =>
    exact tracks_always (.bind (tracks_readPair hT pointer) fun w => tracks_loadAFrom w)
  | storeAccumulatorTo pointer =>
    exact tracks_always (.bind (tracks_readPair hT pointer) fun w => tracks_storeATo w)
  | loadAccumulator => exact tracks_always (.bind tracks_fetchWord fun w => tracks_loadAFrom w)
  | storeAccumulator => exact tracks_always (.bind tracks_fetchWord fun w => tracks_storeATo w)
  | loadSpecial source => exact tracks_always (tracks_loadSpecial hT source)
  | storeSpecial target =>
    exact tracks_always (tracks_copyByte (hT.operand (.register target))
      (hT.operand (.register .a)))
  | loadPairImmediate target => exact tracks_always (tracks_movePairImmediate hT target)
  | loadIndex target =>
    show Tracks T lax id (always (loadPair target.pair)) (always (loadPair (T.index target).pair))
    rw [← T.pair_index]
    exact tracks_always (tracks_loadPair hT target.pair)
  | storeIndex source =>
    show Tracks T lax id (always (storePair source.pair)) (always (storePair (T.index source).pair))
    rw [← T.pair_index]
    exact tracks_always (tracks_storePair hT source.pair)
  | loadPair target => exact tracks_always (tracks_loadPair hT target)
  | storePair source => exact tracks_always (tracks_storePair hT source)
  | loadStackPointer source =>
    show Tracks T lax id (always (copyPair .sp source.pair))
      (always (copyPair .sp (T.index source).pair))
    rw [← T.pair_index]
    exact tracks_always (tracks_copyPair hT .sp source.pair)
  | push source =>
    exact tracks_always (.bind (tracks_readPair hT source) fun w => tracks_push w)
  | pop target =>
    exact tracks_always (.bind tracks_pop fun w => tracks_writePair hT target w)
  | exchangeAccumulator => exact tracks_always (tracks_modifyRegisters fun _ => rfl)
  | exchangeBank => exact tracks_always (tracks_exchangeBank hT (hl rfl))
  | exchangeDeHl => exact tracks_always (tracks_exchangeDeHl hT (hl rfl))
  | exchangeStackTop index =>
    show Tracks T lax id (always (exchangeStackTop index.pair))
      (always (exchangeStackTop (T.index index).pair))
    rw [← T.pair_index]
    exact tracks_always (tracks_exchangeStackTop hT index.pair)
  | operate op operand =>
    refine tracks_always (.bind (tracks_locate hT operand ?_) fun o => ?_)
    · rintro index rfl
      exact hl rfl
    · have hop (h : op = .cp) : KeepsFlagModel T := hf (decide_eq_true h)
      exact .bind (tracks_load (hT.operand o)) fun v => tracks_operate hop v
  | operateImmediate op =>
    have hop (h : op = .cp) : KeepsFlagModel T := hf (decide_eq_true h)
    exact tracks_always (.bind tracks_fetch fun v => tracks_operate hop v)
  | increment operand | decrement operand =>
    refine tracks_always (tracks_stepByte hT (hf rfl) _ operand fun h => hl ?_)
    cases operand <;> exact h
  | decimalAdjust | complement | negate | shiftAccumulator _ =>
    exact tracks_always (tracks_accumulator _)
  | setCarry | flipCarry => exact tracks_always (.bind tracks_flags fun f => tracks_setFlags _)
  | rotateDigitLeft | rotateDigitRight =>
    exact tracks_always (tracks_rotateDigit hT (hl rfl) _)
  | addPair target source => exact tracks_always (tracks_addPair hT target source)
  | addPairCarry source | subPairCarry source =>
    exact tracks_always (tracks_combinePair hT (hl rfl) _ source)
  | incrementPair target | decrementPair target =>
    exact tracks_always (.bind (tracks_readPair hT target) fun w => tracks_writePair hT target _)
  | bits op operand => exact tracks_always (tracks_bits hT hv op operand hl)
  | indexedBits op index displacement copy =>
    exact tracks_always (tracks_indexedBits hT hv op index displacement copy)
  | jump condition => exact tracks_jump condition
  | jumpRelative condition => exact tracks_jumpRelative condition
  | decrementAndJump => exact tracks_decrementAndJump
  | jumpIndex target =>
    show Tracks T lax id (always (copyPair .pc target.pair))
      (always (copyPair .pc (T.index target).pair))
    rw [← T.pair_index]
    exact tracks_always (tracks_copyPair hT .pc target.pair)
  | call condition => exact tracks_call condition
  | ret => exact tracks_always tracks_ret
  | retIf condition => exact tracks_retIf condition
  | retInterrupt => exact tracks_always tracks_retInterrupt
  | restart target => exact tracks_always (tracks_restart target)
  | input => exact tracks_always tracks_inputImmediate
  | output => exact tracks_always tracks_outputImmediate
  | inputTo target => exact tracks_always (tracks_inputTo hT target)
  | outputFrom source => exact tracks_always (tracks_outputFrom hT source)
  | block kind backwards repeats => exact tracks_block hT (hl rfl) kind backwards repeats

/-- With its clock cycles, if both sides are of one timing and `g` relates the two entries of the
table. -/
theorem tracks_complete (hT : T.Faithful) (hf : KeepsFlagModel T) (hv : Admits T lax)
    (ht : ∀ v, (T.variant v).timing = v.timing) {i : Instruction}
    (hl : i.usesHl = true → T.index .hl = .hl) {g : Nat → Nat}
    (hg : ∀ timing taken, (T.instruction i).cycles timing taken = g (i.cycles timing taken)) :
    Tracks T lax g (complete i) (complete (T.instruction i)) := by
  refine .bind (tracks_execute hT hv i (fun _ => hf) hl) fun taken => ?_
  refine .bind tracks_get fun c => ?_
  have h : (T.instruction i).cycles (T.cpu c).variant.timing taken
      = g (i.cycles c.variant.timing taken) := by
    rw [← hg, Translation.cpu, ht]
  show Tracks T lax g (pure (i.cycles c.variant.timing taken))
    (pure ((T.instruction i).cycles (T.cpu c).variant.timing taken))
  rw [h]
  exact .pure g _

end Action

end Z80
