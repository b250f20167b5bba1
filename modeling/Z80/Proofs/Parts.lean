import Z80.Proofs.Control

/-!
# The parts of the register file

The accumulator, the general registers and the program counter are what instructions work with. The
other parts of the register file are set by few of them: `Instruction.parts` lists which, and an
instruction that is done has left every other part alone (`execute_keepsPart`). It is written down
operand by operand: a register or pair that an opcode names stands for the part that it belongs to,
so that half of an index register stands for the whole.
-/

namespace Z80

/-- The parts of the register file that are not there to be worked with. -/
inductive Part
  | accShadow | bankShadow | i | r | ix | iy | sp
deriving DecidableEq

/-- The register file with one part of `regs`, and nothing in the others. -/
def Part.of (part : Part) (regs : Registers) : Registers :=
  match part with
  | .accShadow => { accShadow := regs.accShadow }
  | .bankShadow => { bankShadow := regs.bankShadow }
  | .i => { i := regs.i }
  | .r => { r := regs.r }
  | .ix => { ix := regs.ix }
  | .iy => { iy := regs.iy }
  | .sp => { sp := regs.sp }

/-- The part that a byte register belongs to. -/
def Register.part? : Register → Option Part
  | .i => some .i
  | .r => some .r
  | .ixh | .ixl => some .ix
  | .iyh | .iyl => some .iy
  | _ => none

/-- The part that a pair is. -/
def Pair.part? : Pair → Option Part
  | .ix => some .ix
  | .iy => some .iy
  | .sp => some .sp
  | _ => none

/-- The part that an operand belongs to, as the opcode names it. -/
def Place.part? : Place → Option Part
  | .register name => name.part?
  | .indirect _ => none

/-- The parts that an instruction may set, started with the flags `f`: a conditional call or return
moves the stack pointer only if it is taken. -/
def Instruction.parts (f : Flags) : Instruction → List Part
  | .load target _ | .loadImmediate target | .increment target | .decrement target
  | .bits _ target => target.part?.toList
  | .storeSpecial target => target.part?.toList
  | .indexedBits _ _ _ target | .inputTo target => (target.bind Register.part?).toList
  | .loadPairImmediate target | .loadPair target | .incrementPair target
  | .decrementPair target => target.part?.toList
  | .loadIndex target | .exchangeStackTop target | .addPair target _ => target.pair.part?.toList
  | .loadStackPointer _ | .push _ | .ret | .retInterrupt | .restart _ => [.sp]
  | .pop target => .sp :: target.part?.toList
  | .call condition => if condition.all (·.holds f) then [.sp] else []
  | .retIf condition => if condition.holds f then [.sp] else []
  | .exchangeAccumulator => [.accShadow]
  | .exchangeBank => [.bankShadow]
  | _ => []

namespace Registers

variable {part : Part}

/-- Writing a register leaves every part that it does not belong to. -/
theorem part_write {name : Register} (h : name.part? ≠ some part) (regs : Registers) (v : Byte) :
    part.of (regs.write name v) = part.of regs := by
  cases name <;> cases part <;> first | rfl | exact absurd rfl h

/-- Writing a pair leaves every part that it does not belong to. -/
theorem part_writePair {name : Pair} (h : name.part? ≠ some part) (regs : Registers) (w : Word) :
    part.of (regs.writePair name w) = part.of regs := by
  cases name <;> cases part <;> first | rfl | exact absurd rfl h

end Registers

/-- A part of the register file of a processor. -/
def Cpu.part (part : Part) (cpu : Cpu) : Registers :=
  part.of cpu.regs

/-- The law of what leaves a part of the register file alone. -/
abbrev Law.keepsPart (part : Part) : Law :=
  .keeps (Cpu.part part)

variable {part : Part}

/-- The registers to work with are in no part, but for the stack pointer. -/
theorem Law.keepsPart_allows {worked : Worked} (h : worked = .sp → part ≠ .sp) :
    (Law.keepsPart part).Allows worked := by
  refine keeps_allows fun change hchange cpu => ?_
  show part.of (change cpu.regs) = part.of cpu.regs
  cases worked with
  | sp =>
    rw [hchange]
    cases part <;> first | rfl | exact absurd rfl (h rfl)
  | a | f | bank | pc =>
    rw [hchange]
    cases part <;> rfl

instance : (Law.keepsPart part).Allows .a :=
  Law.keepsPart_allows nofun

instance : (Law.keepsPart part).Allows .f :=
  Law.keepsPart_allows nofun

instance : (Law.keepsPart part).Allows .bank :=
  Law.keepsPart_allows nofun

instance : (Law.keepsPart part).Allows .pc :=
  Law.keepsPart_allows nofun

namespace Action

/-- A pair that belongs to other parts can be written. -/
theorem keepsPart_writePair {name : Pair} (h : name.part? ≠ some part) (w : Word) :
    Obeys (.keepsPart part) (writePair name w) :=
  keeps_modifyRegisters fun cpu => cpu.regs.part_writePair h w

/-- A register that belongs to other parts can be stored to. -/
theorem keepsPart_store {name : Register} (h : name.part? ≠ some part) (x : Byte) :
    Obeys (.keepsPart part) (store (.register name) x) := by
  show Obeys (.keepsPart part) (modifyRegisters fun regs => regs.write name x)
  exact keeps_modifyRegisters fun cpu => cpu.regs.part_write h x

/-- A place that belongs to other parts can be stored to. -/
theorem keepsPart_storeTo {place : Place} (h : place.part? ≠ some part) (name : Register)
    (e : place = .register name) (x : Byte) : Obeys (.keepsPart part) (store (.register name) x) :=
  keepsPart_store (fun hname => h (e ▸ hname)) x

theorem keepsPart_storeCopy {copy : Option Register} (h : copy.bind Register.part? ≠ some part)
    (name : Register) (e : copy = some name) (x : Byte) :
    Obeys (.keepsPart part) (store (.register name) x) :=
  keepsPart_store (fun hname => h (e ▸ hname)) x

theorem ne_of_notMem_toList {set : Option Part} (h : part ∉ set.toList) : set ≠ some part :=
  fun e => h (Option.mem_toList.2 e)

/-- An instruction without a condition leaves alone the parts it does not set. -/
theorem keepsPart_execute {i : Instruction} {f : Flags} (h : part ∉ i.parts f)
    (hcall : ∀ condition, i ≠ .call condition) (hret : ∀ condition, i ≠ .retIf condition) :
    Obeys (.keepsPart part) (execute i) := by
  have hstack (hsp : part ≠ .sp) : (Law.keepsPart part).Allows .sp :=
    Law.keepsPart_allows fun _ => hsp
  cases i with
  | call condition => exact absurd rfl (hcall condition)
  | retIf condition => exact absurd rfl (hret condition)
  | nop | nothing => exact inferInstanceAs (Obeys (.keepsPart part) (pure false))
  | halt => exact .always (obeys_halt (keeps_modify fun _ => rfl))
  | disableInterrupts | enableInterrupts | setMode => exact .always (keeps_modify fun _ => rfl)
  | load target source =>
    exact .always (obeys_move source (keepsPart_storeTo (ne_of_notMem_toList h)))
  | storeSpecial target =>
    exact .always (obeys_move (.register .a) (keepsPart_storeTo (ne_of_notMem_toList h)))
  | loadImmediate target =>
    exact .always (obeys_moveImmediate (keepsPart_storeTo (ne_of_notMem_toList h)))
  | increment operand | decrement operand =>
    exact .always (obeys_stepByte _ (keepsPart_storeTo (ne_of_notMem_toList h)))
  | bits op operand =>
    exact .always (obeys_bits op (keepsPart_storeTo (ne_of_notMem_toList h)))
  | indexedBits op index displacement copy =>
    exact .always (obeys_indexedBits op index displacement
      (keepsPart_storeCopy (ne_of_notMem_toList h)))
  | inputTo target =>
    exact .always (obeys_inputTo (keepsPart_storeCopy (ne_of_notMem_toList h)))
  | loadPairImmediate target | loadPair target | incrementPair target | decrementPair target
  | loadIndex target | exchangeStackTop target | addPair target source =>
    have := keepsPart_writePair (ne_of_notMem_toList h)
    simp only [execute, movePairImmediate, loadPair, exchangeStackTop, addPair]
    infer_instance
  | loadStackPointer source =>
    have := hstack fun e => h (List.mem_singleton.2 e)
    simp only [execute, copyPair]
    infer_instance
  | push source | ret | restart target =>
    have := hstack (List.ne_of_not_mem_cons h)
    exact .always inferInstance
  | retInterrupt =>
    have := hstack (List.ne_of_not_mem_cons h)
    exact .always (.bind inferInstance fun _ => keeps_modify fun _ => rfl)
  | pop target =>
    have := hstack (List.ne_of_not_mem_cons h)
    have := keepsPart_writePair (ne_of_notMem_toList (List.not_mem_of_not_mem_cons h))
    exact .always inferInstance
  | exchangeAccumulator | exchangeBank =>
    refine .always (keeps_modifyRegisters fun cpu => ?_)
    cases part <;> first | rfl | exact absurd (List.mem_singleton_self _) h
  | _ =>
    simp only [execute, storeATo, loadSpecial, storePair, exchangeDeHl, inputImmediate,
      outputImmediate, outputFrom, combinePair, rotateDigit, copyPair]
    infer_instance

/-- **An instruction that is done has left alone the parts it does not set**, from the flags it
started with. -/
theorem execute_keepsPart {i : Instruction} {cpu : Cpu} (h : part ∉ i.parts cpu.regs.acc.f) :
    (execute i cpu).Leaves (fun _ => True) fun _ c => part.of c.regs = part.of cpu.regs := by
  have hkept {a : Action Bool} (ha : Obeys (.keepsPart part) a) :
      (a cpu).Leaves (fun _ => True) fun _ c => part.of c.regs = part.of cpu.regs :=
    (leaves_kept (Cpu.part part) a cpu).imp (fun _ _ => trivial) fun _ _ hc => hc
  have hstack (hsp : part ≠ .sp) : (Law.keepsPart part).Allows .sp :=
    Law.keepsPart_allows fun _ => hsp
  -- What a conditional call or return may set depends on the flags; the others keep a part always.
  cases i with
  | call condition =>
    cases htaken : condition.all (·.holds cpu.regs.acc.f) with
    | true =>
      have hparts : (Instruction.call condition).parts cpu.regs.acc.f = [.sp] := if_pos htaken
      have := hstack (List.ne_of_not_mem_cons (hparts ▸ h))
      exact hkept (inferInstanceAs (Obeys _ (call condition)))
    | false =>
      -- Only the address is fetched, which moves no flag.
      rw [execute_call]
      refine .read trivial fun low => .read trivial fun high => ?_
      have hpast : condition.all (·.holds cpu.pastByte.pastByte.regs.acc.f) = false := htaken
      show (callAt condition (wordOf high low) cpu.pastByte.pastByte).Leaves _ _
      rw [callAt_of_not_taken hpast]
      refine .done ?_
      cases part <;> rfl
  | retIf condition =>
    cases htaken : condition.holds cpu.regs.acc.f with
    | true =>
      have hparts : (Instruction.retIf condition).parts cpu.regs.acc.f = [.sp] := if_pos htaken
      have := hstack (List.ne_of_not_mem_cons (hparts ▸ h))
      exact hkept (inferInstanceAs (Obeys _ (retIf condition)))
    | false =>
      have hdone : execute (.retIf condition) cpu = .done false cpu := by
        show (if condition.holds cpu.regs.acc.f = true then _
          else pure (condition.holds cpu.regs.acc.f) : Action Bool) cpu = _
        rw [htaken]
        rfl
      rw [hdone]
      exact .done rfl
  | _ => exact hkept (keepsPart_execute h nofun nofun)

end Action

end Z80
