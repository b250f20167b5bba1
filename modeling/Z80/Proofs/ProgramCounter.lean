import Z80.Proofs.Blocks
import Z80.Proofs.Encoding
import Z80.Proofs.IndexedBits

/-!
# The program counter

A step moves the program counter past the instruction, and a transfer of control takes it from
there. What moves it on the way is fetching: `Action.Advances count` says of an action that it
fetches `count` bytes and moves the program counter no other way. The instructions that do are those
that do not transfer control (`Action.advances_execute`); of the others `Instruction.destination`
says where they go.
-/

namespace Z80

variable {α γ δ : Type}

/-! ## Actions that fetch -/

/-- The address of the next byte to fetch. -/
def Cpu.pc (cpu : Cpu) : Word :=
  cpu.regs.pc

/-- Only the program counter itself is out of bounds. -/
theorem keepsPc_allows {worked : Worked} (h : worked ≠ .pc) :
    (Law.keeps Cpu.pc).Allows worked := by
  refine Law.keeps_allows fun change hchange cpu => ?_
  show (change cpu.regs).pc = cpu.regs.pc
  cases worked with
  | pc => exact absurd rfl h
  | a | f | bank | sp => rw [hchange]

instance : (Law.keeps Cpu.pc).Allows .a :=
  keepsPc_allows (by decide)

instance : (Law.keeps Cpu.pc).Allows .f :=
  keepsPc_allows (by decide)

instance : (Law.keeps Cpu.pc).Allows .bank :=
  keepsPc_allows (by decide)

instance : (Law.keeps Cpu.pc).Allows .sp :=
  keepsPc_allows (by decide)

namespace Action

/-- An action that leaves the program counter past `count` bytes if it is done. -/
class Advances (count : outParam Nat) (a : Action α) : Prop where
  leaves : ∀ cpu, (a cpu).Leaves (fun _ => True)
    fun _ c => c.regs.pc = cpu.regs.pc + UInt16.ofNat count

variable {count more : Nat}

/-- The bytes that two actions fetch add up. -/
theorem Advances.bind {a : Action α} {k : α → Action γ} (ha : Advances count a)
    (hk : ∀ x, Advances more (k x)) : Advances (count + more) (a >>= k) := by
  refine ⟨fun cpu => (ha.leaves cpu).bind fun x c hc => ?_⟩
  rw [UInt16.ofNat_add, ← UInt16.add_assoc, ← hc]
  exact (hk x).leaves c

theorem Advances.of_eq {a : Action α} (h : Advances count a) (e : count = more) : Advances more a :=
  e ▸ h

/-! ### Steps -/

instance (a : Action α) (k : α → Action γ) [ha : Advances count a]
    [hk : ∀ x, Advances more (k x)] : Advances (count + more) (a >>= k) :=
  .bind ha hk

instance (q : Prop) [Decidable q] (a b : Action α) [ha : Advances count a] [hb : Advances count b] :
    Advances count (if q then a else b) := by
  split
  · exact ha
  · exact hb

/-- What keeps the program counter fetches nothing. -/
theorem advances_zero {a : Action α} (h : Obeys (.keeps Cpu.pc) a) : Advances 0 a :=
  ⟨fun cpu => (leaves_kept Cpu.pc a cpu).imp (fun _ _ => trivial)
    fun _ _ hc => hc.trans (UInt16.add_zero _).symm⟩

instance (priority := low) (a : Action α) [h : Obeys (.keeps Cpu.pc) a] : Advances 0 a :=
  advances_zero h

instance : Advances 1 fetch :=
  ⟨fun _ => .read trivial fun _ => .done rfl⟩

/-- Every pair but PC can be written with the program counter as it is. -/
theorem pc_writePair {name : Pair} (h : name ≠ .pc) (regs : Registers) (w : Word) :
    (regs.writePair name w).pc = regs.pc := by
  cases name with
  | pc => exact absurd rfl h
  | _ => rfl

theorem keepsPc_writePair {name : Pair} (h : name ≠ .pc) (w : Word) :
    Obeys (.keeps Cpu.pc) (writePair name w) :=
  keeps_modifyRegisters fun cpu => pc_writePair h cpu.regs w

instance (index : Index) (w : Word) : Obeys (.keeps Cpu.pc) (writePair index.pair w) :=
  keepsPc_writePair (by cases index <;> decide) w

instance (name : Register) (x : Byte) : Obeys (.keeps Cpu.pc) (store (.register name) x) := by
  show Obeys (.keeps Cpu.pc) (modifyRegisters fun regs => regs.write name x)
  refine keeps_modifyRegisters fun cpu => ?_
  cases name <;> rfl

instance (operand : Operand) (x : Byte) : Obeys (.keeps Cpu.pc) (store operand x) := by
  cases operand with
  | register name => infer_instance
  | memory address => exact inferInstanceAs (Obeys (.keeps Cpu.pc) (writeByte address x))

/-! ### Words and operands -/

instance : Advances 2 fetchWord := by
  unfold fetchWord
  infer_instance

instance (index : Index) : Advances (Place.indirect index).fetches (indirectAddress index) := by
  unfold indirectAddress
  cases index <;> infer_instance

instance (place : Place) : Advances place.fetches (locate place) := by
  cases place with
  | register name => exact inferInstanceAs (Advances 0 (pure (Operand.register name)))
  | indirect index =>
    exact inferInstanceAs (Advances ((Place.indirect index).fetches + 0)
      (indirectAddress index >>= fun address => pure (Operand.memory address)))

instance (a : Action Unit) [h : Advances count a] : Advances count (always a) :=
  inferInstanceAs (Advances (count + 0) (a >>= fun _ => pure false))

instance : Advances 1 immediatePort := by
  unfold immediatePort
  infer_instance

theorem Advances.always {a : Action Unit} (h : Advances count a) : Advances count (always a) :=
  inferInstance

/-- An operation on the bits of a place fetches what finding the place takes. -/
theorem advances_bits (op : BitOperation) (place : Place) :
    Advances place.fetches (bits op place) := by
  have hbits : Advances (place.fetches + (0 + (0 + 0))) (bits op place) := by
    refine .bind inferInstance fun operand => .bind inferInstance fun x =>
      .bind inferInstance fun result => ?_
    cases result <;> infer_instance
  exact hbits

end Action

/-! ## Instructions that go on to the next one -/

namespace Instruction

/-- Whether an instruction has a pair to set, and that is the program counter. No opcode selects
one. -/
def setsPc : Instruction → Bool
  | .loadPairImmediate target | .loadPair target | .pop target | .incrementPair target
  | .decrementPair target => target = .pc
  | _ => false

/-- Whether an instruction can move the program counter elsewhere than past itself. -/
def transfers : Instruction → Bool
  | .halt | .jump _ | .jumpRelative _ | .decrementAndJump | .jumpIndex _ | .call _ | .ret | .retIf _
  | .retInterrupt | .restart _ | .block _ _ _ => true
  | _ => false

end Instruction

namespace Action

/-- An instruction that transfers no control leaves the program counter past what it fetches. -/
theorem advances_execute {i : Instruction} (ht : i.transfers = false) (hpc : i.setsPc = false) :
    Advances i.fetches (execute i) := by
  cases i with
  | halt | jump | jumpRelative | decrementAndJump | jumpIndex | call | ret | retIf | retInterrupt
  | restart | block => cases ht
  | nop | nothing => exact inferInstanceAs (Advances 0 (pure false))
  | disableInterrupts | enableInterrupts | setMode =>
    exact .always (advances_zero (keeps_modify fun _ => rfl))
  | exchangeAccumulator | exchangeBank =>
    exact .always (advances_zero (keeps_modifyRegisters fun _ => rfl))
  -- These go on by cases on a result or a target, where no instance is looked for.
  | bits op operand => exact .always (advances_bits op operand)
  | indexedBits op index displacement copy =>
    exact .always (advances_zero
      (obeys_indexedBits op index displacement fun _ _ _ => inferInstance))
  | inputTo target => exact .always (advances_zero (obeys_inputTo fun _ _ _ => inferInstance))
  | loadPairImmediate target | loadPair target | pop target | incrementPair target
  | decrementPair target =>
    have := keepsPc_writePair (of_decide_eq_false hpc)
    simp only [execute, movePairImmediate, loadPair]
    exact .of_eq inferInstance rfl
  | _ =>
    simp only [execute, move, moveImmediate, loadAFrom, storeATo, loadSpecial, storePair, loadPair,
      copyPair, exchangeDeHl, exchangeStackTop, inputImmediate, outputImmediate, outputFrom,
      operate, stepByte, accumulator, combinePair, rotateDigit, addPair]
    exact .of_eq inferInstance rfl

end Action

/-! ## Where the others go -/

/-- The address that an instruction goes on at, from the registers and the memory it starts with and
the address after it. -/
def Instruction.destination (regs : Registers) (m : Memory δ) (after : Word) : Instruction → Word
  | .halt => after - 1
  | .jump condition | .call condition =>
    if condition.all (·.holds regs.acc.f) then wordOf (m.byte (after - 1)) (m.byte (after - 2))
    else after
  | .jumpRelative condition =>
    if condition.all (·.holds regs.acc.f) then displaced after (m.byte (after - 1)) else after
  | .decrementAndJump =>
    if regs.bank.b - 1 != 0 then displaced after (m.byte (after - 1)) else after
  | .jumpIndex target => regs.readPair target.pair
  | .ret | .retInterrupt => wordOf (m.byte (regs.sp + 1)) (m.byte regs.sp)
  | .retIf condition =>
    if condition.holds regs.acc.f then wordOf (m.byte (regs.sp + 1)) (m.byte regs.sp) else after
  | .restart _ => (m.byte (after - 1) &&& 0x38).toUInt16
  | .block kind _ repeats => if repeats && kind.more regs m then after - 2 else after
  | _ => after

/-- What the program counter was is not asked. -/
theorem Instruction.destination_pc (i : Instruction) (regs : Registers) (pc : Word) (m : Memory δ)
    (after : Word) : i.destination { regs with pc } m after = i.destination regs m after := by
  cases i with
  | jumpIndex target => cases target <;> rfl
  | block kind => cases kind <;> rfl
  | _ => rfl

/-- An outcome in which a word has been pushed below `top`, which the stack pointer was at. -/
structure Pushed (top w : Word) (out : Outcome (Memory δ) α) : Prop where
  sp : out.cpu.regs.sp = top - 2
  low : out.bus.byte (top - 2) = lowByte w
  high : out.bus.byte (top - 1) = highByte w

/-- Whether an instruction, started with the flags `f`, pushes the address after it. -/
def Instruction.calls (f : Flags) : Instruction → Bool
  | .call condition => condition.all (·.holds f)
  | .restart _ => true
  | _ => false

namespace Action

variable [Device δ] {m : Memory δ} {cpu : Cpu}

/-- In a memory without gaps a word is fetched from the two bytes at the program counter. -/
theorem run_fetchWord_of_full (hm : m.size = addressSpace) (k : Word → Action α) (cpu : Cpu) :
    ((fetchWord >>= k) cpu).run m
      = (k (wordOf (m.byte (cpu.regs.pc + 1)) (m.byte cpu.regs.pc)) (cpu.past 2)).run m := by
  have hword : fetchWord >>= k
      = fetch >>= fun low => fetch >>= fun high => k (wordOf high low) := by
    simp only [fetchWord, bind_assoc, pure_bind]
  have hpast : cpu.past 2 = cpu.pastByte.pastByte := by
    rw [Cpu.past_succ, Cpu.past_succ, Cpu.past_zero]
  rw [hword, run_fetch_of_full hm, run_fetch_of_full hm, hpast]
  rfl

/-- What goes on after a condition goes on with its truth, and asks the bus for nothing. -/
theorem test_bind (condition : Option Condition) (k : Bool → Action α) (cpu : Cpu) :
    (test condition >>= k) cpu = k (condition.all (·.holds cpu.regs.acc.f)) cpu :=
  rfl

/-- CALL and RST push a word and go to an address. -/
theorem run_push_jumpTo (hm : m.size = addressSpace) (w target : Word) (taken : Bool) (cpu : Cpu) :
    let out := ((push w >>= fun _ => jumpTo target >>= fun _ => pure taken) cpu).run m
    out.cpu.regs.pc = target ∧ Pushed cpu.regs.sp w out := by
  have hsp : cpu.regs.sp - 2 = cpu.regs.sp - 1 - 1 := by grind
  have hpush : (push w >>= fun _ => jumpTo target >>= fun _ => pure taken) cpu =
      .write { cpu with regs.sp := cpu.regs.sp - 1 } (cpu.regs.sp - 1) (highByte w)
        (.write { cpu with regs.sp := cpu.regs.sp - 2 } (cpu.regs.sp - 2) (lowByte w)
          (.done taken
            { cpu with regs := { cpu.regs with pc := target, sp := cpu.regs.sp - 2 } })) := by
    rw [hsp]
    rfl
  intro out
  have hout : out = {
      result := .ok taken
      cpu := { cpu with regs := { cpu.regs with pc := target, sp := cpu.regs.sp - 2 } }
      bus := m.pushed cpu.regs.sp w } := by
    show Dialogue.run _ m = _
    rw [hpush, Dialogue.run_push_of_full hm]
    rfl
  rw [hout]
  exact ⟨rfl, rfl, Memory.byte_pushed_low hm _ _, Memory.byte_pushed_high hm _ _⟩

/-- JP ends at its target if the condition holds, and past its three bytes if not. -/
theorem pc_jump (hm : m.size = addressSpace) (condition : Option Condition) (cpu : Cpu) :
    ((execute (.jump condition) cpu).run m).cpu.regs.pc
      = (Instruction.jump condition).destination cpu.regs m (cpu.regs.pc + 2) := by
  have hsecond : cpu.regs.pc + 2 - 1 = cpu.regs.pc + 1 := by grind
  have hfirst : cpu.regs.pc + 2 - 2 = cpu.regs.pc := by grind
  have hjump : execute (.jump condition) = fetchWord >>= fun target =>
      test condition >>= fun taken =>
        if taken then (jumpTo target >>= fun _ => pure taken) else pure taken := rfl
  rw [hjump, run_fetchWord_of_full hm, test_bind, Instruction.destination, hsecond, hfirst]
  generalize htaken : condition.all (·.holds (cpu.past 2).regs.acc.f) = taken
  rw [show condition.all (·.holds cpu.regs.acc.f) = taken from htaken]
  cases taken <;> rfl

/-- A relative jump that is taken counts from the byte after its displacement. -/
theorem pc_jumpBy (hm : m.size = addressSpace) (taken : Bool) (cpu : Cpu) :
    let after := cpu.regs.pc + 1
    ((jumpBy taken cpu).run m).cpu.regs.pc
      = if taken then displaced after (m.byte (after - 1)) else after := by
  intro after
  have hlast : after - 1 = cpu.regs.pc := by grind
  unfold jumpBy
  rw [run_fetch_of_full hm, hlast]
  cases taken <;> rfl

/-- In a memory without gaps RET continues at the word on top of the stack. -/
theorem run_ret_of_full (hm : m.size = addressSpace) (k : Unit → Action α) (cpu : Cpu) :
    ((ret >>= k) cpu).run m = (k ()
      { cpu with
        regs :=
          { cpu.regs with
            pc := wordOf (m.byte (cpu.regs.sp + 1)) (m.byte cpu.regs.sp)
            sp := cpu.regs.sp + 2 } }).run m := by
  have hret : (ret >>= k) cpu = .read cpu cpu.regs.sp fun low =>
      .read cpu (cpu.regs.sp + 1) fun high =>
        k () { cpu with regs := { cpu.regs with pc := wordOf high low, sp := cpu.regs.sp + 2 } } :=
    rfl
  rw [hret, Dialogue.run_read_of_full hm, Dialogue.run_read_of_full hm]

/-- RET with a condition ends at the word on top of the stack if it holds, and past itself if
not. -/
theorem pc_retIf (hm : m.size = addressSpace) (condition : Condition) (cpu : Cpu) :
    ((execute (.retIf condition) cpu).run m).cpu.regs.pc
      = (Instruction.retIf condition).destination cpu.regs m cpu.regs.pc := by
  have hret : execute (.retIf condition) = test (some condition) >>= fun taken =>
      if taken then (ret >>= fun _ => pure taken) else pure taken := rfl
  rw [hret, test_bind, Instruction.destination]
  generalize htaken : (some condition).all (·.holds cpu.regs.acc.f) = taken
  rw [show condition.holds cpu.regs.acc.f = taken from htaken]
  cases taken with
  | false => rfl
  | true =>
    show (((ret >>= fun _ => pure true) cpu).run m).cpu.regs.pc = _
    rw [run_ret_of_full hm]
    rfl

/-- CALL ends at its target if it is taken, with the address after it pushed, and past itself if
not. -/
theorem run_call_of_full (hm : m.size = addressSpace) (condition : Option Condition) (cpu : Cpu) :
    let after := cpu.regs.pc + 2
    let out := (execute (.call condition) cpu).run m
    out.cpu.regs.pc = (Instruction.call condition).destination cpu.regs m after ∧
      (condition.all (·.holds cpu.regs.acc.f) = true → Pushed cpu.regs.sp after out) := by
  intro after out
  have hsecond : after - 1 = cpu.regs.pc + 1 := by grind
  have hfirst : after - 2 = cpu.regs.pc := by grind
  have hout : out = (callAt condition (wordOf (m.byte (after - 1)) (m.byte (after - 2)))
      (cpu.past 2)).run m := by
    rw [hsecond, hfirst, ← run_fetchWord_of_full hm, ← execute_call]
  rw [hout, Instruction.destination]
  cases htaken : condition.all (·.holds (cpu.past 2).regs.acc.f) with
  | false =>
    rw [callAt_of_not_taken htaken, show condition.all (·.holds cpu.regs.acc.f) = false from htaken]
    exact ⟨rfl, nofun⟩
  | true =>
    rw [callAt_of_taken htaken, show condition.all (·.holds cpu.regs.acc.f) = true from htaken]
    obtain ⟨hpc, hpushed⟩ := run_push_jumpTo hm after
      (wordOf (m.byte (after - 1)) (m.byte (after - 2))) true (cpu.past 2)
    exact ⟨hpc, fun _ => hpushed⟩

/-- What goes on after an action that is done goes on from where the action left it. -/
theorem of_run_advances {count : Nat} {a : Action α} (h : Advances count a) {c : Cpu} {x : α}
    {m' : Memory δ} (hrun : (a cpu).run m = { result := .ok x, cpu := c, bus := m' }) :
    c.regs.pc = cpu.regs.pc + UInt16.ofNat count :=
  (h.leaves cpu).of_run_ok hrun

/-- A block instruction ends past itself, or back at itself while there is more to do. -/
theorem pc_block (hm : m.size = addressSpace) (kind : BlockKind) (backwards repeats : Bool)
    (cpu : Cpu) :
    ((execute (.block kind backwards repeats) cpu).run m).cpu.regs.pc
      = if repeats && kind.more cpu.regs m then cpu.regs.pc - 2 else cpu.regs.pc := by
  have hrun := Dialogue.run_of_recorded (run_block kind backwards repeats cpu hm [])
  show ((block kind backwards repeats cpu).run m).cpu.regs.pc = _
  rw [hrun]

omit [Device δ] in
/-- Without a transfer of control the destination is what comes next. -/
theorem destination_of_not_transfers {i : Instruction} (h : i.transfers = false) (regs : Registers)
    (m : Memory δ) (after : Word) : i.destination regs m after = after := by
  cases i with
  | halt | jump | jumpRelative | decrementAndJump | jumpIndex | call | ret | retIf | retInterrupt
  | restart | block => cases h
  | _ => rfl

/-- An instruction that is done has taken the program counter to its destination. -/
theorem pc_execute (hm : m.size = addressSpace) (cpu : Cpu) {i : Instruction}
    (hpc : i.setsPc = false)
    (hrestart : ∀ target, i = .restart target →
      target = (m.byte (cpu.regs.pc - 1) &&& 0x38).toUInt16)
    {c : Cpu} {m' : Memory δ} {taken : Bool}
    (h : (execute i cpu).run m = { result := .ok taken, cpu := c, bus := m' }) :
    c.regs.pc = i.destination cpu.regs m (cpu.regs.pc + UInt16.ofNat i.fetches) := by
  cases ht : i.transfers with
  | false =>
    rw [destination_of_not_transfers ht]
    exact of_run_advances (advances_execute ht hpc) h
  | true =>
    have hc : c.regs.pc = ((execute i cpu).run m).cpu.regs.pc := by rw [h]
    have hzero : cpu.regs.pc + UInt16.ofNat 0 = cpu.regs.pc := UInt16.add_zero _
    rw [hc]
    cases i with
    | halt =>
      show cpu.regs.pc - 1 = cpu.regs.pc + UInt16.ofNat 0 - 1
      rw [hzero]
    | jump condition => exact pc_jump hm condition cpu
    | jumpRelative condition => exact pc_jumpBy hm (condition.all (·.holds cpu.regs.acc.f)) cpu
    | decrementAndJump => exact pc_jumpBy hm _ { cpu with regs.bank.b := cpu.regs.bank.b - 1 }
    | jumpIndex target => rfl
    | call condition => exact (run_call_of_full hm condition cpu).1
    | ret =>
      show (((ret >>= fun _ => pure false) cpu).run m).cpu.regs.pc = _
      rw [run_ret_of_full hm]
      rfl
    | retIf condition =>
      show _ = (Instruction.retIf condition).destination _ _ (cpu.regs.pc + UInt16.ofNat 0)
      rw [hzero]
      exact pc_retIf hm condition cpu
    | retInterrupt =>
      rw [run_retInterrupt_of_full cpu hm]
      rfl
    | restart target =>
      show _ = (m.byte (cpu.regs.pc + UInt16.ofNat 0 - 1) &&& 0x38).toUInt16
      rw [hzero, ← hrestart target rfl]
      exact (run_push_jumpTo hm cpu.regs.pc target false cpu).1
    | block kind backwards repeats =>
      show _ = if repeats && kind.more cpu.regs m then cpu.regs.pc + UInt16.ofNat 0 - 2
        else cpu.regs.pc + UInt16.ofNat 0
      rw [hzero]
      exact pc_block hm kind backwards repeats cpu
    | _ => cases ht

/-- CALL, if it is taken, and RST push the address after them. -/
theorem pushed_execute (hm : m.size = addressSpace) (cpu : Cpu) {i : Instruction}
    (hcalls : i.calls cpu.regs.acc.f = true) :
    Pushed cpu.regs.sp (cpu.regs.pc + UInt16.ofNat i.fetches) ((execute i cpu).run m) := by
  cases i with
  | call condition => exact (run_call_of_full hm condition cpu).2 hcalls
  | restart target =>
    show Pushed cpu.regs.sp (cpu.regs.pc + UInt16.ofNat 0) _
    rw [show cpu.regs.pc + UInt16.ofNat 0 = cpu.regs.pc from UInt16.add_zero _]
    exact (run_push_jumpTo hm cpu.regs.pc target false cpu).2
  | _ => cases hcalls

end Action

/-! ## Steps -/

/-- The address that RST calls. -/
def Instruction.restarts? : Instruction → Option Word
  | .restart target => some target
  | _ => none

namespace Opcode

/-- No opcode names the program counter as the pair that it sets. -/
theorem setsPc_eq_false (opcode : Opcode) : opcode.instruction.setsPc = false := by
  cases opcode with
  | main index byte =>
    revert byte
    cases index <;> exact forall_byte (by decide +kernel)
  | bits byte | indexedBits _ _ byte => rfl
  | extended byte =>
    revert byte
    exact forall_byte (by decide +kernel)

/-- A restart of the main page goes to the address that is in its own byte. -/
theorem restarts?_main (index : Index) (byte : Byte) :
    (mainInstruction index byte).restarts?.all (· == (byte &&& 0x38).toUInt16) = true := by
  revert byte
  cases index <;> exact forall_byte (by decide +kernel)

/-- The extended page has no restart. -/
theorem restarts?_extended (byte : Byte) : (extendedInstruction byte).restarts? = none := by
  revert byte
  exact forall_byte (by decide +kernel)

/-- The address that RST calls is in its one byte. -/
theorem Spelled.restart {m : Memory δ} {address next target : Word} {index : Index}
    {opcode : Opcode} (h : opcode.Spelled m address index next)
    (hi : opcode.instruction = .restart target) :
    target = (m.byte (next - 1) &&& 0x38).toUInt16 := by
  have hlast : address + 1 - 1 = address := by grind
  have htarget : opcode.instruction.restarts? = some target := congrArg _ hi
  have hmain (index : Index)
      (h : (mainInstruction index (m.byte address)).restarts? = some target) :
      target = (m.byte (address + 1 - 1) &&& 0x38).toUInt16 := by
    have hall := restarts?_main index (m.byte address)
    rw [h] at hall
    rw [hlast]
    exact eq_of_beq hall
  cases h with
  | main => exact hmain index htarget
  | ignored => exact hmain .hl htarget
  | bits | indexedBits => cases hi
  | extended =>
    have hnone : (Opcode.extended (m.byte (address + 1))).instruction.restarts? = none :=
      restarts?_extended _
    rw [hnone] at htarget
    cases htarget

end Opcode

namespace Cpu

variable [Device δ] {cpu : Cpu} {m : Memory δ}

/-- The index prefixes at the program counter. -/
def prefixes (cpu : Cpu) (m : Memory δ) : List Byte :=
  Bus.prefixes addressSpace cpu.regs.pc m

/-- The index that they lead to. -/
def index (cpu : Cpu) (m : Memory δ) : Index :=
  Opcode.indexAfter .hl (cpu.prefixes m)

/-- The address after them. -/
def opcodeAddress (cpu : Cpu) (m : Memory δ) : Word :=
  cpu.regs.pc + UInt16.ofNat (cpu.prefixes m).length

/-- The length of the instruction at the program counter. -/
def instructionLength (cpu : Cpu) (m : Memory δ) : Nat :=
  (cpu.prefixes m).length
    + Encoding.length (cpu.index m) (m.byte (cpu.opcodeAddress m))
      (m.byte (cpu.opcodeAddress m + 1))

end Cpu

/-- **A step moves the program counter past the instruction, by its length, or to where it goes.**
Let a step over memory of full size complete. The opcode stands in memory after the index prefixes.
The instruction leaves the program counter at its destination, which is the address after it unless
it transfers control; and that address is what CALL and RST push. -/
theorem step_programCounter [Device δ] {cpu : Cpu} {m : Memory δ} {cycles : Nat}
    (hm : m.size = addressSpace) (h : (cpu.step m).result = .ok cycles) :
    ∃ (opcode : Opcode) (next : Word), opcode.Spelled m (cpu.opcodeAddress m) (cpu.index m) next ∧
      cpu.executed m = some opcode.instruction ∧
      let after := cpu.regs.pc + UInt16.ofNat (cpu.instructionLength m)
      (cpu.step m).cpu.regs.pc = opcode.instruction.destination cpu.regs m after ∧
      (opcode.instruction.calls cpu.regs.acc.f = true → Pushed cpu.regs.sp after (cpu.step m)) := by
  obtain ⟨ignored, opcode, c, bus, taken, hfetch, hexecuted, hexecute⟩ := Cpu.of_step_ok h
  obtain ⟨pc, rfl⟩ := Action.of_run_fetchOpcode hfetch
  have hlook := (Action.untouched Action.fetchOpcode cpu.begin m).bus
  rw [hfetch] at hlook
  obtain rfl : bus = m := hlook
  have hspelled : opcode.Spelled bus (cpu.opcodeAddress bus) (cpu.index bus) pc :=
    Opcode.spelled_of_fetch hm hfetch
  have hafter : pc + UInt16.ofNat opcode.instruction.fetches
      = cpu.regs.pc + UInt16.ofNat (cpu.instructionLength bus) := by
    rw [hspelled.length, Cpu.instructionLength, UInt16.ofNat_add, ← UInt16.add_assoc]
    rfl
  let c : Cpu := { cpu.begin with regs.pc := pc }
  have hpc := Action.pc_execute hm c opcode.setsPc_eq_false (fun _ => hspelled.restart) hexecute
  rw [← hafter]
  refine ⟨opcode, pc, hspelled, hexecuted, ?_, fun hcalls => ?_⟩
  · rw [hpc]
    exact Instruction.destination_pc _ cpu.regs pc bus _
  · have hpushed := Action.pushed_execute hm c hcalls
    rw [hexecute] at hpushed
    exact ⟨hpushed.sp, hpushed.low, hpushed.high⟩

/-- A prefix that is dropped and CALL NZ,1234H, from the end of memory to its beginning. -/
theorem step_programCounter_call :
    let cpu : Cpu :=
      { regs := { pc := 0xFFFE, sp := 0x8000 }, variant := { conformance := .undocumented } }
    let zeroed : Memory LatchedPorts := Memory.zeroed addressSpace {}
    let prefixed := (zeroed.write 0xFFFE 0xFD).2
    let m := (((prefixed.write 0xFFFF 0xC4).2.write 0 0x34).2.write 1 0x12).2
    m.size = addressSpace ∧ (∃ cycles, (cpu.step m).result = .ok cycles) ∧
    cpu.instructionLength m = 4 ∧ (cpu.step m).cpu.regs.pc = 0x1234 ∧
    Pushed 0x8000 2 (cpu.step m) := by
  intro cpu zeroed prefixed m
  have hzeroed : zeroed.size = addressSpace := Array.size_replicate
  have hprefixed : prefixed.size = addressSpace := (Memory.size_write ..).trans hzeroed
  have hopcode : (prefixed.write 0xFFFF 0xC4).2.size = addressSpace :=
    (Memory.size_write ..).trans hprefixed
  have hlow : ((prefixed.write 0xFFFF 0xC4).2.write 0 0x34).2.size = addressSpace :=
    (Memory.size_write ..).trans hopcode
  have hm : m.size = addressSpace := (Memory.size_write ..).trans hlow
  have hbyte (address : Word) : m.byte address
      = if address = 1 then 0x12 else if address = 0 then 0x34 else if address = 0xFFFF then 0xC4
        else if address = 0xFFFE then 0xFD else zeroed.byte address := by
    rw [Memory.byte_write hlow, Memory.byte_write hopcode, Memory.byte_write hprefixed,
      Memory.byte_write hzeroed]
  have hprefixes : cpu.prefixes m = [0xFD] := by
    show Bus.prefixes (65534 + 1 + 1) 0xFFFE m = [0xFD]
    rw [Opcode.prefixes_of_full hm, Opcode.prefixes_of_full hm, hbyte, hbyte]
    rfl
  have haddress : cpu.opcodeAddress m = 0xFFFF := by
    rw [Cpu.opcodeAddress, hprefixes]
    rfl
  have hindex : cpu.index m = .iy := by
    rw [Cpu.index, hprefixes]
    rfl
  have hlength : cpu.instructionLength m = 4 := by
    rw [Cpu.instructionLength, hprefixes, hindex, haddress, hbyte, hbyte]
    decide
  have hfirst : m.byte 0xFFFF = 0xC4 := by
    rw [hbyte]
    rfl
  have hafter : cpu.regs.pc + UInt16.ofNat 4 = 2 := by decide
  have hchain : ∀ i ≤ 0, Opcode.prefixIndex (cpu.ahead m i) ≠ none := by
    intro i hi
    obtain rfl := Nat.le_zero.1 hi
    show Opcode.prefixIndex (m.byte 0xFFFE) ≠ none
    rw [hbyte]
    decide
  have hend : Opcode.prefixIndex (cpu.ahead m 1) = none := by
    show Opcode.prefixIndex (m.byte 0xFFFF) = none
    rw [hfirst]
    rfl
  obtain ⟨⟨cycles, hok⟩, -⟩ := Cpu.step_lastPrefix rfl hm hchain hend
  rw [Cpu.past_zero] at hok
  obtain ⟨opcode, next, hspelled, -, hpc, hpushed⟩ := step_programCounter hm hok
  rw [hindex, haddress] at hspelled
  rw [hlength, hafter] at hpc hpushed
  have hignored : (Opcode.main .hl (m.byte 0xFFFF)).Spelled m 0xFFFF .iy (0xFFFF + 1) := by
    refine .ignored ?_ (by decide) ?_
    · rw [hfirst]
      decide
    · rw [hfirst]
      decide
  rw [(hspelled.unique hignored).1, hfirst] at hpc hpushed
  have htarget : (Instruction.call (some .nz)).destination cpu.regs m 2 = 0x1234 := by
    show wordOf (m.byte 1) (m.byte 0) = 0x1234
    rw [hbyte, hbyte]
    rfl
  exact ⟨hm, ⟨cycles, hok⟩, hlength, hpc.trans htarget, hpushed rfl⟩

end Z80
