import Z80.Proofs.Sparing
import Z80.Proofs.Totality

/-!
# What an instruction that breaks off has done

An instruction that a memory breaks off has in most cases done nothing. The exceptions are few, and
`Damage` lists what they leave behind: DJNZ has counted, PUSH, CALL and RST have moved the stack
pointer and may have written one byte, a store of a word may have written one byte, and INI and its
kin have taken a byte from a port. An instruction that is refused has done nothing at all.
-/

namespace Z80

variable {α γ δ : Type}

/-! ## The exceptions -/

/-- The processor with the stack pointer at `sp`. -/
def Cpu.withSp (cpu : Cpu) (sp : Word) : Cpu :=
  { cpu with regs.sp := sp }

variable [Device δ]

namespace Instruction

/-- Whether an instruction comes to push a word, on a processor that has read its opcode: PUSH and
RST do, and CALL does if its condition holds, once it has fetched its address. -/
def Pushes (cpu : Cpu) (m : Memory δ) : Instruction → Prop
  | .push _ | .restart _ => True
  | .call condition =>
    condition.all (·.holds cpu.regs.acc.f) = true ∧
      ((Action.fetchWord cpu).run m).result.isOk = true
  | _ => False

/-- The stores of a word, LD (nn),rr. -/
def storesWord : Instruction → Bool
  | .storePair _ | .storeIndex _ => true
  | _ => false

/-- INI, IND and their repeating forms. -/
def isBlockInput : Instruction → Bool
  | .block .input _ _ => true
  | _ => false

end Instruction

/-- What there is to see when something has broken off that started on `cpu` over the memory `m`:
what may have changed, given whether it `counts` down B, comes to push a word (`pushes`), `stores` a
word or `takes` a byte from a port. -/
structure Damage (counts pushes stores takes : Prop) (cpu : Cpu) (m : Memory δ) (c : Cpu)
    (m' : Memory δ) : Prop where
  /-- Only the program counter, the stack pointer and B may differ. -/
  rest : c =
    { cpu with
      regs := { cpu.regs with pc := c.regs.pc, sp := c.regs.sp, bank.b := c.regs.bank.b } }
  counted : c.regs.bank.b = cpu.regs.bank.b ∨ counts ∧ c.regs.bank.b = cpu.regs.bank.b - 1
  pushed : pushes → c.regs.sp = cpu.regs.sp - 1 ∨ c.regs.sp = cpu.regs.sp - 2
  unpushed : ¬ pushes → c.regs.sp = cpu.regs.sp
  /-- At most one byte has been written. -/
  bytes : m'.bytes = m.bytes ∨
    (pushes ∨ stores) ∧ ∃ address v, m'.bytes = (m.write address v).2.bytes
  /-- Nothing has been sent to a port. -/
  device : m'.device = m.device ∨ takes ∧ m'.device = (Device.input m.device cpu.regs.bc).2

/-- The damage of the instruction `i`, started on a processor that has read its opcode. -/
abbrev Harm (i : Instruction) (cpu : Cpu) (m : Memory δ) (c : Cpu) (m' : Memory δ) : Prop :=
  Damage (i = .decrementAndJump) (i.Pushes cpu m) (i.storesWord = true) (i.isBlockInput = true)
    cpu m c m'

namespace Action

variable {cpu : Cpu} {m : Memory δ} {fault : Fault}

/-- If an action that goes on breaks off, it does so in its first part or in the rest. -/
theorem of_run_bind_error {β : Type} [Bus β] {a : Action α} {k : α → Action γ} {bus : β}
    (h : (((a >>= k) cpu).run bus).result = .error fault) :
    (((a cpu).run bus).result = .error fault ∧
      (((a >>= k) cpu).run bus).cpu = ((a cpu).run bus).cpu ∧
      (((a >>= k) cpu).run bus).bus = ((a cpu).run bus).bus) ∨
    ∃ x c bus', (a cpu).run bus = { result := .ok x, cpu := c, bus := bus' } ∧
      ((a >>= k) cpu).run bus = (k x c).run bus' ∧
      ((k x c).run bus').result = .error fault := by
  rw [run_bind] at h ⊢
  rcases hfirst : (a cpu).run bus with ⟨fault' | x, c, bus'⟩
  · rw [hfirst] at h
    obtain rfl : fault' = fault := Except.error.inj h
    exact .inl ⟨rfl, rfl, rfl⟩
  · rw [hfirst] at h
    exact .inr ⟨x, c, bus', rfl, rfl, h⟩

/-- PUSH moves the stack pointer before each of its two writes, the upper byte first. -/
theorem push_eq (w : Word) (cpu : Cpu) :
    push w cpu =
      .write (cpu.withSp (cpu.regs.sp - 1)) (cpu.regs.sp - 1) (highByte w)
        (.write (cpu.withSp (cpu.regs.sp - 2)) (cpu.regs.sp - 2) (lowByte w)
          (.done () (cpu.withSp (cpu.regs.sp - 2)))) := by
  have hsp : cpu.regs.sp - 2 = cpu.regs.sp - 1 - 1 := by grind
  rw [hsp]
  rfl

/-- A word is written in two accesses, the lower byte first. -/
theorem writeWord_eq (address w : Word) (cpu : Cpu) :
    writeWord address w cpu =
      .write cpu address (lowByte w) (.write cpu (address + 1) (highByte w) (.done () cpu)) :=
  rfl

/-- What writes two bytes and then cannot fail breaks off at the first or at the second. -/
theorem of_run_two_writes_error {a : Action Unit} {k : Unit → Action α}
    [∀ x, Obeys (.succeeds fun _ => True) (k x)] {c c' : Cpu} {address address' : Word}
    {v v' : Byte}
    (ha : a cpu = .write c address v (.write c' address' v' (.done () c')))
    (h : (((a >>= k) cpu).run m).result = .error fault) :
    (((a >>= k) cpu).run m).cpu = c ∧ (((a >>= k) cpu).run m).bus = m ∨
    (((a >>= k) cpu).run m).cpu = c' ∧ (((a >>= k) cpu).run m).bus = (m.write address v).2 := by
  rcases of_run_bind_error h with ⟨hwrite, hcpu, hbus⟩ | ⟨x, c, m', -, -, hrest⟩
  · rw [hcpu, hbus]
    rw [ha, Dialogue.run_write_memory] at hwrite ⊢
    by_cases hfirst : address.toNat < m.size
    · rw [if_pos hfirst, Dialogue.run_write_memory] at hwrite ⊢
      split at hwrite
      · cases hwrite
      · next hsecond =>
        rw [if_neg hsecond]
        exact .inr ⟨rfl, rfl⟩
    · rw [if_neg hfirst]
      exact .inl ⟨rfl, rfl⟩
  · have hok := isOk_run (p := fun _ => True) (k x) c (m := m') trivial
    rw [hrest] at hok
    cases hok

end Action

/-! ## Every instruction -/

omit [Device δ] in
/-- Writing memory leaves the device. -/
theorem Memory.device_write (m : Memory δ) (address : Word) (v : Byte) :
    (m.write address v).2.device = m.device := by
  unfold write
  split <;> rfl

/-- What pushes a word is among the instructions that leave a mark. -/
theorem Instruction.leavesMark_of_pushes {i : Instruction} {cpu : Cpu} {m : Memory δ}
    (h : i.Pushes cpu m) : i.leavesMark = true := by
  cases i with
  | push | restart | call => rfl
  | _ => exact h.elim

namespace Damage

variable {counts pushes stores takes : Prop} {cpu c d : Cpu} {m m' : Memory δ}

/-- Looking does none, where there is nothing to push. -/
theorem of_fetched (h : cpu.Fetched m c) (hp : ¬ pushes) :
    Damage counts pushes stores takes cpu m c m := by
  obtain ⟨count, rfl, -⟩ := h
  exact ⟨rfl, .inl rfl, fun h => absurd h hp, fun _ => rfl, .inl rfl, .inl rfl⟩

/-- Bytes that have been fetched before do not matter. -/
theorem after_fetched (h : cpu.Fetched m c) (hd : Damage counts pushes stores takes c m d m') :
    Damage counts pushes stores takes cpu m d m' := by
  obtain ⟨count, rfl, -⟩ := h
  exact ⟨hd.rest, hd.counted, hd.pushed, hd.unpushed, hd.bytes, hd.device⟩

/-- DJNZ may have counted B down before it breaks off. -/
theorem of_counted (hi : counts) (hp : ¬ pushes)
    (h : ({ cpu with regs.bank.b := cpu.regs.bank.b - 1 } : Cpu).Fetched m c) :
    Damage counts pushes stores takes cpu m c m := by
  obtain ⟨count, rfl, -⟩ := h
  exact ⟨rfl, .inr ⟨hi, rfl⟩, fun h => absurd h hp, fun _ => rfl, .inl rfl, .inl rfl⟩

/-- A push breaks off at its first byte, or at its second with the first one written. -/
theorem of_pushed {v : Byte} (hi : pushes)
    (h : c = cpu.withSp (cpu.regs.sp - 1) ∧ m' = m ∨
      c = cpu.withSp (cpu.regs.sp - 2) ∧ m' = (m.write (cpu.regs.sp - 1) v).2) :
    Damage counts pushes stores takes cpu m c m' := by
  rcases h with ⟨rfl, rfl⟩ | ⟨rfl, rfl⟩
  · exact ⟨rfl, .inl rfl, fun _ => .inl rfl, fun h => absurd hi h, .inl rfl, .inl rfl⟩
  · exact ⟨rfl, .inl rfl, fun _ => .inr rfl, fun h => absurd hi h,
      .inr ⟨.inl hi, cpu.regs.sp - 1, v, rfl⟩, .inl (Memory.device_write m _ v)⟩

/-- The store of a word breaks off at its first byte, or at its second with the first one
written. -/
theorem of_stored {address : Word} {v : Byte} (hi : stores) (hp : ¬ pushes)
    (h : c = cpu ∧ m' = m ∨ c = cpu ∧ m' = (m.write address v).2) :
    Damage counts pushes stores takes cpu m c m' := by
  rcases h with ⟨rfl, rfl⟩ | ⟨rfl, rfl⟩
  · exact of_fetched (.refl c m') hp
  · exact ⟨rfl, .inl rfl, fun h => absurd h hp, fun _ => rfl, .inr ⟨.inr hi, address, v, rfl⟩,
      .inl (Memory.device_write m address v)⟩

/-- A block input may have taken its byte from the port before it breaks off. -/
theorem of_taken (hi : takes) (hp : ¬ pushes) (hc : cpu.Fetched m c)
    (h : m' = { m with device := (Device.input m.device cpu.regs.bc).2 }) :
    Damage counts pushes stores takes cpu m c m' := by
  obtain ⟨count, rfl, -⟩ := hc
  subst h
  exact ⟨rfl, .inl rfl, fun h => absurd h hp, fun _ => rfl, .inl rfl, .inr ⟨hi, rfl⟩⟩

end Damage

/-- An outcome that, if it is a failure, is the harm of an instruction. -/
def Outcome.Harmed (i : Instruction) (cpu : Cpu) (m : Memory δ) (out : Outcome (Memory δ) α) :
    Prop :=
  ∀ fault, out.result = .error fault → Harm i cpu m out.cpu out.bus

namespace Action

variable {i : Instruction} {cpu : Cpu} {m : Memory δ}

/-- What pushes a word and then cannot fail does the harm of a push. -/
theorem push_harmed {w : Word} {k : Unit → Action α} [∀ x, Obeys (.succeeds fun _ => True) (k x)]
    {d : Cpu} (hi : i.Pushes cpu m) (hd : cpu.Fetched m d) :
    (((push w >>= k) d).run m).Harmed i cpu m :=
  fun _ h => .after_fetched hd (.of_pushed hi (of_run_two_writes_error (push_eq w d) h))

/-- DJNZ counts before it fetches its displacement, where it can break off. -/
theorem decrementAndJump_harmed :
    ((execute .decrementAndJump cpu).run m).Harmed .decrementAndJump cpu m := by
  intro fault h
  have heq : execute .decrementAndJump cpu = jumpBy (cpu.regs.bank.b - 1 != 0)
      { cpu with regs.bank.b := cpu.regs.bank.b - 1 } := rfl
  have hspares : Obeys (.spares fun _ => True) (jumpBy (cpu.regs.bank.b - 1 != 0)) := by
    unfold jumpBy
    infer_instance
  rw [heq] at h ⊢
  have huntouched := untouched_of_error _ h
  rw [huntouched.bus]
  exact .of_counted rfl id huntouched.cpu

/-- CALL breaks off while it fetches its target, with nothing done, or while it pushes. -/
theorem call_harmed (condition : Option Condition) :
    ((execute (.call condition) cpu).run m).Harmed (.call condition) cpu m := by
  intro fault h
  have hlook := untouched fetchWord cpu m
  rw [execute_call] at h ⊢
  rcases of_run_bind_error h with ⟨hfetch, hcpu, hbus⟩ | ⟨target, c, m', hfetch, hrun, hrest⟩
  · -- Without an address the call does not come to its push.
    rw [hcpu, hbus, hlook.bus]
    refine .of_fetched hlook.cpu fun hp => ?_
    have hok := hp.2
    rw [hfetch] at hok
    cases hok
  · rw [hfetch] at hlook
    obtain rfl : m' = m := hlook.bus
    have hc : cpu.Fetched m' c := hlook.cpu
    rw [hrun]
    cases htaken : condition.all (·.holds c.regs.acc.f) with
    | false =>
      rw [callAt_of_not_taken htaken] at hrest
      cases hrest
    | true =>
      have hflags : c.regs.acc.f = cpu.regs.acc.f := by rw [hc.eq]
      have hpushes : (Instruction.call condition).Pushes cpu m' := by
        refine ⟨hflags ▸ htaken, ?_⟩
        rw [hfetch]
        rfl
      rw [callAt_of_taken htaken] at hrest ⊢
      exact push_harmed hpushes hc fault hrest

/-- LD (nn),rr breaks off while it fetches its address, with nothing done, or while it stores. -/
theorem storePair_harmed (hi : i.storesWord = true) (source : Pair) :
    ((always (storePair source) cpu).run m).Harmed i cpu m := by
  intro fault h
  have hpushes : ¬ i.Pushes cpu m := by
    cases i with
    | storePair | storeIndex => exact id
    | _ => cases hi
  have hlook := untouched fetchWord cpu m
  have heq : always (storePair source) = fetchWord >>= fun address =>
      readPair source >>= fun w => writeWord address w >>= fun _ => pure false := by
    simp only [always, storePair, bind_assoc]
  rw [heq] at h ⊢
  rcases of_run_bind_error h with ⟨-, hcpu, hbus⟩ | ⟨address, c, m', hfetch, hrun, hrest⟩
  · rw [hcpu, hbus, hlook.bus]
    exact .of_fetched hlook.cpu hpushes
  · rw [hfetch] at hlook
    obtain rfl : m' = m := hlook.bus
    let w := c.regs.readPair source
    have hwrite : (((writeWord address w >>= fun _ => pure false) c).run m').result
        = .error fault := hrest
    have hbroken := of_run_two_writes_error (writeWord_eq address w c) hwrite
    rw [hrun]
    exact .after_fetched hlook.cpu (.of_stored hi hpushes hbroken)

/-- What INI and IND do with the byte that they have taken from a port. -/
def storeInput (backwards repeats : Bool) (address : Word) (v : Byte) : Action Bool := do
  writeByte address v
  advancePair backwards .hl
  let more ← countDownB
  if repeats && more then
    modifyRegisters fun regs => { regs with pc := regs.pc - 2 }
  return repeats && more

theorem blockInput_eq (backwards repeats : Bool) :
    execute (.block .input backwards repeats) = registers >>= fun regs =>
      inputByte regs.bc >>= storeInput backwards repeats regs.hl := by
  simp only [execute, block, blockPass, blockInput, bind_assoc]
  rfl

/-- INI and IND, and their repeating forms, break off only where the byte cannot be stored. -/
theorem blockInput_harmed (backwards repeats : Bool) :
    ((execute (.block .input backwards repeats) cpu).run m).Harmed
      (.block .input backwards repeats) cpu m := by
  intro fault h
  -- The port answers, and then the byte is written before anything else changes.
  let taken := Device.input m.device cpu.regs.bc
  let m' : Memory δ := { m with device := taken.2 }
  have hrun : (execute (.block .input backwards repeats) cpu).run m
      = (storeInput backwards repeats cpu.regs.hl taken.1 cpu).run m' := by
    rw [blockInput_eq]
    rfl
  have hspares : Obeys (.spares fun _ => True)
      (storeInput backwards repeats cpu.regs.hl taken.1) := by
    unfold storeInput
    infer_instance
  rw [hrun] at h ⊢
  have huntouched := untouched_of_error _ h
  exact .of_taken rfl id huntouched.cpu huntouched.bus

/-- **An instruction that breaks off does no more than its harm.** -/
theorem execute_harmed (i : Instruction) : ((execute i cpu).run m).Harmed i cpu m := by
  cases hi : i.leavesMark with
  | false =>
    intro fault h
    have hspares : Obeys (.spares fun _ => True) (execute i) := spares_execute i hi
    have huntouched := untouched_of_error _ h
    rw [huntouched.bus]
    refine .of_fetched huntouched.cpu fun hp => ?_
    rw [Instruction.leavesMark_of_pushes hp] at hi
    cases hi
  | true =>
    cases i with
    | decrementAndJump => exact decrementAndJump_harmed
    | push source =>
      have heq : execute (.push source) cpu
          = (push (cpu.regs.readPair source) >>= fun _ => pure false) cpu := rfl
      rw [heq]
      exact push_harmed trivial (.refl cpu m)
    | restart target =>
      have heq : execute (.restart target) cpu
          = (push cpu.regs.pc >>= fun _ => always (jumpTo target)) cpu :=
        congrFun (bind_assoc (push cpu.regs.pc) (fun _ => jumpTo target) fun _ => pure false) cpu
      rw [heq]
      exact push_harmed trivial (.refl cpu m)
    | call condition => exact call_harmed condition
    | storePair source => exact storePair_harmed rfl source
    | storeIndex source => exact storePair_harmed rfl source.pair
    | block kind backwards repeats =>
      cases kind with
      | input => exact blockInput_harmed backwards repeats
      | load | compare | output => cases hi
    | _ => cases hi

end Action

/-! ## Every step -/

namespace Instruction

/-- What leaves a mark is no shift that moves a one in. -/
theorem bitOperation_of_leavesMark {i : Instruction} (h : i.leavesMark = true) :
    i.bitOperation? = none := by
  cases i with
  | bits | indexedBits => cases h
  | _ => rfl

end Instruction

omit [Device δ] in
/-- What is only finished and attributed breaks off where it did before. -/
theorem Outcome.of_finished_error {out : Outcome (Memory δ) α} {f : α → Cpu → γ} {pc : Word}
    {fault : Fault} (h : ((out.bind fun x c m =>
      { result := .ok (f x c), cpu := c, bus := m }).blame pc).result = .error fault) :
    ∃ cause, out = { result := .error cause, cpu := out.cpu, bus := out.bus } ∧
      fault = cause.blame pc := by
  obtain ⟨cause | x, c, bus⟩ := out
  · exact ⟨cause, rfl, (Except.error.inj h).symm⟩
  · cases h

namespace Cpu

variable {cpu : Cpu} {m : Memory δ}

/-- **A step that refuses its opcode has only looked.** -/
theorem step_untouched_of_invalidOpcode {pc : Word} {bytes : List Byte}
    (h : (cpu.step m).result = .error (.invalidOpcode pc bytes)) :
    (cpu.step m).Untouched cpu.begin m := by
  rcases step_over_memory cpu m with ⟨_, -, -, -, huntouched⟩ | ⟨i, c, -, hc, -, cycles, hstep⟩
  · exact huntouched
  · rw [hstep] at h
    obtain ⟨cause, hout, hcause⟩ := Outcome.of_finished_error h
    have hfault : ((Action.execute i c).run m).result = .error cause := congrArg Outcome.result hout
    cases hi : i.leavesMark with
    | false =>
      have hspares : Action.Obeys (.spares fun _ => True) (Action.execute i) :=
        Action.spares_execute i hi
      have huntouched := Action.untouched_of_error _ hfault
      rw [hstep, hout]
      exact ⟨hc.trans huntouched.cpu, huntouched.bus⟩
    | true =>
      -- What leaves a mark is broken off by memory alone.
      have hcompletes : Action.Obeys (.completes c.variant) (Action.execute i) :=
        Action.completes_execute i fun hsll => by
          rw [Instruction.bitOperation_of_leavesMark hi] at hsll
          cases hsll
      have hends := (hcompletes.obeys c rfl).run_ends m
      rw [Outcome.Ends, hfault] at hends
      obtain ⟨address, -, rfl⟩ := hends
      cases hcause

end Cpu

/-- **What a step has done that breaks off.** Broken off by memory it has left the marks of the
instruction it came to. If the opcode is refused, there are none but on the program counter. -/
theorem step_harm (cpu : Cpu) (m : Memory δ) :
    let out := cpu.step m
    (∀ pc address size, out.result = .error (.outOfRange pc address size) →
      Damage (cpu.Selects m fun i _ => i = .decrementAndJump)
        (cpu.Selects m fun i c => i.Pushes c m)
        (cpu.Selects m fun i _ => i.storesWord = true)
        (cpu.Selects m fun i _ => i.isBlockInput = true) cpu.begin m out.cpu out.bus) ∧
    ∀ pc bytes, out.result = .error (.invalidOpcode pc bytes) →
      out.cpu = { cpu.begin with regs.pc := out.cpu.regs.pc } ∧ out.bus = m := by
  intro out
  refine ⟨fun pc address size h => ?_, fun pc bytes h => ?_⟩
  · rcases cpu.step_over_memory m with
      ⟨_, -, hreads, -, huntouched⟩ | ⟨i, c, hreads, hc, -, cycles, hstep⟩
    · rw [show out.bus = m from huntouched.bus]
      exact .of_fetched huntouched.cpu (Cpu.not_selects hreads)
    · simp only [Cpu.selects_iff hreads]
      have hout : out = _ := hstep
      rw [hout] at h ⊢
      obtain ⟨cause, hrun, -⟩ := Outcome.of_finished_error h
      have hharm := Action.execute_harmed i cause (congrArg Outcome.result hrun)
      rw [hrun]
      exact .after_fetched hc hharm
  · have huntouched := Cpu.step_untouched_of_invalidOpcode h
    exact ⟨huntouched.cpu.eq, huntouched.bus⟩

/-- PUSH BC in memory of one byte writes that and fails at the next; the prefix before a NOP is
refused. -/
theorem step_harm_push :
    let cpu : Cpu := { regs := { sp := 1 } }
    let m : Memory LatchedPorts := { bytes := #[0xC5], device := {} }
    let refused : Memory LatchedPorts := { bytes := #[0xDD, 0x00], device := {} }
    (cpu.step m).result = .error (.outOfRange 0 0xFFFF 1) ∧
    ((cpu.step m).cpu.regs.sp = 1 - 1 ∨ (cpu.step m).cpu.regs.sp = 1 - 2) ∧
    (cpu.step refused).result = .error (.invalidOpcode 0 [0xDD, 0x00]) ∧
    (cpu.step refused).bus = refused := by
  intro cpu m refused
  have hfault : (cpu.step m).result = .error (.outOfRange 0 0xFFFF 1) :=
    error_of_causeOf (by decide +kernel)
  have hrefused : (cpu.step refused).result = .error (.invalidOpcode 0 [0xDD, 0x00]) :=
    error_of_causeOf (by decide +kernel)
  have hpushes : cpu.Selects m fun i c => i.Pushes c m :=
    ⟨.push .bc, cpu.begin.pastByte, by decide +kernel, trivial⟩
  exact ⟨hfault, ((step_harm cpu m).1 0 0xFFFF 1 hfault).pushed hpushes, hrefused,
    ((step_harm cpu refused).2 0 _ hrefused).2⟩

end Z80
