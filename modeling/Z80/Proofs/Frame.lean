import Z80.Proofs.Halting
import Z80.Proofs.Inspection
import Z80.Proofs.Parts

/-!
# What a step leaves alone

A step that completes an instruction leaves alone what the instruction does not set. Of the
registers this is said by the parts that the instruction sets (`Instruction.parts`), of the rest by
the control state in which it leaves the processor (`Instruction.control`). An index register can be
set only on the page that its prefix leads to, and of several prefixes in a row the last one counts:
`Bus.prefixes` reads them off the bus as a step would.
-/

namespace Z80

variable {α γ β : Type}

/-! ## Prefixes -/

/-- The index whose prefix stands before an opcode. -/
def Opcode.index : Opcode → Index
  | main index _ | indexedBits index _ _ => index
  | bits _ | extended _ => .hl

/-- The prefix byte of an index. -/
def Index.prefix? : Index → Option Byte
  | .hl => none
  | .ix => some 0xDD
  | .iy => some 0xFD

theorem Index.prefix?_of_prefixIndex {byte : Byte} {index : Index}
    (h : Opcode.prefixIndex byte = some index) : index.prefix? = some byte := by
  rcases Opcode.prefixIndex_cases h with ⟨rfl, rfl⟩ | ⟨rfl, rfl⟩ <;> rfl

theorem Index.prefix?_isSome {index : Index} (h : index ≠ .hl) :
    ∃ byte, index.prefix? = some byte := by
  cases index with
  | hl => exact absurd rfl h
  | ix | iy => exact ⟨_, rfl⟩

/-- The index prefixes that a bus gives from an address up, `budget` of them at most. -/
def Bus.prefixes [Bus β] : (budget : Nat) → (address : Word) → β → List Byte
  | 0, _, _ => []
  | budget + 1, address, bus =>
    match Bus.read bus address with
    | (.ok byte, bus) =>
      if byte = 0xDD ∨ byte = 0xFD then byte :: prefixes budget (address + 1) bus else []
    | (.error _, _) => []

namespace Action

variable [Bus β]

/-- What has asked for a processor that runs everything, and is done, goes on as if it had not
asked. -/
theorem run_requireUndocumented_ok {k : Unit → Action α} {cpu c : Cpu} {bus bus' : β} {x : α}
    (h : ((requireUndocumented >>= k) cpu).run bus = { result := .ok x, cpu := c, bus := bus' }) :
    (k () cpu).run bus = { result := .ok x, cpu := c, bus := bus' } := by
  obtain ⟨_, c₁, bus₁, hask, hrest⟩ := of_run_bind_ok h
  unfold requireUndocumented at hask
  split at hask
  · cases hask
    exact hrest
  · cases hask

/-- A fetch that is done read a byte. -/
theorem run_fetch_bind_ok {k : Byte → Action α} {cpu c : Cpu} {bus bus' : β} {x : α}
    (h : ((fetch >>= k) cpu).run bus = { result := .ok x, cpu := c, bus := bus' }) :
    ∃ byte bus₁, Bus.read bus cpu.regs.pc = (.ok byte, bus₁) ∧
      (k byte cpu.pastByte).run bus₁ = { result := .ok x, cpu := c, bus := bus' } := by
  rw [fetch_bind, Dialogue.run_read_eq] at h
  obtain ⟨byte, bus₁, hread, hrest⟩ := Dialogue.of_follow_ok (congrArg Outcome.result h)
  rw [hrest] at h
  exact ⟨byte, bus₁, hread, h⟩

end Action

namespace Opcode

variable [Bus β]

variable {budget ignored count : Nat} {index : Index} {byte : Byte} {opcode : Opcode} {cpu c : Cpu}
  {bus bus' : β}

/-- Without an index, a byte that is no prefix leads to an opcode without an index. -/
theorem index_of_select_hl (hbyte : prefixIndex byte = none)
    (h : (select (budget + 1) ignored .hl byte cpu).run bus
      = { result := .ok (count, opcode), cpu := c, bus := bus' }) : opcode.index = .hl := by
  by_cases he : byte = extendedPrefix
  · rw [he, select_extendedPrefix] at h
    obtain ⟨_, _, -, hdone⟩ := Action.run_fetch_bind_ok h
    cases hdone
    rfl
  · by_cases hb : byte = bitsPrefix
    · rw [hb, select_bitsPrefix] at h
      obtain ⟨_, _, -, hdone⟩ := Action.run_fetch_bind_ok h
      cases hdone
      rfl
    · rw [select_main (.inl rfl) (leadsOn_of_prefixIndex hbyte he hb)] at h
      cases h
      rfl

/-- A byte that is no prefix leaves the index as it is, unless no index matters to it. -/
theorem index_of_select (hbyte : prefixIndex byte = none) (hopcode : opcode.index ≠ .hl)
    (h : (select (budget + 1) ignored index byte cpu).run bus
      = { result := .ok (count, opcode), cpu := c, bus := bus' }) : opcode.index = index := by
  by_cases hi : index = .hl
  · rw [hi] at h
    exact absurd (index_of_select_hl hbyte h) hopcode
  cases hu : usesIndex byte with
  | false =>
    rw [select_ignored hi hu] at h
    exact absurd (index_of_select_hl hbyte (Action.run_requireUndocumented_ok h)) hopcode
  | true =>
    by_cases hb : byte = bitsPrefix
    · rw [hb, select_bitsPrefix_of_ne hi] at h
      obtain ⟨_, _, -, hrest⟩ := Action.run_fetch_bind_ok h
      obtain ⟨_, _, -, hdone⟩ := Action.run_fetch_bind_ok hrest
      cases hdone
      rfl
    · rw [select_main (.inr hu) (leadsOn_of_usesIndex byte hu hb)] at h
      cases h
      rfl

/-- After a prefix, the opcode goes on with the index of that prefix. -/
theorem run_select_prefixIndex {next : Index} (hbyte : prefixIndex byte = some next)
    (h : (select (budget + 1) ignored index byte cpu).run bus
      = { result := .ok (count, opcode), cpu := c, bus := bus' }) :
    ∃ dropped, ((Action.fetch >>= select budget dropped next) cpu).run bus
      = { result := .ok (count, opcode), cpu := c, bus := bus' } := by
  by_cases hi : index = .hl
  · rw [hi, select_prefixIndex hbyte] at h
    exact ⟨ignored, h⟩
  · rw [select_ignored hi (usesIndex_of_prefixIndex hbyte), select_prefixIndex hbyte] at h
    exact ⟨ignored + 1, Action.run_requireUndocumented_ok h⟩

/-- **The index of an opcode is that of the last prefix.** -/
theorem prefix?_index (hopcode : opcode.index ≠ .hl)
    (h : ((Action.fetch >>= select budget ignored index) cpu).run bus
      = { result := .ok (count, opcode), cpu := c, bus := bus' }) :
    (index.prefix?.toList ++ Bus.prefixes budget cpu.regs.pc bus).getLast?
      = opcode.index.prefix? := by
  -- The index that reading has come to stands for the prefixes read so far.
  induction budget generalizing ignored index cpu bus with
  | zero =>
    obtain ⟨byte, bus₁, -, hselect⟩ := Action.run_fetch_bind_ok h
    cases hselect
  | succ budget ih =>
    obtain ⟨byte, bus₁, hread, hselect⟩ := Action.run_fetch_bind_ok h
    simp only [Bus.prefixes, hread]
    cases hbyte : prefixIndex byte with
    | none =>
      obtain ⟨hix, hiy⟩ := of_prefixIndex_eq_none hbyte
      rw [index_of_select hbyte hopcode hselect]
      cases index <;> simp [hix, hiy, Index.prefix?]
    | some next =>
      -- Whatever came before it, the byte is the prefix that counts so far.
      obtain ⟨dropped, hrest⟩ := run_select_prefixIndex hbyte hselect
      have hlast : (byte :: Bus.prefixes budget (cpu.regs.pc + 1) bus₁).getLast?
          = opcode.index.prefix? := by
        have := ih hrest
        rwa [Index.prefix?_of_prefixIndex hbyte] at this
      obtain ⟨last, hsome⟩ := Index.prefix?_isSome hopcode
      rw [if_pos (of_prefixIndex hbyte).2, List.getLast?_append, hlast, hsome]
      rfl

end Opcode

/-! ## Parts that opcodes set -/

namespace Instruction

/-- Whether an instruction, started with the flags `f`, moves the stack pointer. -/
def movesStackPointer (f : Flags) : Instruction → Bool
  | .loadPairImmediate target | .loadPair target | .incrementPair target
  | .decrementPair target => target = .sp
  | .loadStackPointer _ | .push _ | .pop _ | .ret | .retInterrupt | .restart _ => true
  | .call condition => condition.all (·.holds f)
  | .retIf condition => condition.holds f
  | _ => false

theorem mem_parts_call {part : Part} {condition : Option Condition} {f : Flags} :
    part ∈ (call condition).parts f ↔ condition.all (·.holds f) ∧ part = .sp :=
  List.mem_ite_nil_right.trans (and_congr_right' List.mem_singleton)

theorem mem_parts_retIf {part : Part} {condition : Condition} {f : Flags} :
    part ∈ (retIf condition).parts f ↔ condition.holds f ∧ part = .sp :=
  List.mem_ite_nil_right.trans (and_congr_right' List.mem_singleton)

/-- The flags matter to no part but the stack pointer. -/
theorem mem_parts_of_ne {part : Part} (hpart : part ≠ .sp) {i : Instruction} {f : Flags}
    (h : part ∈ i.parts f) (g : Flags) : part ∈ i.parts g := by
  cases i with
  | call condition => exact absurd (mem_parts_call.1 h).2 hpart
  | retIf condition => exact absurd (mem_parts_retIf.1 h).2 hpart
  | _ => exact h

end Instruction

theorem Register.part?_ne_sp (name : Register) : name.part? ≠ some .sp := by
  cases name <;> simp [part?]

theorem Place.part?_ne_sp (place : Place) : place.part? ≠ some .sp := by
  cases place with
  | register name => exact name.part?_ne_sp
  | indirect => simp [part?]

theorem Pair.eq_sp_of_part? (target : Pair) (h : target.part? = some .sp) : target = .sp := by
  cases target <;> first | rfl | cases h

theorem Index.part?_ne_sp (target : Index) : target.pair.part? ≠ some .sp := by
  cases target <;> nofun

namespace Instruction

/-- An instruction among whose parts is the stack pointer is one of those that move it. -/
theorem movesStackPointer_of_mem_parts {i : Instruction} {f : Flags} (h : .sp ∈ i.parts f) :
    i.movesStackPointer f = true := by
  cases i with
  | load target | loadImmediate target | increment target | decrement target | bits _ target =>
    exact absurd (Option.mem_toList.1 h) target.part?_ne_sp
  | storeSpecial target => exact absurd (Option.mem_toList.1 h) target.part?_ne_sp
  | indexedBits _ _ _ target | inputTo target =>
    cases target with
    | none => cases h
    | some name => exact absurd (Option.mem_toList.1 h) name.part?_ne_sp
  | loadPairImmediate target | loadPair target | incrementPair target | decrementPair target =>
    rw [target.eq_sp_of_part? (Option.mem_toList.1 h)]
    rfl
  | loadIndex target | exchangeStackTop target | addPair target =>
    exact absurd (Option.mem_toList.1 h) target.part?_ne_sp
  | call condition => exact (mem_parts_call.1 h).1
  | retIf condition => exact (mem_parts_retIf.1 h).1
  | loadStackPointer | push | pop | ret | retInterrupt | restart => rfl
  | exchangeAccumulator | exchangeBank => cases List.mem_singleton.1 h
  | _ => cases h

end Instruction

namespace Opcode

/-- Whether an opcode is one that can set a part; the stack pointer is not told apart here. -/
def maySet (opcode : Opcode) : Part → Bool
  | .accShadow => opcode.instruction = .exchangeAccumulator
  | .bankShadow => opcode.instruction = .exchangeBank
  | .i => opcode.instruction = .storeSpecial .i
  | .r => opcode.instruction = .storeSpecial .r
  | .ix => opcode.index = .ix
  | .iy => opcode.index = .iy
  | .sp => true

theorem part?_copy (byte : Byte) :
    (Register.ofField (fieldZ byte)).bind Register.part? = none := by
  revert byte
  exact forall_byte (by decide +kernel)

/-- No opcode sets a part but those that are for it, and an index register is set only on its own
page. -/
theorem maySet_of_mem_parts {opcode : Opcode} {f : Flags} {part : Part}
    (h : part ∈ opcode.instruction.parts f) : opcode.maySet part = true := by
  by_cases hsp : part = .sp
  · rw [hsp]
    rfl
  -- The flags do not matter any more, so that each page is a table of 256 bytes.
  replace h := Instruction.mem_parts_of_ne hsp h {}
  revert part
  suffices hall : ∀ part ∈ opcode.instruction.parts {}, opcode.maySet part = true from
    fun {part} _ => hall part
  cases opcode with
  | main index byte =>
    revert byte
    cases index <;> exact forall_byte (by decide +kernel)
  | bits byte | extended byte =>
    revert byte
    exact forall_byte (by decide +kernel)
  | indexedBits index displacement byte =>
    have hparts : (indexedBits index displacement byte).instruction.parts {} = [] :=
      congrArg Option.toList (part?_copy byte)
    rw [hparts]
    nofun

end Opcode

/-! ## Steps -/

/-- The processor but for its program counter. -/
def Cpu.apartFromPc (cpu : Cpu) : Cpu :=
  { cpu with regs.pc := 0 }

theorem Cpu.exists_pc_of_apartFromPc {c cpu : Cpu} (h : c.apartFromPc = cpu.apartFromPc) :
    ∃ pc, c = { cpu with regs.pc := pc } :=
  ⟨c.regs.pc, congrArg (fun k : Cpu => { k with regs.pc := c.regs.pc }) h⟩

instance : (Law.keeps Cpu.apartFromPc).Allows .pc := by
  refine Law.keeps_allows fun change h cpu => ?_
  rw [h]
  rfl

namespace Action

/-- What moves the program counter leaves all else as it was. -/
theorem leaves_movedPc (a : Action α) [Obeys (.keeps Cpu.apartFromPc) a] (cpu : Cpu) :
    (a cpu).Leaves (fun _ => True) fun _ c => ∃ pc, c = { cpu with regs.pc := pc } :=
  (leaves_kept Cpu.apartFromPc a cpu).imp (fun _ _ => trivial)
    fun _ _ => Cpu.exists_pc_of_apartFromPc

/-- So does reading an opcode. -/
theorem of_run_fetchOpcode [Bus β] {cpu c : Cpu} {bus bus' : β} {selected : Nat × Opcode}
    (hrun : (fetchOpcode cpu).run bus = { result := .ok selected, cpu := c, bus := bus' }) :
    ∃ pc, c = { cpu with regs.pc := pc } :=
  (leaves_movedPc fetchOpcode cpu).of_run_ok hrun

end Action

namespace Cpu

variable [Bus β] {cpu : Cpu} {bus : β}

/-- A step that completes reads an opcode and executes its instruction. -/
theorem of_step_ok {cycles : Nat} (h : (cpu.step bus).result = .ok cycles) :
    ∃ (ignored : Nat) (opcode : Opcode) (c : Cpu) (bus' : β) (taken : Bool),
      (Action.fetchOpcode cpu.begin).run bus
        = { result := .ok (ignored, opcode), cpu := c, bus := bus' } ∧
      cpu.executed bus = some opcode.instruction ∧
      (Action.execute opcode.instruction c).run bus'
        = { result := .ok taken, cpu := (cpu.step bus).cpu, bus := (cpu.step bus).bus } := by
  rw [step_eq_observed] at h ⊢
  rw [executed]
  rcases hrun : (Action.observedInstruction cpu.begin).run bus with ⟨_ | ⟨_, _⟩, _, _⟩
  · rw [hrun] at h
    cases h
  · rw [Action.observedInstruction_eq] at hrun
    obtain ⟨⟨ignored, opcode⟩, c, bus', hfetch, hrest⟩ := Action.of_run_bind_ok hrun
    refine ⟨ignored, opcode, c, bus', ?_⟩
    rcases Action.admitOpcode_cases opcode c with hallowed | hrefuse
    · rw [Action.observed_of_admitted hallowed, Dialogue.run_bind] at hrest
      rcases hexecute : (Action.execute opcode.instruction c).run bus' with ⟨_ | taken, _, _⟩
      · rw [hexecute] at hrest
        cases hrest
      · rw [hexecute] at hrest
        cases hrest
        exact ⟨taken, hfetch, rfl, rfl⟩
    · rw [Action.observed_of_refused hrefuse] at hrest
      cases hrest

/-- What a step that completes leaves alone: a part can have changed only by an opcode that may set
it. -/
theorem step_part {cycles : Nat} (h : (cpu.step bus).result = .ok cycles) :
    ∃ opcode : Opcode, cpu.executed bus = some opcode.instruction ∧
      (opcode.index ≠ .hl →
        (Bus.prefixes addressSpace cpu.regs.pc bus).getLast? = opcode.index.prefix?) ∧
      ∀ part : Part, part.of (cpu.step bus).cpu.regs ≠ part.of cpu.regs →
        part ∈ opcode.instruction.parts cpu.regs.acc.f := by
  obtain ⟨ignored, opcode, c, bus', taken, hfetch, hexecuted, hexecute⟩ := of_step_ok h
  obtain ⟨pc, rfl⟩ := Action.of_run_fetchOpcode hfetch
  refine ⟨opcode, hexecuted, fun hindex => ?_, fun part hpart => ?_⟩
  · have hlast := Opcode.prefix?_index hindex hfetch
    rwa [show Index.hl.prefix?.toList = [] from rfl, List.nil_append] at hlast
  · -- Reading the opcode moved the program counter only, which is in no part.
    refine Decidable.byContradiction fun hkept => hpart ?_
    let c : Cpu := { cpu.begin with regs.pc := pc }
    have hc : part ∉ opcode.instruction.parts c.regs.acc.f := hkept
    have hexecuted := (Action.execute_keepsPart hc).of_run_ok hexecute
    have hpast : part.of c.regs = part.of cpu.regs := by cases part <;> rfl
    exact Eq.trans hexecuted hpast

end Cpu

/-- What has changed in the control state says which instruction it was. -/
theorem Instruction.control_frame (i : Instruction) (c : Cpu) :
    ((i.control c).mode ≠ c.mode → ∃ mode, i = .setMode mode) ∧
    ((i.control c).iff2 ≠ c.iff2 → i = .enableInterrupts ∨ i = .disableInterrupts) ∧
    ((i.control c).iff1 ≠ c.iff1 →
      i = .enableInterrupts ∨ i = .disableInterrupts ∨ i = .retInterrupt) ∧
    (i.control c).variant = c.variant := by
  cases i <;> simp [control]

/-- **What a step leaves alone.** Let a step complete an instruction, over any bus. Each register
and each control field that is not there to be worked with has changed only if the instruction is
one for changing it; an index register only after its own prefix, whatever prefixes were dropped
before it; and what makes the processor the Z80 it is has not changed at all. -/
theorem step_frame [Bus β] {cpu : Cpu} {bus : β} {cycles : Nat}
    (h : (cpu.step bus).result = .ok cycles) :
    ∃ i, cpu.executed bus = some i ∧
      let after := (cpu.step bus).cpu
      let prefixes := Bus.prefixes addressSpace cpu.regs.pc bus
      (after.regs.accShadow ≠ cpu.regs.accShadow → i = .exchangeAccumulator) ∧
      (after.regs.bankShadow ≠ cpu.regs.bankShadow → i = .exchangeBank) ∧
      (after.regs.i ≠ cpu.regs.i → i = .storeSpecial .i) ∧
      (after.regs.r ≠ cpu.regs.r → i = .storeSpecial .r) ∧
      (after.mode ≠ cpu.mode → ∃ mode, i = .setMode mode) ∧
      (after.iff2 ≠ cpu.iff2 → i = .enableInterrupts ∨ i = .disableInterrupts) ∧
      (after.iff1 ≠ cpu.iff1 →
        i = .enableInterrupts ∨ i = .disableInterrupts ∨ i = .retInterrupt) ∧
      (after.regs.ix ≠ cpu.regs.ix → prefixes.getLast? = some 0xDD) ∧
      (after.regs.iy ≠ cpu.regs.iy → prefixes.getLast? = some 0xFD) ∧
      (after.regs.sp ≠ cpu.regs.sp → i.movesStackPointer cpu.regs.acc.f = true) ∧
      after.variant = cpu.variant := by
  -- The registers are judged by the parts that the opcode may set, the rest by the control state.
  obtain ⟨opcode, hexecuted, hprefix, hparts⟩ := Cpu.step_part h
  have hset (part : Part) (hpart : part.of (cpu.step bus).cpu.regs ≠ part.of cpu.regs) :
      opcode.maySet part = true :=
    Opcode.maySet_of_mem_parts (hparts part hpart)
  have hcontrol : (cpu.step bus).cpu.control = opcode.instruction.control cpu.begin.control := by
    rcases cpu.step_cases bus with ⟨fault, herror, -⟩ | ⟨_, i, -, hi, hcontrol⟩
    · rw [h] at herror
      cases herror
    · rw [hexecuted] at hi
      rw [hcontrol, Option.some.inj hi]
  obtain ⟨hmode, hiff2, hiff1, hvariant⟩ :=
    opcode.instruction.control_frame cpu.begin.control
  rw [← hcontrol] at hmode hiff2 hiff1 hvariant
  refine ⟨opcode.instruction, hexecuted, ?_, ?_, ?_, ?_, hmode, hiff2, hiff1, ?_, ?_, ?_, hvariant⟩
  · exact fun hne => of_decide_eq_true (hset .accShadow fun e => hne (congrArg (·.accShadow) e))
  · exact fun hne => of_decide_eq_true (hset .bankShadow fun e => hne (congrArg (·.bankShadow) e))
  · exact fun hne => of_decide_eq_true (hset .i fun e => hne (congrArg (·.i) e))
  · exact fun hne => of_decide_eq_true (hset .r fun e => hne (congrArg (·.r) e))
  · intro hne
    have hindex : opcode.index = .ix :=
      of_decide_eq_true (hset .ix fun e => hne (congrArg (·.ix) e))
    rw [hindex] at hprefix
    exact hprefix (by decide)
  · intro hne
    have hindex : opcode.index = .iy :=
      of_decide_eq_true (hset .iy fun e => hne (congrArg (·.iy) e))
    rw [hindex] at hprefix
    exact hprefix (by decide)
  · intro hne
    exact Instruction.movesStackPointer_of_mem_parts
      (hparts .sp fun e => hne (congrArg (·.sp) e))

/-- POP IX after a prefix that is dropped: IX and the stack pointer change, and the last prefix is
that of IX. -/
theorem step_frame_pop :
    let cpu : Cpu := { variant := { conformance := .undocumented } }
    let m : Memory LatchedPorts := { bytes := #[0xFD, 0xDD, 0xE1], device := {} }
    (cpu.step m).result = .ok 18 ∧ (cpu.step m).cpu.regs.ix ≠ cpu.regs.ix ∧
    (cpu.step m).cpu.regs.sp ≠ cpu.regs.sp ∧
    (Bus.prefixes addressSpace cpu.regs.pc m).getLast? = some 0xDD ∧
    (cpu.step m).cpu.variant = cpu.variant := by
  intro cpu m
  have hok : (cpu.step m).result = .ok 18 := ok_of_toOption (by decide +kernel)
  have hix : (cpu.step m).cpu.regs.ix ≠ cpu.regs.ix := by decide +kernel
  have hsp : (cpu.step m).cpu.regs.sp ≠ cpu.regs.sp := by decide +kernel
  obtain ⟨i, -, -, -, -, -, -, -, -, hprefix, -, -, hvariant⟩ := step_frame hok
  exact ⟨hok, hix, hsp, hprefix hix, hvariant⟩

end Z80
