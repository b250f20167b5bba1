import Z80.Proofs.Blocks
import Z80.Proofs.Timing

/-!
# What the cost of an instruction depends on

The clock cycles of an instruction are those of its opcode, a fixed number more if it is one that
can be taken and was. So an observer who knows the bytes of the opcode and counts cycles learns
whether a jump, call, return or repetition was taken, and nothing of any value in a register or in
memory.

`Bus.opcodeBytes` are the bytes that a step reads as prefixes and opcode, over any bus; the
displacement between the bytes of an indexed bit operation is not one of them. They decide the
opcode and which prefixes are dropped (`Opcode.decode`, `Opcode.reads_of_fetch`).
-/

namespace Z80

variable {α β β' : Type}

/-! ## The bytes of an opcode -/

namespace Bus

variable [Bus β]

/-- The byte at an address, if the bus gives one. -/
def byteAt (address : Word) (bus : β) : List Byte :=
  (Bus.read bus address).1.toOption.toList

theorem byteAt_of_read {address : Word} {bus bus' : β} {b : Byte}
    (h : Bus.read bus address = (.ok b, bus')) : byteAt address bus = [b] := by
  rw [byteAt, h]
  rfl

/-- The byte that selects the operation after CB or ED, which are found before `address`. After CB
with an index prefix, it comes after the displacement. -/
def lastByte (indexed : Bool) (lead : Byte) (address : Word) (bus : β) : List Byte :=
  if lead = Opcode.extendedPrefix then byteAt address bus
  else if lead = Opcode.bitsPrefix then
    if indexed then byteAt (address + 1) (Bus.read bus address).2 else byteAt address bus
  else []

/-- The bytes of prefixes and opcode that a bus gives from an address up, `budget` of them at most
being tried as prefixes; `indexed` says that an index prefix has gone before. -/
def opcodeBytes : (budget : Nat) → (indexed : Bool) → (address : Word) → β → List Byte
  | 0, _, _, _ => []
  | budget + 1, indexed, address, bus =>
    match Bus.read bus address with
    | (.ok byte, bus) =>
      byte ::
        if byte = 0xDD ∨ byte = 0xFD then opcodeBytes budget true (address + 1) bus
        else lastByte indexed byte (address + 1) bus
    | (.error _, _) => []

end Bus

namespace Opcode

/-- The opcode with a displacement of zero. -/
def undisplaced : Opcode → Opcode
  | .indexedBits index _ byte => .indexedBits index 0 byte
  | opcode => opcode

/-- The number of displacements among the bytes of an opcode. -/
def displacements : Opcode → Nat
  | .indexedBits _ _ _ => 1
  | _ => 0

/-- The opcode that its bytes select, the displacement aside, with the number of prefixes that are
dropped. -/
def decode : (ignored : Nat) → Index → List Byte → Option (Nat × Opcode)
  | _, _, [] => none
  | ignored, index, byte :: rest =>
    let kept := index == .hl || usesIndex byte
    let ignored := if kept then ignored else ignored + 1
    let index := if kept then index else .hl
    match prefixIndex byte with
    | some next => decode ignored next rest
    | none =>
      if byte = extendedPrefix then rest.head?.map fun b => (ignored, .extended b)
      else if byte = bitsPrefix then
        rest.head?.map fun b =>
          (ignored, if index = .hl then .bits b else .indexedBits index 0 b)
      else some (ignored, .main index byte)

variable {budget ignored count : Nat} {index next : Index} {byte : Byte} {rest : List Byte}

/-- A prefix before a byte that does not mean an index is counted and forgotten. -/
theorem decode_dropped (hi : index ≠ .hl) (hu : usesIndex byte = false) :
    decode ignored index (byte :: rest) = decode (ignored + 1) .hl (byte :: rest) := by
  have hkept : (index == .hl || usesIndex byte) = false := by
    rw [hu, Bool.or_false, beq_eq_false_iff_ne]
    exact hi
  rw [decode, decode, hkept]
  rfl

/-- A byte that means the index, or that has no prefix, is decoded with the index. -/
theorem decode_kept (hkept : index = .hl ∨ usesIndex byte = true) :
    decode ignored index (byte :: rest)
      = match prefixIndex byte with
        | some next => decode ignored next rest
        | none =>
          if byte = extendedPrefix then rest.head?.map fun b => (ignored, .extended b)
          else if byte = bitsPrefix then
            rest.head?.map fun b =>
              (ignored, if index = .hl then .bits b else .indexedBits index 0 b)
          else some (ignored, .main index byte) := by
  have hkept : (index == .hl || usesIndex byte) = true := by
    rw [Bool.or_eq_true, beq_iff_eq]
    exact hkept
  rw [decode, hkept]
  rfl

/-! ## Reading an opcode -/

/-- What is known of an opcode that has been read, from its bytes and the prefixes that went before
them: the bytes decide it and which prefixes are dropped, which by the manual is none, and the
program counter is past them. -/
structure Reads (cpu c : Cpu) (ignored : Nat) (index : Index) (bytes : List Byte) (count : Nat)
    (opcode : Opcode) : Prop where
  decoded : decode ignored index bytes = some (count, opcode.undisplaced)
  kept : cpu.variant.conformance = .documented → count = ignored
  pc : c.regs.pc = cpu.regs.pc + UInt16.ofNat (bytes.length + opcode.displacements)

section reading

variable [Bus β] {cpu c : Cpu} {bus bus' : β} {opcode : Opcode}

theorem pc_past (pc : Word) (count : Nat) :
    pc + 1 + UInt16.ofNat count = pc + UInt16.ofNat (count + 1) := by
  rw [Nat.add_comm, UInt16.ofNat_add, ← UInt16.add_assoc]
  rfl

/-- Reading past a prefix is reading from the byte after it, with another index. -/
theorem Reads.prefixed (hbyte : prefixIndex byte = some next)
    (h : Reads cpu.pastByte c ignored next rest count opcode) :
    Reads cpu c ignored .hl (byte :: rest) count opcode where
  decoded := by
    rw [decode_kept (.inl rfl), hbyte]
    exact h.decoded
  kept := h.kept
  pc := by
    rw [List.length_cons, Nat.add_right_comm, ← pc_past]
    exact h.pc

/-- Reading on after a prefix without effect is reading without it, with one more counted. -/
theorem Reads.dropped (hi : index ≠ .hl) (hu : usesIndex byte = false)
    (hc : cpu.variant.conformance = .undocumented)
    (h : Reads cpu c (ignored + 1) .hl (byte :: rest) count opcode) :
    Reads cpu c ignored index (byte :: rest) count opcode where
  decoded := (decode_dropped hi hu).trans h.decoded
  kept hd := by
    rw [hc] at hd
    cases hd
  pc := h.pc

/-- A byte for which no index matters does not lead to a displacement. -/
theorem lastByte_of_usesIndex (hu : usesIndex byte = false) (indexed : Bool) (address : Word) :
    Bus.lastByte indexed byte address bus = Bus.lastByte false byte address bus := by
  have hb : byte ≠ bitsPrefix := by
    rintro rfl
    cases hu
  rw [Bus.lastByte, Bus.lastByte, if_neg hb, if_neg hb]

/-- A byte that is no prefix, and drops none, leads to an opcode. -/
theorem reads_of_select_kept (hkept : index = .hl ∨ usesIndex byte = true)
    (hnone : prefixIndex byte = none)
    (h : (select (budget + 1) ignored index byte cpu.pastByte).run bus
      = { result := .ok (count, opcode), cpu := c, bus := bus' }) :
    Reads cpu c ignored index
      (byte :: Bus.lastByte (index != .hl) byte cpu.pastByte.regs.pc bus) count opcode := by
  have hix : byte ≠ ixPrefix := (of_prefixIndex_eq_none hnone).1
  have hiy : byte ≠ iyPrefix := (of_prefixIndex_eq_none hnone).2
  rw [select_kept hkept, if_neg hix, if_neg hiy] at h
  by_cases he : byte = extendedPrefix
  · rw [if_pos he] at h
    obtain ⟨b, bus₁, hread, hdone⟩ := Action.run_fetch_bind_ok h
    cases hdone
    rw [Bus.lastByte, if_pos he, Bus.byteAt_of_read hread]
    refine ⟨?_, fun _ => rfl, pc_past _ 1⟩
    simp only [decode_kept hkept, hnone, if_pos he]
    rfl
  rw [if_neg he] at h
  by_cases hb : byte = bitsPrefix
  · rw [if_pos hb] at h
    by_cases hi : index = .hl
    · rw [if_pos hi] at h
      obtain ⟨b, bus₁, hread, hdone⟩ := Action.run_fetch_bind_ok h
      cases hdone
      rw [Bus.lastByte, if_neg he, if_pos hb, hi, Bus.byteAt_of_read hread]
      refine ⟨?_, fun _ => rfl, pc_past _ 1⟩
      simp only [decode_kept (.inl rfl), hnone, if_neg he, if_pos hb]
      rfl
    · rw [if_neg hi] at h
      obtain ⟨displacement, bus₁, hdisplacement, hrest⟩ := Action.run_fetch_bind_ok h
      obtain ⟨b, bus₂, hread, hdone⟩ := Action.run_fetch_bind_ok hrest
      cases hdone
      have hindexed : (index != .hl) = true := bne_iff_ne.2 hi
      have hlast : Bus.byteAt (cpu.pastByte.regs.pc + 1) bus₁ = [b] := Bus.byteAt_of_read hread
      simp only [Bus.lastByte, if_neg he, if_pos hb, if_pos hindexed, hdisplacement, hlast]
      refine ⟨?_, fun _ => rfl, ?_⟩
      · simp only [decode_kept hkept, hnone, if_neg he, if_pos hb, if_neg hi]
        rfl
      · -- The displacement is not counted among the bytes.
        exact (pc_past _ 1).trans (pc_past _ 2)
  · rw [if_neg hb] at h
    cases h
    rw [Bus.lastByte, if_neg he, if_neg hb]
    refine ⟨?_, fun _ => rfl, rfl⟩
    simp only [decode_kept hkept, hnone, if_neg he, if_neg hb]
    rfl

theorem conformance_of_asked {k : Unit → Action α} {x : α}
    (h : ((Action.requireUndocumented >>= k) cpu).run bus
      = { result := .ok x, cpu := c, bus := bus' }) :
    cpu.variant.conformance = .undocumented := by
  cases hc : cpu.variant.conformance with
  | undocumented => rfl
  | documented =>
    obtain ⟨_, _, _, hask, -⟩ := Action.of_run_bind_ok h
    rw [Action.requireUndocumented_of_documented hc] at hask
    cases hask

/-- **The bytes of an opcode decide it.** -/
theorem reads_of_fetch
    (h : ((Action.fetch >>= select budget ignored index) cpu).run bus
      = { result := .ok (count, opcode), cpu := c, bus := bus' }) :
    Reads cpu c ignored index
      (Bus.opcodeBytes budget (index != .hl) cpu.regs.pc bus) count opcode := by
  induction budget generalizing ignored index cpu bus with
  | zero =>
    obtain ⟨byte, bus₁, -, hselect⟩ := Action.run_fetch_bind_ok h
    cases hselect
  | succ budget ih =>
    obtain ⟨byte, bus₁, hread, hselect⟩ := Action.run_fetch_bind_ok h
    simp only [Bus.opcodeBytes, hread]
    cases hbyte : prefixIndex byte with
    | none =>
      rw [if_neg (not_or.2 (of_prefixIndex_eq_none hbyte))]
      by_cases hkept : index = .hl ∨ usesIndex byte = true
      · exact reads_of_select_kept hkept hbyte hselect
      · obtain ⟨hi, hu⟩ := not_or.1 hkept
        replace hu : usesIndex byte = false := eq_false_of_ne_true hu
        rw [select_ignored hi hu] at hselect
        have hrest := reads_of_select_kept (.inl rfl) hbyte
          (Action.run_requireUndocumented_ok hselect)
        have hc : cpu.pastByte.variant.conformance = .undocumented := conformance_of_asked hselect
        rw [lastByte_of_usesIndex hu]
        exact .dropped hi hu hc hrest
    | some next =>
      obtain ⟨hnext, hprefix⟩ := of_prefixIndex hbyte
      have hindexed : (next != .hl) = true := bne_iff_ne.2 hnext
      rw [if_pos hprefix, ← hindexed]
      -- The prefix that this one follows is dropped.
      by_cases hi : index = .hl
      · rw [hi, select_prefixIndex hbyte] at hselect
        rw [hi]
        exact .prefixed hbyte (ih hselect)
      · have hu := usesIndex_of_prefixIndex hbyte
        rw [select_ignored hi hu, select_prefixIndex hbyte] at hselect
        have hc : cpu.pastByte.variant.conformance = .undocumented := conformance_of_asked hselect
        exact .dropped hi hu hc (.prefixed hbyte (ih (Action.run_requireUndocumented_ok hselect)))

end reading

end Opcode

/-! ## What is taken -/

namespace Instruction

/-- What an instruction costs more if its jump, call, return or repetition is taken, which is a
matter of the state if it is a conditional one. -/
def premium : Instruction → Nat
  | .jumpRelative (some _) | .decrementAndJump => 5
  | .call (some _) => 7
  | .retIf _ => 6
  | .block _ _ true => 5
  | _ => 0

/-- What an instruction costs at least: a transfer without a condition is always taken. -/
def least (timing : Timing) (i : Instruction) : Nat :=
  match i with
  | .jumpRelative none | .call none => i.cycles timing true
  | _ => i.cycles timing false

/-- Whether an instruction has taken its jump, call or return, by the registers before it, or has
gone back to repeat itself, by the program counter after it: `next` is the address after its
opcode. -/
def took (before : Registers) (pc next : Word) : Instruction → Bool
  | .jump condition | .jumpRelative condition | .call condition =>
    condition.all (·.holds before.acc.f)
  | .retIf condition => condition.holds before.acc.f
  | .decrementAndJump => before.bank.b - 1 != 0
  | .block _ _ repeats => repeats && pc != next
  | _ => false

/-- What the program counter was is not asked. -/
theorem took_pc (i : Instruction) (before : Registers) (start pc next : Word) :
    i.took { before with pc := start } pc next = i.took before pc next := by
  cases i <;> rfl

/-- **The cycles of an instruction** are the least, and the premium if it was taken. -/
theorem cycles_took (i : Instruction) (timing : Timing) (before : Registers) (pc next : Word) :
    let taken := i.took before pc next
    i.cycles timing taken = i.least timing + if taken then i.premium else 0 := by
  intro taken
  cases i with
  | jumpRelative condition | call condition =>
    cases condition with
    | none => rfl
    | some condition =>
      clear_value taken
      cases taken <;> rfl
  | jump | retIf | decrementAndJump =>
    clear_value taken
    cases taken <;> rfl
  | block _ _ repeats =>
    cases repeats with
    | false => rfl
    | true =>
      clear_value taken
      cases taken <;> rfl
  -- These have the same cycles either way, but not the same for each of their operands.
  | loadImmediate target => rcases target with _ | _ | _ | _ <;> rfl
  | bits op | indexedBits op => cases op <;> rfl
  | _ => rfl

end Instruction

/-- Nothing is asked of where a dialogue ends. -/
theorem Dialogue.leaves_true (d : Dialogue α) : d.Leaves (fun _ => True) fun _ _ => True := by
  induction d with
  | done => exact .done trivial
  | fail => exact .fail trivial
  | reject => exact .reject trivial
  | read _ _ _ ih => exact .read trivial ih
  | write _ _ _ _ ih => exact .write trivial ih
  | input _ _ _ ih => exact .input trivial ih
  | output _ _ _ _ ih => exact .output trivial ih

namespace Action

/-- What has no condition is never taken. -/
theorem always_leaves (a : Action Unit) (cpu : Cpu) :
    (always a cpu).Leaves (fun _ => True) fun t _ => t = false :=
  (a cpu).leaves_true.bind fun _ _ _ => .done rfl

/-- An action that ends with `taken`, or goes elsewhere before that if it is. -/
theorem ite_leaves (taken : Bool) (a : Action Unit) (cpu : Cpu) :
    ((if taken then a >>= fun _ => pure taken else pure taken : Action Bool) cpu).Leaves
      (fun _ => True) fun t _ => t = taken := by
  cases taken with
  | false => exact .done rfl
  | true => exact (a cpu).leaves_true.bind fun _ _ _ => .done rfl

/-- JP is taken where its condition holds. -/
theorem jump_leaves (condition : Option Condition) (cpu : Cpu) :
    (jump condition cpu).Leaves (fun _ => True)
      fun t _ => t = condition.all (·.holds cpu.regs.acc.f) :=
  .read trivial fun _ => .read trivial fun _ => ite_leaves _ _ _

theorem jumpBy_leaves (taken : Bool) (cpu : Cpu) :
    (jumpBy taken cpu).Leaves (fun _ => True) fun t _ => t = taken :=
  .read trivial fun _ => ite_leaves taken _ _

/-- CALL is taken where its condition holds; fetching the target changes nothing about that. -/
theorem call_leaves (condition : Option Condition) (cpu : Cpu) :
    (call condition cpu).Leaves (fun _ => True)
      fun t _ => t = condition.all (·.holds cpu.regs.acc.f) := by
  refine .read trivial fun low => .read trivial fun high => ?_
  let c := cpu.pastByte.pastByte
  let target := wordOf high low
  show (callAt condition target c).Leaves (fun _ => True)
    fun t _ => t = condition.all (·.holds c.regs.acc.f)
  cases htaken : condition.all (·.holds c.regs.acc.f) with
  | false =>
    rw [callAt_of_not_taken htaken]
    exact .done rfl
  | true =>
    rw [callAt_of_taken htaken]
    exact .write trivial (.write trivial (.done rfl))

/-- RET with a condition is taken where it holds. -/
theorem retIf_leaves (condition : Condition) (cpu : Cpu) :
    (retIf condition cpu).Leaves (fun _ => True) fun t _ => t = condition.holds cpu.regs.acc.f :=
  ite_leaves _ _ _

/-- One pass over a byte leaves the program counter. -/
theorem blockPass_leaves (kind : BlockKind) (backwards : Bool) (cpu : Cpu) :
    (blockPass kind backwards cpu).Leaves (fun _ => True) fun _ c => c.regs.pc = cpu.regs.pc := by
  rw [kind.blockPass_eq]
  cases kind with
  | load => exact .read trivial fun _ => .write trivial (.done rfl)
  | compare => exact .read trivial fun _ => .done rfl
  | input => exact .input trivial fun _ => .write trivial (.done rfl)
  | output => exact .read trivial fun _ => .output trivial (.done rfl)

/-- A block instruction goes back to its own two bytes exactly if it repeats itself. -/
theorem block_leaves (kind : BlockKind) (backwards repeats : Bool) (cpu : Cpu) :
    (block kind backwards repeats cpu).Leaves (fun _ => True)
      fun t c => t = (repeats && c.regs.pc != cpu.regs.pc) := by
  refine (blockPass_leaves kind backwards cpu).bind fun more c hc => ?_
  have hback : (cpu.regs.pc - 2 != cpu.regs.pc) = true := by
    rw [bne_iff_ne]
    grind
  cases repeats with
  | false => exact .done rfl
  | true =>
    cases more with
    | false => exact .done (by rw [hc, bne_self_eq_false, Bool.and_false])
    | true =>
      refine .done ?_
      show true = (true && c.regs.pc - 2 != cpu.regs.pc)
      rw [hc, hback, Bool.and_true]

/-- **What an instruction answers** is whether it was taken. -/
theorem execute_took (i : Instruction) (cpu : Cpu) :
    (execute i cpu).Leaves (fun _ => True)
      fun t c => t = i.took cpu.regs c.regs.pc cpu.regs.pc := by
  cases i with
  | nop | nothing => exact .done rfl
  | jump condition => exact jump_leaves condition cpu
  | jumpRelative condition => exact jumpBy_leaves _ cpu
  | decrementAndJump => exact jumpBy_leaves _ _
  | call condition => exact call_leaves condition cpu
  | retIf condition => exact retIf_leaves condition cpu
  | block kind backwards repeats => exact block_leaves kind backwards repeats cpu
  | _ => exact always_leaves _ cpu

end Action

/-! ## Steps -/

namespace Opcode

/-- What an opcode costs by itself; the tables differ by what INC or DEC of a pair costs more. -/
theorem cycles_reference_bounds (opcode : Opcode) (taken : Bool) :
    4 ≤ opcode.instruction.cycles .reference taken ∧
      opcode.instruction.cycles .reference taken + opcode.instruction.stepsPair.toNat ≤ 23 := by
  revert taken
  cases opcode with
  | main index byte =>
    revert byte
    cases index <;> exact forall_byte (by decide +kernel)
  | bits byte | extended byte =>
    revert byte
    exact forall_byte (by decide +kernel)
  | indexedBits index displacement byte =>
    intro taken
    have hbounds (op : BitOperation) (copy : Option Register) :
        let i := Instruction.indexedBits op index displacement copy
        4 ≤ i.cycles .reference taken ∧ i.cycles .reference taken + i.stepsPair.toNat ≤ 23 := by
      cases op <;> exact ⟨Nat.le_of_ble_eq_true rfl, Nat.le_of_ble_eq_true rfl⟩
    exact hbounds _ _

/-- No entry of the table of clock cycles is below 4 or above 23. -/
theorem cycles_bounds (opcode : Opcode) (timing : Timing) (taken : Bool) :
    4 ≤ opcode.instruction.cycles timing taken ∧ opcode.instruction.cycles timing taken ≤ 23 := by
  obtain ⟨hmin, hmax⟩ := opcode.cycles_reference_bounds taken
  cases timing with
  | reference => omega
  | datasheet =>
    rw [opcode.cycles_datasheet]
    omega

/-- The least cost of an opcode does not depend on its displacement. -/
theorem least_undisplaced (opcode : Opcode) (timing : Timing) :
    opcode.undisplaced.instruction.least timing = opcode.instruction.least timing := by
  cases opcode with
  | indexedBits index displacement byte =>
    have hleast (op : BitOperation) (copy : Option Register) :
        (Instruction.indexedBits op index 0 copy).least timing
          = (Instruction.indexedBits op index displacement copy).least timing := by
      cases op <;> rfl
    exact hleast _ _
  | _ => rfl

theorem premium_undisplaced (opcode : Opcode) :
    opcode.undisplaced.instruction.premium = opcode.instruction.premium := by
  cases opcode <;> rfl

end Opcode

namespace Cpu

variable [Bus β] {cpu : Cpu} {bus : β} {cycles : Nat}

/-- The bytes of the prefixes and the opcode at the program counter, without a displacement. -/
def opcodeBytes (cpu : Cpu) (bus : β) : List Byte :=
  Bus.opcodeBytes addressSpace false cpu.regs.pc bus

/-- Whether a step takes its jump, call or return, or repeats its instruction. -/
def took (cpu : Cpu) (bus : β) : Bool :=
  let next := cpu.regs.pc + UInt16.ofNat (cpu.opcodeBytes bus).length
  (cpu.executed bus).any (·.took cpu.regs (cpu.step bus).cpu.regs.pc next)

/-- What a step that completes has done, with its clock cycles. -/
theorem performed_of_step_ok (h : (cpu.step bus).result = .ok cycles) :
    ∃ (p : Performed) (c : Cpu) (bus' : β),
      (Action.fetchOpcode cpu.begin).run bus
        = { result := .ok (p.ignored, p.opcode), cpu := c, bus := bus' } ∧
      (Action.execute p.opcode.instruction c).run bus'
        = { result := .ok p.taken, cpu := (cpu.step bus).cpu, bus := (cpu.step bus).bus } ∧
      cpu.executed bus = some p.opcode.instruction ∧ cycles = p.cycles cpu.variant.timing := by
  rw [step_eq_untimed] at h ⊢
  rw [executed_eq_untimed]
  rcases hrun : (Action.untimed cpu.begin).run bus with ⟨_ | p, c', bus₂⟩
  · rw [hrun] at h
    cases h
  · rw [hrun] at h
    cases h
    obtain ⟨⟨ignored, opcode⟩, c, bus', hfetch, hrest⟩ := Action.of_run_bind_ok hrun
    obtain ⟨_, c₁, bus₁, hadmit, hrest⟩ := Action.of_run_bind_ok hrest
    obtain ⟨taken, c₂, bus₂, hexecute, hdone⟩ := Action.of_run_bind_ok hrest
    cases hdone
    refine ⟨_, c, bus', hfetch, ?_, rfl, rfl⟩
    rcases Action.admitOpcode_cases opcode c with hallowed | hrefused
    · rw [hallowed] at hadmit
      cases hadmit
      exact hexecute
    · rw [hrefused] at hadmit
      cases hadmit

/-- A block instruction has no displacement, so the program counter after its opcode is past its
bytes. -/
theorem took_of_reads {c : Cpu} {ignored : Nat} {opcode : Opcode}
    (hreads : Opcode.Reads cpu.begin c 0 .hl (cpu.opcodeBytes bus) ignored opcode)
    (hexecuted : cpu.executed bus = some opcode.instruction) :
    cpu.took bus
      = opcode.instruction.took cpu.regs (cpu.step bus).cpu.regs.pc c.regs.pc := by
  rw [took, hexecuted, hreads.pc]
  cases opcode <;> rfl

/-- **What a step costs.** -/
theorem step_cost (h : (cpu.step bus).result = .ok cycles) :
    ∃ (ignored : Nat) (opcode : Opcode),
      Opcode.decode 0 .hl (cpu.opcodeBytes bus) = some (ignored, opcode.undisplaced) ∧
      cpu.executed bus = some opcode.instruction ∧
      (cpu.variant.conformance = .documented → 4 ≤ cycles ∧ cycles ≤ 23) ∧
      cycles = 4 * ignored + opcode.instruction.least cpu.variant.timing
        + if cpu.took bus then opcode.instruction.premium else 0 := by
  obtain ⟨⟨ignored, opcode, taken⟩, c, bus', hfetch, hexecute, hexecuted, hcycles⟩ :=
    performed_of_step_ok h
  have hreads : Opcode.Reads cpu.begin c 0 .hl (cpu.opcodeBytes bus) ignored opcode :=
    Opcode.reads_of_fetch hfetch
  obtain ⟨pc, rfl⟩ := Action.of_run_fetchOpcode hfetch
  have hcost : cycles = 4 * ignored + opcode.instruction.cycles cpu.variant.timing taken := hcycles
  refine ⟨ignored, opcode, hreads.decoded, hexecuted, fun hc => ?_, ?_⟩
  · obtain ⟨hmin, hmax⟩ := opcode.cycles_bounds cpu.variant.timing taken
    rw [hcost, hreads.kept hc]
    omega
  · have htaken : taken = cpu.took bus := by
      rw [took_of_reads hreads hexecuted, ← Instruction.took_pc _ _ pc]
      exact (Action.execute_took opcode.instruction _).of_run_ok hexecute
    rw [hcost, htaken, took_of_reads hreads hexecuted, Instruction.cycles_took, Nat.add_assoc]

end Cpu

/-- **The cost of an instruction depends on its opcode and on whether it was taken, and on nothing
else.** Let two steps complete, over two buses, on processors of one timing and conformance, that
read the same prefix and opcode bytes. They execute one instruction, a displacement between the
opcode bytes aside, and cost the same, but for what a conditional jump, call or return or a
repeating block instruction costs more where it is taken. With the opcodes of the manual alone, no
step costs less than 4 or more than 23 cycles. -/
theorem step_cost_of_opcodeBytes [Bus β] [Bus β'] {cpu cpu' : Cpu} {bus : β} {bus' : β'}
    {cycles cycles' : Nat} (htiming : cpu.variant.timing = cpu'.variant.timing)
    (hconformance : cpu.variant.conformance = cpu'.variant.conformance)
    (hbytes : cpu.opcodeBytes bus = cpu'.opcodeBytes bus')
    (h : (cpu.step bus).result = .ok cycles) (h' : (cpu'.step bus').result = .ok cycles') :
    ∃ (opcode opcode' : Opcode) (least : Nat),
      cpu.executed bus = some opcode.instruction ∧
      cpu'.executed bus' = some opcode'.instruction ∧ opcode.undisplaced = opcode'.undisplaced ∧
      let premium := opcode.instruction.premium
      cycles = least + (if cpu.took bus then premium else 0) ∧
      cycles' = least + (if cpu'.took bus' then premium else 0) ∧
      (cpu.variant.conformance = .documented →
        (4 ≤ cycles ∧ cycles ≤ 23) ∧ 4 ≤ cycles' ∧ cycles' ≤ 23) := by
  obtain ⟨ignored, opcode, hdecode, hexecuted, hbounds, hcycles⟩ := Cpu.step_cost h
  obtain ⟨ignored', opcode', hdecode', hexecuted', hbounds', hcycles'⟩ := Cpu.step_cost h'
  rw [hbytes, hdecode'] at hdecode
  obtain ⟨rfl, hsame⟩ := Prod.mk.inj (Option.some.inj hdecode)
  have hleast : opcode'.instruction.least cpu'.variant.timing
      = opcode.instruction.least cpu.variant.timing := by
    rw [htiming, ← opcode.least_undisplaced, ← hsame, opcode'.least_undisplaced]
  have hpremium : opcode'.instruction.premium = opcode.instruction.premium := by
    rw [← opcode.premium_undisplaced, ← hsame, opcode'.premium_undisplaced]
  rw [hleast, hpremium] at hcycles'
  exact ⟨opcode, opcode', _, hexecuted, hexecuted', hsame.symm, hcycles, hcycles',
    fun hc => ⟨hbounds hc, hbounds' (hconformance ▸ hc)⟩⟩

/-- JR NZ with two displacements, where the zero flag is clear and where it is set. -/
theorem step_cost_of_opcodeBytes_jump :
    let cpu : Cpu := {}
    let cpu' : Cpu := { regs := { pc := 1, acc := { a := 0, f := { zero := true } } } }
    let m : Memory LatchedPorts := { bytes := #[0x20, 0x05], device := {} }
    let m' : Memory LatchedPorts := { bytes := #[0x00, 0x20, 0xF0], device := {} }
    cpu.opcodeBytes m = cpu'.opcodeBytes m' ∧ (cpu.step m).result = .ok 12 ∧
    (cpu'.step m').result = .ok 7 ∧ cpu.took m = true ∧ cpu'.took m' = false ∧
    ∃ opcode : Opcode, cpu.executed m = some opcode.instruction ∧
      opcode.instruction.premium = 5 := by
  intro cpu cpu' m m'
  have hbytes : cpu.opcodeBytes m = cpu'.opcodeBytes m' := by decide +kernel
  have h : (cpu.step m).result = .ok 12 := ok_of_toOption (by decide +kernel)
  have h' : (cpu'.step m').result = .ok 7 := ok_of_toOption (by decide +kernel)
  have htook : cpu.took m = true := by decide +kernel
  have htook' : cpu'.took m' = false := by decide +kernel
  have htiming : cpu.variant.timing = cpu'.variant.timing := rfl
  have hconformance : cpu.variant.conformance = cpu'.variant.conformance := rfl
  obtain ⟨opcode, -, least, hexecuted, -, -, hcycles, hcycles', -⟩ :=
    step_cost_of_opcodeBytes htiming hconformance hbytes h h'
  rw [htook, if_pos rfl] at hcycles
  rw [htook', if_neg Bool.false_ne_true] at hcycles'
  exact ⟨hbytes, h, h', htook, htook', opcode, hexecuted, by omega⟩

end Z80
