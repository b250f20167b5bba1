import Z80.Memory
import Z80.Proofs.Selection

/-!
# Opcodes in memory

What the bytes at the program counter select, as a function of the bytes: `Opcode.ofBytes`. A step
over a bus that yields these bytes fetches as many of them as the opcode has, and then runs it.
A prefix that would be dropped is the one case without an opcode; the manual does not list it.
-/

namespace Z80

namespace Opcode

/-- The opcode that three bytes after an index prefix start with. -/
def afterIndex (index : Index) (b1 b2 b3 : Byte) : Option Opcode :=
  if b1 = bitsPrefix then some (.indexedBits index b2 b3)
  else if usesIndex b1 then some (.main index b1)
  else none

/-- The index that a prefix byte announces. -/
def prefixIndex (byte : Byte) : Option Index :=
  if byte = ixPrefix then some .ix else if byte = iyPrefix then some .iy else none

/-- The opcode that four bytes start with, if they do not start with a prefix to be dropped. -/
def ofBytes (b0 b1 b2 b3 : Byte) : Option Opcode :=
  match prefixIndex b0 with
  | some index => afterIndex index b1 b2 b3
  | none =>
    if b0 = extendedPrefix then some (.extended b1)
    else if b0 = bitsPrefix then some (.bits b1)
    else some (.main .hl b0)

/-- The number of bytes up to the one that selects the instruction. -/
def length : Opcode → Nat
  | main .hl _ => 1
  | main _ _ | bits _ | extended _ => 2
  | indexedBits _ _ _ => 4

/-- There are two index prefixes, one for each index register. -/
theorem prefixIndex_cases {byte : Byte} {index : Index} (h : prefixIndex byte = some index) :
    byte = ixPrefix ∧ index = .ix ∨ byte = iyPrefix ∧ index = .iy := by
  unfold prefixIndex at h
  split at h
  · next hix =>
    cases h
    exact .inl ⟨hix, rfl⟩
  · split at h
    · next hiy =>
      cases h
      exact .inr ⟨hiy, rfl⟩
    · cases h

/-- An index prefix selects another pair than HL. -/
theorem of_prefixIndex {byte : Byte} {index : Index} (h : prefixIndex byte = some index) :
    index ≠ .hl ∧ (byte = 0xDD ∨ byte = 0xFD) := by
  rcases prefixIndex_cases h with ⟨hix, rfl⟩ | ⟨hiy, rfl⟩
  · exact ⟨by decide, .inl hix⟩
  · exact ⟨by decide, .inr hiy⟩

theorem of_prefixIndex_eq_none {byte : Byte} (h : prefixIndex byte = none) :
    byte ≠ 0xDD ∧ byte ≠ 0xFD := by
  unfold prefixIndex at h
  split at h
  · cases h
  · next hix =>
    split at h
    · cases h
    · next hiy => exact ⟨hix, hiy⟩

/-- No index matters to a prefix. -/
theorem usesIndex_of_prefixIndex {byte : Byte} {index : Index} (h : prefixIndex byte = some index) :
    usesIndex byte = false := by
  rcases (of_prefixIndex h).2 with rfl | rfl <;> decide

/-- A prefix leads on to another byte. -/
theorem select_prefixIndex {budget ignored : Nat} {byte : Byte} {index : Index}
    (h : prefixIndex byte = some index) :
    select (budget + 1) ignored .hl byte = Action.fetch >>= select budget ignored index := by
  rcases prefixIndex_cases h with ⟨rfl, rfl⟩ | ⟨rfl, rfl⟩
  · exact select_ixPrefix ..
  · exact select_iyPrefix ..

/-- A byte that is no prefix is an opcode by itself. -/
theorem leadsOn_of_prefixIndex {byte : Byte} (hi : prefixIndex byte = none)
    (he : byte ≠ extendedPrefix) (hb : byte ≠ bitsPrefix) : leadsOn byte = false := by
  obtain ⟨hix, hiy⟩ := of_prefixIndex_eq_none hi
  simp [leadsOn, ixPrefix, iyPrefix, hix, hiy, he, hb]

/-- Bytes without an opcode are an index prefix and a byte to which it does not matter. -/
theorem of_ofBytes_eq_none {b0 b1 b2 b3 : Byte} (h : ofBytes b0 b1 b2 b3 = none) :
    ∃ index, prefixIndex b0 = some index ∧ usesIndex b1 = false := by
  unfold ofBytes at h
  cases hi : prefixIndex b0 with
  | some index =>
    refine ⟨index, rfl, ?_⟩
    simp only [hi, afterIndex] at h
    by_cases hb : b1 = bitsPrefix
    · rw [if_pos hb] at h
      cases h
    · rw [if_neg hb] at h
      cases hu : usesIndex b1 with
      | true =>
        rw [hu] at h
        cases h
      | false => rfl
  | none =>
    simp only [hi] at h
    split at h
    · cases h
    · split at h <;> cases h

/-- An opcode has at least one byte. -/
theorem length_pos (opcode : Opcode) : 0 < opcode.length := by
  cases opcode with
  | main index _ => cases index <;> exact Nat.zero_lt_succ _
  | _ => exact Nat.zero_lt_succ _

/-- No opcode that means the index is a prefix, but for the one of the bit page. -/
theorem leadsOn_of_usesIndex (byte : Byte) (hu : usesIndex byte = true) (hb : byte ≠ bitsPrefix) :
    leadsOn byte = false := by
  have hp : (usesIndex byte && byte != bitsPrefix) = true := by simp [hu, hb]
  exact @leadsOn_eq_false (fun b => usesIndex b && b != bitsPrefix) byte hp (by decide)

end Opcode

/-- The processor with the program counter past a number of bytes. -/
def Cpu.past (cpu : Cpu) (count : Nat) : Cpu :=
  { cpu with regs.pc := cpu.regs.pc + UInt16.ofNat count }

theorem Cpu.past_zero (cpu : Cpu) : cpu.past 0 = cpu := by
  show ({ cpu with regs.pc := cpu.regs.pc + 0 } : Cpu) = cpu
  rw [UInt16.add_zero]

theorem Cpu.past_succ (cpu : Cpu) (count : Nat) :
    cpu.past (count + 1) = (cpu.past count).pastByte := by
  simp only [past, pastByte, UInt16.ofNat_add, UInt16.add_assoc]
  rfl

namespace Action

/-- Runs an opcode that has been selected. -/
def finish (selected : Nat × Opcode) : Action Nat := do
  let cycles ← perform selected.2
  return ignoredPrefixCycles * selected.1 + cycles

/-- Without prefixes to account for, to finish is to perform. -/
theorem finish_zero (opcode : Opcode) : finish (0, opcode) = perform opcode := by
  show (do let cycles ← perform opcode; return ignoredPrefixCycles * 0 + cycles) = _
  simp only [Nat.mul_zero, Nat.zero_add, bind_pure]

/-- What follows a first byte is the selection of an opcode and its performance. -/
theorem instructionFrom_eq (index : Index) (byte : Byte) :
    instructionFrom index byte = Opcode.select addressSpace 0 index byte >>= finish :=
  rfl

/-- After an index prefix the next byte is looked at with that index. -/
theorem instructionFrom_prefixIndex {byte : Byte} {index : Index}
    (h : Opcode.prefixIndex byte = some index) :
    instructionFrom .hl byte
      = fetch >>= fun b => Opcode.select (65534 + 1) 0 index b >>= finish := by
  rw [instructionFrom_eq, show addressSpace = 65535 + 1 from rfl, Opcode.select_prefixIndex h,
    bind_assoc]

/-- After ED the next byte is an opcode of the extended page. -/
theorem instructionFrom_extendedPrefix :
    instructionFrom .hl Opcode.extendedPrefix = fetch >>= fun b => perform (.extended b) := by
  rw [instructionFrom_eq, show addressSpace = 65535 + 1 from rfl, Opcode.select_extendedPrefix,
    bind_assoc]
  simp only [pure_bind, finish_zero]

/-- After CB the next byte is an opcode of the bit page. -/
theorem instructionFrom_bitsPrefix :
    instructionFrom .hl Opcode.bitsPrefix = fetch >>= fun b => perform (.bits b) := by
  rw [instructionFrom_eq, show addressSpace = 65535 + 1 from rfl, Opcode.select_bitsPrefix,
    bind_assoc]
  simp only [pure_bind, finish_zero]

/-- After a prefix, the byte for which an index matters is the opcode, if it does not lead to the
bit operations. -/
theorem select_finish_main {budget : Nat} {index : Index} {byte : Byte}
    (hu : Opcode.usesIndex byte = true) (hb : Opcode.leadsOn byte = false) :
    (Opcode.select (budget + 1) 0 index byte >>= finish) = perform (.main index byte) := by
  rw [Opcode.select_main (.inr hu) hb, pure_bind, finish_zero]

/-- After an index prefix and CB a displacement comes first, and then the opcode. -/
theorem select_finish_bitsPrefix {budget : Nat} {index : Index} (hi : index ≠ .hl) :
    (Opcode.select (budget + 1) 0 index Opcode.bitsPrefix >>= finish)
      = fetch >>= fun d => fetch >>= fun b => perform (.indexedBits index d b) := by
  rw [Opcode.select_bitsPrefix_of_ne hi]
  simp only [bind_assoc, pure_bind, finish_zero]

/-- Where the manual counts, a prefix is not dropped: the opcode is refused. -/
theorem select_finish_ignored {budget : Nat} {index : Index} {byte : Byte} {cpu : Cpu}
    (hi : index ≠ .hl) (hb : Opcode.usesIndex byte = false)
    (hc : cpu.variant.conformance = .documented) :
    (Opcode.select (budget + 1) 0 index byte >>= finish) cpu = .reject cpu := by
  rw [Opcode.select_ignored hi hb, bind_assoc]
  show (requireUndocumented cpu).bind _ = _
  rw [requireUndocumented_of_documented hc]
  rfl

theorem fetch_bind {α : Type} (k : Byte → Action α) (cpu : Cpu) :
    (fetch >>= k) cpu = .read cpu cpu.regs.pc fun b => k b cpu.pastByte :=
  rfl

/-- A fetch over memory takes the byte at the program counter. -/
theorem run_fetch_ok {α δ : Type} [Device δ] {m : Memory δ} {cpu : Cpu} {b : Byte}
    (h : m.read cpu.regs.pc = .ok b) (k : Byte → Action α) :
    ((fetch >>= k) cpu).run m = (k b cpu.pastByte).run m := by
  have hread : Bus.read m cpu.regs.pc = (.ok b, m) := congrArg (·, m) h
  rw [fetch_bind, Dialogue.run_read hread]

end Action

/-! ## Over a bus that yields the bytes -/

variable {β : Type} [Bus β]

/-- Reading `count` bytes from `address` up yields the bytes `b`, and takes the bus from each of
`buses` to the next. -/
def Bus.Yields (buses : Nat → β) (count : Nat) (address : Word) (b : Nat → Byte) : Prop :=
  ∀ i < count, Bus.read (buses i) (address + UInt16.ofNat i) = (.ok (b i), buses (i + 1))

/-- Memory yields its bytes and stays as it is. -/
theorem Memory.yields {δ : Type} [Device δ] {m : Memory δ} {count : Nat} {address : Word}
    {b : Nat → Byte} (h : ∀ i < count, m.read (address + UInt16.ofNat i) = .ok (b i)) :
    Bus.Yields (fun _ => m) count address b :=
  fun i hi => congrArg (·, m) (h i hi)

namespace Action

variable {buses : Nat → β} {cpu : Cpu} {b : Nat → Byte}

/-- Over buses that yield the bytes ahead, the fetch of one of them goes on with it. -/
theorem run_fetch {α : Type} {count i : Nat} (h : Bus.Yields buses count cpu.regs.pc b)
    (hi : i < count) (k : Byte → Action α) :
    ((fetch >>= k) (cpu.past i)).run (buses i)
      = (k (b i) (cpu.past (i + 1))).run (buses (i + 1)) := by
  have hread : Bus.read (buses i) (cpu.past i).regs.pc = (.ok (b i), buses (i + 1)) := h i hi
  rw [fetch_bind, Dialogue.run_read hread, Cpu.past_succ]

/-- After an index prefix the opcode is read off the next three bytes. -/
theorem run_afterIndex {budget : Nat} {index : Index} {opcode : Opcode}
    (hi : index ≠ .hl) (hopcode : Opcode.afterIndex index (b 1) (b 2) (b 3) = some opcode)
    (hb : Bus.Yields buses opcode.length cpu.regs.pc b) :
    ((fetch >>= fun byte => Opcode.select (budget + 1) 0 index byte >>= finish) (cpu.past 1)).run
        (buses 1)
      = (perform opcode (cpu.past opcode.length)).run (buses opcode.length) := by
  unfold Opcode.afterIndex at hopcode
  split at hopcode
  · next hbits =>
    cases hopcode
    have hlen : (Opcode.indexedBits index (b 2) (b 3)).length = 4 := rfl
    rw [hlen] at hb ⊢
    rw [run_fetch hb (by omega), hbits, select_finish_bitsPrefix hi, run_fetch hb (by omega),
      run_fetch hb (by omega)]
  · next hbits =>
    split at hopcode
    · next hu =>
      cases hopcode
      have hlen : (Opcode.main index (b 1)).length = 2 := by
        cases index with
        | hl => exact absurd rfl hi
        | ix | iy => rfl
      rw [hlen] at hb ⊢
      rw [run_fetch hb (by omega),
        select_finish_main hu (Opcode.leadsOn_of_usesIndex (b 1) hu hbits)]
    · cases hopcode

/-- An instruction starts with the first of the bytes ahead. -/
theorem run_first {count : Nat} (hb : Bus.Yields buses (count + 1) cpu.regs.pc b) :
    (instruction cpu).run (buses 0) = (instructionFrom .hl (b 0) (cpu.past 1)).run (buses 1) := by
  have hfirst : ((fetch >>= instructionFrom .hl) (cpu.past 0)).run (buses 0) = _ :=
    run_fetch hb (Nat.zero_lt_succ count) _
  rwa [cpu.past_zero, ← instruction_eq] at hfirst

/-- **A step fetches as many bytes as its opcode has, and then runs it.** -/
theorem run_instruction {opcode : Opcode}
    (hopcode : Opcode.ofBytes (b 0) (b 1) (b 2) (b 3) = some opcode)
    (hb : Bus.Yields buses opcode.length cpu.regs.pc b) :
    (instruction cpu).run (buses 0)
      = (perform opcode (cpu.past opcode.length)).run (buses opcode.length) := by
  obtain ⟨count, hcount⟩ := Nat.exists_eq_succ_of_ne_zero (Nat.ne_of_gt opcode.length_pos)
  rw [run_first (hcount ▸ hb)]
  -- After a prefix the opcode is read off three more bytes, otherwise off one more or none.
  unfold Opcode.ofBytes at hopcode
  cases hindex : Opcode.prefixIndex (b 0) with
  | some index =>
    rw [hindex] at hopcode
    rw [instructionFrom_prefixIndex hindex]
    exact run_afterIndex (Opcode.of_prefixIndex hindex).1 hopcode hb
  | none =>
    simp only [hindex] at hopcode
    split at hopcode
    · next hextended =>
      cases hopcode
      rw [hextended, instructionFrom_extendedPrefix]
      exact run_fetch hb (Nat.lt_succ_self 1) _
    · next hextended =>
      split at hopcode
      · next hbits =>
        cases hopcode
        rw [hbits, instructionFrom_bitsPrefix]
        exact run_fetch hb (Nat.lt_succ_self 1) _
      · next hbits =>
        cases hopcode
        rw [instructionFrom_main (.inl rfl) (Opcode.leadsOn_of_prefixIndex hindex hextended hbits)]
        rfl

/-- Where the manual counts, the bytes without an opcode are an index prefix and a byte to which it
does not matter; they are refused. -/
theorem run_instruction_of_none (hopcode : Opcode.ofBytes (b 0) (b 1) (b 2) (b 3) = none)
    (hc : cpu.variant.conformance = .documented) (hb : Bus.Yields buses 2 cpu.regs.pc b) :
    (instruction cpu).run (buses 0) = (.reject (cpu.past 2) : Dialogue Nat).run (buses 2) := by
  obtain ⟨index, hindex, hu⟩ := Opcode.of_ofBytes_eq_none hopcode
  have hi := (Opcode.of_prefixIndex hindex).1
  have hpast : (cpu.past 2).variant.conformance = .documented := hc
  rw [run_first hb, instructionFrom_prefixIndex hindex, run_fetch hb (Nat.lt_succ_self 1)]
  exact congrArg (Dialogue.run · (buses 2)) (select_finish_ignored hi hu hpast)

end Action

end Z80
