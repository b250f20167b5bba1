import Z80.Proofs.Repetition

/-!
# Searching a block

CPIR and CPDR look at the bytes from HL on until one is equal to A, or until there are no more. So
they stop at the first match, `Memory.find?`, and what they leave tells whether there was one and
where it was.
-/

namespace Z80

variable {δ : Type}

/-! ## The first match -/

namespace Memory

/-- The place in a block of `count` bytes of the first one that is equal to `v`. -/
def find? (m : Memory δ) (backwards : Bool) (start : Word) (count : Nat) (v : Byte) : Option Nat :=
  (List.range count).find? fun i => m.byte (blockAddress backwards start i) == v

/-- The number of bytes that are looked at until the first match is found, or all of them. -/
def looks (m : Memory δ) (backwards : Bool) (start : Word) (count : Nat) (v : Byte) : Nat :=
  (m.find? backwards start count v).elim count (· + 1)

variable {m : Memory δ} {backwards : Bool} {start : Word} {count : Nat} {v : Byte}

/-- A search ends at the first address that has the byte. -/
theorem find?_eq_some_iff {k : Nat} : m.find? backwards start count v = some k ↔
    k < count ∧ m.byte (blockAddress backwards start k) = v ∧
      ∀ j < k, m.byte (blockAddress backwards start j) ≠ v := by
  simp only [find?, List.find?_range_eq_some, List.mem_range, beq_iff_eq, Bool.not_eq_true',
    beq_eq_false_iff_ne, ne_eq]
  exact and_left_comm

/-- A search finds nothing if no address of the block has the byte. -/
theorem find?_eq_none_iff : m.find? backwards start count v = none ↔
    ∀ j < count, m.byte (blockAddress backwards start j) ≠ v := by
  simp only [find?, List.find?_range_eq_none, Bool.not_eq_true', beq_eq_false_iff_ne, ne_eq]

theorem isSome_find?_iff : (m.find? backwards start count v).isSome = true ↔
    ∃ k < count, m.byte (blockAddress backwards start k) = v := by
  simp only [find?, List.find?_isSome, List.mem_range, beq_iff_eq]

/-- Before the last byte that is looked at there is no match, and there it is one if there is one at
all. -/
theorem looks_cases (m : Memory δ) (backwards : Bool) (start : Word) (v : Byte) (hpos : 0 < count) :
    ∃ last < count, m.looks backwards start count v = last + 1 ∧
      (∀ j < last, m.byte (blockAddress backwards start j) ≠ v) ∧
      (v == m.byte (blockAddress backwards start last))
        = (m.find? backwards start count v).isSome ∧
      (m.find? backwards start count v = none → last + 1 = count) := by
  cases hfind : m.find? backwards start count v with
  | some k =>
    obtain ⟨hk, hmatch, hbefore⟩ := find?_eq_some_iff.1 hfind
    exact ⟨k, hk, by rw [looks, hfind]; rfl, hbefore, beq_iff_eq.2 hmatch.symm, nofun⟩
  | none =>
    have hnone := find?_eq_none_iff.1 hfind
    have hlast : count - 1 < count := Nat.sub_lt hpos Nat.one_pos
    refine ⟨count - 1, hlast, ?_, fun j hj => hnone j (Nat.lt_trans hj hlast), ?_, fun _ => ?_⟩
    · rw [looks, hfind]
      exact (Nat.sub_add_cancel hpos).symm
    · exact beq_eq_false_iff_ne.2 (hnone _ hlast).symm
    · exact Nat.sub_add_cancel hpos

/-- A search goes on while the count is not at its end and the byte is no match. -/
theorem looks_more (hpos : 0 < count) {i : Nat} (hi : i < m.looks backwards start count v) :
    (decide (i + 1 < count) && v != m.byte (blockAddress backwards start i))
      = decide (i + 1 < m.looks backwards start count v) := by
  obtain ⟨last, hlast, hlooks, hbefore, hmatch, hnone⟩ := m.looks_cases backwards start v hpos
  rw [hlooks] at hi ⊢
  rcases Nat.lt_or_eq_of_le (Nat.le_of_lt_succ hi) with hlt | rfl
  · have hne : (v != m.byte (blockAddress backwards start i)) = true :=
      bne_iff_ne.2 (hbefore i hlt).symm
    have hcount : i + 1 < count := by omega
    have hmore : i + 1 < last + 1 := by omega
    simp only [hne, hcount, hmore, decide_true, Bool.and_self]
  · rw [bne, hmatch]
    cases hfind : m.find? backwards start count v with
    | some k => simp
    | none => simp [hnone hfind]

end Memory

/-! ## The passes of a search -/

/-- The registers once `count` bytes have been looked at. -/
def Registers.searched (regs : Registers) (backwards : Bool) (m : Memory δ) (count : Nat) :
    Registers :=
  let moved := regs.writePair .hl (blockAddress backwards regs.hl count)
  { moved.writePair .bc (regs.bc - UInt16.ofNat count) with
    acc.f :=
      match count with
      | 0 => regs.acc.f
      | last + 1 =>
        let v := m.byte (blockAddress backwards regs.hl last)
        let out := (Alu.compareByte regs.acc.a v).flags
        { sign := out.sign
          zero := out.zero
          half := out.half
          parity := regs.bc - UInt16.ofNat (last + 1) != 0
          subtract := true
          carry := regs.acc.f.carry } }

namespace Registers

variable (regs : Registers) (backwards : Bool) (m : Memory δ) (count : Nat)

theorem searched_zero : regs.searched backwards m 0 = regs := by
  have hhl := writePair_blockAddress_zero regs backwards .hl
  have hbc := writePair_sub_zero regs .bc
  simp only [readPair] at hhl hbc
  simp only [searched, hhl, hbc]

theorem hl_searched : (regs.searched backwards m count).hl = blockAddress backwards regs.hl count :=
  wordOf_highByte_lowByte _

theorem bc_searched : (regs.searched backwards m count).bc = regs.bc - UInt16.ofNat count :=
  wordOf_highByte_lowByte _

/-- The registers after one more pass. -/
theorem passed_searched :
    BlockKind.passed backwards (regs.searched backwards m count)
        (m.byte (blockAddress backwards regs.hl count)) .compare
      = regs.searched backwards m (count + 1) := by
  rw [BlockKind.passed, hl_searched, bc_searched, advance_blockAddress, word_sub_succ]
  cases count <;> rfl

/-- At the end Z tells whether there is a match. -/
theorem searched_looks {count : Nat} (hpos : 0 < count) :
    let looks := m.looks backwards regs.hl count regs.acc.a
    let last := m.byte (blockAddress backwards regs.hl (looks - 1))
    let out := (Alu.compareByte regs.acc.a last).flags
    regs.searched backwards m looks
      = { (regs.writePair .hl (blockAddress backwards regs.hl looks)).writePair .bc
            (regs.bc - UInt16.ofNat looks) with
          acc.f :=
            { sign := out.sign
              zero := (m.find? backwards regs.hl count regs.acc.a).isSome
              half := out.half
              parity := regs.bc - UInt16.ofNat looks != 0
              subtract := true
              carry := regs.acc.f.carry } } := by
  obtain ⟨last, -, hlooks, -, hmatch, -⟩ := m.looks_cases backwards regs.hl regs.acc.a hpos
  intro looks
  rw [← hmatch, ← Alu.zero_compareByte, show looks = last + 1 from hlooks]
  rfl

end Registers

/-- The passes of a search. -/
theorem BlockKind.passes_compare [Device δ] (backwards : Bool) (s : BlockState δ) (count : Nat) :
    BlockKind.compare.passes backwards s count
      = { regs := s.regs.searched backwards s.memory count, memory := s.memory } := by
  induction count with
  | zero =>
    rw [Registers.searched_zero]
    rfl
  | succ count ih =>
    let regs := s.regs.searched backwards s.memory count
    rw [passes, ih]
    show BlockState.mk (passed backwards regs (s.memory.byte regs.hl) .compare) s.memory = _
    rw [Registers.hl_searched, Registers.passed_searched]

namespace Cpu

variable [Device δ] {cpu : Cpu} {m : Memory δ} {backwards : Bool}

/-- CPIR and CPDR stand at a block as long as the search goes on. -/
theorem atBlock_compare (hm : m.size = addressSpace)
    (hat : BlockKind.compare.StandsAt backwards m cpu.regs.pc) :
    cpu.AtBlock m .compare backwards
      (m.looks backwards cpu.regs.hl (wordCount cpu.regs.bc) cpu.regs.acc.a) := by
  have hpos : 0 < wordCount cpu.regs.bc := wordCount_pos _
  obtain ⟨last, hlast, hlooks, -⟩ := m.looks_cases backwards cpu.regs.hl cpu.regs.acc.a hpos
  refine ⟨hm, hat, fun i hi address ha => absurd ha (Option.some_ne_none address).symm,
    by omega, fun i hi => ?_⟩
  have hcount : i < wordCount cpu.regs.bc := by omega
  rw [passes, BlockKind.passes_compare]
  show ((cpu.regs.searched backwards m i).bc - 1 != 0
    && cpu.regs.acc.a != m.byte (cpu.regs.searched backwards m i).hl) = _
  rw [Registers.bc_searched, Registers.hl_searched, countsDown_word hcount]
  exact Memory.looks_more hpos hi

/-- **CPIR and CPDR find the first match.** Let the instruction stand in memory of full size. It
takes one step for each byte up to and including the first that is equal to A, or as many as BC
stands for if there is none. HL has moved past these bytes and BC has been counted down by their
number. Z tells whether there is a match and P/V whether the count is not at zero; N is set, S and H
are those of the last comparison, and all else is as it was. -/
theorem stepped_search (hm : m.size = addressSpace)
    (hat : BlockKind.compare.StandsAt backwards m cpu.regs.pc) :
    let regs := cpu.regs
    let address := blockAddress backwards regs.hl
    let count := wordCount regs.bc
    let looks := m.looks backwards regs.hl count regs.acc.a
    let after := cpu.stepped m looks
    cpu.RepeatsFor m looks ∧
    after.bus = m ∧
    (after.cpu.regs.acc.f.zero = true ↔ ∃ k < count, m.byte (address k) = regs.acc.a) ∧
    after.cpu
      = { cpu.begin with
          regs :=
            { (regs.writePair .hl (address looks)).writePair .bc (regs.bc - UInt16.ofNat looks) with
              acc.f :=
                let out := (Alu.compareByte regs.acc.a (m.byte (address (looks - 1)))).flags
                { sign := out.sign
                  zero := (m.find? backwards regs.hl count regs.acc.a).isSome
                  half := out.half
                  parity := regs.bc - UInt16.ofNat looks != 0
                  subtract := true
                  carry := regs.acc.f.carry }
              pc := regs.pc + 2 } } := by
  intro regs address count looks after
  have hpasses : cpu.passes m .compare backwards looks
      = { regs := regs.searched backwards m looks, memory := m } :=
    BlockKind.passes_compare backwards { regs, memory := m } looks
  obtain ⟨hrepeats, -, hcpu, hbus⟩ := (atBlock_compare hm hat).runs
  rw [hpasses, Registers.searched_looks _ _ _ (wordCount_pos regs.bc)] at hcpu
  rw [hpasses] at hbus
  refine ⟨hrepeats, hbus, ?_, hcpu⟩
  rw [hcpu]
  exact Memory.isSome_find?_iff

/-- CPDR over the beginning of memory, with a match at the last byte. -/
theorem stepped_search_last :
    let cpu : Cpu := { regs := { pc := 0x4000, acc := { a := 0x55 }, bank := { c := 3, l := 1 } } }
    let m : Memory LatchedPorts := .holding {} [(0x4000, 0xED), (0x4001, 0xB9), (0xFFFF, 0x55)]
    m.size = addressSpace ∧ BlockKind.compare.StandsAt true m cpu.regs.pc ∧
    m.looks true cpu.regs.hl (wordCount cpu.regs.bc) cpu.regs.acc.a = 3 ∧
    cpu.RepeatsFor m 3 ∧ (cpu.stepped m 3).cpu.regs.acc.f.zero = true ∧
    (cpu.stepped m 3).cpu.regs.acc.f.parity = false ∧
    (cpu.stepped m 3).cpu.regs.hl = 0xFFFE := by
  intro cpu m
  have hm : m.size = addressSpace := Memory.size_holding ..
  have hat : BlockKind.compare.StandsAt true m cpu.regs.pc :=
    ⟨Memory.byte_holding .., (Memory.byte_holding ..).trans (by decide)⟩
  have hmatch : m.byte (blockAddress true cpu.regs.hl 2) = 0x55 :=
    (Memory.byte_holding ..).trans (by decide)
  have hfind : m.find? true cpu.regs.hl 3 0x55 = some 2 := by
    refine Memory.find?_eq_some_iff.2 ⟨by decide, hmatch, fun j hj => ?_⟩
    have hcases : j = 0 ∨ j = 1 := by omega
    rw [Memory.byte_holding]
    rcases hcases with rfl | rfl <;> decide
  have hcount : wordCount cpu.regs.bc = 3 := by decide
  have hlooks : m.looks true cpu.regs.hl (wordCount cpu.regs.bc) cpu.regs.acc.a = 3 := by
    rw [hcount]
    exact congrArg (Option.elim · 3 (· + 1)) hfind
  obtain ⟨hrepeats, -, hzero, hcpu⟩ := stepped_search hm hat
  simp only [hlooks] at hrepeats hzero hcpu
  refine ⟨hm, hat, hlooks, hrepeats, hzero.2 ⟨2, by decide, hmatch⟩, ?_, ?_⟩
  · rw [hcpu]
    decide
  · rw [hcpu]
    decide

end Cpu

end Z80
