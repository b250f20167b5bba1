import Z80.Proofs.Repetition

/-!
# Copying a block

LDIR and LDDR copy a block byte by byte, from HL to DE, and so that each byte is read after all
those before it have been written: `Memory.copied`. Where the blocks overlap, a byte may be
copied on; where they do not, the target is the source as it was.
-/

namespace Z80

variable {δ : Type}

/-! ## Bytes copied one after another -/

namespace Memory

/-- Memory with `count` bytes copied from `source` to `target`, one after another. -/
def copied (m : Memory δ) (backwards : Bool) (source target : Word) : (count : Nat) → Memory δ
  | 0 => m
  | count + 1 =>
    let before := m.copied backwards source target count
    (before.write (blockAddress backwards target count)
      (before.byte (blockAddress backwards source count))).2

variable {m : Memory δ} {backwards : Bool} {source target : Word} {count : Nat}

theorem size_copied (m : Memory δ) (backwards : Bool) (source target : Word) (count : Nat) :
    (m.copied backwards source target count).size = m.size := by
  induction count with
  | zero => rfl
  | succ count ih => exact (size_write ..).trans ih

/-- The blocks of `count` bytes from `source` and `target` have no address in common. -/
def Disjoint (backwards : Bool) (source target : Word) (count : Nat) : Prop :=
  ∀ i < count, ∀ j < count, blockAddress backwards source i ≠ blockAddress backwards target j

/-- One more byte is copied from where the last pass left off, with what earlier passes have
stored. -/
theorem byte_copied_succ (hm : m.size = addressSpace) (count : Nat) (address : Word) :
    (m.copied backwards source target (count + 1)).byte address
      = if address = blockAddress backwards target count then
          (m.copied backwards source target count).byte (blockAddress backwards source count)
        else (m.copied backwards source target count).byte address :=
  byte_write ((size_copied ..).trans hm) ..

/-- A copy stores its bytes one after another, each read when its turn has come. -/
theorem storesEach_copied (hm : m.size = addressSpace) (count : Nat) :
    StoresEach (m.copied backwards source target) (blockAddress backwards target)
      (fun i => (m.copied backwards source target i).byte (blockAddress backwards source i))
      count :=
  fun i _ => byte_copied_succ hm i

/-- Outside the target nothing changes. -/
theorem byte_copied_of_ne (hm : m.size = addressSpace) {address : Word}
    (ha : ∀ i < count, address ≠ blockAddress backwards target i) :
    (m.copied backwards source target count).byte address = m.byte address :=
  (storesEach_copied hm count).elsewhere ha

/-- If the blocks are disjoint, the target becomes what the source was. -/
theorem byte_copied_of_disjoint (hm : m.size = addressSpace) (hcount : count ≤ addressSpace)
    (hd : Disjoint backwards source target count) {i : Nat} (hi : i < count) :
    (m.copied backwards source target count).byte (blockAddress backwards target i)
      = m.byte (blockAddress backwards source i) := by
  rw [(storesEach_copied hm count).stored (blockAddress_inj backwards target hcount) hi]
  exact byte_copied_of_ne hm fun j hj => hd i hi j (Nat.lt_trans hj hi)

end Memory

/-! ## The passes of a copy -/

/-- The registers once `count` bytes have been copied. -/
def Registers.copied (regs : Registers) (backwards : Bool) (count : Nat) : Registers :=
  let moved := regs.writePair .hl (blockAddress backwards regs.hl count)
  { (moved.writePair .de (blockAddress backwards regs.de count)).writePair .bc
      (regs.bc - UInt16.ofNat count) with
    acc.f :=
      match count with
      | 0 => regs.acc.f
      | _ + 1 =>
        { sign := regs.acc.f.sign
          zero := regs.acc.f.zero
          parity := regs.bc - UInt16.ofNat count != 0
          carry := regs.acc.f.carry } }

namespace Registers

variable (regs : Registers) (backwards : Bool) (count : Nat)

theorem copied_zero : regs.copied backwards 0 = regs := by
  have hhl := writePair_blockAddress_zero regs backwards .hl
  have hde := writePair_blockAddress_zero regs backwards .de
  have hbc := writePair_sub_zero regs .bc
  simp only [readPair] at hhl hde hbc
  simp only [copied, hhl, hde, hbc]

theorem hl_copied : (regs.copied backwards count).hl = blockAddress backwards regs.hl count :=
  wordOf_highByte_lowByte _

theorem de_copied : (regs.copied backwards count).de = blockAddress backwards regs.de count :=
  wordOf_highByte_lowByte _

theorem bc_copied : (regs.copied backwards count).bc = regs.bc - UInt16.ofNat count :=
  wordOf_highByte_lowByte _

/-- At the end the count is zero, so that P/V is clear. -/
theorem copied_wordCount :
    regs.copied backwards (wordCount regs.bc)
      = { ((regs.writePair .hl (blockAddress backwards regs.hl (wordCount regs.bc))).writePair .de
            (blockAddress backwards regs.de (wordCount regs.bc))).writePair .bc 0 with
          acc.f :=
            { sign := regs.acc.f.sign, zero := regs.acc.f.zero, carry := regs.acc.f.carry } } := by
  have hpos := wordCount_pos regs.bc
  have hzero : regs.bc - UInt16.ofNat (wordCount regs.bc) = 0 := by
    rw [ofNat_wordCount, UInt16.sub_self]
  generalize wordCount regs.bc = count at *
  cases count with
  | zero => exact absurd hpos (Nat.lt_irrefl 0)
  | succ last =>
    simp only [copied, hzero]
    rfl

/-- The registers after one more pass. -/
theorem passed_copied (v : Byte) :
    BlockKind.passed backwards (regs.copied backwards count) v .load
      = regs.copied backwards (count + 1) := by
  rw [BlockKind.passed, hl_copied, de_copied, bc_copied, advance_blockAddress,
    advance_blockAddress, word_sub_succ]
  cases count <;> rfl

end Registers

/-- The passes of a copy. -/
theorem BlockKind.passes_load [Device δ] (backwards : Bool) (s : BlockState δ) (count : Nat) :
    BlockKind.load.passes backwards s count
      = { regs := s.regs.copied backwards count
          memory := s.memory.copied backwards s.regs.hl s.regs.de count } := by
  induction count with
  | zero =>
    rw [Registers.copied_zero]
    rfl
  | succ count ih =>
    let before := s.memory.copied backwards s.regs.hl s.regs.de count
    let regs := s.regs.copied backwards count
    rw [passes, ih]
    show BlockState.mk (passed backwards regs (before.byte regs.hl) .load)
      (before.write regs.de (before.byte regs.hl)).2 = _
    rw [Registers.passed_copied, Registers.hl_copied, Registers.de_copied]
    rfl

namespace Cpu

variable [Device δ] {cpu : Cpu} {m : Memory δ} {backwards : Bool}

/-- LDIR and LDDR stand at a block as long as BC counts, unless the copy runs over the
instruction. -/
theorem atBlock_load (hm : m.size = addressSpace)
    (hat : BlockKind.load.StandsAt backwards m cpu.regs.pc)
    (hspares : ∀ i, i + 1 < wordCount cpu.regs.bc →
      blockAddress backwards cpu.regs.de i ≠ cpu.regs.pc ∧
        blockAddress backwards cpu.regs.de i ≠ cpu.regs.pc + 1) :
    cpu.AtBlock m .load backwards (wordCount cpu.regs.bc) := by
  refine ⟨hm, hat, fun i hi address ha => ?_, wordCount_pos _, fun i hi => ?_⟩
  · rw [BlockKind.passes_load] at ha
    have htarget : (cpu.regs.copied backwards i).de = address := Option.some.inj ha
    rw [Registers.de_copied] at htarget
    exact htarget ▸ hspares i hi
  · rw [passes, BlockKind.passes_load]
    show ((cpu.regs.copied backwards i).bc - 1 != 0) = _
    rw [Registers.bc_copied]
    exact countsDown_word hi

/-- **LDIR and LDDR copy a block.** Let the instruction stand in memory of full size, and let none
of the targets but the last be one of its own two bytes. It takes as many steps as BC stands for.
The bytes are copied one after another, so that a block that overlaps its target may be copied on,
and one that does not ends up there as it was. HL and DE have moved past the blocks, BC is zero, of
the flags S, Z and C are as they were and the others clear, and all else is as it was. -/
theorem stepped_copy (hm : m.size = addressSpace)
    (hat : BlockKind.load.StandsAt backwards m cpu.regs.pc)
    (hspares : ∀ i, i + 1 < wordCount cpu.regs.bc →
      blockAddress backwards cpu.regs.de i ≠ cpu.regs.pc ∧
        blockAddress backwards cpu.regs.de i ≠ cpu.regs.pc + 1) :
    let regs := cpu.regs
    let count := wordCount regs.bc
    let source := blockAddress backwards regs.hl
    let target := blockAddress backwards regs.de
    let after := cpu.stepped m count
    cpu.RepeatsFor m count ∧
    after.bus = m.copied backwards regs.hl regs.de count ∧
    (∀ address, (∀ i < count, address ≠ target i) → after.bus.byte address = m.byte address) ∧
    (Memory.Disjoint backwards regs.hl regs.de count →
      ∀ i < count, after.bus.byte (target i) = m.byte (source i)) ∧
    after.cpu
      = { cpu.begin with
          regs :=
            { ((regs.writePair .hl (source count)).writePair .de (target count)).writePair .bc 0
                with
              acc.f :=
                { sign := regs.acc.f.sign, zero := regs.acc.f.zero, carry := regs.acc.f.carry }
              pc := regs.pc + 2 } } := by
  intro regs count source target after
  have hpasses : cpu.passes m .load backwards count
      = { regs := regs.copied backwards count
          memory := m.copied backwards regs.hl regs.de count } :=
    BlockKind.passes_load backwards { regs, memory := m } count
  obtain ⟨hrepeats, -, hcpu, hbus⟩ := (atBlock_load hm hat hspares).runs
  rw [hpasses] at hcpu hbus
  refine ⟨hrepeats, hbus, fun address ha => ?_, fun hd i hi => ?_, ?_⟩
  · rw [hbus]
    exact Memory.byte_copied_of_ne hm ha
  · rw [hbus]
    exact Memory.byte_copied_of_disjoint hm (wordCount_le _) hd hi
  · rw [hcpu, Registers.copied_wordCount]

/-- LDIR from the end of memory on, with a target that begins one byte after the source: the first
byte is copied on. -/
theorem stepped_copy_overlapping :
    let cpu : Cpu := { regs := { pc := 0xFFFF, bank := { c := 3, d := 0x80, e := 1, h := 0x80 } } }
    let m : Memory LatchedPorts := .holding {} [(0xFFFF, 0xED), (0, 0xB0), (0x8000, 0x55)]
    m.size = addressSpace ∧ BlockKind.load.StandsAt false m cpu.regs.pc ∧
    wordCount cpu.regs.bc = 3 ∧
    (∀ i, i + 1 < 3 → blockAddress false cpu.regs.de i ≠ cpu.regs.pc ∧
      blockAddress false cpu.regs.de i ≠ cpu.regs.pc + 1) ∧
    cpu.RepeatsFor m 3 ∧ (cpu.stepped m 3).cpu.regs.pc = 1 ∧
    (cpu.stepped m 3).cpu.regs.hl = 0x8003 ∧ (cpu.stepped m 3).bus.byte 0x8003 = 0x55 := by
  intro cpu m
  have hm : m.size = addressSpace := Memory.size_holding ..
  have hat : BlockKind.load.StandsAt false m cpu.regs.pc :=
    ⟨Memory.byte_holding .., (Memory.byte_holding ..).trans (by decide)⟩
  have hcount : wordCount cpu.regs.bc = 3 := by decide
  have hspares : ∀ i, i + 1 < 3 → blockAddress false cpu.regs.de i ≠ cpu.regs.pc ∧
      blockAddress false cpu.regs.de i ≠ cpu.regs.pc + 1 := by
    intro i hi
    have hcases : i = 0 ∨ i = 1 := by omega
    rcases hcases with rfl | rfl <;> decide
  have hcopy := stepped_copy hm hat (hcount ▸ hspares)
  simp only [hcount] at hcopy
  obtain ⟨hrepeats, hbus, -, -, hcpu⟩ := hcopy
  have hcopied : (m.copied false 0x8000 0x8001 3).byte 0x8003 = 0x55 := by
    rw [Memory.byte_copied_succ hm 2, if_pos (by decide)]
    show (m.copied false 0x8000 0x8001 2).byte 0x8002 = _
    rw [Memory.byte_copied_succ hm 1, if_pos (by decide)]
    show (m.copied false 0x8000 0x8001 1).byte 0x8001 = _
    rw [Memory.byte_copied_succ hm 0, if_pos (by decide)]
    exact Memory.byte_holding ..
  refine ⟨hm, hat, hcount, hspares, hrepeats, ?_, ?_, ?_⟩
  · rw [hcpu]
    decide
  · rw [hcpu]
    decide
  · rw [hbus]
    exact hcopied

end Cpu

end Z80
