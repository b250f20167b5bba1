import Z80.Proofs.Growth

/-!
# What a setup builds

A setup is built if its memory has a size that addresses can reach and its image and its program
both fit. Its machine starts with the program lying over the image and the image over zeros
(`Setup.initialByte?`), with the registers of the setup, and with a flag register that two fields of
the setup have a part in (`Setup.Built`).

Every machine there is has a size of memory that can be built, so that a snapshot of it can be, and
what is built shows what the snapshot showed but for the account, which starts again.
-/

namespace Z80

variable {δ ε : Type}

/-! ## Memory -/

namespace Memory

variable {m m' : Memory δ} {start : Word} {block : Array Byte}

/-- A block lies over what was there before. -/
theorem getElem?_load (h : m.load start block = .ok m') (i : Nat) :
    m'.bytes[i]? = if start.toNat ≤ i ∧ i < start.toNat + block.size then block[i - start.toNat]?
      else m.bytes[i]? := by
  simp only [load] at h
  split at h
  · cases h
  · next hfits =>
    cases h
    have hstop : start.toNat + block.size ≤ m.bytes.size := Nat.not_lt.1 hfits
    have hbefore : (m.bytes.extract 0 start.toNat).size = start.toNat := by
      rw [Array.size_extract]
      omega
    have hthrough : (m.bytes.extract 0 start.toNat ++ block).size = start.toNat + block.size := by
      rw [Array.size_append, hbefore]
    show (m.bytes.extract 0 start.toNat ++ block ++ _)[i]? = _
    -- What is asked for lies before the block, in it or behind it.
    by_cases hi : i < start.toNat
    · rw [if_neg (by omega), Array.getElem?_append_left (by omega),
        Array.getElem?_append_left (by omega), Array.getElem?_extract, if_pos (by omega),
        Nat.zero_add]
    by_cases hi' : i < start.toNat + block.size
    · rw [if_pos ⟨Nat.not_lt.1 hi, hi'⟩, Array.getElem?_append_left (by omega),
        Array.getElem?_append_right (by omega), hbefore]
    · rw [if_neg fun h => hi' h.2, Array.getElem?_append_right (by omega), hthrough,
        Array.getElem?_extract, Nat.add_sub_cancel' (Nat.not_lt.1 hi')]
      split
      · rfl
      · exact (Array.getElem?_eq_none (by omega)).symm

theorem getElem?_zeroed {size i : Nat} (h : i < size) (device : δ) :
    (zeroed size device).bytes[i]? = some 0 := by
  rw [zeroed, Array.getElem?_replicate, if_pos h]

end Memory

/-! ## Setups -/

namespace Setup

/-- The byte at an address below the size of memory, as a machine starts. -/
def initialByte? (s : Setup) (i : Nat) : Option Byte :=
  if s.loadAddress.toNat ≤ i ∧ i < s.loadAddress.toNat + s.program.size then
    s.program[i - s.loadAddress.toNat]?
  else if i < s.image.size then s.image[i]?
  else some 0

/-- Whether a setup has a size of memory that addresses can reach, and room for its image and its
program. -/
def Fits (s : Setup) : Prop :=
  (1 ≤ s.memorySize ∧ s.memorySize ≤ addressSpace) ∧ s.image.size ≤ s.memorySize ∧
    s.loadAddress.toNat + s.program.size ≤ s.memorySize

instance (s : Setup) : Decidable s.Fits :=
  inferInstanceAs (Decidable (_ ∧ _))

/-- A machine as a setup wants it at the start. -/
structure Built (s : Setup) (device : δ) (m : Machine δ) : Prop where
  size : m.memory.size = s.memorySize
  byte : ∀ i < s.memorySize, m.memory.bytes[i]? = s.initialByte? i
  device : m.memory.device = device
  /-- All registers but F are those of the setup. -/
  registers : { m.cpu.regs with acc.f := s.registers.acc.f } = s.registers
  conditions : m.cpu.regs.acc.f.toConditions = s.flags
  bit5 : m.cpu.regs.acc.f.bit5 = s.registers.acc.f.bit5
  bit3 : m.cpu.regs.acc.f.bit3 = s.registers.acc.f.bit3
  iff1 : m.cpu.iff1 = s.interruptsEnabled
  iff2 : m.cpu.iff2 = s.iff2.getD s.interruptsEnabled

variable {s : Setup} {device : δ} {m : Machine δ}

/-- The checks of a setup find no problem exactly if it fits. -/
theorem problem_eq_none_iff_fits : s.problem? = none ↔ s.Fits := by
  rw [problem_eq_none_iff, Fits, Nat.one_le_iff_ne_zero]

theorem getElem?_memory {memory : Memory δ} (h : s.memory device = .ok memory) {i : Nat}
    (hi : i < s.memorySize) : memory.bytes[i]? = s.initialByte? i := by
  obtain ⟨filled, himage, hprogram⟩ := memory_eq_ok_iff.1 h
  rw [Memory.getElem?_load hprogram, Memory.getElem?_load himage, Memory.getElem?_zeroed hi]
  simp [initialByte?]

/-- A machine that has been built is as its setup says. -/
theorem built_of_build (h : s.build device = .ok m) : s.Built device m := by
  obtain ⟨-, memory, hmemory, rfl⟩ := of_build h
  obtain ⟨hsize, hdevice⟩ := memory_keeps hmemory
  exact {
    size := hsize
    byte := fun i hi => getElem?_memory hmemory hi
    device := hdevice
    registers := rfl
    conditions := rfl
    bit5 := rfl
    bit3 := rfl
    iff1 := rfl
    iff2 := rfl }

/-- A machine can be built from a setup that fits, and from no other. -/
theorem exists_build_iff : (∃ m, s.build device = .ok m) ↔ s.Fits := by
  rw [← problem_eq_none_iff_fits]
  refine ⟨fun ⟨m, hbuilt⟩ => (of_build hbuilt).1, fun hproblem => ?_⟩
  obtain ⟨memory, hmemory⟩ := exists_memory hproblem device
  unfold build
  rw [hproblem, hmemory]
  exact ⟨_, rfl⟩

end Setup

/-- **Construction.** A setup is built if and only if it fits, and what stands in the way otherwise
is the setup. What is built has the memory and the registers that the setup describes. And a
snapshot of any machine that can come of a setup can be built; a snapshot of what is built is the
same but for the account. -/
theorem build_exact [Device δ] (device : δ) (device' : ε) :
    (∀ s : Setup, ((∃ m, s.build device = .ok m) ↔ s.Fits) ∧
      (¬ s.Fits → ∃ problem, s.build device = .error (.setup problem)) ∧
      ∀ m, s.build device = .ok m → s.Built device m) ∧
    ∀ m : Machine δ, m.Reachable → ∃ m', m.snapshot.toSetup.build device' = .ok m' ∧
      m'.snapshot = { m.snapshot with cycles := 0, iterations := 0, status := .running } := by
  refine ⟨fun s => ⟨Setup.exists_build_iff, fun hfits => ?_, fun m => Setup.built_of_build⟩,
    fun m hm => ⟨m.rebuilt device', hm.build_snapshot device', rfl⟩⟩
  cases hbuilt : s.build device with
  | ok m => exact absurd (Setup.exists_build_iff.1 ⟨m, hbuilt⟩) hfits
  | error fault =>
    obtain ⟨problem, rfl⟩ := Setup.of_build_error hbuilt
    exact ⟨problem, rfl⟩

/-- A program over an image over zeros, and its machine after a run; and a program of no bytes that
starts behind the end of memory. -/
theorem build_exact_overlaid :
    let s : Setup :=
      { memorySize := 4, image := #[1, 2, 0x76], program := #[0x3C], loadAddress := 1
        registers := { acc := { a := 0, f := { carry := true, bit3 := true } } }
        flags := { zero := true } }
    let behind : Setup := { memorySize := 4, loadAddress := 5 }
    s.Fits ∧ ¬ behind.Fits ∧
    (∃ problem, behind.build ({} : LatchedPorts) = .error (.setup problem)) ∧
    ∃ m : Machine LatchedPorts, s.build {} = .ok m ∧
      [0, 1, 2, 3].map (m.memory.bytes[·]?) = [some 1, some 0x3C, some 0x76, some 0] ∧
      m.cpu.regs.acc.f.carry = false ∧ m.cpu.regs.acc.f.bit3 = true ∧ m.Reachable ∧
      let stopped := m.run.2.snapshot
      ∃ m' : Machine LatchedPorts, stopped.toSetup.build {} = .ok m' ∧
        m'.snapshot = { stopped with cycles := 0, iterations := 0, status := .running } := by
  intro s behind
  have hfits : s.Fits := by decide
  have hbehind : ¬ behind.Fits := by decide
  obtain ⟨hsetups, hsnapshots⟩ := build_exact ({} : LatchedPorts) ({} : LatchedPorts)
  obtain ⟨m, hm⟩ := (hsetups s).1.2 hfits
  have hbuilt : s.Built {} m := (hsetups s).2.2 m hm
  have hcarry : m.cpu.regs.acc.f.carry = false := congrArg (·.carry) hbuilt.conditions
  have hreachable : m.Reachable := .build hm
  refine ⟨hfits, hbehind, (hsetups behind).2.1 hbehind, m, hm, ?_, hcarry, hbuilt.bit3, hreachable,
    hsnapshots m.run.2 (hreachable.operate .run)⟩
  simp only [List.map_cons, List.map_nil]
  rw [hbuilt.byte 0 (by decide), hbuilt.byte 1 (by decide), hbuilt.byte 2 (by decide),
    hbuilt.byte 3 (by decide)]
  decide

end Z80
