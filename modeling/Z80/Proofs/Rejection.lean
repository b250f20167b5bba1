import Z80.Proofs.Acceptance
import Z80.Proofs.Inspection
import Z80.Proofs.Record

/-!
# What a refusal depends on

Where the manual counts, what it does not list is refused on the strength of the opcode's own bytes:
they are read, read again for the report, and nothing else is asked of memory. One shift is told
apart too late for that. The SLL of a byte in memory reads its operand first, so that its refusal
touches a byte of data, and where the operand lies outside memory the step fails for that reason
instead (`step_unlisted_iff`).
-/

namespace Z80

/-! ## Recorded reads -/

/-- The reads of `count` bytes from `address` up. -/
def Access.reads (count : Nat) (address : Word) : List Access :=
  (List.range count).map fun i => .read (address + UInt16.ofNat i)

theorem Access.reads_succ (count : Nat) (address : Word) :
    reads (count + 1) address = reads count address ++ [.read (address + UInt16.ofNat count)] := by
  rw [reads, List.range_succ, List.map_append]
  rfl

namespace Recorded

variable {δ : Type} [Device δ]

/-- The record once `count` more bytes have been read from `address` up. -/
def afterReads {β : Type} (r : Recorded β) (address : Word) (count : Nat) : Recorded β :=
  { r with accesses := r.accesses ++ Access.reads count address }

theorem afterReads_zero {β : Type} (r : Recorded β) (address : Word) :
    r.afterReads address 0 = r := by
  obtain ⟨bus, accesses⟩ := r
  exact congrArg (Recorded.mk bus) (List.append_nil accesses)

theorem yields {r : Recorded (Memory δ)} {count : Nat} {address : Word}
    (h : ∀ i < count, (address + UInt16.ofNat i).toNat < r.bus.size) :
    Bus.Yields (r.afterReads address) count address
      fun i => r.bus.byte (address + UInt16.ofNat i) := by
  intro i hi
  show (r.afterReads address i).note (.read (address + UInt16.ofNat i))
    (r.bus.read (address + UInt16.ofNat i), r.bus) = _
  rw [Memory.read_of_inside (h i hi), note, afterReads, afterReads, Access.reads_succ,
    List.append_assoc]

end Recorded

/-! ## Opcodes that are not listed -/

namespace Manual

/-- The address of the operand, if it lies in memory, of a shift that moves a one in. The first
opcode is without an index, the others have one and a displacement. -/
def shiftOneOperand? (regs : Registers) (b0 b1 b2 b3 : Byte) : Option Word :=
  if b0 = 0xCB ∧ b1 = 0x36 then some regs.hl
  else if b0 = 0xDD ∧ b1 = 0xCB ∧ b3 = 0x36 then some (regs.addressFrom .ix b2)
  else if b0 = 0xFD ∧ b1 = 0xCB ∧ b3 = 0x36 then some (regs.addressFrom .iy b2)
  else none

variable {b0 b1 b2 b3 : Byte}

theorem shiftOneOperand?_of_ne (hbits : b0 ≠ 0xCB) (hindexed : b1 ≠ 0xCB) (regs : Registers) :
    shiftOneOperand? regs b0 b1 b2 b3 = none := by
  simp [shiftOneOperand?, hbits, hindexed]

theorem shiftOneOperand?_of_none (h : Opcode.ofBytes b0 b1 b2 b3 = none) (regs : Registers) :
    shiftOneOperand? regs b0 b1 b2 b3 = none := by
  obtain ⟨index, hindex, hu⟩ := Opcode.of_ofBytes_eq_none h
  refine shiftOneOperand?_of_ne ?_ ?_ regs
  · rintro rfl
    cases hindex
  · rintro rfl
    exact absurd hu (by decide)

theorem operandReadFirst?_of_afterIndex {index : Index} {opcode : Opcode}
    (hindex : Opcode.prefixIndex b0 = some index)
    (h : Opcode.afterIndex index b1 b2 b3 = some opcode) (regs : Registers) :
    opcode.operandReadFirst? regs = shiftOneOperand? regs b0 b1 b2 b3 := by
  unfold Opcode.afterIndex at h
  split at h
  · next hb =>
    cases h
    rw [hb]
    rcases Opcode.prefixIndex_cases hindex with ⟨rfl, rfl⟩ | ⟨rfl, rfl⟩ <;>
      by_cases hb3 : b3 = 0x36 <;>
      simp [shiftOneOperand?, Opcode.operandReadFirst?, Opcode.shiftOneByte, Opcode.bitsPrefix,
        Opcode.ixPrefix, Opcode.iyPrefix, Index.pair, hb3]
  · next hb =>
    split at h
    · cases h
      refine (shiftOneOperand?_of_ne ?_ hb regs).symm
      rintro rfl
      cases hindex
    · cases h

theorem operandReadFirst?_of_ofBytes {opcode : Opcode}
    (h : Opcode.ofBytes b0 b1 b2 b3 = some opcode) (regs : Registers) :
    opcode.operandReadFirst? regs = shiftOneOperand? regs b0 b1 b2 b3 := by
  unfold Opcode.ofBytes at h
  cases hindex : Opcode.prefixIndex b0 with
  | some index =>
    rw [hindex] at h
    exact operandReadFirst?_of_afterIndex hindex h regs
  | none =>
    obtain ⟨hix, hiy⟩ := Opcode.of_prefixIndex_eq_none hindex
    simp only [hindex] at h
    split at h
    · next he =>
      cases h
      rw [he]
      simp [shiftOneOperand?, Opcode.operandReadFirst?, Opcode.extendedPrefix]
    · split at h
      · next hb =>
        cases h
        rw [hb]
        by_cases hb1 : b1 = 0x36 <;>
          simp [shiftOneOperand?, Opcode.operandReadFirst?, Opcode.shiftOneByte,
            Opcode.bitsPrefix, hb1]
      · next hb =>
        cases h
        have hb' : b0 ≠ 0xCB := hb
        simp [shiftOneOperand?, Opcode.operandReadFirst?, hix, hiy, hb']

end Manual

/-- Fetching moves no operand. -/
theorem Opcode.operandReadFirst?_past (opcode : Opcode) (cpu : Cpu) (count : Nat) :
    opcode.operandReadFirst? (cpu.past count).regs = opcode.operandReadFirst? cpu.regs := by
  cases opcode with
  | main | extended | bits => rfl
  | indexedBits index => cases index <;> rfl

namespace Action

/-- **Over any bus, what the manual does not list is refused once its bytes have been fetched**, in
one case after a look at its operand. -/
theorem run_instruction_of_unlisted {β : Type} [Bus β] {buses : Nat → β} {cpu : Cpu}
    {b : Nat → Byte} (hc : cpu.variant.conformance = .documented)
    (h : ¬ Manual.Lists (b 0) (b 1) (b 3)) :
    let count := (Manual.unlisted (b 0) (b 1) (b 2) (b 3)).length
    Bus.Yields buses count cpu.regs.pc b →
    (instruction cpu).run (buses 0)
      = (.refusal (cpu.past count) (Manual.shiftOneOperand? cpu.regs (b 0) (b 1) (b 2) (b 3)) :
          Dialogue Nat).run (buses count) := by
  intro count hb
  -- The bytes name no opcode, if a prefix is without effect, or one that is not documented.
  cases hopcode : Opcode.ofBytes (b 0) (b 1) (b 2) (b 3) with
  | none =>
    have hcount : count = 2 := Manual.length_unlisted_of_none hopcode
    rw [hcount] at hb ⊢
    rw [run_instruction_of_none hopcode hc hb, Manual.shiftOneOperand?_of_none hopcode]
    rfl
  | some opcode =>
    cases hd : opcode.isDocumented with
    | true => exact absurd ((Opcode.isListed_ofBytes _ _ _ _).1 ⟨opcode, hopcode, hd⟩) h
    | false =>
      have hcount : opcode.length = count := Manual.length_unlisted hopcode hd
      have hpast : (cpu.past count).variant.conformance = .documented := hc
      rw [← hcount] at hb
      rw [run_instruction hopcode hb, hcount, perform_of_unlisted hd hpast,
        opcode.operandReadFirst?_past, Manual.operandReadFirst?_of_ofBytes hopcode]

end Action

/-! ## Steps -/

namespace Cpu

variable {δ : Type} [Device δ] {m : Memory δ} {cpu : Cpu}

/-- The bytes of an unlisted opcode at the program counter. -/
def unlistedBytes (cpu : Cpu) (m : Memory δ) : List Byte :=
  Manual.unlisted (cpu.ahead m 0) (cpu.ahead m 1) (cpu.ahead m 2) (cpu.ahead m 3)

/-- The operand of the shift that moves a one in, if that is at the program counter. -/
def shiftOneOperand? (cpu : Cpu) (m : Memory δ) : Option Word :=
  Manual.shiftOneOperand? cpu.regs (cpu.ahead m 0) (cpu.ahead m 1) (cpu.ahead m 2) (cpu.ahead m 3)

/-- The reads of the bytes of an unlisted opcode. -/
def unlistedReads (cpu : Cpu) (m : Memory δ) : List Access :=
  Access.reads (cpu.unlistedBytes m).length cpu.regs.pc

/-- The manual does not list what is at the program counter, but its bytes are all in memory. -/
structure AtUnlisted (cpu : Cpu) (m : Memory δ) : Prop where
  conformance : cpu.variant.conformance = .documented
  unlisted : ¬ Manual.Lists (cpu.ahead m 0) (cpu.ahead m 1) (cpu.ahead m 3)
  inside : ∀ i < (cpu.unlistedBytes m).length, (cpu.regs.pc + UInt16.ofNat i).toNat < m.size

/-- The report of an unlisted opcode reads its bytes. -/
theorem AtUnlisted.run_reject (h : cpu.AtUnlisted m) (log : List Access) :
    (.reject (cpu.begin.past (cpu.unlistedBytes m).length) : Dialogue Nat).run
        ({ bus := m, accesses := log } : Recorded (Memory δ))
      = { result := .error (.invalidOpcode cpu.regs.pc (cpu.unlistedBytes m))
          cpu := cpu.begin.past (cpu.unlistedBytes m).length
          bus := { bus := m, accesses := log ++ cpu.unlistedReads m } } := by
  have hyields : Bus.Yields
      (({ bus := m, accesses := log } : Recorded (Memory δ)).afterReads cpu.regs.pc)
      (cpu.unlistedBytes m).length cpu.regs.pc (cpu.ahead m) :=
    Recorded.yields h.inside
  have hbytes : (List.range (cpu.unlistedBytes m).length).map (cpu.ahead m) = cpu.unlistedBytes m :=
    Manual.unlisted_eq (cpu.ahead m)
  have hcount : (cpu.unlistedBytes m).length ≤ Dialogue.reportLimit :=
    Manual.length_unlisted_le _ _ _ _
  have hreject := Dialogue.run_reject_past cpu hcount hyields
  rwa [hbytes, Recorded.afterReads_zero] at hreject

/-- A step at an unlisted opcode reads its bytes and then refuses. -/
theorem AtUnlisted.step_eq (h : cpu.AtUnlisted m) :
    cpu.step ({ bus := m } : Recorded (Memory δ))
      = ((.refusal (cpu.begin.past (cpu.unlistedBytes m).length) (cpu.shiftOneOperand? m) :
          Dialogue Nat).run { bus := m, accesses := cpu.unlistedReads m }).blame cpu.regs.pc := by
  have hyields : Bus.Yields (({ bus := m } : Recorded (Memory δ)).afterReads cpu.regs.pc)
      (cpu.unlistedBytes m).length cpu.begin.regs.pc (cpu.ahead m) :=
    Recorded.yields h.inside
  have hc : cpu.begin.variant.conformance = .documented := h.conformance
  have hrun := Action.run_instruction_of_unlisted hc h.unlisted hyields
  rw [Recorded.afterReads_zero] at hrun
  exact congrArg (Outcome.blame cpu.regs.pc) hrun

/-- Without an operand in memory the opcode is refused on the strength of its bytes. -/
theorem AtUnlisted.step_of_none (h : cpu.AtUnlisted m) (hoperand : cpu.shiftOneOperand? m = none) :
    (cpu.step m).result = .error (.invalidOpcode cpu.regs.pc (cpu.unlistedBytes m)) ∧
    cpu.accesses m = cpu.unlistedReads m ++ cpu.unlistedReads m := by
  have hstep := h.step_eq
  rw [hoperand, Dialogue.refusal, h.run_reject] at hstep
  exact step_of_recorded hstep

/-- An operand in memory is read before the opcode is refused. -/
theorem AtUnlisted.step_of_inside (h : cpu.AtUnlisted m) {address : Word}
    (hoperand : cpu.shiftOneOperand? m = some address) (hinside : address.toNat < m.size) :
    (cpu.step m).result = .error (.invalidOpcode cpu.regs.pc (cpu.unlistedBytes m)) ∧
    cpu.accesses m = cpu.unlistedReads m ++ [.read address] ++ cpu.unlistedReads m := by
  have hread : Bus.read ({ bus := m, accesses := cpu.unlistedReads m } : Recorded (Memory δ))
      address = (.ok (m.byte address),
          { bus := m, accesses := cpu.unlistedReads m ++ [.read address] }) :=
    congrArg (Recorded.note _ _ ·) (congrArg (·, m) (Memory.read_of_inside hinside))
  have hstep := h.step_eq
  rw [hoperand, Dialogue.refusal, Dialogue.run_read hread, h.run_reject] at hstep
  exact step_of_recorded hstep

/-- If the operand lies outside memory, that is what the step fails of. -/
theorem AtUnlisted.step_of_outside (h : cpu.AtUnlisted m) {address : Word}
    (hoperand : cpu.shiftOneOperand? m = some address) (houtside : ¬ address.toNat < m.size) :
    (cpu.step m).result = .error (.outOfRange cpu.regs.pc address m.size) ∧
    cpu.accesses m = cpu.unlistedReads m ++ [.read address] := by
  have hread : Bus.read ({ bus := m, accesses := cpu.unlistedReads m } : Recorded (Memory δ))
      address = (.error (m.outside address),
          { bus := m, accesses := cpu.unlistedReads m ++ [.read address] }) :=
    congrArg (Recorded.note _ _ ·) (congrArg (·, m) (Memory.read_of_outside houtside))
  have hstep := h.step_eq
  rw [hoperand, Dialogue.refusal, Dialogue.run_read_eq, hread] at hstep
  exact step_of_recorded hstep

end Cpu

variable {δ : Type} [Device δ] {m : Memory δ} {cpu : Cpu}

/-- **What the refusal of an unlisted opcode depends on.** Let the bytes of the opcode be in memory.
The step reports them as an invalid opcode, and reads nothing else, whatever the registers hold and
however large memory is, unless the opcode is the shift that moves a one in, applied to memory. That
one is reported exactly if its operand is in memory too, and its operand is read as well. -/
theorem step_unlisted_iff (h : cpu.AtUnlisted m) :
    ((cpu.step m).result = .error (.invalidOpcode cpu.regs.pc (cpu.unlistedBytes m)) ↔
      ∀ address ∈ cpu.shiftOneOperand? m, address.toNat < m.size) ∧
    ((∀ access ∈ cpu.accesses m, access ∈ cpu.unlistedReads m) ↔
      ∀ address ∈ cpu.shiftOneOperand? m, .read address ∈ cpu.unlistedReads m) ∧
    ∀ address ∈ cpu.shiftOneOperand? m, ¬ address.toNat < m.size →
      (cpu.step m).result = .error (.outOfRange cpu.regs.pc address m.size) := by
  cases hoperand : cpu.shiftOneOperand? m with
  | none =>
    obtain ⟨hresult, haccesses⟩ := h.step_of_none hoperand
    simp [hresult, haccesses]
  | some address =>
    by_cases hinside : address.toNat < m.size
    · obtain ⟨hresult, haccesses⟩ := h.step_of_inside hoperand hinside
      simp [hresult, haccesses, hinside, or_imp]
    · obtain ⟨hresult, haccesses⟩ := h.step_of_outside hoperand hinside
      simp [hresult, haccesses, hinside, or_imp]

/-- A load of half an index register, in memory that holds no more than its two bytes. -/
theorem step_unlisted_half :
    let cpu : Cpu := { regs := { ix := 0x8000, bank := { h := 0x80 } } }
    let m : Memory LatchedPorts := { bytes := #[0xDD, 0x44], device := {} }
    cpu.AtUnlisted m ∧ (cpu.step m).result = .error (.invalidOpcode 0 [0xDD, 0x44]) ∧
    ∀ access ∈ cpu.accesses m, access ∈ cpu.unlistedReads m := by
  intro cpu m
  have hat : cpu.AtUnlisted m := ⟨rfl, by decide +kernel, by decide +kernel⟩
  have hoperand : ∀ address, address ∉ cpu.shiftOneOperand? m := by
    rw [show cpu.shiftOneOperand? m = none by decide +kernel]
    simp
  obtain ⟨hresult, haccesses, -⟩ := step_unlisted_iff hat
  exact ⟨hat, hresult.2 fun a ha => absurd ha (hoperand a),
    haccesses.2 fun a ha => absurd ha (hoperand a)⟩

/-- SLL (HL), in memory that holds no more than its two bytes: the step fails of the operand. -/
theorem step_unlisted_operand_outside :
    let cpu : Cpu := { regs := { bank := { h := 0x80 } } }
    let m : Memory LatchedPorts := { bytes := #[0xCB, 0x36], device := {} }
    cpu.AtUnlisted m ∧ (cpu.step m).result = .error (.outOfRange 0 0x8000 2) := by
  intro cpu m
  exact ⟨⟨rfl, by decide +kernel, by decide +kernel⟩, error_of_causeOf (by decide +kernel)⟩

end Z80
