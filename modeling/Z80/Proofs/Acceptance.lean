import Z80.Proofs.Completion
import Z80.Proofs.Manual

/-!
# What a processor that keeps to the manual runs

Opcodes that the manual lists complete, and all others are refused. Most are refused before they
run; the shift that moves a one in is told apart when its operand has been read, which changes
nothing either. So with memory everywhere a step completes exactly if the manual lists its opcode
(`step_documented`).
-/

namespace Z80

namespace Opcode

theorem place_hl (field : Nat) :
    place .hl field = match Register.ofField field with
      | some name => .register name
      | none => .indirect .hl := by
  unfold place
  cases Register.ofField field with
  | none => rfl
  | some name => cases name <;> rfl

/-- No listed opcode moves a one in. -/
theorem bitOperation_of_documented {opcode : Opcode} (h : opcode.isDocumented = true) :
    opcode.instruction.bitOperation? ≠ some (.shift .sll) := by
  cases opcode with
  | main index byte =>
    revert byte
    cases index <;> exact @forall_byte _ (by decide +kernel)
  | bits byte =>
    intro he
    have hop : bitOperation byte = .shift .sll := Option.some.inj he
    rw [isDocumented, hop] at h
    exact absurd h (by decide)
  | indexedBits index displacement byte =>
    intro he
    have hop : bitOperation byte = .shift .sll := Option.some.inj he
    rw [isDocumented, hop, Bool.and_comm] at h
    exact absurd h (by simp)
  | extended byte =>
    revert byte
    exact @forall_byte _ (by decide +kernel)

/-- The shift that moves a one in, applied to memory. -/
def shiftOneByte : Byte := 0x36

theorem ofField_shiftOneByte : Register.ofField (fieldZ shiftOneByte) = none := by
  decide

/-- Of the SLL opcodes all but one name a register. -/
theorem exists_ofField {byte : Byte} (hop : bitOperation byte = .shift .sll)
    (hbyte : byte ≠ shiftOneByte) : ∃ name, Register.ofField (fieldZ byte) = some name := by
  suffices h : (Register.ofField (fieldZ byte)).isSome = true from Option.isSome_iff_exists.1 h
  revert byte
  exact @forall_byte _ (by decide +kernel)

/-- Only one opcode of SLL works on memory. -/
theorem eq_shiftOneByte {byte : Byte} (hop : bitOperation byte = .shift .sll)
    (hfield : fieldZ byte = 6) : byte = shiftOneByte := by
  revert byte
  exact @forall_byte _ (by decide +kernel)

/-- The address of the operand that is read before the opcode is told apart, if it has one: the
shift that moves a one in is looked at last. -/
def operandReadFirst? (regs : Registers) : Opcode → Option Word
  | bits byte => if byte = shiftOneByte then some regs.hl else none
  | indexedBits index displacement byte =>
    if byte = shiftOneByte then some (regs.addressFrom index.pair displacement) else none
  | main _ _ | extended _ => none

theorem operandReadFirst?_of_early {opcode : Opcode} (h : opcode.isToldApartLate = false)
    (regs : Registers) : opcode.operandReadFirst? regs = none := by
  cases opcode with
  | main | extended => rfl
  | bits byte =>
    refine if_neg fun hbyte => ?_
    rw [hbyte] at h
    exact absurd h (by decide)
  | indexedBits index displacement byte =>
    refine if_neg fun hbyte => ?_
    rw [hbyte] at h
    cases h

end Opcode

/-- A rejection, after reading the byte at an address if one is given. -/
def Dialogue.refusal {α : Type} (cpu : Cpu) : Option Word → Dialogue α
  | some address => .read cpu address fun _ => .reject cpu
  | none => .reject cpu

namespace Action

variable {opcode : Opcode} {cpu : Cpu}

/-! ## Listed opcodes run -/

/-- An opcode that is listed is not asked about. -/
theorem perform_of_documented (h : opcode.isDocumented = true) :
    perform opcode = complete opcode.instruction := by
  rw [perform_eq, admitOpcode, h]
  rfl

/-- An opcode that is listed completes on every processor. -/
theorem completes_perform (h : opcode.isDocumented = true) (v : Variant) :
    Obeys (.completes v) (perform opcode) := by
  rw [perform_of_documented h]
  exact completes_complete _ fun hop => absurd hop (Opcode.bitOperation_of_documented h)

/-! ## Unlisted opcodes are refused -/

/-- Most opcodes that are refused are refused before they run. -/
theorem perform_of_refused (h : opcode.isDocumented = false)
    (hlate : opcode.isToldApartLate = false) (hc : cpu.variant.conformance = .documented) :
    perform opcode cpu = .reject cpu := by
  rw [perform_eq, admitOpcode, h, hlate]
  show (requireUndocumented cpu).bind _ = _
  rw [requireUndocumented_of_documented hc]
  rfl

/-- The shift that moves a one in has its operand by then. -/
theorem complete_shiftOne_register (name : Register) (hc : cpu.variant.conformance = .documented) :
    complete (.bits (.shift .sll) (.register name)) cpu = .reject cpu := by
  obtain ⟨_, _, _, _, _, _, ⟨_, _, _⟩, _⟩ := cpu
  cases hc
  rfl

/-- SLL (HL) reads its operand before it is refused. -/
theorem complete_shiftOne_hl (hc : cpu.variant.conformance = .documented) :
    complete (.bits (.shift .sll) (.indirect .hl)) cpu
      = .read cpu cpu.regs.hl fun _ => .reject cpu := by
  obtain ⟨_, _, _, _, _, _, ⟨_, _, _⟩, _⟩ := cpu
  cases hc
  rfl

/-- SLL at a displacement reads its operand before it is refused. -/
theorem complete_shiftOne_indexed (index : Index) (displacement : Byte) (copy : Option Register)
    (hc : cpu.variant.conformance = .documented) :
    complete (.indexedBits (.shift .sll) index displacement copy) cpu
      = .read cpu (cpu.regs.addressFrom index.pair displacement) fun _ => .reject cpu := by
  obtain ⟨_, _, _, _, _, _, ⟨_, _, _⟩, _⟩ := cpu
  cases hc
  rfl

/-- An opcode that is told apart late is refused, if at all, by its instruction. -/
theorem perform_of_late (h : opcode.isToldApartLate = true) :
    perform opcode = complete opcode.instruction := by
  rw [perform_eq, admitOpcode, h, Bool.or_true]
  rfl

/-- An opcode that the manual does not list is refused, one of them after a look at its operand. -/
theorem perform_of_unlisted (h : opcode.isDocumented = false)
    (hc : cpu.variant.conformance = .documented) :
    perform opcode cpu = .refusal cpu (opcode.operandReadFirst? cpu.regs) := by
  cases hlate : opcode.isToldApartLate with
  | false =>
    rw [perform_of_refused h hlate hc, Opcode.operandReadFirst?_of_early hlate]
    rfl
  | true =>
    -- The operand of the shift is a register, at HL, or indexed.
    rw [perform_of_late hlate]
    cases opcode with
    | main | extended => cases hlate
    | bits byte =>
      have hop : Opcode.bitOperation byte = .shift .sll := by
        simpa [Opcode.isToldApartLate] using hlate
      rw [Opcode.instruction, hop, Opcode.place_hl]
      by_cases hbyte : byte = Opcode.shiftOneByte
      · rw [hbyte, Opcode.ofField_shiftOneByte]
        exact complete_shiftOne_hl hc
      · obtain ⟨name, hname⟩ := Opcode.exists_ofField hop hbyte
        rw [hname, Opcode.operandReadFirst?, if_neg hbyte]
        exact complete_shiftOne_register name hc
    | indexedBits index displacement byte =>
      obtain ⟨hfield, hop⟩ : Opcode.fieldZ byte = 6 ∧ Opcode.bitOperation byte = .shift .sll := by
        simpa [Opcode.isToldApartLate] using hlate
      rw [Opcode.instruction, hop, Opcode.operandReadFirst?,
        if_pos (Opcode.eq_shiftOneByte hop hfield)]
      exact complete_shiftOne_indexed index displacement _ hc

variable {δ : Type} [Device δ] {m : Memory δ}

/-- Over memory of full size the operand is there, and the opcode is refused in any case. -/
theorem run_perform_of_unlisted (h : opcode.isDocumented = false)
    (hc : cpu.variant.conformance = .documented) (hm : m.size = addressSpace) :
    (perform opcode cpu).run m = (.reject cpu : Dialogue Nat).run m := by
  rw [perform_of_unlisted h hc]
  cases opcode.operandReadFirst? cpu.regs with
  | none => rfl
  | some address => exact Dialogue.run_read (Memory.bus_read_of_full hm address) _ _

end Action

/-! ## What is reported -/

namespace Dialogue

variable {β : Type} [Bus β] {buses : Nat → β} {count : Nat} {b : Nat → Byte}

/-- A report has the bytes that the bus yields, as many as were asked for. -/
theorem readAvailable_of_yields {address : Word} (h : Bus.Yields buses count address b) :
    readAvailable count address (buses 0) = ((List.range count).map b, buses count) := by
  induction count generalizing address buses b with
  | zero => rfl
  | succ count ih =>
    have hread := h 0 (Nat.zero_lt_succ count)
    rw [show UInt16.ofNat 0 = 0 from rfl, UInt16.add_zero] at hread
    -- The rest is read from the next address on, and starts with the bus after the first read.
    have hrest : Bus.Yields (fun i => buses (i + 1)) count (address + 1) fun i => b (i + 1) := by
      intro i hi
      have hnext := h (i + 1) (Nat.succ_lt_succ hi)
      rwa [Nat.add_comm i 1, UInt16.ofNat_add, ← UInt16.add_assoc, Nat.add_comm 1 i] at hnext
    unfold readAvailable
    simp only [hread, ih hrest]
    rw [List.range_succ_eq_map, List.map_cons, List.map_map]
    rfl

/-- What is refused after a few bytes is reported with all of them, as they are yielded again. -/
theorem run_reject_past (cpu : Cpu) (hcount : count ≤ reportLimit)
    (h : Bus.Yields buses count cpu.regs.pc b) :
    ((.reject (cpu.begin.past count) : Dialogue Nat).run (buses 0))
      = { result := .error (.invalidOpcode cpu.regs.pc ((List.range count).map b))
          cpu := cpu.begin.past count
          bus := buses count } := by
  have hstart : (cpu.begin.past count).start = cpu.regs.pc := rfl
  have hfetched : ((cpu.begin.past count).regs.pc - cpu.regs.pc).toNat = count := by
    show (cpu.regs.pc + UInt16.ofNat count - cpu.regs.pc).toNat = count
    rw [UInt16.add_comm, UInt16.add_sub_cancel, UInt16.toNat_ofNat_of_lt']
    exact Nat.lt_of_le_of_lt hcount (by decide)
  show report (cpu.begin.past count) (buses 0) = _
  simp only [report, hstart, hfetched, Nat.min_eq_left hcount, readAvailable_of_yields h]

end Dialogue

namespace Manual

/-- The bytes of an opcode that the manual does not list. -/
def unlisted (b0 b1 b2 b3 : Byte) : List Byte :=
  if (b0 = 0xDD ∨ b0 = 0xFD) ∧ b1 = 0xCB then [b0, b1, b2, b3] else [b0, b1]

theorem unlisted_eq (b : Nat → Byte) :
    (List.range (unlisted (b 0) (b 1) (b 2) (b 3)).length).map b
      = unlisted (b 0) (b 1) (b 2) (b 3) := by
  unfold unlisted
  split <;> rfl

/-- A refusal covers no more bytes than are reported. -/
theorem length_unlisted_le (b0 b1 b2 b3 : Byte) :
    (unlisted b0 b1 b2 b3).length ≤ Dialogue.reportLimit := by
  unfold unlisted Dialogue.reportLimit
  split <;> simp

theorem length_unlisted_of_none {b0 b1 b2 b3 : Byte} (h : Opcode.ofBytes b0 b1 b2 b3 = none) :
    (unlisted b0 b1 b2 b3).length = 2 := by
  obtain ⟨_, -, hu⟩ := Opcode.of_ofBytes_eq_none h
  have hb : b1 ≠ 0xCB := by
    rintro rfl
    exact absurd hu (by decide)
  unfold unlisted
  rw [if_neg fun hc => hb hc.2]
  rfl

/-- An opcode that is not listed is as long as what is reported of it. -/
theorem length_unlisted {b0 b1 b2 b3 : Byte} {opcode : Opcode}
    (h : Opcode.ofBytes b0 b1 b2 b3 = some opcode) (hd : opcode.isDocumented = false) :
    opcode.length = (unlisted b0 b1 b2 b3).length := by
  unfold unlisted
  unfold Opcode.ofBytes at h
  cases hindex : Opcode.prefixIndex b0 with
  | some index =>
    obtain ⟨hi, hb0⟩ := Opcode.of_prefixIndex hindex
    simp only [hindex, Opcode.afterIndex] at h
    split at h
    · next hb =>
      cases h
      rw [if_pos ⟨hb0, hb⟩]
      rfl
    · next hb =>
      rw [if_neg fun hc => hb hc.2]
      split at h
      · cases h
        cases index with
        | hl => exact absurd rfl hi
        | ix | iy => rfl
      · cases h
  | none =>
    obtain ⟨hix, hiy⟩ := Opcode.of_prefixIndex_eq_none hindex
    rw [if_neg fun hc => hc.1.elim hix hiy]
    simp only [hindex] at h
    split at h
    · cases h
      rfl
    · split at h
      · cases h
        rfl
      · cases h
        rw [Opcode.isDocumented_main] at hd
        cases hd

end Manual

/-! ## Steps -/

namespace Cpu

variable {δ : Type} [Device δ] {m : Memory δ} {cpu : Cpu}

/-- The byte of memory some way past the program counter. -/
def ahead (cpu : Cpu) (m : Memory δ) (count : Nat) : Byte :=
  m.byte (cpu.past count).regs.pc

theorem yields_ahead (hm : m.size = addressSpace) (count : Nat) :
    Bus.Yields (fun _ => m) count cpu.begin.regs.pc (cpu.ahead m) :=
  Memory.yields fun i _ => Memory.read_of_full hm (cpu.past i).regs.pc

/-- What is listed completes. -/
theorem step_of_listed (hm : m.size = addressSpace)
    (h : Manual.Lists (cpu.ahead m 0) (cpu.ahead m 1) (cpu.ahead m 3)) :
    ∃ cycles, (cpu.step m).result = .ok cycles := by
  obtain ⟨opcode, hopcode, hd⟩ := (Opcode.isListed_ofBytes _ _ (cpu.ahead m 2) _).2 h
  have hrun : (Action.instruction cpu.begin).run m
      = (Action.perform opcode (cpu.begin.past opcode.length)).run m :=
    Action.run_instruction hopcode (yields_ahead hm _)
  have hcompletes : (Action.perform opcode (cpu.begin.past opcode.length)).Completes cpu.variant :=
    (Action.completes_perform hd cpu.variant).obeys _ rfl
  obtain ⟨cycles, hcycles⟩ := hcompletes.run_ok hm
  refine ⟨cycles, ?_⟩
  show (((Action.instruction cpu.begin).run m).blame cpu.regs.pc).result = _
  rw [hrun, Outcome.blame, hcycles]
  rfl

/-- What is not listed is reported, and nothing has changed. -/
theorem step_of_unlisted (hc : cpu.variant.conformance = .documented) (hm : m.size = addressSpace)
    (h : ¬ Manual.Lists (cpu.ahead m 0) (cpu.ahead m 1) (cpu.ahead m 3)) :
    let bytes := Manual.unlisted (cpu.ahead m 0) (cpu.ahead m 1) (cpu.ahead m 2) (cpu.ahead m 3)
    cpu.step m = {
      result := .error (.invalidOpcode cpu.regs.pc bytes)
      cpu := cpu.begin.past bytes.length
      bus := m } := by
  intro bytes
  -- Whatever the reason, the refusal comes when the bytes to be reported have been fetched.
  have hreject : (Action.instruction cpu.begin).run m
      = (.reject (cpu.begin.past bytes.length) : Dialogue Nat).run m := by
    cases hopcode :
        Opcode.ofBytes (cpu.ahead m 0) (cpu.ahead m 1) (cpu.ahead m 2) (cpu.ahead m 3) with
    | none =>
      have hbegin : cpu.begin.variant.conformance = .documented := hc
      rw [Action.run_instruction_of_none hopcode hbegin (yields_ahead hm 2)]
      unfold bytes
      rw [Manual.length_unlisted_of_none hopcode]
    | some opcode =>
      cases hd : opcode.isDocumented with
      | true => exact absurd ((Opcode.isListed_ofBytes _ _ _ _).1 ⟨opcode, hopcode, hd⟩) h
      | false =>
        have hpast : (cpu.begin.past opcode.length).variant.conformance = .documented := hc
        rw [Action.run_instruction hopcode (yields_ahead hm _),
          Action.run_perform_of_unlisted hd hpast hm, Manual.length_unlisted hopcode hd]
  have hbytes : (List.range bytes.length).map (cpu.ahead m) = bytes :=
    Manual.unlisted_eq (cpu.ahead m)
  show ((Action.instruction cpu.begin).run m).blame cpu.regs.pc = _
  rw [hreject, Dialogue.run_reject_past cpu (Manual.length_unlisted_le _ _ _ _) (yields_ahead hm _)]
  show ({
      result := .error (.invalidOpcode cpu.regs.pc
        ((List.range bytes.length).map (cpu.ahead m)))
      cpu := cpu.begin.past bytes.length
      bus := m } : Outcome (Memory δ) Nat) = _
  rw [hbytes]

end Cpu

/-- **A processor that keeps to the manual runs what the manual lists.** With memory everywhere, a
step completes exactly if the bytes at the program counter are listed. If they are not, the result
names the bytes and where they stand, and no register but the program counter, no flip-flop, no byte
of memory and no device has changed. -/
theorem step_documented {δ : Type} [Device δ] {cpu : Cpu} {m : Memory δ}
    (hc : cpu.variant.conformance = .documented) (hm : m.size = addressSpace) :
    let b0 := m.byte cpu.regs.pc
    let b1 := m.byte (cpu.regs.pc + 1)
    let b2 := m.byte (cpu.regs.pc + 2)
    let b3 := m.byte (cpu.regs.pc + 3)
    let out := cpu.step m
    ((∃ cycles, out.result = .ok cycles) ↔ Manual.Lists b0 b1 b3) ∧
    (¬ Manual.Lists b0 b1 b3 →
      out.result = .error (.invalidOpcode cpu.regs.pc
        (if (b0 = 0xDD ∨ b0 = 0xFD) ∧ b1 = 0xCB then [b0, b1, b2, b3] else [b0, b1])) ∧
      out.cpu.iff1 = cpu.iff1 ∧ out.cpu.iff2 = cpu.iff2 ∧ out.cpu.mode = cpu.mode ∧
      { out.cpu.regs with pc := cpu.regs.pc } = cpu.regs ∧ out.bus = m) := by
  intro b0 b1 b2 b3 out
  have hfirst : cpu.ahead m 0 = b0 := by
    rw [Cpu.ahead, cpu.past_zero]
  have hsecond : cpu.ahead m 1 = b1 := rfl
  have hthird : cpu.ahead m 2 = b2 := rfl
  have hfourth : cpu.ahead m 3 = b3 := rfl
  have hlisted := @Cpu.step_of_listed _ _ m cpu hm
  have hunlisted := Cpu.step_of_unlisted hc hm
  rw [hfirst, hsecond, hfourth] at hlisted hunlisted
  rw [hthird] at hunlisted
  refine ⟨⟨fun ⟨cycles, hcycles⟩ => ?_, hlisted⟩, fun h => ?_⟩
  · refine Decidable.byContradiction fun h => ?_
    rw [show out = _ from hunlisted h] at hcycles
    cases hcycles
  · rw [show out = _ from hunlisted h]
    exact ⟨rfl, rfl, rfl, rfl, rfl, rfl⟩

/-- Memory of nothing but DD: the prefix is followed by itself, which the manual does not list. -/
theorem step_documented_prefixes :
    let cpu : Cpu := { regs := { pc := 0xFFFF } }
    let m : Memory LatchedPorts := { bytes := Array.replicate addressSpace 0xDD, device := {} }
    cpu.variant.conformance = .documented ∧ m.size = addressSpace ∧
    (cpu.step m).result = .error (.invalidOpcode 0xFFFF [0xDD, 0xDD]) ∧ (cpu.step m).bus = m := by
  intro cpu m
  have hsize : m.size = addressSpace := Array.size_replicate
  have hbyte (address : Word) : m.byte address = 0xDD := by
    have h : address.toNat < addressSpace := address.toNat_lt
    simp [Memory.byte, m, h]
  have hc : cpu.variant.conformance = .documented := rfl
  have hstep := (step_documented hc hsize).2
  simp only [hbyte] at hstep
  obtain ⟨hresult, -, -, -, -, hbus⟩ := hstep (by decide)
  exact ⟨hc, hsize, hresult, hbus⟩

end Z80
