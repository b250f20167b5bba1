import Z80.Proofs.Acceptance
import Z80.Proofs.IndexPrefix
import Z80.Proofs.Operation

/-!
# Bit operations on indexed memory

An indexed bit operation does to the byte at the index register plus the displacement what the
operation without an index does to the byte at HL. `BitOperation.made` and `BitOperation.flags` say
what an operation makes of a byte and of the flags, apart from any access; `BitOperation.dialogue`
is the one sequence of accesses that both forms make: the byte is read and, unless it was only
tested, what is made of it is written back.

The forms differ in three respects: the indexed one takes eight cycles more, leaves HL alone, and
may copy the byte it wrote to a register.
-/

namespace Z80

/-! ## What an operation makes of a byte -/

namespace BitOperation

/-- The byte to be written back, with the flags before the operation; a test makes none. -/
def made : BitOperation → Byte → Flags → Option Byte
  | .shift kind, v, f => some (Alu.shift kind v f).value
  | .test _, _, _ => none
  | .reset bit, v, _ => some (Alu.clearBit bit v)
  | .set bit, v, _ => some (Alu.setBit bit v)

/-- The flags after the operation, with those before it. -/
def flags : BitOperation → Byte → Flags → Flags
  | .shift kind, v, f => (Alu.shift kind v f).flags
  | .test bit, v, f => Alu.testBit bit v f
  | .reset _, _, f | .set _, _, f => f

/-- The processor with the flags of an operation on `v`. -/
def settle (op : BitOperation) (v : Byte) (cpu : Cpu) : Cpu :=
  { cpu with regs.acc.f := op.flags v cpu.regs.acc.f }

/-- An operation on the byte at an address; `cycles` are those of a test. Where a byte is written
back, `copy` is what else becomes of the processor. -/
def dialogue (op : BitOperation) (address : Word) (cycles : Nat) (copy : Byte → Cpu → Cpu)
    (cpu : Cpu) : Dialogue Nat :=
  .read cpu address fun v =>
    match op.made v cpu.regs.acc.f with
    | none => .done cycles (op.settle v cpu)
    | some written =>
      .write (op.settle v cpu) address written
        (.done (cycles + 3) (copy written (op.settle v cpu)))

end BitOperation

/-- The processor with a byte copied to a register, if one is named. -/
def Cpu.copied (name : Option Register) (v : Byte) (cpu : Cpu) : Cpu :=
  match name with
  | none => cpu
  | some name => { cpu with regs := cpu.regs.write name v }

namespace Action

variable {op : BitOperation} {cpu : Cpu}

/-- An operation that the processor admits makes its byte and sets its flags. -/
theorem transform_eq (h : cpu.variant.conformance = .undocumented ∨ op ≠ .shift .sll) (v : Byte) :
    transform op v cpu = .done (op.made v cpu.regs.acc.f) (op.settle v cpu) := by
  cases op with
  | shift kind =>
    by_cases hk : kind = .sll
    · subst hk
      have hc : cpu.variant.conformance = .undocumented := h.resolve_right fun hne => hne rfl
      show (requireUndocumented cpu).bind _ = _
      rw [requireUndocumented_of_undocumented hc]
      rfl
    · simp only [transform, if_neg hk]
      rfl
  | test _ | reset _ | set _ => rfl

/-- An operation is refused where the processor does not admit it. -/
theorem transform_cases (op : BitOperation) (v : Byte) (cpu : Cpu) :
    transform op v cpu = .reject cpu ∨
      transform op v cpu = .done (op.made v cpu.regs.acc.f) (op.settle v cpu) := by
  by_cases hop : op = .shift .sll
  · cases hc : cpu.variant.conformance with
    | undocumented => exact .inr (transform_eq (.inl hc) v)
    | documented =>
      refine .inl ?_
      rw [hop]
      show (requireUndocumented cpu).bind _ = _
      rw [requireUndocumented_of_documented hc]
      rfl
  · exact .inr (transform_eq (.inr hop) v)

/-- Without an index the operand is at HL, and nothing is copied. -/
theorem complete_bits (h : cpu.variant.conformance = .undocumented ∨ op ≠ .shift .sll) :
    complete (.bits op (.indirect .hl)) cpu
      = op.dialogue cpu.regs.hl 12 (fun _ c => c) cpu := by
  show Dialogue.read cpu cpu.regs.hl (fun v => _) = .read cpu cpu.regs.hl (fun v => _)
  congr 1
  funext v
  show (((transform op v cpu).bind _).bind _).bind _ = _
  rw [transform_eq h]
  cases op <;> rfl

theorem complete_indexedBits {index : Index} {d : Byte} {name : Option Register}
    (h : cpu.variant.conformance = .undocumented ∨ op ≠ .shift .sll) :
    complete (.indexedBits op index d name) cpu
      = op.dialogue (cpu.regs.addressFrom index.pair d) 20 (Cpu.copied name) cpu := by
  show Dialogue.read cpu (cpu.regs.addressFrom index.pair d) (fun v => _)
    = .read cpu (cpu.regs.addressFrom index.pair d) (fun v => _)
  congr 1
  funext v
  show (((transform op v cpu).bind _).bind _).bind _ = _
  rw [transform_eq h]
  cases op <;> cases name <;> rfl

end Action

/-! ## Two forms of one operation -/

namespace BitOperation

variable {β : Type} [Bus β] (op : BitOperation) (address : Word) (cpu : Cpu)

/-- Whether an operation on the byte at an address read a byte off the bus and wrote `written` back,
and left the bus as `bus'`. -/
def WritesBack (f : Flags) (bus : β) (written : Byte) (bus' : β) : Prop :=
  ∃ v between, Bus.read bus address = (.ok v, between) ∧ op.made v f = some written ∧
    Bus.write between address written = (.ok (), bus')

/-- An operation sets the flags alone, so it does not matter when the two pairs get their own
values. -/
theorem parallel_dialogue (index : Index) (own : Cpu) :
    (op.dialogue address 12 (fun _ c => c) cpu).Parallel False
      (fun c c' => c' = Cpu.keepPairs index own c)
      (fun v c w c' => w = v + 8 ∧ c' = Cpu.keepPairs index own c)
      (op.dialogue address 20 (fun _ c => c) (Cpu.keepPairs index own cpu)) := by
  have hflags : (Cpu.keepPairs index own cpu).regs.acc.f = cpu.regs.acc.f := by
    cases index <;> rfl
  have hsettle (v : Byte) : op.settle v (Cpu.keepPairs index own cpu)
      = Cpu.keepPairs index own (op.settle v cpu) := by
    cases index <;> rfl
  refine .read rfl fun v => ?_
  rw [hflags, hsettle]
  cases op.made v cpu.regs.acc.f with
  | none => exact .done ⟨rfl, rfl⟩
  | some written => exact .write rfl (.done ⟨rfl, rfl⟩)

/-- The three ways in which an operation can end over a bus: it is refused an access and goes no
further, or it was a test, or it wrote a byte back. The clock cycles and the copy have no say in
this. -/
theorem run_dialogue (bus : β) :
    (∃ fault f bus', ∀ cycles copy, (op.dialogue address cycles copy cpu).run bus
      = { result := .error fault, cpu := { cpu with regs.acc.f := f }, bus := bus' }) ∨
    (∃ v bus', op.made v cpu.regs.acc.f = none ∧
      ∀ cycles copy, (op.dialogue address cycles copy cpu).run bus
        = { result := .ok cycles, cpu := op.settle v cpu, bus := bus' }) ∨
    (∃ v written bus', op.WritesBack address cpu.regs.acc.f bus written bus' ∧
      ∀ cycles copy, (op.dialogue address cycles copy cpu).run bus
        = { result := .ok (cycles + 3), cpu := copy written (op.settle v cpu), bus := bus' }) := by
  rcases hread : Bus.read bus address with ⟨fault | v, between⟩
  · refine .inl ⟨fault, cpu.regs.acc.f, between, fun cycles copy => ?_⟩
    simp only [dialogue, Dialogue.run, hread]
  cases hmade : op.made v cpu.regs.acc.f with
  | none =>
    refine .inr (.inl ⟨v, between, hmade, fun cycles copy => ?_⟩)
    simp only [dialogue, Dialogue.run, hread, hmade]
  | some written =>
    rcases hwrite : Bus.write between address written with ⟨fault | _, after⟩
    · refine .inl ⟨fault, op.flags v cpu.regs.acc.f, after, fun cycles copy => ?_⟩
      simp only [dialogue, Dialogue.run, hread, hmade, hwrite, settle]
    · refine .inr (.inr ⟨v, written, after, ⟨v, between, hread, hmade, hwrite⟩,
        fun cycles copy => ?_⟩)
      simp only [dialogue, Dialogue.run, hread, hmade, hwrite]

end BitOperation

namespace Opcode

/-- A byte of the CB pages with its operand replaced by memory. -/
def onMemory (byte : Byte) : Byte :=
  UInt8.ofNat (byte.toNat / 8 * 8 + 6)

theorem onMemory_fields (byte : Byte) :
    fieldX (onMemory byte) = fieldX byte ∧ fieldY (onMemory byte) = fieldY byte ∧
      fieldZ (onMemory byte) = 6 := by
  revert byte
  exact forall_byte (by decide +kernel)

theorem bitOperation_onMemory (byte : Byte) : bitOperation (onMemory byte) = bitOperation byte := by
  obtain ⟨hx, hy, -⟩ := onMemory_fields byte
  rw [bitOperation, bitOperation, hx, hy]

theorem instruction_onMemory (byte : Byte) :
    (bits (onMemory byte)).instruction = .bits (bitOperation byte) (.indirect .hl) := by
  show Instruction.bits _ (place .hl (fieldZ (onMemory byte))) = _
  rw [bitOperation_onMemory, (onMemory_fields byte).2.2]
  rfl

/-- The tests are those bytes that make none. -/
theorem made_eq_none (byte v : Byte) (f : Flags) :
    (bitOperation byte).made v f = none ↔ fieldX byte = 1 := by
  unfold bitOperation
  split
  · next h => simp [BitOperation.made, h]
  · next h => simp [BitOperation.made, h]
  · next h => simp [BitOperation.made, h]
  · next h _ => simpa [BitOperation.made] using h

end Opcode

namespace Action

variable {index : Index} {cpu : Cpu}

/-- The instruction of an opcode that the processor admits runs at once. -/
theorem perform_of_admitted {opcode : Opcode}
    (h : cpu.variant.conformance = .undocumented ∨ opcode.isDocumented = true) :
    perform opcode cpu = complete opcode.instruction cpu := by
  rcases h with hc | hlisted
  · exact perform_of_undocumented opcode hc
  · rw [perform_of_documented hlisted]

theorem instructionFrom_bitsPrefix_of_ne (hi : index ≠ .hl) :
    instructionFrom index Opcode.bitsPrefix
      = fetch >>= fun d => fetch >>= fun b => perform (.indexedBits index d b) := by
  rw [instructionFrom_eq]
  exact select_finish_bitsPrefix hi

/-- No opcode that the processor admits moves a one in where the manual counts. -/
theorem bitOperation_of_admitted {d byte : Byte}
    (h : cpu.variant.conformance = .undocumented
      ∨ (Opcode.indexedBits index d byte).isDocumented = true) :
    cpu.variant.conformance = .undocumented ∨ Opcode.bitOperation byte ≠ .shift .sll := by
  refine h.imp_right fun hlisted hop => ?_
  have hop' : (Opcode.indexedBits index d byte).instruction.bitOperation? = some (.shift .sll) :=
    congrArg some hop
  exact Opcode.bitOperation_of_documented hlisted hop'

/-- Once both bytes have been fetched, the indexed operation works on its operand. -/
theorem run_indexedBits {β : Type} [Bus β] (hi : index ≠ .hl) {d byte : Byte}
    (h : cpu.variant.conformance = .undocumented
      ∨ (Opcode.indexedBits index d byte).isDocumented = true) {bus between rest : β}
    (hd : Bus.read bus cpu.regs.pc = (.ok d, between))
    (hb : Bus.read between (cpu.regs.pc + 1) = (.ok byte, rest)) :
    (instructionFrom index Opcode.bitsPrefix cpu).run bus
      = ((Opcode.bitOperation byte).dialogue (cpu.regs.addressFrom index.pair d) 20
          (Cpu.copied (Register.ofField (Opcode.fieldZ byte))) cpu.pastByte.pastByte).run rest := by
  have hb' : Bus.read between cpu.pastByte.regs.pc = (.ok byte, rest) := hb
  have h' : cpu.pastByte.pastByte.variant.conformance = .undocumented
      ∨ (Opcode.indexedBits index d byte).isDocumented = true := h
  have haddress : cpu.pastByte.pastByte.regs.addressFrom index.pair d
      = cpu.regs.addressFrom index.pair d := by
    cases index <;> rfl
  rw [instructionFrom_bitsPrefix_of_ne hi, fetch_bind, Dialogue.run_read hd, fetch_bind,
    Dialogue.run_read hb', perform_of_admitted h', ← haddress]
  exact congrArg (Dialogue.run · rest) (complete_indexedBits (bitOperation_of_admitted h'))

/-- The operation without an index works on the byte at HL. -/
theorem perform_onMemory {byte : Byte} {address : Word}
    (h : cpu.variant.conformance = .undocumented ∨ Opcode.bitOperation byte ≠ .shift .sll) :
    perform (.bits (Opcode.onMemory byte)) (cpu.pointHl address).pastByte
      = (Opcode.bitOperation byte).dialogue address 12 (fun _ c => c)
          (cpu.pointHl address).pastByte := by
  have hlisted (hne : Opcode.bitOperation byte ≠ .shift .sll) :
      (Opcode.bits (Opcode.onMemory byte)).isDocumented = true := by
    simp [Opcode.isDocumented, Opcode.bitOperation_onMemory, hne]
  have h' : (cpu.pointHl address).pastByte.variant.conformance = .undocumented
      ∨ Opcode.bitOperation byte ≠ .shift .sll := h
  have haddress : (cpu.pointHl address).pastByte.regs.hl = address :=
    Registers.readPair_writePair_self cpu.regs .hl address
  rw [perform_of_admitted (h'.imp_right hlisted), Opcode.instruction_onMemory, complete_bits h',
    haddress]

/-- Both pairs have their own values again once the operation without an index is done. -/
theorem keepPairs_pointHl_pastByte (cpu : Cpu) (address : Word) :
    Cpu.keepPairs index cpu (cpu.pastByte.pointHl address).pastByte = cpu.pastByte.pastByte := by
  rw [Cpu.keepPairs_pastByte, Cpu.keepPairs_pointHl]

/-- **An indexed bit operation does at the operand what the operation without an index does at HL.**
Once the displacement and the selecting byte have been fetched, and unless the processor refuses it,
the indexed operation makes the accesses that the other makes if HL points to the operand, with the
same answers to the same end: eight cycles more, or the same fault. Both pairs keep their values. If
a byte was written back, it is also copied to the register that the selecting byte names, if it
names one; a test changes the flags and the program counter alone. -/
theorem instructionFrom_indexedBits (hi : index ≠ .hl) (cpu : Cpu) (d byte : Byte)
    (hadmitted : cpu.variant.conformance = .undocumented
      ∨ (Opcode.indexedBits index d byte).isDocumented = true) :
    let address := cpu.regs.addressFrom index.pair d
    let pointed := cpu.pastByte.pointHl address
    ∃ plain : Byte → Dialogue Nat,
      instructionFrom .hl Opcode.bitsPrefix pointed = .read pointed pointed.regs.pc plain ∧
      ∀ {β : Type} [Bus β] (bus between rest : β),
        Bus.read bus cpu.regs.pc = (.ok d, between) →
        Bus.read between (cpu.regs.pc + 1) = (.ok byte, rest) →
        let out := (instructionFrom index Opcode.bitsPrefix cpu).run bus
        let out' := (plain (Opcode.onMemory byte)).run rest
        out.result = out'.result.map (· + 8) ∧ out.bus = out'.bus ∧
        (∀ fault, out.result = .error fault → out.cpu = Cpu.keepPairs index cpu out'.cpu) ∧
        (∀ cycles, out.result = .ok cycles → Opcode.fieldX byte ≠ 1 →
          ∃ written,
            (Opcode.bitOperation byte).WritesBack address cpu.regs.acc.f rest written out.bus ∧
            out.cpu = (Cpu.keepPairs index cpu out'.cpu).copied
              (Register.ofField (Opcode.fieldZ byte)) written) ∧
        (Opcode.fieldX byte = 1 →
          out.cpu = Cpu.keepPairs index cpu out'.cpu ∧
          ∃ f, out.cpu = { cpu with regs.pc := cpu.regs.pc + 1 + 1, regs.acc.f := f }) := by
  intro address pointed
  have hop : cpu.pastByte.variant.conformance = .undocumented
      ∨ Opcode.bitOperation byte ≠ .shift .sll := bitOperation_of_admitted hadmitted
  refine ⟨fun b => perform (.bits b) pointed.pastByte, ?_, ?_⟩
  · rw [instructionFrom_bitsPrefix, fetch_bind]
  intro β _ bus between rest hd hb out out'
  -- Both sides as one operation at one address, from states that differ in the two pairs.
  have hout : out = ((Opcode.bitOperation byte).dialogue address 20
      (Cpu.copied (Register.ofField (Opcode.fieldZ byte))) cpu.pastByte.pastByte).run rest :=
    run_indexedBits hi hadmitted hd hb
  have hout' : out' = ((Opcode.bitOperation byte).dialogue address 12 (fun _ c => c)
      pointed.pastByte).run rest :=
    congrArg (Dialogue.run · rest) (perform_onMemory hop)
  have hplain : ((Opcode.bitOperation byte).dialogue address 20 (fun _ c => c)
      cpu.pastByte.pastByte).run rest = out'.map (· + 8) (Cpu.keepPairs index cpu) := by
    rw [hout', ← keepPairs_pointHl_pastByte cpu address]
    exact ((Opcode.bitOperation byte).parallel_dialogue address pointed.pastByte index cpu).run_eq
      (Cpu.keepPairs_keeps index cpu) rest False.elim
  rcases (Opcode.bitOperation byte).run_dialogue address cpu.pastByte.pastByte rest with
    ⟨fault, f, bus', hrun⟩ | ⟨v, bus', hmade, hrun⟩ | ⟨v, written, bus', hwritten, hrun⟩
  all_goals
    rw [hrun] at hout hplain
    have hresult := congrArg Outcome.result hplain
    have hcpu := congrArg Outcome.cpu hplain
    have hbus := congrArg Outcome.bus hplain
    clear_value out out'
    subst hout
  · -- The bus refused an access.
    refine ⟨hresult, hbus, fun _ _ => hcpu, ?_, fun _ => ⟨hcpu, f, rfl⟩⟩
    rintro cycles ⟨⟩
  · -- The byte was only tested.
    have hx := (Opcode.made_eq_none byte v _).1 hmade
    refine ⟨hresult, hbus, fun _ _ => hcpu, fun _ _ hne => absurd hx hne, fun _ => ⟨hcpu, _, rfl⟩⟩
  · -- The byte was written back, and the rest of the state is as without the copy.
    refine ⟨hresult, hbus, ?_, fun _ _ _ => ⟨written, hwritten, ?_⟩, fun hx => ?_⟩
    · rintro fault ⟨⟩
    · exact congrArg (Cpu.copied _ written) hcpu
    · obtain ⟨w, _, _, hmade, _⟩ := hwritten
      rw [(Opcode.made_eq_none byte w _).2 hx] at hmade
      cases hmade

/-- RLC (IX-1) with a copy to H: 41 at address 3 becomes 82, which H receives as well, in 23
cycles. -/
theorem instructionFrom_indexedBits_rotate :
    let cpu : Cpu := { regs := { ix := 4 }, variant := { conformance := .undocumented } }
    let bus : Memory LatchedPorts := { bytes := #[0xFF, 0x04, 0, 0x41], device := {} }
    let out := (instructionFrom .ix Opcode.bitsPrefix cpu).run bus
    Index.ix ≠ .hl ∧ cpu.variant.conformance = .undocumented ∧
    Bus.read bus cpu.regs.pc = (.ok 0xFF, bus) ∧
    Bus.read bus (cpu.regs.pc + 1) = (.ok 0x04, bus) ∧
    (∃ plain : Byte → Dialogue Nat,
      instructionFrom .hl Opcode.bitsPrefix (cpu.pastByte.pointHl 3)
        = .read (cpu.pastByte.pointHl 3) 1 plain ∧
      out.result = ((plain 0x06).run bus).result.map (· + 8) ∧
      out.bus = ((plain 0x06).run bus).bus) ∧
    (∃ written, (BitOperation.shift .rlc).WritesBack 3 {} bus written out.bus) ∧
    out.result.toOption = some 23 ∧ out.cpu.regs.bank.h = 0x82 ∧
    out.bus.bytes = #[0xFF, 0x04, 0, 0x82] := by
  intro cpu bus out
  have hi : Index.ix ≠ .hl := by decide
  have hc : cpu.variant.conformance = .undocumented := rfl
  have hd : Bus.read bus cpu.regs.pc = (.ok 0xFF, bus) := rfl
  have hb : Bus.read bus (cpu.regs.pc + 1) = (.ok 0x04, bus) := rfl
  have haddress : cpu.regs.addressFrom Index.ix.pair 0xFF = 3 := by decide
  have hcycles : out.result = .ok 23 := ok_of_toOption (by decide +kernel)
  obtain ⟨plain, hplain, hrun⟩ := instructionFrom_indexedBits hi cpu 0xFF 0x04 (.inl hc)
  obtain ⟨hresult, hbus, -, hwritten, -⟩ := hrun bus bus bus hd hb
  obtain ⟨written, hback, -⟩ := hwritten 23 hcycles (by decide)
  rw [haddress] at hplain hback
  exact ⟨hi, hc, hd, hb, ⟨plain, hplain, hresult, hbus⟩, ⟨written, hback⟩,
    by decide +kernel, by decide +kernel, by decide +kernel⟩

end Action

end Z80
