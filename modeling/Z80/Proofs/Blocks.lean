import Z80.Proofs.Acceptance
import Z80.Proofs.Handler
import Z80.Proofs.Record

/-!
# One pass of a block instruction

A pass over memory of full size takes the registers and memory to `BlockKind.pass` of them, makes
the accesses `BlockKind.accesses`, and says whether there is more to do, `BlockKind.more`. The
program counter has no part in it: it is the instruction around the pass that goes back to its own
first byte.
-/

namespace Z80

variable {α δ : Type}

/-! ## Recorded memory -/

section recorded

variable [Device δ] {m : Memory δ} {log : List Access}

theorem Dialogue.run_read_recorded (hm : m.size = addressSpace) (c : Cpu) (address : Word)
    (next : Byte → Dialogue α) :
    (Dialogue.read c address next).run ({ bus := m, accesses := log } : Recorded (Memory δ))
      = (next (m.byte address)).run { bus := m, accesses := log ++ [.read address] } := by
  let r : Recorded (Memory δ) := { bus := m, accesses := log }
  have hread : Bus.read r address
      = (.ok (m.byte address), { bus := m, accesses := log ++ [.read address] }) :=
    congrArg (r.note (.read address) ·) (Memory.bus_read_of_full hm address)
  exact run_read hread c next

theorem Dialogue.run_write_recorded (hm : m.size = addressSpace) (c : Cpu) (address : Word)
    (v : Byte) (d : Dialogue α) :
    (Dialogue.write c address v d).run ({ bus := m, accesses := log } : Recorded (Memory δ))
      = d.run { bus := (m.write address v).2, accesses := log ++ [.write address v] } := by
  let r : Recorded (Memory δ) := { bus := m, accesses := log }
  have hinside : address.toNat < m.size := hm ▸ address.toNat_lt
  obtain ⟨m', hwrite, -⟩ := Memory.write_inside hinside v
  have hanswer : Bus.write r address v
      = (.ok (), { bus := m', accesses := log ++ [.write address v] }) :=
    congrArg (r.note (.write address v) ·) hwrite
  rw [run_write_eq, follow_ok hanswer, hwrite]

end recorded

/-! ## What a pass comes to -/

/-- A comparison finds zero exactly if the bytes are equal. -/
theorem Alu.zero_compareByte (a v : Byte) : (compareByte a v).flags.zero = (a == v) := by
  have ha := a.toNat_lt
  have hv := v.toNat_lt
  show (UInt8.ofNat (a.toNat + 256 - (v.toNat + 0)) == 0) = (a == v)
  rw [Bool.eq_iff_iff, beq_iff_eq, beq_iff_eq, ← UInt8.toNat_inj, ← UInt8.toNat_inj,
    UInt8.toNat_ofNat']
  show _ = 0 ↔ _
  omega

/-- What a block instruction works on. -/
structure BlockState (δ : Type) where
  regs : Registers
  memory : Memory δ

namespace BlockKind

/-- Whether a block instruction has more to do after this pass. -/
def more (regs : Registers) (m : Memory δ) : BlockKind → Bool
  | .load => regs.bc - 1 != 0
  | .compare => regs.bc - 1 != 0 && regs.acc.a != m.byte regs.hl
  | .input | .output => regs.bank.b - 1 != 0

/-- The registers after a pass over the byte `v`. -/
def passed (backwards : Bool) (regs : Registers) (v : Byte) : BlockKind → Registers
  | .load =>
    let moved := regs.writePair .hl (Action.advance backwards regs.hl)
    { (moved.writePair .de (Action.advance backwards regs.de)).writePair .bc (regs.bc - 1) with
      acc.f :=
        { sign := regs.acc.f.sign
          zero := regs.acc.f.zero
          parity := regs.bc - 1 != 0
          carry := regs.acc.f.carry } }
  | .compare =>
    let out := (Alu.compareByte regs.acc.a v).flags
    { (regs.writePair .hl (Action.advance backwards regs.hl)).writePair .bc (regs.bc - 1) with
      acc.f :=
        { sign := out.sign
          zero := out.zero
          half := out.half
          parity := regs.bc - 1 != 0
          subtract := true
          carry := regs.acc.f.carry } }
  | .input | .output =>
    { regs.writePair .hl (Action.advance backwards regs.hl) with
      bank.b := regs.bank.b - 1
      acc.f := (Alu.decByte regs.bank.b regs.acc.f).flags }

/-- A pass with the accesses it makes. -/
def dialogue (backwards : Bool) (cpu : Cpu) (kind : BlockKind) : Dialogue Bool :=
  let regs := cpu.regs
  let after (v : Byte) : Cpu := { cpu with regs := kind.passed backwards regs v }
  match kind with
  | .load => .read cpu regs.hl fun v => .write cpu regs.de v (.done (regs.bc - 1 != 0) (after v))
  | .compare =>
    .read cpu regs.hl fun v => .done (regs.bc - 1 != 0 && regs.acc.a != v) (after v)
  | .input =>
    .input cpu regs.bc fun v =>
      .write cpu regs.hl v (.done (regs.bank.b - 1 != 0) (after v))
  | .output =>
    -- The port is addressed with B as it has been decremented.
    let counted : Cpu :=
      { cpu with
        regs.bank.b := regs.bank.b - 1
        regs.acc.f := (Alu.decByte regs.bank.b regs.acc.f).flags }
    .read cpu regs.hl fun v =>
      .output counted counted.regs.bc v (.done (regs.bank.b - 1 != 0) (after v))

theorem blockPass_eq (kind : BlockKind) (backwards : Bool) (cpu : Cpu) :
    Action.blockPass kind backwards cpu = kind.dialogue backwards cpu := by
  -- The count is read back from the pair it was written to.
  have hbc : wordOf (highByte (cpu.regs.bc - 1)) (lowByte (cpu.regs.bc - 1)) = cpu.regs.bc - 1 :=
    wordOf_highByte_lowByte _
  cases kind with
  | load =>
    let regs := cpu.regs.writePair .hl (Action.advance backwards cpu.regs.hl)
    let pass (count : Word) : Dialogue Bool :=
      .read cpu cpu.regs.hl fun v => .write cpu cpu.regs.de v (.done (count != 0)
        { cpu with
          regs :=
            { (regs.writePair .de (Action.advance backwards cpu.regs.de)).writePair .bc
                (cpu.regs.bc - 1) with
              acc.f :=
                { sign := cpu.regs.acc.f.sign
                  zero := cpu.regs.acc.f.zero
                  parity := count != 0
                  carry := cpu.regs.acc.f.carry } } })
    exact congrArg pass hbc
  | compare =>
    let regs := cpu.regs.writePair .hl (Action.advance backwards cpu.regs.hl)
    let out (v : Byte) := (Alu.compareByte cpu.regs.acc.a v).flags
    let pass (count : Word) (differs : Byte → Bool) : Dialogue Bool :=
      .read cpu cpu.regs.hl fun v => .done (count != 0 && differs v)
        { cpu with
          regs :=
            { regs.writePair .bc (cpu.regs.bc - 1) with
              acc.f :=
                { sign := (out v).sign
                  zero := (out v).zero
                  half := (out v).half
                  parity := count != 0
                  subtract := true
                  carry := cpu.regs.acc.f.carry } } }
    have hdiffers : (fun v => !(out v).zero) = fun v => cpu.regs.acc.a != v :=
      funext fun v => congrArg (!·) (Alu.zero_compareByte _ v)
    exact congr (congrArg pass hbc) hdiffers
  | input => rfl
  | output => rfl

/-! ## Over memory -/

variable [Device δ]

/-- The byte of a pass. -/
def passByte (s : BlockState δ) : BlockKind → Byte
  | .input => (Device.input s.memory.device s.regs.bc).1
  | _ => s.memory.byte s.regs.hl

/-- The port that a pass sends to. -/
def outputPort (regs : Registers) : Word :=
  wordOf (regs.bank.b - 1) regs.bank.c

/-- What a pass leaves. -/
def pass (kind : BlockKind) (backwards : Bool) (s : BlockState δ) : BlockState δ :=
  let v := kind.passByte s
  { regs := kind.passed backwards s.regs v
    memory :=
      match kind with
      | .load => (s.memory.write s.regs.de v).2
      | .compare => s.memory
      | .input =>
        let asked :=
          { s.memory with device := (Device.input s.memory.device s.regs.bc).2 }
        (asked.write s.regs.hl v).2
      | .output =>
        { s.memory with device := Device.output s.memory.device (outputPort s.regs) v } }

/-- The accesses of a pass. -/
def accesses (kind : BlockKind) (s : BlockState δ) : List Access :=
  let v := kind.passByte s
  match kind with
  | .load => [.read s.regs.hl, .write s.regs.de v]
  | .compare => [.read s.regs.hl]
  | .input => [.input s.regs.bc, .write s.regs.hl v]
  | .output => [.read s.regs.hl, .output (outputPort s.regs) v]

/-- A pass keeps the size of memory. -/
theorem size_pass (kind : BlockKind) (backwards : Bool) (s : BlockState δ) :
    (kind.pass backwards s).memory.size = s.memory.size := by
  cases kind with
  | load => exact Memory.size_write ..
  | compare | output => rfl
  | input => exact Memory.size_write ..

/-- A pass leaves the program counter alone. -/
theorem pc_pass (kind : BlockKind) (backwards : Bool) (s : BlockState δ) :
    (kind.pass backwards s).regs.pc = s.regs.pc := by
  cases kind <;> rfl

/-- **A pass over recorded memory.** -/
theorem run_dialogue (kind : BlockKind) (backwards : Bool) (cpu : Cpu) {m : Memory δ}
    (hm : m.size = addressSpace) (log : List Access) :
    let s : BlockState δ := { regs := cpu.regs, memory := m }
    (kind.dialogue backwards cpu).run ({ bus := m, accesses := log } : Recorded (Memory δ))
      = { result := .ok (kind.more cpu.regs m)
          cpu := { cpu with regs := (kind.pass backwards s).regs }
          bus :=
            { bus := (kind.pass backwards s).memory, accesses := log ++ kind.accesses s } } := by
  intro s
  cases kind with
  | load =>
    rw [dialogue, Dialogue.run_read_recorded hm, Dialogue.run_write_recorded hm, List.append_assoc]
    rfl
  | compare =>
    rw [dialogue, Dialogue.run_read_recorded hm]
    rfl
  | input =>
    -- The port is asked first, and what it changes is in the device alone.
    let answer := Device.input m.device cpu.regs.bc
    let asked : Memory δ := { m with device := answer.2 }
    have hasked : asked.size = addressSpace := hm
    show (Dialogue.write cpu cpu.regs.hl answer.1 (.done (cpu.regs.bank.b - 1 != 0)
      { cpu with regs := passed backwards cpu.regs answer.1 .input })).run
        (Recorded.mk asked (log ++ [.input cpu.regs.bc])) = _
    rw [Dialogue.run_write_recorded hasked, List.append_assoc]
    rfl
  | output =>
    rw [dialogue, Dialogue.run_read_recorded hm]
    show Outcome.mk _ _ (Recorded.mk _ (log ++ [_] ++ [_])) = _
    rw [List.append_assoc]
    rfl

end BlockKind

namespace Action

variable [Device δ]

/-- What a block instruction comes to, past its own bytes. -/
theorem run_block (kind : BlockKind) (backwards repeats : Bool) (cpu : Cpu) {m : Memory δ}
    (hm : m.size = addressSpace) (log : List Access) :
    let s : BlockState δ := { regs := cpu.regs, memory := m }
    let more := repeats && kind.more cpu.regs m
    let passed := (kind.pass backwards s).regs
    (block kind backwards repeats cpu).run ({ bus := m, accesses := log } : Recorded (Memory δ))
      = { result := .ok more
          cpu :=
            { cpu with
              regs := { passed with pc := if more then cpu.regs.pc - 2 else cpu.regs.pc } }
          bus :=
            { bus := (kind.pass backwards s).memory, accesses := log ++ kind.accesses s } } := by
  intro s more passed
  have hpc : passed.pc = cpu.regs.pc := kind.pc_pass backwards s
  unfold block
  rw [run_bind, kind.blockPass_eq, kind.run_dialogue backwards cpu hm log]
  simp only [more, ← hpc]
  generalize kind.more cpu.regs m = again
  cases repeats <;> cases again <;> rfl

end Action

end Z80
