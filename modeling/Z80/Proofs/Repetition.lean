import Z80.Proofs.Blocks
import Z80.Proofs.Counting
import Z80.Proofs.Masking
import Z80.Proofs.Rejection

/-!
# Repeating block instructions

A block instruction that repeats itself takes one step for each pass, and each of these steps
decodes the instruction anew. If the instruction still stands in memory at each of them, the passes
follow one another until there is nothing more to do (`Cpu.AtBlock.runs`). What remains to be said
of each kind is what its passes come to and when they are done.
-/

namespace Z80

variable {β δ : Type}

/-! ## Steps one after another -/

section stepped

variable [Bus β]

/-- The processor and its bus after `count` steps. -/
def Cpu.stepped (cpu : Cpu) (bus : β) (count : Nat) : Watch β :=
  ({ cpu, bus } : Watch β).respondAll (List.replicate count .step)

/-- The outcome of the step that comes next. -/
def Watch.next (w : Watch β) : Outcome β Nat :=
  w.cpu.step w.bus

/-- The accesses of the step that comes next. -/
def Watch.nextAccesses (w : Watch β) : List Access :=
  w.cpu.accesses w.bus

theorem Cpu.stepped_succ (cpu : Cpu) (bus : β) (count : Nat) :
    (cpu.stepped bus (count + 1)).cpu = (cpu.stepped bus count).next.cpu ∧
      (cpu.stepped bus (count + 1)).bus = (cpu.stepped bus count).next.bus := by
  rw [stepped, Watch.respondAll_replicate_succ]
  exact ⟨rfl, rfl⟩

/-- The instruction at the program counter takes `count` steps: each of them but the last goes back
to it in 21 clock cycles, and the last goes on in 16, past its two bytes. -/
structure Cpu.RepeatsFor (cpu : Cpu) (bus : β) (count : Nat) : Prop where
  pos : 0 < count
  again : ∀ i, i + 1 < count → (cpu.stepped bus i).next.result = .ok 21 ∧
    (cpu.stepped bus (i + 1)).cpu.regs.pc = cpu.regs.pc
  last : ∀ i, i + 1 = count → (cpu.stepped bus i).next.result = .ok 16 ∧
    (cpu.stepped bus (i + 1)).cpu.regs.pc = cpu.regs.pc + 2

end stepped

/-! ## One step -/

namespace BlockKind

/-- The byte that selects the repeating instruction on the ED page. -/
def repeatByte (backwards : Bool) : BlockKind → Byte
  | .load => if backwards then 0xB8 else 0xB0
  | .compare => if backwards then 0xB9 else 0xB1
  | .input => if backwards then 0xBA else 0xB2
  | .output => if backwards then 0xBB else 0xB3

/-- The repeating instruction stands in memory. -/
structure StandsAt (kind : BlockKind) (backwards : Bool) (m : Memory δ) (address : Word) :
    Prop where
  first : m.byte address = 0xED
  second : m.byte (address + 1) = kind.repeatByte backwards

theorem instruction_repeatByte (kind : BlockKind) (backwards : Bool) :
    (Opcode.extended (kind.repeatByte backwards)).instruction = .block kind backwards true := by
  cases kind <;> cases backwards <;> rfl

theorem isDocumented_repeatByte (kind : BlockKind) (backwards : Bool) :
    (Opcode.extended (kind.repeatByte backwards)).isDocumented = true := by
  cases kind <;> cases backwards <;> decide

variable [Device δ]

/-- The address that a pass writes to. -/
def target? (regs : Registers) : BlockKind → Option Word
  | .load => some regs.de
  | .input => some regs.hl
  | .compare | .output => none

/-- A pass writes its byte to its target and nowhere else. -/
theorem byte_pass (kind : BlockKind) (backwards : Bool) {s : BlockState δ}
    (hm : s.memory.size = addressSpace) (address : Word) :
    (kind.pass backwards s).memory.byte address
      = if kind.target? s.regs = some address then kind.passByte s
        else s.memory.byte address := by
  cases kind with
  | load =>
    show (s.memory.write s.regs.de (passByte s .load)).2.byte address = _
    rw [Memory.byte_write hm]
    simp only [target?, Option.some.injEq, eq_comm]
  | input =>
    let asked : Memory δ := { s.memory with device := (Device.input s.memory.device s.regs.bc).2 }
    have hasked : asked.size = addressSpace := hm
    show (asked.write s.regs.hl (passByte s .input)).2.byte address = _
    rw [Memory.byte_write hasked]
    simp only [target?, Option.some.injEq, eq_comm]
    rfl
  | compare | output => rfl

end BlockKind

namespace Cpu

variable [Device δ] {cpu : Cpu} {m : Memory δ} {kind : BlockKind} {backwards : Bool}

/-- A step at a repeating block instruction, over recorded memory. -/
theorem step_block_recorded (hm : m.size = addressSpace)
    (hat : kind.StandsAt backwards m cpu.regs.pc) :
    let s : BlockState δ := { regs := cpu.regs, memory := m }
    let more := kind.more cpu.regs m
    let passed := kind.pass backwards s
    cpu.step ({ bus := m } : Recorded (Memory δ))
      = { result := .ok (if more then 21 else 16)
          cpu :=
            { cpu.begin with
              regs :=
                { passed.regs with pc := if more then cpu.regs.pc else cpu.regs.pc + 2 } }
          bus :=
            { bus := passed.memory
              accesses := Access.reads 2 cpu.regs.pc ++ kind.accesses s } } := by
  intro s more passed
  let opcode := Opcode.extended (kind.repeatByte backwards)
  let r : Recorded (Memory δ) := { bus := m }
  let b (i : Nat) : Byte := m.byte (cpu.regs.pc + UInt16.ofNat i)
  have hinside : ∀ i < opcode.length, (cpu.regs.pc + UInt16.ofNat i).toNat < r.bus.size :=
    fun i _ => hm ▸ UInt16.toNat_lt _
  have hyields : Bus.Yields (r.afterReads cpu.regs.pc) opcode.length cpu.begin.regs.pc b :=
    Recorded.yields hinside
  have hfirst : b 0 = Opcode.extendedPrefix := by
    show m.byte (cpu.regs.pc + 0) = _
    rw [UInt16.add_zero, hat.first]
    rfl
  have hsecond : b 1 = kind.repeatByte backwards := hat.second
  have hopcode : Opcode.ofBytes (b 0) (b 1) (b 2) (b 3) = some opcode := by
    rw [hfirst, hsecond]
    rfl
  have hrun := Action.run_instruction hopcode hyields
  rw [Recorded.afterReads_zero, Action.perform_of_documented (kind.isDocumented_repeatByte _),
    kind.instruction_repeatByte] at hrun
  let past := cpu.begin.past 2
  have hback : past.regs.pc - 2 = cpu.regs.pc := by
    show cpu.regs.pc + 2 - 2 = _
    exact UInt16.add_sub_cancel ..
  have hblock : (Action.block kind backwards true past).run
      ({ bus := m, accesses := Access.reads 2 cpu.regs.pc } : Recorded (Memory δ))
      = { result := .ok more
          cpu :=
            { cpu.begin with
              regs :=
                { passed.regs with pc := if more then cpu.regs.pc else cpu.regs.pc + 2 } }
          bus :=
            { bus := passed.memory
              accesses := Access.reads 2 cpu.regs.pc ++ kind.accesses s } } := by
    rw [Action.run_block kind backwards true past hm, hback]
    cases kind <;> rfl
  show ((Action.instruction cpu.begin).run r).blame cpu.regs.pc = _
  rw [hrun]
  show Outcome.blame _ (((Action.block kind backwards true >>= fun taken => do
    return (Instruction.block kind backwards true).cycles (← get).variant.timing taken) past).run
      (Recorded.mk m (Access.reads 2 cpu.regs.pc))) = _
  rw [Action.run_bind, hblock]
  rfl

/-- A step at a repeating block instruction. -/
theorem step_block (hm : m.size = addressSpace) (hat : kind.StandsAt backwards m cpu.regs.pc) :
    let s : BlockState δ := { regs := cpu.regs, memory := m }
    let more := kind.more cpu.regs m
    let passed := kind.pass backwards s
    cpu.step m
        = { result := .ok (if more then 21 else 16)
            cpu :=
              { cpu.begin with
                regs :=
                  { passed.regs with pc := if more then cpu.regs.pc else cpu.regs.pc + 2 } }
            bus := passed.memory } ∧
      cpu.accesses m = Access.reads 2 cpu.regs.pc ++ kind.accesses s := by
  have hstep := step_block_recorded hm hat
  exact ⟨step_eq_of_recorded hstep, (step_of_recorded hstep).2⟩

end Cpu

/-! ## All of them -/

namespace BlockKind

variable [Device δ]

/-- What `count` passes leave. -/
def passes (kind : BlockKind) (backwards : Bool) (s : BlockState δ) : (count : Nat) → BlockState δ
  | 0 => s
  | count + 1 => kind.pass backwards (kind.passes backwards s count)

variable {kind : BlockKind} {backwards : Bool} {s : BlockState δ}

theorem size_passes (count : Nat) :
    (kind.passes backwards s count).memory.size = s.memory.size := by
  induction count with
  | zero => rfl
  | succ count ih => exact (kind.size_pass ..).trans ih

theorem pc_passes (count : Nat) : (kind.passes backwards s count).regs.pc = s.regs.pc := by
  induction count with
  | zero => rfl
  | succ count ih => exact (kind.pc_pass ..).trans ih

/-- No pass but the last of `count` writes to the instruction itself. -/
def Spares (kind : BlockKind) (backwards : Bool) (s : BlockState δ) (count : Nat) : Prop :=
  ∀ i, i + 1 < count → ∀ address, kind.target? (kind.passes backwards s i).regs = some address →
    address ≠ s.regs.pc ∧ address ≠ s.regs.pc + 1

/-- So it still stands in memory when the last pass starts. -/
theorem Spares.standsAt {count : Nat} (h : kind.Spares backwards s count)
    (hm : s.memory.size = addressSpace) (hat : kind.StandsAt backwards s.memory s.regs.pc)
    {i : Nat} (hi : i < count) :
    kind.StandsAt backwards (kind.passes backwards s i).memory s.regs.pc := by
  induction i with
  | zero => exact hat
  | succ i ih =>
    obtain ⟨hfirst, hsecond⟩ := ih (Nat.lt_of_succ_lt hi)
    have hsize : (kind.passes backwards s i).memory.size = addressSpace :=
      (size_passes i).trans hm
    constructor
    · rw [passes, kind.byte_pass backwards hsize, if_neg fun he => (h i hi _ he).1 rfl, hfirst]
    · rw [passes, kind.byte_pass backwards hsize, if_neg fun he => (h i hi _ he).2 rfl, hsecond]

end BlockKind

namespace Cpu

variable [Device δ]

/-- The registers and memory after `count` passes of a block instruction. -/
def passes (cpu : Cpu) (m : Memory δ) (kind : BlockKind) (backwards : Bool) (count : Nat) :
    BlockState δ :=
  kind.passes backwards { regs := cpu.regs, memory := m } count

/-- A repeating block instruction stands at the program counter, it is not written to before it is
done, and it has more to do until it has made `count` passes. -/
structure AtBlock (cpu : Cpu) (m : Memory δ) (kind : BlockKind) (backwards : Bool) (count : Nat) :
    Prop where
  size : m.size = addressSpace
  stands : kind.StandsAt backwards m cpu.regs.pc
  spares : kind.Spares backwards { regs := cpu.regs, memory := m } count
  pos : 0 < count
  more : ∀ i < count, kind.more (cpu.passes m kind backwards i).regs
    (cpu.passes m kind backwards i).memory = decide (i + 1 < count)

/-- The steps of a repeating block instruction are `count` passes. -/
structure RunsBlock (cpu : Cpu) (m : Memory δ) (kind : BlockKind) (backwards : Bool) (count : Nat) :
    Prop where
  repeats : cpu.RepeatsFor m count
  accesses : ∀ i < count, (cpu.stepped m i).nextAccesses
    = Access.reads 2 cpu.regs.pc ++ kind.accesses (cpu.passes m kind backwards i)
  cpu_eq : (cpu.stepped m count).cpu
    = { cpu.begin with
        regs := { (cpu.passes m kind backwards count).regs with pc := cpu.regs.pc + 2 } }
  bus_eq : (cpu.stepped m count).bus = (cpu.passes m kind backwards count).memory

variable {cpu : Cpu} {m : Memory δ} {kind : BlockKind} {backwards : Bool} {count i : Nat}

/-- A step that starts where the passes before it leave the registers and memory. -/
theorem AtBlock.next (h : cpu.AtBlock m kind backwards count) (hi : i < count)
    {w : Watch (Memory δ)}
    (hcpu : w.cpu.begin = { cpu.begin with regs := (cpu.passes m kind backwards i).regs })
    (hbus : w.bus = (cpu.passes m kind backwards i).memory) :
    w.next
        = { result := .ok (if i + 1 < count then 21 else 16)
            cpu :=
              { cpu.begin with
                regs :=
                  { (cpu.passes m kind backwards (i + 1)).regs with
                    pc := if i + 1 < count then cpu.regs.pc else cpu.regs.pc + 2 } }
            bus := (cpu.passes m kind backwards (i + 1)).memory } ∧
      w.nextAccesses
        = Access.reads 2 cpu.regs.pc ++ kind.accesses (cpu.passes m kind backwards i) := by
  obtain ⟨c, bus, events⟩ := w
  obtain rfl : bus = (cpu.passes m kind backwards i).memory := hbus
  have hregs : c.regs = (cpu.passes m kind backwards i).regs := congrArg Cpu.regs hcpu
  have hpc : c.regs.pc = cpu.regs.pc := hregs ▸ BlockKind.pc_passes i
  have hsize : (cpu.passes m kind backwards i).memory.size = addressSpace :=
    (BlockKind.size_passes i).trans h.size
  have hstands : kind.StandsAt backwards (cpu.passes m kind backwards i).memory c.regs.pc :=
    hpc ▸ h.spares.standsAt h.size h.stands hi
  have hstep := step_block hsize hstands
  rw [hcpu, hpc, hregs, h.more i hi] at hstep
  simp only [decide_eq_true_eq] at hstep
  exact hstep

/-- Before each step the registers and memory are as the passes before it leave them. This is said
of the processor as the step starts it: the first one may still be at a HALT or after an EI. -/
theorem AtBlock.before (h : cpu.AtBlock m kind backwards count) (hi : i < count) :
    (cpu.stepped m i).cpu.begin
        = { cpu.begin with regs := (cpu.passes m kind backwards i).regs } ∧
      (cpu.stepped m i).bus = (cpu.passes m kind backwards i).memory := by
  induction i with
  | zero => exact ⟨rfl, rfl⟩
  | succ i ih =>
    obtain ⟨hcpu, hbus⟩ := ih (Nat.lt_of_succ_lt hi)
    obtain ⟨hout, -⟩ := h.next (Nat.lt_of_succ_lt hi) hcpu hbus
    obtain ⟨hsucc, hsucc'⟩ := stepped_succ cpu m i
    have hpc : (cpu.passes m kind backwards (i + 1)).regs.pc = cpu.regs.pc :=
      BlockKind.pc_passes (i + 1)
    rw [hsucc, hsucc', hout]
    refine ⟨?_, rfl⟩
    simp only [if_pos hi, ← hpc]
    exact congrArg (fun start : Word =>
      { cpu.begin with regs := (cpu.passes m kind backwards (i + 1)).regs, start }) hpc

/-- A step and what it leaves. -/
theorem AtBlock.after (h : cpu.AtBlock m kind backwards count) (hi : i < count) :
    (cpu.stepped m i).next.result = .ok (if i + 1 < count then 21 else 16) ∧
      (cpu.stepped m (i + 1)).cpu
        = { cpu.begin with
            regs :=
              { (cpu.passes m kind backwards (i + 1)).regs with
                pc := if i + 1 < count then cpu.regs.pc else cpu.regs.pc + 2 } } ∧
      (cpu.stepped m (i + 1)).bus = (cpu.passes m kind backwards (i + 1)).memory := by
  obtain ⟨hcpu, hbus⟩ := h.before hi
  obtain ⟨hout, -⟩ := h.next hi hcpu hbus
  obtain ⟨hsucc, hsucc'⟩ := stepped_succ cpu m i
  rw [hsucc, hsucc', hout]
  exact ⟨rfl, rfl, rfl⟩

/-- **A repeating block instruction that still stands in memory at each of its steps runs its passes
one after another**, until there is nothing more to do. -/
theorem AtBlock.runs (h : cpu.AtBlock m kind backwards count) :
    cpu.RunsBlock m kind backwards count := by
  have hlast (i : Nat) (hi : i + 1 = count) : i < count ∧ ¬ i + 1 < count := by omega
  obtain ⟨last, hcount⟩ := Nat.exists_eq_add_one_of_ne_zero (Nat.ne_of_gt h.pos)
  obtain ⟨hin, hend⟩ := hlast last hcount.symm
  obtain ⟨-, hcpu, hbus⟩ := h.after hin
  rw [if_neg hend, ← hcount] at hcpu
  refine ⟨⟨h.pos, fun i hi => ?_, fun i hi => ?_⟩, fun i hi => ?_, hcpu, hcount ▸ hbus⟩
  · obtain ⟨hresult, hcpu, -⟩ := h.after (Nat.lt_of_succ_lt hi)
    rw [if_pos hi] at hresult
    rw [hcpu]
    exact ⟨hresult, if_pos hi⟩
  · obtain ⟨hin, hend⟩ := hlast i hi
    obtain ⟨hresult, hcpu, -⟩ := h.after hin
    rw [if_neg hend] at hresult
    rw [hcpu]
    exact ⟨hresult, if_neg hend⟩
  · obtain ⟨hcpu, hbus⟩ := h.before hi
    exact (h.next hi hcpu hbus).2

end Cpu

end Z80
