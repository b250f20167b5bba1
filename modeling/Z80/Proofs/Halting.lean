import Z80.Proofs.Decoding
import Z80.Proofs.Handler

/-!
# Stopping at a HALT

A processor that has stopped points at the HALT it stopped at. A HALT is the byte 76 and no other,
with or without prefixes before it, and as nothing is written on the way to it, that byte is still
there when the program counter has gone back to it. Stepping a stopped processor runs the HALT again
and changes nothing; an interrupt leaves it, whether its push succeeds or not.

A machine whose status says that it has halted is then at a HALT; `HaltedRightly` is that, as far as
steps and runs go.
-/

namespace Z80

variable {α γ δ : Type} [Device δ]

/-- The byte of a HALT. -/
def Opcode.haltByte : Byte := 0x76

/-! ## Reading an opcode over memory -/

namespace Opcode

theorem haltByte_of_mainInstruction (index : Index) (byte : Byte)
    (h : mainInstruction index byte = .halt) : byte = haltByte := by
  revert byte
  cases index <;> exact forall_byte (by decide +kernel)

theorem extendedInstruction_ne_halt (byte : Byte) : extendedInstruction byte ≠ .halt := by
  revert byte
  exact forall_byte (by decide +kernel)

/-- Only the byte 76 of the main page selects a HALT. -/
theorem of_instruction_eq_halt {opcode : Opcode} (h : opcode.instruction = .halt) :
    ∃ index, opcode = .main index haltByte := by
  cases opcode with
  | main index byte =>
    obtain rfl := haltByte_of_mainInstruction index byte h
    exact ⟨index, rfl⟩
  | extended byte => exact absurd h (extendedInstruction_ne_halt byte)
  | bits | indexedBits => cases h

end Opcode

namespace Action

/-- If an action that goes on is done over a bus, so is its first part, and then the rest. -/
theorem of_run_bind_ok {β : Type} [Bus β] {a : Action α} {k : α → Action γ} {cpu c : Cpu}
    {bus bus' : β} {y : γ}
    (h : ((a >>= k) cpu).run bus = { result := .ok y, cpu := c, bus := bus' }) :
    ∃ x c₁ bus₁, (a cpu).run bus = { result := .ok x, cpu := c₁, bus := bus₁ } ∧
      (k x c₁).run bus₁ = { result := .ok y, cpu := c, bus := bus' } := by
  rw [run_bind] at h
  rcases hfirst : (a cpu).run bus with ⟨fault | x, c₁, bus₁⟩
  · rw [hfirst] at h
    cases h
  · rw [hfirst] at h
    exact ⟨x, c₁, bus₁, rfl, h⟩

/-- If a fetch over memory is done, it took the byte at the program counter. -/
theorem of_run_fetch_ok {m m' : Memory δ} {cpu c : Cpu} {byte : Byte}
    (h : (fetch cpu).run m = { result := .ok byte, cpu := c, bus := m' }) :
    m' = m ∧ m.read (c.regs.pc - 1) = .ok byte := by
  have hfetch : fetch cpu = .read cpu cpu.regs.pc fun b => .done b cpu.pastByte := rfl
  rw [hfetch, Dialogue.run_read_memory] at h
  cases hread : m.read cpu.regs.pc with
  | error fault =>
    rw [hread] at h
    cases h
  | ok b =>
    rw [hread] at h
    cases h
    refine ⟨rfl, ?_⟩
    show m.read (cpu.regs.pc + 1 - 1) = .ok byte
    rw [UInt16.add_sub_cancel]
    exact hread

end Action

/-- Reading an opcode does not change memory, and an opcode on the main page is the byte before the
program counter. -/
theorem Opcode.ReadsOn.over_memory {byte : Byte} {a : Action (Nat × Opcode)} (h : ReadsOn byte a)
    {m m' : Memory δ} {cpu c : Cpu} {selected : Nat × Opcode}
    (hbyte : m.read (cpu.regs.pc - 1) = .ok byte)
    (hrun : (a cpu).run m = { result := .ok selected, cpu := c, bus := m' }) :
    m' = m ∧ ∀ index b, selected.2 = .main index b → m.read (c.regs.pc - 1) = .ok b := by
  induction h generalizing cpu m with
  | fail => cases hrun
  | ask _ ih =>
    obtain ⟨_, c₁, m₁, hask, hrest⟩ := Action.of_run_bind_ok hrun
    unfold Action.requireUndocumented at hask
    split at hask
    · cases hask
      exact ih hbyte hrest
    · cases hask
  | fetch _ ih =>
    obtain ⟨b, c₁, m₁, hfetch, hrest⟩ := Action.of_run_bind_ok hrun
    obtain ⟨rfl, hb⟩ := Action.of_run_fetch_ok hfetch
    exact ih b hb hrest
  | finished last =>
    cases hrun
    refine ⟨rfl, fun index b hmain => ?_⟩
    rw [last index b hmain]
    exact hbyte

/-! ## Running a HALT -/

namespace Action

/-- A HALT accesses nothing. -/
theorem perform_halt (index : Index) (cpu : Cpu) :
    perform (.main index Opcode.haltByte) cpu
      = .done 4 { cpu with halted := true, regs := { cpu.regs with pc := cpu.regs.pc - 1 } } := by
  cases index <;> rfl

/-- A HALT that was run leaves the program counter at the byte 76. -/
theorem read_of_observed_halt {m m' : Memory δ} {cpu c : Cpu} {cycles : Nat}
    (h : (observedInstruction cpu).run m = { result := .ok (cycles, .halt), cpu := c, bus := m' }) :
    m'.read c.regs.pc = .ok Opcode.haltByte := by
  -- The first byte is fetched, and then the rest of the opcode; so far memory is as it was.
  obtain ⟨⟨ignored, opcode⟩, c₁, m₁, hselect, hrest⟩ := of_run_bind_ok h
  obtain ⟨byte, c₀, m₀, hfetch, hrest₀⟩ := of_run_bind_ok hselect
  obtain ⟨rfl, hbyte⟩ := of_run_fetch_ok hfetch
  obtain ⟨rfl, hmain⟩ :=
    (Opcode.readsOn_select addressSpace 0 .hl byte).over_memory hbyte hrest₀
  -- What is run is a HALT, so the opcode was the byte 76 of the main page.
  obtain ⟨taken, c₂, m₂, hperform, hend⟩ := of_run_bind_ok hrest
  have hvalue : Except.ok (_, opcode.instruction) = Except.ok (cycles, Instruction.halt) :=
    congrArg Outcome.result hend
  have hhalt : opcode.instruction = .halt := congrArg Prod.snd (Except.ok.inj hvalue)
  obtain ⟨index, rfl⟩ := Opcode.of_instruction_eq_halt hhalt
  rw [perform_halt] at hperform
  cases hperform
  cases hend
  exact hmain index Opcode.haltByte rfl

end Action

/-! ## A stopped processor -/

namespace Cpu

/-- A step that leaves the processor stopped leaves it pointing at a HALT. -/
theorem of_step_halted {cpu : Cpu} {m : Memory δ} (h : (cpu.step m).cpu.halted = true) :
    (cpu.step m).bus.read (cpu.step m).cpu.regs.pc = .ok Opcode.haltByte ∧
      (cpu.step m).cpu.eiShadow = false := by
  rcases cpu.step_cases m with ⟨fault, -, -, hc⟩ | ⟨cycles, i, -, hexecuted, hc⟩
  · -- A step that fails leaves the processor going, as it began.
    obtain ⟨-, -, hgoing, -⟩ := of_control hc
    rw [hgoing] at h
    cases h
  · obtain ⟨-, -, hstopped, hshadow⟩ := of_control hc
    -- Of the instructions only a HALT stops the processor.
    obtain rfl : i = .halt := by
      rw [hstopped] at h
      cases i with
      | halt => rfl
      | _ => cases h
    refine ⟨?_, hshadow⟩
    unfold executed at hexecuted
    rw [step_eq_observed]
    rcases hrun : (Action.observedInstruction cpu.begin).run m with ⟨fault | ⟨cycles, i⟩, c, m'⟩
    · rw [hrun] at hexecuted
      cases hexecuted
    · rw [hrun] at hexecuted
      obtain rfl : i = .halt := Option.some.inj hexecuted
      exact Action.read_of_observed_halt hrun

/-- At the byte of a HALT a step stops the processor and changes nothing else. -/
theorem step_at_halt {cpu : Cpu} {m : Memory δ} (h : m.read cpu.regs.pc = .ok Opcode.haltByte) :
    cpu.step m = { result := .ok 4, cpu := { cpu.begin with halted := true }, bus := m } := by
  have hpc : (cpu.begin.past 1).regs.pc - 1 = cpu.regs.pc := UInt16.add_sub_cancel _ _
  have hrun : (Action.instruction cpu.begin).run m
      = (Action.perform (.main .hl Opcode.haltByte) (cpu.begin.past 1)).run m := by
    have hyields : Bus.Yields (fun _ => m) (Opcode.main .hl Opcode.haltByte).length
        cpu.begin.regs.pc fun _ => Opcode.haltByte := by
      refine Memory.yields fun i hi => ?_
      obtain rfl : i = 0 := Nat.lt_one_iff.1 hi
      rw [show UInt16.ofNat 0 = 0 from rfl, UInt16.add_zero]
      exact h
    exact Action.run_instruction rfl hyields
  unfold step
  rw [hrun, Action.perform_halt, hpc]
  rfl

end Cpu

/-! ## A stopped machine -/

namespace Machine

/-- The program counter is at the byte of a HALT. -/
def AtHalt (m : Machine δ) : Prop :=
  m.memory.read m.cpu.regs.pc = .ok Opcode.haltByte

/-- A machine that has stopped is at a HALT, and no EI holds interrupts off. -/
def StopsAtHalt (m : Machine δ) : Prop :=
  m.cpu.halted = true → m.AtHalt ∧ m.cpu.eiShadow = false

theorem stopsAtHalt_step (m : Machine δ) : m.step.2.StopsAtHalt := by
  unfold StopsAtHalt AtHalt
  rw [step_cpu, step_memory]
  exact Cpu.of_step_halted

theorem Reachable.stopsAtHalt {m : Machine δ} (h : m.Reachable) : m.StopsAtHalt := by
  refine h.invariant (fun built => ?_) (fun m stimulus hm => ?_) fun _ hm => hm
  · obtain ⟨-, memory, -, rfl⟩ := Setup.of_build built
    exact nofun
  · rcases m.respond_sent stimulus with rfl | ⟨-, hsame⟩ | ⟨-, hsent⟩
    · exact stopsAtHalt_step m
    · rw [hsame]
      exact hm
    · intro hstopped
      rw [hsent.going] at hstopped
      cases hstopped

/-- At a HALT a step changes nothing but the account. -/
theorem step_at_halt {m : Machine δ} (h : m.AtHalt) :
    m.step = (.ok 4,
      { m with
        cpu := { m.cpu.begin with halted := true }
        cycles := m.cycles + 4
        iterations := m.iterations + 1
        status := .halted }) := by
  rw [step_eq, Cpu.step_at_halt h]
  rfl

/-! ## The status of a stopped machine -/

/-- The status says that the machine has halted only if the processor has, and is at a HALT. -/
def HaltedRightly (m : Machine δ) : Prop :=
  m.status = .halted → m.cpu.halted = true ∧ m.AtHalt

theorem halted_of_step_status {m : Machine δ} (h : m.step.2.status = .halted) :
    m.step.2.cpu.halted = true := by
  rw [step_eq] at h ⊢
  unfold settle at h ⊢
  cases hr : (m.cpu.step m.memory).result with
  | error fault =>
    rw [hr] at h
    cases h
  | ok cycles =>
    rw [hr] at h
    cases hc : (m.cpu.step m.memory).cpu.halted with
    | true => rfl
    | false =>
      have hrunning : statusAfter (m.cpu.step m.memory).cpu = .running := by
        rw [statusAfter, hc]
        rfl
      cases hrunning.symm.trans h

theorem step_haltedRightly (m : Machine δ) : m.step.2.HaltedRightly := by
  intro h
  have hstopped := halted_of_step_status h
  exact ⟨hstopped, (stopsAtHalt_step m hstopped).1⟩

theorem run_haltedRightly {m : Machine δ} (h : m.HaltedRightly) : m.run.2.HaltedRightly :=
  runFor_invariant (fun m _ => m.step_haltedRightly) (fun _ _ => nofun) _ m h

end Machine

omit [Device δ] in
theorem Setup.built_haltedRightly {s : Setup} {device : δ} {m : Machine δ}
    (h : s.build device = .ok m) : m.HaltedRightly := by
  obtain ⟨-, memory, -, rfl⟩ := of_build h
  exact nofun

/-! ## A HALT is a fixed point -/

/-- A machine without an account that is at a HALT runs one instruction. -/
theorem Machine.run_at_halt {m : Machine δ} (h : m.AtHalt) (hl : m.limit ≠ 0)
    (hi : m.iterations = 0) : m.run = (.ok .halted, m.step.2) := by
  obtain ⟨count, hcount⟩ := Nat.exists_eq_succ_of_ne_zero hl
  unfold run
  rw [hi, hcount, Nat.sub_zero, runFor_of_halted (step_at_halt h) rfl, step_at_halt h]

/-- A machine that halted, taken up from its snapshot, runs one instruction and is where it was. -/
theorem Machine.Reachable.execute_snapshot {m : Machine δ} (h : m.Reachable)
    (hright : m.HaltedRightly) (hs : m.status = .halted) :
    m.snapshot.toSetup.execute = .ok { m.snapshot with cycles := 4, iterations := 1 } := by
  have hat : (m.rebuilt ({} : LatchedPorts)).AtHalt := (hright hs).2
  have hlimit : (m.rebuilt ({} : LatchedPorts)).limit ≠ 0 := by
    show maxCount ≠ 0
    decide
  rw [Setup.execute_of_build (h.build_snapshot ({} : LatchedPorts)),
    Machine.run_at_halt hat hlimit rfl, Machine.step_at_halt hat]
  unfold Machine.snapshot
  rw [hs]
  rfl

/-- **A HALT is a fixed point.** A reachable machine that has stopped is at the byte 76, and a step
changes nothing but the account; so a run that halted, taken up from its snapshot, halts in the
same state after one instruction. -/
theorem halt_fixed :
    (∀ m : Machine δ, m.Reachable → m.cpu.halted = true →
      m.memory.read m.cpu.regs.pc = .ok 0x76 ∧
      m.step = (.ok 4,
        { m with
          cpu := { m.cpu with start := m.cpu.regs.pc }
          cycles := m.cycles + 4
          iterations := m.iterations + 1
          status := .halted })) ∧
    ∀ (s : Setup) (snapshot : Snapshot), s.execute = .ok snapshot → snapshot.status = .halted →
      snapshot.toSetup.execute = .ok { snapshot with cycles := 4, iterations := 1 } := by
  constructor
  · intro m hreachable hhalted
    obtain ⟨hat, hshadow⟩ := hreachable.stopsAtHalt hhalted
    have hcpu : { m.cpu.begin with halted := true } = { m.cpu with start := m.cpu.regs.pc } := by
      unfold Cpu.begin
      rw [← hshadow, ← hhalted]
    rw [Machine.step_at_halt hat, hcpu]
    exact ⟨hat, rfl⟩
  · intro s snapshot h hs
    obtain ⟨m, hbuilt, rfl⟩ := Setup.of_execute h
    have hreachable : m.run.2.Reachable := .operate (.build hbuilt) .run
    have hright : m.run.2.HaltedRightly :=
      Machine.run_haltedRightly (Setup.built_haltedRightly hbuilt)
    exact hreachable.execute_snapshot hright hs

/-- An INC A and a HALT, run from the setup and from the snapshot. -/
theorem halt_fixed_inc :
    let s : Setup := { memorySize := 2, program := #[0x3C, 0x76] }
    ∃ (m : Machine LatchedPorts) (snapshot : Snapshot), m.Reachable ∧ m.cpu.halted = true ∧
      m.memory.read m.cpu.regs.pc = .ok 0x76 ∧ m.step.1 = .ok 4 ∧
      s.execute = .ok snapshot ∧ snapshot.status = .halted ∧ snapshot.registers.acc.a = 1 ∧
      snapshot.toSetup.execute = .ok { snapshot with cycles := 4, iterations := 1 } := by
  intro s
  obtain ⟨snapshot, hexecute, hend⟩ : ∃ snapshot, s.execute = .ok snapshot ∧
      (snapshot.status, snapshot.registers.acc.a) = (.halted, 1) :=
    of_toOption_map (by decide +kernel)
  obtain ⟨hs, ha⟩ := Prod.mk.inj hend
  obtain ⟨m, hbuilt, rfl⟩ := Setup.of_execute hexecute
  have hreachable : m.run.2.Reachable := .operate (.build hbuilt) .run
  have hright : m.run.2.HaltedRightly :=
    Machine.run_haltedRightly (Setup.built_haltedRightly hbuilt)
  obtain ⟨hbyte, hstep⟩ := halt_fixed.1 m.run.2 hreachable (hright hs).1
  exact ⟨m.run.2, m.run.2.snapshot, hreachable, (hright hs).1, hbyte, congrArg Prod.fst hstep,
    hexecute, hs, ha, halt_fixed (δ := LatchedPorts).2 s _ hexecute hs⟩

end Z80
