import Z80.Proofs.Run

/-!
# Stopping and going on

A run that stops at its limit can go on from its snapshot, as a machine of its own, and nothing but
the count of what was done before tells the two apart. The snapshot leaves out what the next
instruction resets anyway (`Cpu.begin`) and what the ports have sent, and turns the flags and the
register file into each other.

`Machine.Continues` relates a machine that was not stopped to one that goes on. A step keeps it, so
a run does.
-/

namespace Z80

/-! ## Memories that cannot be told apart -/

/-- Two memories with the same bytes and the same latches; what their ports have sent is not
asked. -/
def Memory.Alike (m m' : Memory LatchedPorts) : Prop :=
  m.bytes = m'.bytes ∧ m.device.latches = m'.device.latches

namespace Memory

theorem write_alike {m m' : Memory LatchedPorts} (h : m.Alike m') (address : Word) (v : Byte) :
    Bus.AnswersAlike Alike (m.write address v) (m'.write address v) := by
  obtain ⟨bytes, device⟩ := m
  obtain ⟨bytes', device'⟩ := m'
  obtain ⟨rfl, hl⟩ : bytes = bytes' ∧ device.latches = device'.latches := h
  unfold write
  split
  · exact ⟨rfl, rfl, hl⟩
  · exact ⟨rfl, rfl, hl⟩

/-- Such memories answer alike: no access shows what was sent. -/
theorem bus_alike : Bus.Alike Alike where
  read {m m'} h address := by
    have hread : m.read address = m'.read address := by
      simp only [read, outside, size, h.1]
    exact ⟨hread, h⟩
  write h := write_alike h
  input {m m'} h port := by
    have hlatch : m.device.latch port = m'.device.latch port := by
      simp only [LatchedPorts.latch, h.2]
    exact ⟨congrArg Except.ok hlatch, h⟩
  output h _ _ := ⟨rfl, h⟩

/-- No access changes the number of bytes or a latch. -/
theorem bus_keeps (size : Nat) (latches : Vector Byte 256) :
    Bus.Keeps fun m : Memory LatchedPorts => m.size = size ∧ m.device.latches = latches where
  read h _ := h
  write {m} h address v := by
    refine ⟨(size_write m address v).trans h.1, ?_⟩
    show (m.write address v).2.device.latches = latches
    unfold write
    split
    · exact h.2
    · exact h.2
  input h _ := h
  output h _ _ := h

end Memory

/-! ## Runs side by side -/

namespace Machine

/-- The machine `m'` goes on from where `m` was when it had taken these cycles and instructions. -/
structure Continues (cycles iterations : Nat) (m m' : Machine LatchedPorts) : Prop where
  cpu : m.cpu.begin = m'.cpu.begin
  memory : m.memory.Alike m'.memory
  cycles : m.cycles = cycles + m'.cycles
  iterations : m.iterations = iterations + m'.iterations

variable {cycles iterations : Nat} {m m' : Machine LatchedPorts}

theorem Continues.trans {cycles' iterations' : Nat} {m'' : Machine LatchedPorts}
    (h : Continues cycles iterations m m') (h' : Continues cycles' iterations' m' m'') :
    Continues (cycles + cycles') (iterations + iterations') m m'' where
  cpu := h.cpu.trans h'.cpu
  memory := ⟨h.memory.1.trans h'.memory.1, h.memory.2.trans h'.memory.2⟩
  cycles := by rw [h.cycles, h'.cycles, Nat.add_assoc]
  iterations := by rw [h.iterations, h'.iterations, Nat.add_assoc]

/-- Both take the same step. -/
theorem Continues.step (h : Continues cycles iterations m m') :
    m.step.1 = m'.step.1 ∧ m.step.2.status = m'.step.2.status ∧
      Continues cycles iterations m.step.2 m'.step.2 := by
  have hstep := Cpu.step_alike Memory.bus_alike h.cpu h.memory
  rw [step_eq, step_eq]
  generalize m.cpu.step m.memory = out, m'.cpu.step m'.memory = out' at hstep ⊢
  obtain ⟨result, cpu, memory⟩ := out
  obtain ⟨result', cpu', memory'⟩ := out'
  obtain ⟨rfl, rfl, hmemory⟩ : result = result' ∧ cpu = cpu' ∧ memory.Alike memory' :=
    ⟨hstep.result, hstep.cpu, hstep.bus⟩
  cases result with
  | error fault => exact ⟨rfl, rfl, rfl, hmemory, h.cycles, h.iterations⟩
  | ok taken =>
    refine ⟨rfl, rfl, rfl, hmemory, ?_, ?_⟩
    · show m.cycles + taken = cycles + (m'.cycles + taken)
      rw [h.cycles, Nat.add_assoc]
    · show m.iterations + 1 = iterations + (m'.iterations + 1)
      rw [h.iterations, Nat.add_assoc]

/-- Both run to the same end. -/
theorem Continues.runFor (count : Nat) (h : Continues cycles iterations m m') :
    (m.runFor count).1 = (m'.runFor count).1 ∧
      (m.runFor count).2.status = (m'.runFor count).2.status ∧
      Continues cycles iterations (m.runFor count).2 (m'.runFor count).2 := by
  induction count generalizing m m' with
  | zero => exact ⟨rfl, rfl, h.cpu, h.memory, h.cycles, h.iterations⟩
  | succ count ih =>
    obtain ⟨hresult, hstatus, hafter⟩ := h.step
    rcases hs : m.step with ⟨fault | taken, after⟩
    all_goals
      rcases hs' : m'.step with ⟨result', after'⟩
      rw [hs, hs'] at hresult hstatus hafter
      obtain rfl := hresult
    · rw [runFor_of_error hs, runFor_of_error hs']
      exact ⟨rfl, hstatus, hafter⟩
    · by_cases hh : after.status = .halted
      · rw [runFor_of_halted hs hh, runFor_of_halted hs' (hstatus.symm.trans hh)]
        exact ⟨rfl, hstatus, hafter⟩
      · have hh' : after'.status ≠ .halted := fun e => hh (hstatus.trans e)
        rw [runFor_of_running hs hh, runFor_of_running hs' hh']
        exact ih hafter

end Machine

/-! ## Building -/

namespace Memory

variable {δ : Type}

/-- A block that fits leaves the number of bytes and the device. -/
theorem load_keeps {m m' : Memory δ} {start : Word} {block : Array Byte}
    (h : m.load start block = .ok m') : m'.size = m.size ∧ m'.device = m.device := by
  simp only [load] at h
  split at h
  · cases h
  · next hfits =>
    cases h
    have hle : start.toNat + block.size ≤ m.bytes.size := Nat.not_lt.mp hfits
    refine ⟨?_, rfl⟩
    show (m.bytes.extract 0 start.toNat ++ block ++ m.bytes.extract _ m.bytes.size).size = _
    simp only [Array.size_append, Array.size_extract, size]
    omega

/-- A block as long as the memory replaces it. -/
theorem load_zeroed (bytes : Array Byte) (device : δ) :
    (zeroed bytes.size device).load 0 bytes = .ok { bytes, device } := by
  simp [load, zeroed, size]

theorem load_empty (m : Memory δ) : m.load 0 #[] = .ok m := by
  simp [load, size]

end Memory

namespace Setup

variable {δ : Type}

/-- The setup with a limit. -/
def withLimit (s : Setup) (count : Nat) : Setup :=
  { s with maxIterations := some count }

/-- The machine of a setup that can be built, with a limit. -/
def machine (s : Setup) (memory : Memory δ) (count : Nat) : Machine δ where
  cpu := s.cpu
  memory
  maxIterations := some count

/-- The memory of a setup is filled with the image, and then with the program. -/
theorem memory_eq_ok_iff {s : Setup} {device : δ} {memory : Memory δ} :
    s.memory device = .ok memory ↔
      ∃ filled, (Memory.zeroed s.memorySize device).load 0 s.image = .ok filled ∧
        filled.load s.loadAddress s.program = .ok memory := by
  show ((Memory.zeroed s.memorySize device).load 0 s.image).bind
    (fun filled => filled.load s.loadAddress s.program) = .ok memory ↔ _
  cases (Memory.zeroed s.memorySize device).load 0 s.image with
  | error fault => exact iff_of_false nofun (by simp)
  | ok filled => exact ⟨fun h => ⟨filled, rfl, h⟩, fun ⟨_, e, h⟩ => Except.ok.inj e ▸ h⟩

theorem memory_keeps {s : Setup} {device : δ} {memory : Memory δ}
    (h : s.memory device = .ok memory) : memory.size = s.memorySize ∧ memory.device = device := by
  obtain ⟨filled, himage, hprogram⟩ := memory_eq_ok_iff.1 h
  have hfilled := Memory.load_keeps himage
  have hloaded := Memory.load_keeps hprogram
  refine ⟨?_, hloaded.2.trans hfilled.2⟩
  rw [hloaded.1, hfilled.1]
  exact Array.size_replicate

/-- A setup is built if nothing stands in its way and its memory can be filled; the limit has no
part in that. -/
theorem build_withLimit {s : Setup} {device : δ} {memory : Memory δ} (hp : s.problem? = none)
    (hm : s.memory device = .ok memory) (count : Nat) :
    (s.withLimit count).build device = .ok (s.machine memory count) := by
  have hp' : (s.withLimit count).problem? = none := hp
  have hm' : (s.withLimit count).memory device = .ok memory := hm
  unfold build
  rw [hp', hm']
  rfl

/-- Only a setup that can be built is executed without an error. -/
theorem of_execute_withLimit {s : Setup} {count : Nat} {snapshot : Snapshot}
    (h : (s.withLimit count).execute = .ok snapshot) :
    ∃ memory : Memory LatchedPorts, s.problem? = none ∧ s.memory {} = .ok memory := by
  obtain ⟨m, hbuilt, -⟩ := of_execute h
  obtain ⟨hproblem, memory, hmemory, -⟩ := of_build hbuilt
  exact ⟨memory, hproblem, hmemory⟩

theorem size_of_problem {s : Setup} (h : s.problem? = none) :
    s.memorySize ≠ 0 ∧ s.memorySize ≤ addressSpace := by
  unfold problem? at h
  split at h
  · cases h
  · omega

/-- A setup that can be built is executed by running its machine up to the limit. -/
theorem execute_withLimit {s : Setup} {memory : Memory LatchedPorts} (hp : s.problem? = none)
    (hm : s.memory {} = .ok memory) (count : Nat) :
    (s.withLimit count).execute
      = ((s.machine memory count).runFor count).1.map fun _ =>
          ((s.machine memory count).runFor count).2.snapshot := by
  rw [execute_of_build (build_withLimit hp hm count)]
  rfl

end Setup

/-! ## Snapshots -/

namespace Snapshot

/-- The snapshot with what was done up to an earlier one added to its account. -/
def continuing (s earlier : Snapshot) : Snapshot :=
  { s with
    cycles := earlier.cycles + s.cycles
    iterations := earlier.iterations + s.iterations }

/-- The memory of a snapshot is all there is to fill. -/
theorem memory_toSetup {δ : Type} (s : Snapshot) (device : δ) :
    s.toSetup.memory device = .ok { bytes := s.memory, device } :=
  Setup.memory_eq_ok_iff.2 ⟨_, Memory.load_zeroed s.memory device, Memory.load_empty _⟩

theorem problem_toSetup {s : Snapshot} (h0 : s.memory.size ≠ 0) (h : s.memory.size ≤ addressSpace) :
    s.toSetup.problem? = none := by
  have hsize : s.toSetup.memorySize = s.memory.size := rfl
  have himage : s.toSetup.image.size = s.memory.size := rfl
  have hprogram : s.toSetup.loadAddress.toNat + s.toSetup.program.size = 0 := rfl
  unfold Setup.problem?
  rw [hsize, himage, hprogram, if_neg (by omega), if_neg (by omega), if_neg (by omega)]

end Snapshot

theorem Machine.Continues.snapshot {cycles iterations : Nat} {m m' : Machine LatchedPorts}
    (h : Continues cycles iterations m m') (hs : m.status = m'.status) :
    m.snapshot = { m'.snapshot with
      cycles := cycles + m'.cycles
      iterations := iterations + m'.iterations } := by
  obtain ⟨cpu, memory, _, _, _, status⟩ := m
  obtain ⟨cpu', memory', _, _, _, status'⟩ := m'
  obtain ⟨hcpu, ⟨hbytes, -⟩, hcycles, hiterations⟩ := h
  -- The processor is shown by the parts that the beginning of an instruction leaves alone.
  simp only [Cpu.begin, Cpu.mk.injEq] at hcpu
  obtain ⟨hregs, hiff1, hiff2, hmode, -, -, hvariant, -⟩ := hcpu
  simp only at hs hbytes hcycles hiterations
  simp only [Machine.snapshot, hregs, hiff1, hiff2, hmode, hvariant, hs, hbytes, hcycles,
    hiterations]

/-- The setup of a snapshot goes on from the machine that was looked at, if the ports are as they
were at the start. -/
theorem Machine.continues_snapshot {m : Machine LatchedPorts}
    (hl : m.memory.device.latches = ({} : LatchedPorts).latches) (count : Nat) :
    Continues m.cycles m.iterations m
      (m.snapshot.toSetup.machine { bytes := m.memory.bytes, device := {} } count) :=
  ⟨rfl, ⟨rfl, hl⟩, rfl, rfl⟩

/-- **A run that is stopped and goes on is the run that is not stopped.** If a run of at most `n`
instructions ends at its limit, then going on from its snapshot for at most `k` and running the
setup for at most `n + k` end in the same error, or in the same state; the cycles and instructions
of the long run are those of the two parts together. -/
theorem Setup.execute_resume (s : Setup) (n k : Nat) {stopped : Snapshot}
    (h : (s.withLimit n).execute = .ok stopped) (hs : stopped.status = .iterationLimit) :
    (s.withLimit (n + k)).execute
      = (stopped.toSetup.withLimit k).execute.map (Snapshot.continuing · stopped) := by
  obtain ⟨memory, hproblem, hmemory⟩ := of_execute_withLimit h
  rw [execute_withLimit hproblem hmemory] at h ⊢
  -- The stopped run has used up its count.
  let stop := ((s.machine memory n).runFor n).2
  obtain ⟨status, hresult, rfl⟩ : ∃ status, ((s.machine memory n).runFor n).1 = .ok status ∧
      stop.snapshot = stopped := by
    cases hr : ((s.machine memory n).runFor n).1 with
    | error fault =>
      rw [hr] at h
      cases h
    | ok status =>
      rw [hr] at h
      exact ⟨status, rfl, Except.ok.inj h⟩
  have hlimit : status = .iterationLimit := (Machine.runFor_status n _ hresult).symm.trans hs
  -- The long run passes through the same point.
  have hstart : Machine.Continues 0 0 (s.machine memory (n + k)) (s.machine memory n) :=
    ⟨rfl, ⟨rfl, rfl⟩, rfl, rfl⟩
  obtain ⟨hsame, -, hpoint⟩ := hstart.runFor n
  rw [hresult, hlimit] at hsame
  rw [Machine.runFor_add n k _ hsame]
  -- The snapshot builds a machine that goes on from there.
  obtain ⟨hsize, hlatches⟩ := Machine.runFor_keeps
    (Memory.bus_keeps memory.size memory.device.latches) n (s.machine memory n) ⟨rfl, rfl⟩
  obtain ⟨hmemorySize, hdevice⟩ := memory_keeps hmemory
  have hbounds := size_of_problem hproblem
  rw [← hmemorySize, ← hsize] at hbounds
  have hbuilt : stop.snapshot.toSetup.problem? = none :=
    Snapshot.problem_toSetup hbounds.1 hbounds.2
  have hfilled : stop.snapshot.toSetup.memory ({} : LatchedPorts)
      = .ok { bytes := stop.memory.bytes, device := {} } := Snapshot.memory_toSetup _ _
  rw [execute_withLimit hbuilt hfilled]
  rw [hdevice] at hlatches
  have hresume := hpoint.trans (Machine.continues_snapshot hlatches k)
  rw [Nat.zero_add, Nat.zero_add] at hresume
  obtain ⟨hresult', hstatus', hend⟩ := hresume.runFor k
  rw [hresult', hend.snapshot hstatus']
  generalize ({ bytes := stop.memory.bytes, device := {} } : Memory LatchedPorts) = remembered
  generalize (stop.snapshot.toSetup.machine remembered k).runFor k = ran
  obtain ⟨_ | _, after⟩ := ran <;> rfl

/-- Three INC A and a HALT, stopped after two: the rest is done from the snapshot. -/
theorem Setup.execute_resume_inc :
    let s : Setup := { memorySize := 4, program := #[0x3C, 0x3C, 0x3C, 0x76] }
    ∃ stopped, (s.withLimit 2).execute = .ok stopped ∧ stopped.status = .iterationLimit ∧
      (s.withLimit (2 + 5)).execute
        = (stopped.toSetup.withLimit 5).execute.map (Snapshot.continuing · stopped) ∧
      (s.withLimit (2 + 5)).execute.toOption.map (fun x => (x.registers.acc.a, x.iterations))
        = some (3, 4) := by
  intro s
  have h : (s.withLimit 2).execute.toOption.map Snapshot.status = some .iterationLimit := by
    decide +kernel
  cases he : (s.withLimit 2).execute with
  | error fault =>
    rw [he] at h
    cases h
  | ok stopped =>
    rw [he] at h
    have hs : stopped.status = .iterationLimit := Option.some.inj h
    exact ⟨stopped, rfl, hs, execute_resume s 2 5 he hs, by decide +kernel⟩

end Z80
