import Z80.Interrupt
import Z80.Setup

/-!
# The machine

A processor with its memory and device, and a count of what it has done. A machine is stepped one
instruction at a time, run until it halts, fails or reaches its limit, and interrupted in between;
the status says where the last of these left it. An instruction that fails is not counted.

The limit is checked before each instruction, so one that has started always completes.

The counts are numbers without a largest one, where a machine has counters of 64 bits that wrap, and
`Machine.run` takes a missing limit to be `maxCount`, where a machine without a limit would go on
until a HALT or a failure. Neither can be observed: at a thousand million instructions a second a
run comes to `maxCount` instructions in five centuries, and to as many clock cycles in decades.
-/

namespace Z80

/-- Where a machine stands. -/
inductive Status
  | running
  /-- A HALT was executed; the program counter points at it. -/
  | halted
  /-- The limit was reached before a HALT. -/
  | iterationLimit
  /-- The last instruction failed. -/
  | faulted
deriving DecidableEq, Inhabited

/-- A processor, its memory and device, and their account. -/
structure Machine (δ : Type) where
  cpu : Cpu
  memory : Memory δ
  /-- Clock cycles so far; a counter of 64 bits would wrap after `maxCount`, out of reach. -/
  cycles : Nat := 0
  /-- Instructions completed so far; likewise. -/
  iterations : Nat := 0
  /-- The number of instructions that are not to be exceeded, if there is one. -/
  maxIterations : Option Nat := none
  status : Status := .running

/-- Builds a machine around a device. -/
def Setup.build {δ : Type} (s : Setup) (device : δ) : Except Fault (Machine δ) :=
  match s.problem? with
  | some problem => .error (.setup problem)
  | none => do
    let memory ← s.memory device
    return { cpu := s.cpu, memory, maxIterations := s.maxIterations }

/-- The largest count of instructions that a counter of 64 bits holds. -/
def maxCount : Nat := 18446744073709551615

namespace Machine

variable {δ : Type}

/-- The status after an instruction has completed. -/
def statusAfter (cpu : Cpu) : Status :=
  if cpu.halted then .halted else .running

/-- The number of instructions at which a run stops. A machine without a limit stops at none; here
it stops at `maxCount`, so that every run has an end. No machine has run that many instructions, so
that what holds of every run up to there holds of every run there is. -/
def limit (m : Machine δ) : Nat :=
  m.maxIterations.getD maxCount

variable [Device δ]

/-- Runs one instruction; its clock cycles are the result. -/
def step : Machine δ → Except Fault Nat × Machine δ
  | { cpu, memory, cycles := total, iterations, maxIterations, status := _ } =>
    match cpu.step memory with
    | { result := .ok cycles, cpu, bus := memory } =>
      (.ok cycles,
        { cpu
          memory
          cycles := total + cycles
          iterations := iterations + 1
          maxIterations
          status := statusAfter cpu })
    | { result := .error fault, cpu, bus := memory } =>
      (.error fault,
        { cpu
          memory
          cycles := total
          iterations
          maxIterations
          status := .faulted })

/-- Runs up to `count` instructions, until a HALT or a failure. -/
def runFor : (count : Nat) → Machine δ → Except Fault Status × Machine δ
  | 0, m => (.ok .iterationLimit, { m with status := .iterationLimit })
  | count + 1, m =>
    match m.step with
    | (.ok _, m) => if m.status = .halted then (.ok .halted, m) else runFor count m
    | (.error fault, m) => (.error fault, m)

/-- Runs until a HALT, a failure, or the limit. -/
def run (m : Machine δ) : Except Fault Status × Machine δ :=
  m.runFor (m.limit - m.iterations)

/-! ## Interrupts -/

/-- Raises the maskable interrupt line with `data` on the data bus; whether it was answered is the
result. -/
def interrupt (m : Machine δ) (data : Byte) : Except Fault Bool × Machine δ :=
  let { result, cpu, bus } := (m.cpu.interrupt data m.memory).blame m.cpu.regs.pc
  let m := { m with cpu, memory := bus }
  match result with
  | .ok (some cycles) =>
    (.ok true, { m with cycles := m.cycles + cycles, status := .running })
  | .ok none => (.ok false, m)
  | .error fault => (.error fault, m)

/-- Pulses the non-maskable interrupt line. -/
def nonMaskableInterrupt (m : Machine δ) : Except Fault Unit × Machine δ :=
  let { result, cpu, bus } := (m.cpu.nonMaskableInterrupt m.memory).blame m.cpu.regs.pc
  let m := { m with cpu, memory := bus }
  match result with
  | .ok cycles => (.ok (), { m with cycles := m.cycles + cycles, status := .running })
  | .error fault => (.error fault, m)

end Machine

end Z80
