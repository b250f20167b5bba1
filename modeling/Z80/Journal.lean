import Z80.Machine

/-!
# The journal

What a machine reports about itself while it works: one entry for each instruction, and one for each
thing that happens to a run. The entries are computed from the machine before the operation, by
doing it; nothing of the machine depends on them.
-/

namespace Z80

/-- How much an entry matters. -/
inductive Level
  | error
  | warn
  | info
  | debug
  | trace
deriving DecidableEq

/-- An entry of the journal. -/
structure Entry where
  level : Level
  text : String
deriving DecidableEq

/-- The name of a conformance level. -/
def Conformance.name : Conformance → String
  | .documented => "Documented"
  | .undocumented => "Undocumented"

/-- The name of an interrupt mode. -/
def InterruptMode.name : InterruptMode → String
  | .mode0 => "Mode0"
  | .mode1 => "Mode1"
  | .mode2 => "Mode2"

namespace Journal

variable {δ : Type} [Device δ]

/-- The entries of building a machine, none if the setup cannot be built. -/
def ofSetup (s : Setup) : List Entry :=
  match s.problem? with
  | some _ => []
  | none =>
    let load := Hex.word s.loadAddress
    let pc := Hex.word s.registers.pc
    [{ level := .debug
       text := s!"Z80 machine: {s.memorySize} bytes of memory, {s.program.size} byte program at " ++
        s!"0x{load}, PC=0x{pc}, {s.variant.conformance.name}" }]

/-- The entries of one instruction. The opcode shown is the byte found at the instruction's address
after it has run. -/
def ofStep (m : Machine δ) : List Entry :=
  match m.step with
  | (.error _, _) => []
  | (.ok cycles, after) =>
    let start := after.cpu.start
    let pc := Hex.word start
    let opcode := Hex.byte ((after.memory.read start).toOption.getD 0)
    [{ level := .trace
       text := s!"#{after.iterations} PC=0x{pc} op=0x{opcode} +{cycles} cycles" }]

/-- The entries of running up to `count` instructions. -/
def ofRunFor : (count : Nat) → Machine δ → List Entry
  | 0, m =>
    let pc := Hex.word m.cpu.regs.pc
    [{ level := .warn
       text := s!"iteration limit of {m.limit} reached at PC=0x{pc} after {m.cycles} cycles" }]
  | count + 1, m =>
    ofStep m ++
      match m.step with
      | (.error fault, after) =>
        let pc := Hex.word after.cpu.start
        let number := after.iterations + 1
        [{ level := .error
           text := s!"execution aborted at PC=0x{pc} (iteration {number}): {fault.message}" }]
      | (.ok _, after) =>
        if after.status = .halted then
          let pc := Hex.word after.cpu.regs.pc
          [{ level := .debug
             text := s!"HALT at PC=0x{pc} after {after.iterations} iterations, " ++
              s!"{after.cycles} cycles" }]
        else ofRunFor count after

/-- The entries of a run. -/
def ofRun (m : Machine δ) : List Entry :=
  ofRunFor (m.limit - m.iterations) m

/-- The entries of raising the maskable interrupt line. -/
def ofInterrupt (m : Machine δ) (data : Byte) : List Entry :=
  match m.interrupt data with
  | (.ok true, after) =>
    let pc := Hex.word after.cpu.regs.pc
    [{ level := .debug
       text := s!"interrupt accepted in {after.cpu.mode.name}, PC=0x{pc}" }]
  | _ => []

/-- The entries of pulsing the non-maskable interrupt line. -/
def ofNonMaskableInterrupt (m : Machine δ) : List Entry :=
  match m.nonMaskableInterrupt with
  | (.ok _, _) => [{ level := .debug, text := "NMI accepted" }]
  | (.error _, _) => []

end Journal

end Z80
