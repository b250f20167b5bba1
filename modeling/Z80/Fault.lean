import Z80.Hex

/-!
# What can go wrong

A fault is a cause: the bytes that form no instruction, the address that no memory answers, the
setup that cannot be built. `Fault.message` words each of them once. A fault of memory names the
instruction that made the access; memory itself does not know it and says 0, and `Fault.blame` puts
the right address in.
-/

namespace Z80

/-- Why a machine cannot be set up as asked. -/
inductive SetupProblem
  /-- The memory would be empty, or larger than the address space. -/
  | memorySize (size : Nat)
  /-- The initial contents are longer than the memory. -/
  | imageTooLong (length size : Nat)
  /-- The program runs past the end of the memory. -/
  | programTooLong (length : Nat) (start : Word) (size : Nat)
  /-- A block of bytes runs past the end of the memory it is loaded into. -/
  | blockTooLong (length : Nat) (start : Word) (size : Nat)
  /-- What else a bus or a host reports, in its own words. -/
  | reported (text : String)
deriving DecidableEq

/-- The causes of failure. -/
inductive Fault
  /-- The bytes at `pc` form no instruction the processor is allowed to run. -/
  | invalidOpcode (pc : Word) (bytes : List Byte)
  /-- No memory answers at `address`; `pc` is the instruction that asked. -/
  | outOfRange (pc address : Word) (size : Nat)
  /-- The setup is contradictory. -/
  | setup (problem : SetupProblem)
  /-- The instruction at `pc` has more index prefixes than there are addresses, so that in memory
  that does not change it has no end. -/
  | endlessPrefixes (pc : Word)
deriving DecidableEq

/-- The number of addresses. -/
def addressSpace : Nat := 65536

/-- The wording of a setup problem. -/
def SetupProblem.message : SetupProblem → String
  | .memorySize size => s!"memory size {size} is outside 1..={addressSpace}"
  | .imageTooLong length size => s!"memory image of {length} bytes exceeds memory size {size}"
  | .programTooLong length start size =>
    s!"program of {length} bytes at 0x{Hex.word start} exceeds memory size {size}"
  | .blockTooLong length start size =>
    s!"{length} bytes at 0x{Hex.word start} do not fit in memory of {size} bytes"
  | .reported text => text

namespace Fault

/-- The wording of a fault. -/
def message : Fault → String
  | .invalidOpcode pc bytes => s!"invalid opcode {Hex.bytes bytes} at PC=0x{Hex.word pc}"
  | .outOfRange pc address size =>
    s!"address 0x{Hex.word address} is outside memory of {size} bytes (PC=0x{Hex.word pc})"
  | .setup problem => s!"invalid configuration: {problem.message}"
  | .endlessPrefixes pc => s!"index prefixes without end at PC=0x{Hex.word pc}"

/-- Attributes a fault of memory to the instruction at `pc`; other faults know where they belong. -/
def blame (pc : Word) : Fault → Fault
  | .outOfRange _ address size => .outOfRange pc address size
  | fault => fault

/-- An address outside the memory is charged to the instruction. -/
@[simp]
theorem blame_outOfRange (pc pc' address : Word) (size : Nat) :
    blame pc (.outOfRange pc' address size) = .outOfRange pc address size := rfl

/-- A refused opcode already names its own start. -/
@[simp]
theorem blame_invalidOpcode (pc pc' : Word) (bytes : List Byte) :
    blame pc (.invalidOpcode pc' bytes) = .invalidOpcode pc' bytes := rfl

@[simp]
theorem blame_setup (pc : Word) (problem : SetupProblem) :
    blame pc (.setup problem) = .setup problem := rfl

end Fault

end Z80
