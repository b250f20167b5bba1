import Z80.Alu.Result
import Z80.Registers

/-!
# The processor between two instructions

The state of the processor: its registers, the interrupt flip-flops and mode, whether it has
stopped at a HALT, and which Z80 it is. The last is the `Variant`, a choice made once: how much
beyond the manual it runs, what INC, DEC and CP leave in P/V, and which table of clock cycles holds.
-/

namespace Z80

/-- How much beyond the manual the processor runs. -/
inductive Conformance
  /-- Only what the manual lists; all else is an invalid opcode. -/
  | documented
  /-- Whatever the silicon does with the bytes. -/
  | undocumented
deriving DecidableEq

/-- What P/V reports after INC and DEC of a byte and CP. -/
inductive FlagModel
  /-- Even parity of the byte computed. -/
  | parity
  /-- Signed overflow, as the silicon has it. -/
  | overflow
deriving DecidableEq

/-- Which table of clock cycles holds. -/
inductive Timing
  /-- INC and DEC of an unprefixed pair take 5. -/
  | reference
  /-- INC and DEC of an unprefixed pair take 6. -/
  | datasheet
deriving DecidableEq

/-- Which Z80 this is. -/
structure Variant where
  conformance : Conformance := .documented
  flagModel : FlagModel := .parity
  timing : Timing := .reference
deriving DecidableEq

/-- How a maskable interrupt is answered. -/
inductive InterruptMode
  /-- The device supplies a restart instruction. -/
  | mode0
  /-- Always the restart at 0038. -/
  | mode1
  /-- Through a table of addresses. -/
  | mode2
deriving DecidableEq

/-- The state of the processor. -/
structure Cpu where
  regs : Registers := {}
  /-- Whether maskable interrupts are enabled. -/
  iff1 : Bool := false
  /-- Where a non-maskable interrupt keeps `iff1`. -/
  iff2 : Bool := false
  mode : InterruptMode := .mode0
  /-- The last instruction was a HALT; the program counter still points at it. -/
  halted : Bool := false
  /-- The last instruction was an EI, which holds interrupts off until one more has completed. -/
  eiShadow : Bool := false
  variant : Variant := {}
  /-- The address of the instruction started last. -/
  start : Word := 0
deriving DecidableEq

/-- The clock cycles of INC and DEC of an unprefixed pair. -/
def Timing.pairStep : Timing → Nat
  | .reference => 5
  | .datasheet => 6

/-- The flags that INC, DEC and CP leave: `f` as the arithmetic unit has it, with overflow in P/V,
or with the parity of `v`, the byte computed, in its place. -/
def FlagModel.settle : FlagModel → Flags → Byte → Flags
  | .parity, f, v => Alu.withParityOf f v
  | .overflow, f, _ => f

namespace Cpu

/-- The state at power-on: all registers zero, interrupts disabled, mode 0. -/
def powerOn (variant : Variant) : Cpu :=
  { variant }

/-- Reset: power-on again, as the same variant. -/
def reset (cpu : Cpu) : Cpu :=
  powerOn cpu.variant

/-- Whether a maskable interrupt would be answered now. -/
def acceptsInterrupt (cpu : Cpu) : Bool :=
  cpu.iff1 && !cpu.eiShadow

/-- The state in which the instruction at the program counter starts. -/
def begin (cpu : Cpu) : Cpu :=
  { cpu with halted := false, eiShadow := false, start := cpu.regs.pc }

end Cpu

end Z80
