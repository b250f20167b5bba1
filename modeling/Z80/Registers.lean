import Z80.Flags

/-!
# The register file

Eight byte registers in two banks, each with a shadow bank behind it, two index registers whose
halves can be named, the stack pointer and the program counter, and the two special registers I
and R. The banks are records of their own, so that an exchange with the shadow is the exchange of
two fields. A pair is always its high register followed by its low one; `readPair_writePair` and
`read_write_self` say that what is written is read back.
-/

namespace Z80

/-- The accumulator and its flags. -/
structure Accumulator where
  a : Byte := 0
  f : Flags := {}
deriving DecidableEq

/-- The six general registers. -/
structure Bank where
  b : Byte := 0
  c : Byte := 0
  d : Byte := 0
  e : Byte := 0
  h : Byte := 0
  l : Byte := 0
deriving DecidableEq

/-- The whole register file. -/
structure Registers where
  acc : Accumulator := {}
  bank : Bank := {}
  /-- What EX AF exchanges the accumulator with. -/
  accShadow : Accumulator := {}
  /-- What EXX exchanges the general registers with. -/
  bankShadow : Bank := {}
  ix : Word := 0
  iy : Word := 0
  sp : Word := 0
  pc : Word := 0
  /-- High byte of the vector table of interrupt mode 2. -/
  i : Byte := 0
  /-- The refresh register; only LD R,A and LD A,R reach it. -/
  r : Byte := 0
deriving DecidableEq

/-- The byte registers that have a name. -/
inductive Register
  | a | f | b | c | d | e | h | l | i | r
  | ixh | ixl | iyh | iyl
deriving DecidableEq

/-- The word registers and register pairs. -/
inductive Pair
  | af | bc | de | hl | ix | iy | sp | pc
deriving DecidableEq

/-- The register that a three-bit opcode field names. Field 6 names memory, not a register. Only
the low three bits of `field` count. -/
def Register.ofField (field : Nat) : Option Register :=
  match field % 8 with
  | 0 => some .b
  | 1 => some .c
  | 2 => some .d
  | 3 => some .e
  | 4 => some .h
  | 5 => some .l
  | 6 => none
  | _ => some .a

/-- Halves of IX and IY, which the manual does not name. -/
def Register.isIndexHalf : Register → Bool
  | .ixh | .ixl | .iyh | .iyl => true
  | _ => false

namespace Registers

/-! ## Bytes -/

/-- The value of a byte register. -/
def read (regs : Registers) : Register → Byte
  | .a => regs.acc.a
  | .f => regs.acc.f.toByte
  | .b => regs.bank.b
  | .c => regs.bank.c
  | .d => regs.bank.d
  | .e => regs.bank.e
  | .h => regs.bank.h
  | .l => regs.bank.l
  | .i => regs.i
  | .r => regs.r
  | .ixh => highByte regs.ix
  | .ixl => lowByte regs.ix
  | .iyh => highByte regs.iy
  | .iyl => lowByte regs.iy

/-- Replaces a byte register; a write to half of an index register keeps its other half. -/
def write (regs : Registers) (name : Register) (v : Byte) : Registers :=
  match name with
  | .a => { regs with acc.a := v }
  | .f => { regs with acc.f := Flags.ofByte v }
  | .b => { regs with bank.b := v }
  | .c => { regs with bank.c := v }
  | .d => { regs with bank.d := v }
  | .e => { regs with bank.e := v }
  | .h => { regs with bank.h := v }
  | .l => { regs with bank.l := v }
  | .i => { regs with i := v }
  | .r => { regs with r := v }
  | .ixh => { regs with ix := wordOf v (lowByte regs.ix) }
  | .ixl => { regs with ix := wordOf (highByte regs.ix) v }
  | .iyh => { regs with iy := wordOf v (lowByte regs.iy) }
  | .iyl => { regs with iy := wordOf (highByte regs.iy) v }

/-- A register holds what has been written to it. -/
@[simp]
theorem read_write_self (regs : Registers) (name : Register) (v : Byte) :
    (regs.write name v).read name = v := by
  cases name <;> simp [read, write]

/-- Writing a register leaves every other register. -/
theorem read_write_of_ne (regs : Registers) {name other : Register} (v : Byte)
    (h : other ≠ name) :
    (regs.write name v).read other = regs.read other := by
  cases name <;> cases other <;> simp_all [read, write]

/-! ## Words -/

/-- The word in BC. -/
def bc (regs : Registers) : Word := wordOf regs.bank.b regs.bank.c

/-- The word in DE. -/
def de (regs : Registers) : Word := wordOf regs.bank.d regs.bank.e

/-- The word in HL. -/
def hl (regs : Registers) : Word := wordOf regs.bank.h regs.bank.l

/-- The value of a word register or pair. -/
def readPair (regs : Registers) : Pair → Word
  | .af => wordOf regs.acc.a regs.acc.f.toByte
  | .bc => regs.bc
  | .de => regs.de
  | .hl => regs.hl
  | .ix => regs.ix
  | .iy => regs.iy
  | .sp => regs.sp
  | .pc => regs.pc

/-- Replaces a word register or both registers of a pair. -/
def writePair (regs : Registers) (p : Pair) (w : Word) : Registers :=
  match p with
  | .af => { regs with acc := { a := highByte w, f := Flags.ofByte (lowByte w) } }
  | .bc => { regs with bank.b := highByte w, bank.c := lowByte w }
  | .de => { regs with bank.d := highByte w, bank.e := lowByte w }
  | .hl => { regs with bank.h := highByte w, bank.l := lowByte w }
  | .ix => { regs with ix := w }
  | .iy => { regs with iy := w }
  | .sp => { regs with sp := w }
  | .pc => { regs with pc := w }

/-- A pair holds what has been written to it. -/
@[simp]
theorem readPair_writePair_self (regs : Registers) (p : Pair) (w : Word) :
    (regs.writePair p w).readPair p = w := by
  cases p <;> simp [readPair, writePair, bc, de, hl]

/-- Writing back what a pair holds changes nothing. -/
@[simp]
theorem writePair_readPair_self (regs : Registers) (p : Pair) :
    regs.writePair p (regs.readPair p) = regs := by
  cases p <;> simp [readPair, writePair, bc, de, hl]

/-- No two pairs have a register in common. -/
theorem readPair_writePair_of_ne (regs : Registers) {p q : Pair} (w : Word) (h : q ≠ p) :
    (regs.writePair p w).readPair q = regs.readPair q := by
  cases p <;> cases q <;> simp_all [readPair, writePair, bc, de, hl]

/-- The address `d` bytes (as a signed number) from the value of a pair. -/
def addressFrom (regs : Registers) (p : Pair) (d : Byte) : Word :=
  displaced (regs.readPair p) d

/-! ## Exchanges with the shadow banks -/

/-- EX AF: exchanges the accumulator and flags with their shadow. -/
def exchangeAccumulator (regs : Registers) : Registers :=
  { regs with acc := regs.accShadow, accShadow := regs.acc }

/-- EXX: exchanges the general registers with their shadow. -/
def exchangeBank (regs : Registers) : Registers :=
  { regs with bank := regs.bankShadow, bankShadow := regs.bank }

/-- Exchanges both banks with their shadows. -/
def exchangeAll (regs : Registers) : Registers :=
  regs.exchangeAccumulator.exchangeBank

@[simp]
theorem exchangeAccumulator_exchangeAccumulator (regs : Registers) :
    regs.exchangeAccumulator.exchangeAccumulator = regs := rfl

@[simp]
theorem exchangeBank_exchangeBank (regs : Registers) :
    regs.exchangeBank.exchangeBank = regs := rfl

@[simp]
theorem exchangeAll_exchangeAll (regs : Registers) :
    regs.exchangeAll.exchangeAll = regs := rfl

end Registers

end Z80
