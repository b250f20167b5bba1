import Z80.Instruction

/-!
# Opcodes

An opcode is a page and a byte that selects an instruction on it. The main page has no prefix; the
CB page holds the bit operations, the ED page the extensions. A DD or FD prefix puts IX or IY in the
place of HL on the main page, and before CB it leads to the indexed bit operations.

Each byte is read in three fields, `x` (bits 7 and 6), `y` (bits 5 to 3) and `z` (bits 2 to 0), and
`y` again in two, `p` (its upper two bits) and `q` (its lowest). `Opcode.instruction` gives
what a byte selects and `Opcode.isDocumented` whether the manual lists it.
-/

namespace Z80

/-- A page and the byte that selects an instruction on it. -/
inductive Opcode
  | main (index : Index) (byte : Byte)
  | bits (byte : Byte)
  /-- The displacement comes before the byte that selects. -/
  | indexedBits (index : Index) (displacement byte : Byte)
  | extended (byte : Byte)
deriving DecidableEq

namespace Opcode

/-! ## Fields -/

/-- Bits 7 and 6. -/
def fieldX (byte : Byte) : Nat := byte.toNat / 64

/-- Bits 5 to 3. -/
def fieldY (byte : Byte) : Nat := byte.toNat / 8 % 8

/-- Bits 2 to 0. -/
def fieldZ (byte : Byte) : Nat := byte.toNat % 8

/-- The byte operand that a three-bit field names: HL and its halves stand for the index. -/
def place (index : Index) (field : Nat) : Place :=
  match Register.ofField field with
  | none => .indirect index
  | some .h => .register index.high
  | some .l => .register index.low
  | some name => .register name

/-- The pair that a two-bit field names in loads and arithmetic. -/
def pair (index : Index) (field : Nat) : Pair :=
  match field % 4 with
  | 0 => .bc
  | 1 => .de
  | 2 => index.pair
  | _ => .sp

/-- The pair that a two-bit field names in PUSH and POP. -/
def stackPair (index : Index) (field : Nat) : Pair :=
  match field % 4 with
  | 3 => .af
  | _ => pair index field

/-! ## The main page -/

/-- Bytes 00 to 3F. -/
def firstQuarter (index : Index) (y z : Nat) : Instruction :=
  let p := y / 2
  let q := y % 2
  match z with
  | 0 =>
    match y with
    | 0 => .nop
    | 1 => .exchangeAccumulator
    | 2 => .decrementAndJump
    | 3 => .jumpRelative none
    | _ => .jumpRelative (some (.ofField (y % 4)))
  | 1 => if q = 0 then .loadPairImmediate (pair index p) else .addPair index (pair index p)
  | 2 =>
    match y with
    | 0 => .storeAccumulatorTo .bc
    | 1 => .loadAccumulatorFrom .bc
    | 2 => .storeAccumulatorTo .de
    | 3 => .loadAccumulatorFrom .de
    | 4 => .storeIndex index
    | 5 => .loadIndex index
    | 6 => .storeAccumulator
    | _ => .loadAccumulator
  | 3 => if q = 0 then .incrementPair (pair index p) else .decrementPair (pair index p)
  | 4 => .increment (place index y)
  | 5 => .decrement (place index y)
  | 6 => .loadImmediate (place index y)
  | _ =>
    match y with
    | 4 => .decimalAdjust
    | 5 => .complement
    | 6 => .setCarry
    | 7 => .flipCarry
    | _ => .shiftAccumulator (.ofField y)

/-- Bytes 40 to 7F. Next to a memory operand, H and L are the registers themselves. -/
def secondQuarter (index : Index) (y z : Nat) : Instruction :=
  match y, z with
  | 6, 6 => .halt
  | 6, _ => .load (.indirect index) (place .hl z)
  | _, 6 => .load (place .hl y) (.indirect index)
  | _, _ => .load (place index y) (place index z)

/-- Bytes C0 to FF. The four prefixes are no instructions; their places are filled with NOP. -/
def lastQuarter (index : Index) (y z : Nat) : Instruction :=
  let p := y / 2
  let q := y % 2
  match z with
  | 0 => .retIf (.ofField y)
  | 1 =>
    if q = 0 then .pop (stackPair index p)
    else
      match p with
      | 0 => .ret
      | 1 => .exchangeBank
      | 2 => .jumpIndex index
      | _ => .loadStackPointer index
  | 2 => .jump (some (.ofField y))
  | 3 =>
    match y with
    | 0 => .jump none
    | 1 => .nop
    | 2 => .output
    | 3 => .input
    | 4 => .exchangeStackTop index
    | 5 => .exchangeDeHl
    | 6 => .disableInterrupts
    | _ => .enableInterrupts
  | 4 => .call (some (.ofField y))
  | 5 =>
    if q = 0 then .push (stackPair index p)
    else
      match p with
      | 0 => .call none
      | _ => .nop
  | 6 => .operateImmediate (.ofField y)
  | _ => .restart (UInt16.ofNat (8 * y))

/-- What a byte selects on the main page. -/
def mainInstruction (index : Index) (byte : Byte) : Instruction :=
  let y := fieldY byte
  let z := fieldZ byte
  match fieldX byte with
  | 0 => firstQuarter index y z
  | 1 => secondQuarter index y z
  | 2 => .operate (.ofField y) (place index z)
  | _ => lastQuarter index y z

/-- Whether an index prefix makes a difference to the byte after it. -/
def usesIndex (byte : Byte) : Bool :=
  byte == 0xCB || mainInstruction .ix byte != mainInstruction .hl byte

/-! ## The CB pages -/

/-- What a byte of the CB pages does to its operand. -/
def bitOperation (byte : Byte) : BitOperation :=
  let y := fieldY byte
  match fieldX byte with
  | 0 => .shift (.ofField y)
  | 1 => .test y
  | 2 => .reset y
  | _ => .set y

/-! ## The ED page -/

/-- The interrupt mode that a three-bit field of the ED page names. -/
def interruptMode (field : Nat) : InterruptMode :=
  match field % 4 with
  | 2 => .mode1
  | 3 => .mode2
  | _ => .mode0

/-- What a byte selects on the ED page. -/
def extendedInstruction (byte : Byte) : Instruction :=
  let y := fieldY byte
  let p := y / 2
  let q := y % 2
  match fieldX byte, fieldZ byte with
  | 1, 0 => .inputTo (Register.ofField y)
  | 1, 1 => .outputFrom (Register.ofField y)
  | 1, 2 => if q = 0 then .subPairCarry (pair .hl p) else .addPairCarry (pair .hl p)
  | 1, 3 => if q = 0 then .storePair (pair .hl p) else .loadPair (pair .hl p)
  | 1, 4 => .negate
  | 1, 5 => .retInterrupt
  | 1, 6 => .setMode (interruptMode y)
  | 1, _ =>
    match y with
    | 0 => .storeSpecial .i
    | 1 => .storeSpecial .r
    | 2 => .loadSpecial .i
    | 3 => .loadSpecial .r
    | 4 => .rotateDigitRight
    | 5 => .rotateDigitLeft
    | _ => .nothing
  | 2, z =>
    if y < 4 then .nothing
    else
      match z with
      | 0 => .block .load (q = 1) (6 ≤ y)
      | 1 => .block .compare (q = 1) (6 ≤ y)
      | 2 => .block .input (q = 1) (6 ≤ y)
      | 3 => .block .output (q = 1) (6 ≤ y)
      | _ => .nothing
  | _, _ => .nothing

/-- Whether the manual lists a byte of the ED page. Of the opcodes that select the same instruction
it lists one each of NEG and the three modes, and two returns. -/
def isDocumentedExtended (byte : Byte) : Bool :=
  let y := fieldY byte
  match fieldX byte, fieldZ byte with
  | 1, 0 | 1, 1 => y != 6
  | 1, 2 | 1, 3 => true
  | 1, 4 => y == 0
  | 1, 5 => y ≤ 1
  | 1, 6 => y == 0 || y == 2 || y == 3
  | 1, _ => y ≤ 5
  | 2, z => 4 ≤ y && z ≤ 3
  | _, _ => false

/-! ## Opcodes as a whole -/

/-- What an opcode selects. The fields other than 6 of an indexed bit operation name a register
that receives a copy. -/
def instruction : Opcode → Instruction
  | main index byte => mainInstruction index byte
  | bits byte => .bits (bitOperation byte) (place .hl (fieldZ byte))
  | indexedBits index displacement byte =>
    .indexedBits (bitOperation byte) index displacement (Register.ofField (fieldZ byte))
  | extended byte => extendedInstruction byte

/-- Whether the manual lists the opcode: it names no half of an index register, does not shift a one
in, copies nothing from an indexed operand, and has a meaning on the ED page. -/
def isDocumented : Opcode → Bool
  | main index byte => !(mainInstruction index byte).usesIndexHalf
  | bits byte => bitOperation byte != .shift .sll
  | indexedBits _ _ byte => fieldZ byte == 6 && bitOperation byte != .shift .sll
  | extended byte => isDocumentedExtended byte

/-- Whether an opcode that the manual does not list is told apart only once its operand has been
read: the shift that moves a one in. -/
def isToldApartLate : Opcode → Bool
  | bits byte => bitOperation byte == .shift .sll
  | indexedBits _ _ byte => fieldZ byte == 6 && bitOperation byte == .shift .sll
  | main _ _ | extended _ => false

end Opcode

end Z80
