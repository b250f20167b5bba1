import Mathlib.Logic.Function.Basic
import Z80.Registers

/-!
# The register file as a store of bytes

The register file is twenty-six bytes. Some of them are kept as bytes, some as halves of a word, two
as records of their bits, and those with a shadow in banks that are exchanged as a whole. None of
this shows. Reading all of its bytes loses nothing of a register file and leaves none of them out
(`Registers.bytes_bijective`), and what is done to a register file is done to these bytes, each by
itself (`Registers.bytes_change`). So a register file and a plain store of bytes, to which the same
is done, give the same answers for ever (`Registers.bytes_foldl_change`).
-/

namespace Z80

/-- A byte of the register file: that of a byte register, one in a shadow bank, or half of a word
register whose halves have no names. -/
inductive Cell
  | named (name : Register)
  | shadowA | shadowF
  | shadowB | shadowC | shadowD | shadowE | shadowH | shadowL
  | spHigh | spLow | pcHigh | pcLow
deriving DecidableEq

/-- The high half of a pair. -/
def Pair.high : Pair → Cell
  | .af => .named .a
  | .bc => .named .b
  | .de => .named .d
  | .hl => .named .h
  | .ix => .named .ixh
  | .iy => .named .iyh
  | .sp => .spHigh
  | .pc => .pcHigh

/-- The low half of a pair. -/
def Pair.low : Pair → Cell
  | .af => .named .f
  | .bc => .named .c
  | .de => .named .e
  | .hl => .named .l
  | .ix => .named .ixl
  | .iy => .named .iyl
  | .sp => .spLow
  | .pc => .pcLow

namespace Cell

/-- The accumulator and the flags, and their shadow, in each other's place. -/
def exchangeAccumulator : Cell → Cell
  | named .a => shadowA
  | named .f => shadowF
  | shadowA => named .a
  | shadowF => named .f
  | cell => cell

/-- The general registers and their shadow in each other's place. -/
def exchangeBank : Cell → Cell
  | named .b => shadowB
  | named .c => shadowC
  | named .d => shadowD
  | named .e => shadowE
  | named .h => shadowH
  | named .l => shadowL
  | shadowB => named .b
  | shadowC => named .c
  | shadowD => named .d
  | shadowE => named .e
  | shadowH => named .h
  | shadowL => named .l
  | cell => cell

end Cell

/-! ## The bytes of a register file -/

namespace Registers

/-- The bytes of a register file. -/
def bytes (regs : Registers) : Cell → Byte
  | .named name => regs.read name
  | .shadowA => regs.accShadow.a
  | .shadowF => regs.accShadow.f.toByte
  | .shadowB => regs.bankShadow.b
  | .shadowC => regs.bankShadow.c
  | .shadowD => regs.bankShadow.d
  | .shadowE => regs.bankShadow.e
  | .shadowH => regs.bankShadow.h
  | .shadowL => regs.bankShadow.l
  | .spHigh => highByte regs.sp
  | .spLow => lowByte regs.sp
  | .pcHigh => highByte regs.pc
  | .pcLow => lowByte regs.pc

/-- The register file with these bytes. -/
def ofBytes (bytes : Cell → Byte) : Registers where
  acc := { a := bytes (.named .a), f := Flags.ofByte (bytes (.named .f)) }
  bank :=
    { b := bytes (.named .b), c := bytes (.named .c), d := bytes (.named .d)
      e := bytes (.named .e), h := bytes (.named .h), l := bytes (.named .l) }
  accShadow := { a := bytes .shadowA, f := Flags.ofByte (bytes .shadowF) }
  bankShadow :=
    { b := bytes .shadowB, c := bytes .shadowC, d := bytes .shadowD
      e := bytes .shadowE, h := bytes .shadowH, l := bytes .shadowL }
  ix := wordOf (bytes (.named .ixh)) (bytes (.named .ixl))
  iy := wordOf (bytes (.named .iyh)) (bytes (.named .iyl))
  sp := wordOf (bytes .spHigh) (bytes .spLow)
  pc := wordOf (bytes .pcHigh) (bytes .pcLow)
  i := bytes (.named .i)
  r := bytes (.named .r)

/-- The bytes of a register file make it up. -/
@[simp]
theorem ofBytes_bytes (regs : Registers) : ofBytes regs.bytes = regs := by
  simp [ofBytes, bytes, read]

/-- Any bytes at all are those of a register file. -/
@[simp]
theorem bytes_ofBytes (bytes : Cell → Byte) : (ofBytes bytes).bytes = bytes := by
  funext cell
  cases cell with
  | named name => cases name <;> simp [ofBytes, Registers.bytes, read]
  | _ => simp [ofBytes, Registers.bytes]

/-- A register file is its bytes, and any bytes are those of a register file. -/
theorem bytes_bijective : Function.Bijective bytes :=
  Function.bijective_iff_has_inverse.2 ⟨ofBytes, ofBytes_bytes, bytes_ofBytes⟩

/-- **A pair is its two halves**, of which the high one counts 256 times. -/
theorem readPair_eq (regs : Registers) (p : Pair) :
    regs.readPair p = wordOf (regs.bytes p.high) (regs.bytes p.low) := by
  cases p <;> simp [readPair, bc, de, hl, bytes, Pair.high, Pair.low, read]

/-! ## What is written -/

/-- Writing a register replaces the byte in its cell, and no other. -/
theorem bytes_write (regs : Registers) (name : Register) (v : Byte) (cell : Cell) :
    (regs.write name v).bytes cell = if cell = .named name then v else regs.bytes cell := by
  split
  · next h =>
    rw [h]
    exact read_write_self regs name v
  · next h =>
    cases cell with
    | named other => exact read_write_of_ne regs v fun he => h (congrArg Cell.named he)
    | _ => cases name <;> rfl

theorem bytes_writePair_of_named (regs : Registers) {p : Pair} {high low : Register} (w : Word)
    (hhigh : p.high = .named high) (hlow : p.low = .named low) (cell : Cell) :
    (regs.writePair p w).bytes cell
      = if cell = p.high then highByte w else if cell = p.low then lowByte w
        else regs.bytes cell := by
  have hwrites : regs.writePair p w = (regs.write high (highByte w)).write low (lowByte w) := by
    cases p <;> cases hhigh <;> cases hlow <;> simp [writePair, write]
  have hne : p.low ≠ p.high := by cases p <;> decide
  rw [hwrites, bytes_write, bytes_write, ← hhigh, ← hlow]
  by_cases h : cell = p.low
  · rw [h, if_pos rfl, if_neg hne, if_pos rfl]
  · rw [if_neg h, if_neg h]

/-- Writing a pair replaces the two bytes in its cells, and no other. -/
theorem bytes_writePair (regs : Registers) (p : Pair) (w : Word) (cell : Cell) :
    (regs.writePair p w).bytes cell
      = if cell = p.high then highByte w else if cell = p.low then lowByte w
        else regs.bytes cell := by
  cases p with
  | sp | pc =>
    cases cell with
    | named name => cases name <;> rfl
    | _ => rfl
  | _ => exact regs.bytes_writePair_of_named w rfl rfl cell

/-! ## What is exchanged -/

/-- EX AF,AF' exchanges the bytes of two cells with those of two others. -/
theorem bytes_exchangeAccumulator (regs : Registers) :
    regs.exchangeAccumulator.bytes = regs.bytes ∘ Cell.exchangeAccumulator := by
  funext cell
  cases cell with
  | named name => cases name <;> rfl
  | _ => rfl

/-- EXX exchanges the bytes of six cells with those of six others. -/
theorem bytes_exchangeBank (regs : Registers) :
    regs.exchangeBank.bytes = regs.bytes ∘ Cell.exchangeBank := by
  funext cell
  cases cell with
  | named name => cases name <;> rfl
  | _ => rfl

end Registers

/-! ## One change after another -/

/-- What can be done to a register file. -/
inductive Change
  | write (name : Register) (v : Byte)
  | writePair (p : Pair) (w : Word)
  | exchangeAccumulator
  | exchangeBank
  | exchangeAll

/-- A change of a register file. -/
def Registers.change (regs : Registers) : Change → Registers
  | .write name v => regs.write name v
  | .writePair p w => regs.writePair p w
  | .exchangeAccumulator => regs.exchangeAccumulator
  | .exchangeBank => regs.exchangeBank
  | .exchangeAll => regs.exchangeAll

/-- A byte for each cell, none of which depends on another. -/
abbrev ByteStore := Cell → Byte

/-- The same change of a store of bytes. -/
def ByteStore.change (store : ByteStore) : Change → ByteStore
  | .write name v => fun cell => if cell = .named name then v else store cell
  | .writePair p w => fun cell =>
    if cell = p.high then highByte w else if cell = p.low then lowByte w else store cell
  | .exchangeAccumulator => store ∘ Cell.exchangeAccumulator
  | .exchangeBank => store ∘ Cell.exchangeBank
  | .exchangeAll => store ∘ Cell.exchangeAccumulator ∘ Cell.exchangeBank

namespace Registers

/-- A change of the register file is the same change of the store. -/
theorem bytes_change (regs : Registers) (change : Change) :
    (regs.change change).bytes = ByteStore.change regs.bytes change := by
  cases change with
  | write name v => exact funext (regs.bytes_write name v)
  | writePair p w => exact funext (regs.bytes_writePair p w)
  | exchangeAccumulator => exact regs.bytes_exchangeAccumulator
  | exchangeBank => exact regs.bytes_exchangeBank
  | exchangeAll =>
    show regs.exchangeAccumulator.exchangeBank.bytes = _
    rw [bytes_exchangeBank, bytes_exchangeAccumulator]
    rfl

/-- **Whatever is done to a register file, its bytes are those of the store to which the same is
done.** -/
theorem bytes_foldl_change (regs : Registers) (changes : List Change) :
    (changes.foldl change regs).bytes = changes.foldl ByteStore.change regs.bytes :=
  (List.foldl_hom bytes fun regs change => (regs.bytes_change change).symm).symm

/-- **The register file is a store of bytes whose pairs alias their halves.** It is no more and no
less than its bytes. Whatever has been done to it, a register and a pair read as they would in a
store in which the bytes are kept apart. A write is seen in the register or pair written and in what
shares a byte with it, and nowhere else. The two exchanges move exactly their registers, commute,
and make up a third that undoes itself. -/
theorem store_exact :
    Function.Bijective bytes ∧
    (∀ (regs : Registers) (changes : List Change),
      let after := changes.foldl change regs
      let store := changes.foldl ByteStore.change regs.bytes
      after.bytes = store ∧
      (∀ name, after.read name = store (.named name)) ∧
      ∀ p, (after.readPair p).toNat = 256 * (store p.high).toNat + (store p.low).toNat) ∧
    ∀ regs : Registers,
      (∀ name v,
        (∀ other, (regs.write name v).read other = if other = name then v else regs.read other) ∧
        ∀ p, (regs.write name v).readPair p
          = wordOf (if p.high = .named name then v else highByte (regs.readPair p))
              (if p.low = .named name then v else lowByte (regs.readPair p))) ∧
      (∀ p w,
        (∀ name, (regs.writePair p w).read name
          = if .named name = p.high then highByte w else if .named name = p.low then lowByte w
            else regs.read name) ∧
        ∀ q, (regs.writePair p w).readPair q = if q = p then w else regs.readPair q) ∧
      regs.exchangeAccumulator.bytes = regs.bytes ∘ Cell.exchangeAccumulator ∧
      regs.exchangeBank.bytes = regs.bytes ∘ Cell.exchangeBank ∧
      regs.exchangeAccumulator.exchangeBank = regs.exchangeBank.exchangeAccumulator ∧
      regs.exchangeAll.exchangeAll = regs := by
  refine ⟨bytes_bijective, fun regs changes => ?_, fun regs => ⟨fun name v => ⟨fun other => ?_,
    fun p => ?_⟩, fun p w => ⟨fun name => ?_, fun q => ?_⟩, regs.bytes_exchangeAccumulator,
    regs.bytes_exchangeBank, rfl, rfl⟩⟩
  · intro after store
    have hstore : after.bytes = store := regs.bytes_foldl_change changes
    refine ⟨hstore, fun name => congrFun hstore (.named name), fun p => ?_⟩
    rw [readPair_eq, toNat_wordOf, hstore]
  · split
    · next h =>
      rw [h, read_write_self]
    · next h => exact regs.read_write_of_ne v h
  · simp only [readPair_eq, bytes_write, highByte_wordOf, lowByte_wordOf]
  · exact regs.bytes_writePair p w (.named name)
  · split
    · next h =>
      rw [h, readPair_writePair_self]
    · next h => exact regs.readPair_writePair_of_ne w h

/-- A pair, with its low half written again, goes to the shadow and comes back. -/
example :
    ([Change.writePair .bc 0x38FF, .write .c 0x01, .exchangeAll, .exchangeBank].foldl change
      {}).readPair .bc = 0x3801 := by decide

end Registers

end Z80
