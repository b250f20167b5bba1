import Z80.Execute
import Z80.Proofs.Parallel

/-!
# Translations of the processor

HL, IX and IY are three places for one role, the variant is a choice made once, and the address of
the instruction is kept for reports alone. A `Translation` says how one state of the processor is
read as another that differs in these alone: what the three pairs are called there, which values
they have, which variant it is, and where the instruction started.

A translation *carries* a pair if reading and writing it here is reading and writing its name there.
`Tracks` compares two actions under a translation, and is proved for the steps that instructions are
made of; the order of the lemmas is that of the definitions.
-/

namespace Z80

/-! ## The three pairs -/

/-- The values of the pairs that an index prefix chooses between. -/
structure Indexes where
  hl : Word
  ix : Word
  iy : Word

namespace Indexes

/-- The value of a pair. -/
def get (x : Indexes) : Index → Word
  | .hl => x.hl
  | .ix => x.ix
  | .iy => x.iy

/-- Replaces the value of a pair. -/
def set (x : Indexes) (i : Index) (w : Word) : Indexes :=
  match i with
  | .hl => { x with hl := w }
  | .ix => { x with ix := w }
  | .iy => { x with iy := w }

end Indexes

namespace Registers

/-- The values of the three pairs. -/
def indexes (regs : Registers) : Indexes where
  hl := regs.hl
  ix := regs.ix
  iy := regs.iy

/-- Replaces the values of the three pairs. -/
def withIndexes (regs : Registers) (x : Indexes) : Registers :=
  { regs with bank.h := highByte x.hl, bank.l := lowByte x.hl, ix := x.ix, iy := x.iy }

/-- What the three pairs have been given is what they hold. -/
@[simp]
theorem indexes_withIndexes (regs : Registers) (x : Indexes) :
    (regs.withIndexes x).indexes = x := by
  simp [indexes, withIndexes, hl]

/-- Giving the three pairs what they hold changes nothing. -/
@[simp]
theorem withIndexes_indexes (regs : Registers) : regs.withIndexes regs.indexes = regs := by
  simp [indexes, withIndexes, hl]

/-- Reading one of the three pairs by name is reading it among the three. -/
theorem readPair_index (regs : Registers) (i : Index) :
    regs.readPair i.pair = regs.indexes.get i := by
  cases i <;> rfl

/-- Writing one of the three pairs by name replaces it among the three. -/
theorem writePair_index (regs : Registers) (i : Index) (w : Word) :
    regs.writePair i.pair w = regs.withIndexes (regs.indexes.set i w) := by
  cases i <;> simp [Index.pair, writePair, withIndexes, indexes, Indexes.set, hl]

/-- The upper half of one of the three pairs, by the value of the pair. -/
theorem read_high (regs : Registers) (i : Index) :
    regs.read i.high = highByte (regs.readPair i.pair) := by
  cases i <;> simp [Index.high, Index.pair, read, readPair, hl]

/-- The lower half of one of the three pairs, by the value of the pair. -/
theorem read_low (regs : Registers) (i : Index) :
    regs.read i.low = lowByte (regs.readPair i.pair) := by
  cases i <;> simp [Index.low, Index.pair, read, readPair, hl]

/-- Writing an upper half is writing the pair with its lower half kept. -/
theorem write_high (regs : Registers) (i : Index) (v : Byte) :
    regs.write i.high v
      = regs.writePair i.pair (wordOf v (lowByte (regs.readPair i.pair))) := by
  cases i <;> simp [Index.high, Index.pair, write, writePair, readPair, hl]

/-- Writing a lower half is writing the pair with its upper half kept. -/
theorem write_low (regs : Registers) (i : Index) (v : Byte) :
    regs.write i.low v
      = regs.writePair i.pair (wordOf (highByte (regs.readPair i.pair)) v) := by
  cases i <;> simp [Index.low, Index.pair, write, writePair, readPair, hl]

end Registers

/-! ## Translations -/

/-- A way to read one state of the processor as another: the three pairs have other names and values
there, the variant and the start of the instruction are others, and all else is the same. -/
structure Translation where
  index : Index → Index := id
  values : Indexes → Indexes := id
  variant : Variant → Variant := id
  start : Word → Word := id

namespace Translation

variable (T : Translation)

/-- The register file as it is there. -/
def regs (regs : Registers) : Registers :=
  regs.withIndexes (T.values regs.indexes)

/-- The processor as it is there. -/
def cpu (cpu : Cpu) : Cpu :=
  { cpu with
    regs := T.regs cpu.regs
    variant := T.variant cpu.variant
    start := T.start cpu.start }

/-- The name of a pair there. -/
def pair : Pair → Pair
  | .hl => (T.index .hl).pair
  | .ix => (T.index .ix).pair
  | .iy => (T.index .iy).pair
  | name => name

/-- The name of a register there; a half of one of the three pairs is the same half. -/
def register : Register → Register
  | .h => (T.index .hl).high
  | .l => (T.index .hl).low
  | .ixh => (T.index .ix).high
  | .ixl => (T.index .ix).low
  | .iyh => (T.index .iy).high
  | .iyl => (T.index .iy).low
  | name => name

/-- The name of an operand there. -/
def place : Place → Place
  | .register name => .register (T.register name)
  | .indirect index => .indirect (T.index index)

/-- The operand there. -/
def operand : Operand → Operand
  | .register name => .register (T.register name)
  | .memory address => .memory address

@[simp]
theorem pair_index (i : Index) : T.pair i.pair = (T.index i).pair := by
  cases i <;> rfl

/-- Reading and writing a pair here is reading and writing its name there. -/
structure Carries (i : Index) : Prop where
  get : ∀ x, (T.values x).get (T.index i) = x.get i
  set : ∀ x w, T.values (x.set i w) = (T.values x).set (T.index i) w

/-- Whether a translation carries the pair that `name` is a half of, if it is. -/
def CarriesRegister : Register → Prop
  | .h | .l => T.Carries .hl
  | .ixh | .ixl => T.Carries .ix
  | .iyh | .iyl => T.Carries .iy
  | _ => True

/-- Whether a translation carries what an operand names. -/
def CarriesOperand : Operand → Prop
  | .register name => T.CarriesRegister name
  | .memory _ => True

/-- A translation that carries all three pairs. -/
def Faithful : Prop := ∀ i, T.Carries i

variable {T}

/-- A pair that is carried is read there, under its name, with the value it has here. -/
theorem Carries.readPair {i : Index} (h : T.Carries i) (r : Registers) :
    (T.regs r).readPair (T.index i).pair = r.readPair i.pair := by
  rw [Registers.readPair_index, Registers.readPair_index, regs, Registers.indexes_withIndexes,
    h.get]

/-- Writing a pair that is carried and translating may be done in either order. -/
theorem Carries.writePair {i : Index} (h : T.Carries i) (r : Registers) (w : Word) :
    (T.regs r).writePair (T.index i).pair w = T.regs (r.writePair i.pair w) := by
  rw [Registers.writePair_index, Registers.writePair_index, regs, regs,
    Registers.indexes_withIndexes, Registers.indexes_withIndexes, h.set]
  rfl

theorem Carries.read_high {i : Index} (h : T.Carries i) (r : Registers) :
    (T.regs r).read (T.index i).high = r.read i.high := by
  rw [Registers.read_high, Registers.read_high, h.readPair]

theorem Carries.read_low {i : Index} (h : T.Carries i) (r : Registers) :
    (T.regs r).read (T.index i).low = r.read i.low := by
  rw [Registers.read_low, Registers.read_low, h.readPair]

theorem Carries.write_high {i : Index} (h : T.Carries i) (r : Registers) (v : Byte) :
    (T.regs r).write (T.index i).high v = T.regs (r.write i.high v) := by
  rw [Registers.write_high, Registers.write_high, h.readPair, h.writePair]

theorem Carries.write_low {i : Index} (h : T.Carries i) (r : Registers) (v : Byte) :
    (T.regs r).write (T.index i).low v = T.regs (r.write i.low v) := by
  rw [Registers.write_low, Registers.write_low, h.readPair, h.writePair]

/-- A register that is carried is read there, under its name, with the value it has here. -/
theorem read_register {name : Register} (h : T.CarriesRegister name) (r : Registers) :
    (T.regs r).read (T.register name) = r.read name := by
  cases name with
  | h | ixh | iyh => exact Carries.read_high h r
  | l | ixl | iyl => exact Carries.read_low h r
  | _ => rfl

/-- Writing a register that is carried and translating may be done in either order. -/
theorem write_register {name : Register} (h : T.CarriesRegister name) (r : Registers) (v : Byte) :
    (T.regs r).write (T.register name) v = T.regs (r.write name v) := by
  cases name with
  | h | ixh | iyh => exact Carries.write_high h r v
  | l | ixl | iyl => exact Carries.write_low h r v
  | _ => rfl

/-- A faithful translation carries every register, as a half of a pair or as no half of one. -/
theorem Faithful.register (hT : T.Faithful) (name : Register) : T.CarriesRegister name := by
  cases name with
  | h | l => exact hT .hl
  | ixh | ixl => exact hT .ix
  | iyh | iyl => exact hT .iy
  | _ => trivial

theorem Faithful.operand (hT : T.Faithful) (op : Operand) : T.CarriesOperand op := by
  cases op with
  | register name => exact hT.register name
  | memory _ => trivial

/-- A faithful translation keeps the value of every pair, the three and the others. -/
theorem Faithful.readPair (hT : T.Faithful) (r : Registers) (name : Pair) :
    (T.regs r).readPair (T.pair name) = r.readPair name := by
  cases name with
  | hl => exact (hT .hl).readPair r
  | ix => exact (hT .ix).readPair r
  | iy => exact (hT .iy).readPair r
  | _ => rfl

/-- A faithful translation lets every pair be written on either side. -/
theorem Faithful.writePair (hT : T.Faithful) (r : Registers) (name : Pair) (w : Word) :
    (T.regs r).writePair (T.pair name) w = T.regs (r.writePair name w) := by
  cases name with
  | hl => exact (hT .hl).writePair r w
  | ix => exact (hT .ix).writePair r w
  | iy => exact (hT .iy).writePair r w
  | _ => rfl

/-- HL has its own value there if it has its own name. -/
theorem Faithful.hl_eq (hT : T.Faithful) (hl : T.index .hl = .hl) (r : Registers) :
    (T.regs r).hl = r.hl := by
  have h := (hT .hl).readPair r
  rwa [hl] at h

/-- A faithful translation that calls HL by its own name gives no other pair that name. -/
theorem Faithful.eq_hl (hT : T.Faithful) (hl : T.index .hl = .hl) {i : Index}
    (h : T.index i = .hl) : i = .hl := by
  have hg : ∀ x : Indexes, x.get i = x.get .hl := fun x => by
    rw [← (hT i).get x, ← (hT .hl).get x, h, hl]
  cases i with
  | hl => rfl
  | ix => exact absurd (hg ⟨0, 1, 0⟩) (by decide)
  | iy => exact absurd (hg ⟨0, 0, 1⟩) (by decide)

end Translation

end Z80
