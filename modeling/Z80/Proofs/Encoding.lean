import Z80.Proofs.Frame
import Z80.Proofs.PrefixChain

/-!
# The lengths of instructions

How long an instruction is, its bytes say: how many bytes follow an opcode, and whether one of them
is a displacement after an index prefix, can be looked up (`Encoding.length`). The processor looks
up nothing. It reads an opcode, from the bytes that `Opcode.Spelled` says, and the instruction
fetches the rest as it runs (`Instruction.fetches`). The two agree: `Opcode.Spelled.length`.
-/

namespace Z80

/-! ## The tables -/

namespace Encoding

/-- The opcodes before an immediate byte, a relative offset or the number of a port. -/
def beforeByte : List Byte :=
  [0x06, 0x0E, 0x16, 0x1E, 0x26, 0x2E, 0x36, 0x3E,
    0xC6, 0xCE, 0xD6, 0xDE, 0xE6, 0xEE, 0xF6, 0xFE,
    0x10, 0x18, 0x20, 0x28, 0x30, 0x38, 0xD3, 0xDB]

/-- The opcodes before an immediate word or an address. -/
def beforeWord : List Byte :=
  [0x01, 0x11, 0x21, 0x31, 0x22, 0x2A, 0x32, 0x3A,
    0xC2, 0xCA, 0xD2, 0xDA, 0xE2, 0xEA, 0xF2, 0xFA, 0xC3,
    0xC4, 0xCC, 0xD4, 0xDC, 0xE4, 0xEC, 0xF4, 0xFC, 0xCD]

/-- The opcodes with an operand in memory at HL, which has a displacement if it is at IX or IY. -/
def beforeDisplacement : List Byte :=
  [0x34, 0x35, 0x36, 0x46, 0x4E, 0x56, 0x5E, 0x66, 0x6E, 0x7E,
    0x70, 0x71, 0x72, 0x73, 0x74, 0x75, 0x77,
    0x86, 0x8E, 0x96, 0x9E, 0xA6, 0xAE, 0xB6, 0xBE]

/-- The bytes that come before an address on the ED page: LD (nn),rr and LD rr,(nn). -/
def extendedBeforeWord : List Byte :=
  [0x43, 0x4B, 0x53, 0x5B, 0x63, 0x6B, 0x73, 0x7B]

/-- How many bytes follow an opcode of the main page, a displacement aside. -/
def operandBytes (byte : Byte) : Nat :=
  if beforeByte.contains byte then 1 else if beforeWord.contains byte then 2 else 0

/-- Whether a displacement follows an opcode of the main page. -/
def hasDisplacement (index : Index) (byte : Byte) : Bool :=
  index != .hl && beforeDisplacement.contains byte

/-- The length of an instruction by its first two bytes, without its index prefixes, of which the
last one is that of `index`. -/
def length (index : Index) (first second : Byte) : Nat :=
  if first = 0xED then if extendedBeforeWord.contains second then 4 else 2
  else if first = 0xCB then if index = .hl then 2 else 3
  else 1 + (hasDisplacement index first).toNat + operandBytes first

end Encoding

/-! ## What an instruction fetches -/

/-- The bytes fetched to find an operand. -/
def Place.fetches : Place → Nat
  | .register _ | .indirect .hl => 0
  | .indirect _ => 1

/-- The bytes that an instruction fetches as it runs. -/
def Instruction.fetches : Instruction → Nat
  | .load target source => target.fetches + source.fetches
  | .loadImmediate target => target.fetches + 1
  | .operate _ operand | .increment operand | .decrement operand | .bits _ operand =>
    operand.fetches
  | .operateImmediate _ | .jumpRelative _ | .decrementAndJump | .input | .output => 1
  | .loadAccumulator | .storeAccumulator | .loadPairImmediate _ | .loadIndex _ | .storeIndex _
  | .loadPair _ | .storePair _ | .jump _ | .call _ => 2
  | _ => 0

namespace Opcode

/-- On the main page an instruction fetches its displacement and its operand bytes. -/
theorem fetches_main (index : Index) (byte : Byte) :
    (mainInstruction index byte).fetches
      = (Encoding.hasDisplacement index byte).toNat + Encoding.operandBytes byte := by
  simp only [Encoding.hasDisplacement, Encoding.operandBytes, contains_eq_any]
  revert byte
  cases index <;> exact forall_byte (by decide +kernel)

theorem fetches_bits (byte : Byte) : (bits byte).instruction.fetches = 0 := by
  revert byte
  exact forall_byte (by decide +kernel)

theorem fetches_extended (byte : Byte) :
    2 + (extendedInstruction byte).fetches
      = if Encoding.extendedBeforeWord.contains byte then 4 else 2 := by
  rw [contains_eq_any]
  revert byte
  exact forall_byte (by decide +kernel)

/-- An opcode for which no index matters has no operand at one. -/
theorem hasDisplacement_of_usesIndex (index : Index) {byte : Byte} (h : usesIndex byte = false) :
    Encoding.hasDisplacement index byte = false := by
  have hall : ∀ byte : Byte, usesIndex byte = false →
      (Encoding.beforeDisplacement.map UInt8.toNat).any (Nat.beq byte.toNat) = false :=
    forall_byte (by decide +kernel)
  rw [Encoding.hasDisplacement, contains_eq_any, hall byte h, Bool.and_false]

/-! ## Opcodes in memory -/

variable {δ : Type}

/-- How an opcode stands in memory after index prefixes, of which the last one is that of `index`.
Its first byte is at `address`, and the byte after it at `next`. -/
inductive Spelled (m : Memory δ) (address : Word) (index : Index) : Opcode → (next : Word) → Prop
  | main (hlead : leadsOn (m.byte address) = false)
    (hindex : index = .hl ∨ usesIndex (m.byte address) = true) :
    Spelled m address index (.main index (m.byte address)) (address + 1)
  /-- The prefixes are dropped. -/
  | ignored (hlead : leadsOn (m.byte address) = false) (hindex : index ≠ .hl)
    (hu : usesIndex (m.byte address) = false) :
    Spelled m address index (.main .hl (m.byte address)) (address + 1)
  | bits (hfirst : m.byte address = bitsPrefix) (hindex : index = .hl) :
    Spelled m address index (.bits (m.byte (address + 1))) (address + 2)
  | indexedBits (hfirst : m.byte address = bitsPrefix) (hindex : index ≠ .hl) :
    Spelled m address index
      (.indexedBits index (m.byte (address + 1)) (m.byte (address + 2))) (address + 3)
  /-- No index matters. -/
  | extended (hfirst : m.byte address = extendedPrefix) :
    Spelled m address index (.extended (m.byte (address + 1))) (address + 2)

/-- The bytes in memory leave no choice. -/
theorem Spelled.unique {m : Memory δ} {address next next' : Word} {index : Index}
    {opcode opcode' : Opcode} (h : opcode.Spelled m address index next)
    (h' : opcode'.Spelled m address index next') : opcode = opcode' ∧ next = next' := by
  have hbits : leadsOn bitsPrefix = true := rfl
  have hextended : leadsOn extendedPrefix = true := rfl
  have hne : bitsPrefix ≠ extendedPrefix := by decide
  cases h <;> cases h' <;> simp_all

theorem length_of_leadsOn {byte : Byte} (h : leadsOn byte = false) (index : Index)
    (second : Byte) :
    Encoding.length index byte second
      = 1 + (Encoding.hasDisplacement index byte).toNat + Encoding.operandBytes byte := by
  have hextended : byte ≠ 0xED := by
    rintro rfl
    cases h
  have hbits : byte ≠ 0xCB := by
    rintro rfl
    cases h
  rw [Encoding.length, if_neg hextended, if_neg hbits]

/-- **What an opcode is spelled with and what its instruction fetches adds up to its length.** -/
theorem Spelled.length {m : Memory δ} {address next : Word} {index : Index} {opcode : Opcode}
    (h : opcode.Spelled m address index next) :
    next + UInt16.ofNat opcode.instruction.fetches
      = address + UInt16.ofNat (Encoding.length index (m.byte address) (m.byte (address + 1))) := by
  have hsum (spelled : Nat) {fetched total : Nat} (e : spelled + fetched = total) :
      address + UInt16.ofNat spelled + UInt16.ofNat fetched = address + UInt16.ofNat total := by
    rw [← e, UInt16.ofNat_add, UInt16.add_assoc]
  cases h with
  | main hlead =>
    refine hsum 1 ?_
    rw [length_of_leadsOn hlead, Nat.add_assoc]
    exact congrArg (1 + ·) (fetches_main index _)
  | ignored hlead hindex hu =>
    -- The length is looked up with the index, and what is fetched is for HL.
    refine hsum 1 ?_
    rw [length_of_leadsOn hlead, Nat.add_assoc, hasDisplacement_of_usesIndex index hu]
    exact congrArg (1 + ·) (fetches_main .hl _)
  | bits hfirst hindex =>
    rw [hfirst, hindex]
    exact hsum 2 (congrArg (2 + ·) (fetches_bits _))
  | indexedBits hfirst hindex =>
    have hlength (second : Byte) : Encoding.length index bitsPrefix second = 3 := if_neg hindex
    rw [hfirst, hlength]
    exact hsum 3 rfl
  | extended hfirst =>
    rw [hfirst]
    exact hsum 2 (fetches_extended _)

/-! ## Reading opcodes -/

section reading

variable [Device δ] {m m' : Memory δ} {budget ignored count : Nat} {index : Index} {opcode : Opcode}
  {address : Word} {cpu c : Cpu}

/-- If there are no prefixes, or once they have been dropped, a byte starts an opcode by itself. -/
theorem spelled_of_select_hl (hm : m.size = addressSpace)
    (hnone : prefixIndex (m.byte address) = none) (hpc : cpu.regs.pc = address + 1)
    (hindex : index = .hl ∨ usesIndex (m.byte address) = false)
    (h : (select (budget + 1) ignored .hl (m.byte address) cpu).run m
      = { result := .ok (count, opcode), cpu := c, bus := m' }) :
    opcode.Spelled m address index c.regs.pc := by
  have hnext : cpu.regs.pc + 1 = address + 2 := by
    rw [hpc, UInt16.add_assoc]
    rfl
  by_cases he : m.byte address = extendedPrefix
  · rw [he, select_extendedPrefix, Action.run_fetch_of_full hm] at h
    cases h
    show (extended (m.byte cpu.regs.pc)).Spelled m address index (cpu.regs.pc + 1)
    rw [hnext, hpc]
    exact .extended he
  by_cases hb : m.byte address = bitsPrefix
  · have hhl : index = .hl := hindex.resolve_right (by rw [hb]; decide)
    rw [hb, select_bitsPrefix, Action.run_fetch_of_full hm] at h
    cases h
    show (bits (m.byte cpu.regs.pc)).Spelled m address index (cpu.regs.pc + 1)
    rw [hnext, hpc]
    exact .bits hb hhl
  · have hlead := leadsOn_of_prefixIndex hnone he hb
    rw [select_main (.inl rfl) hlead] at h
    cases h
    show (main .hl (m.byte address)).Spelled m address index cpu.regs.pc
    rw [hpc]
    by_cases hhl : index = .hl
    · rw [hhl]
      exact .main hlead (.inl rfl)
    · exact .ignored hlead hhl (hindex.resolve_left hhl)

/-- A byte that is no prefix starts an opcode. -/
theorem spelled_of_select (hm : m.size = addressSpace)
    (hnone : prefixIndex (m.byte address) = none) (hpc : cpu.regs.pc = address + 1)
    (h : (select (budget + 1) ignored index (m.byte address) cpu).run m
      = { result := .ok (count, opcode), cpu := c, bus := m' }) :
    opcode.Spelled m address index c.regs.pc := by
  by_cases hi : index = .hl
  · rw [hi] at h ⊢
    exact spelled_of_select_hl hm hnone hpc (.inl rfl) h
  cases hu : usesIndex (m.byte address) with
  | false =>
    rw [select_ignored hi hu] at h
    exact spelled_of_select_hl hm hnone hpc (.inr hu) (Action.run_requireUndocumented_ok h)
  | true =>
    by_cases hb : m.byte address = bitsPrefix
    · -- The displacement comes before the byte that selects the operation.
      have hthird : address + 1 + 1 = address + 2 := (UInt16.add_assoc ..).trans rfl
      have hnext : address + 1 + 1 + 1 = address + 3 := by
        rw [UInt16.add_assoc, UInt16.add_assoc]
        rfl
      rw [hb, select_bitsPrefix_of_ne hi, Action.run_fetch_of_full hm,
        Action.run_fetch_of_full hm] at h
      cases h
      show (indexedBits index (m.byte cpu.regs.pc) (m.byte (cpu.regs.pc + 1))).Spelled m address
        index (cpu.regs.pc + 1 + 1)
      rw [hpc, hnext, hthird]
      exact .indexedBits hb hi
    · have hlead := leadsOn_of_usesIndex _ hu hb
      rw [select_main (.inr hu) hlead] at h
      cases h
      show (main index (m.byte address)).Spelled m address index cpu.regs.pc
      rw [hpc]
      exact .main hlead (.inr hu)

theorem prefixes_of_full (hm : m.size = addressSpace) (budget : Nat) (address : Word) :
    Bus.prefixes (budget + 1) address m
      = if m.byte address = 0xDD ∨ m.byte address = 0xFD
        then m.byte address :: Bus.prefixes budget (address + 1) m
        else [] := by
  simp only [Bus.prefixes, Memory.bus_read_of_full hm]

/-- The index that prefixes lead to, each of which replaces the one before it. -/
def indexAfter (index : Index) (prefixes : List Byte) : Index :=
  prefixes.foldl (fun index byte => (prefixIndex byte).getD index) index

/-- **The opcode that a step reads stands in memory after the index prefixes.** -/
theorem spelled_of_fetch (hm : m.size = addressSpace)
    (h : ((Action.fetch >>= select budget ignored index) cpu).run m
      = { result := .ok (count, opcode), cpu := c, bus := m' }) :
    opcode.Spelled m
      (cpu.regs.pc + UInt16.ofNat (Bus.prefixes budget cpu.regs.pc m).length)
      (indexAfter index (Bus.prefixes budget cpu.regs.pc m)) c.regs.pc := by
  induction budget generalizing ignored index cpu with
  | zero =>
    rw [Action.run_fetch_of_full hm] at h
    cases h
  | succ budget ih =>
    rw [Action.run_fetch_of_full hm] at h
    rw [prefixes_of_full hm]
    cases hbyte : prefixIndex (m.byte cpu.regs.pc) with
    | none =>
      have hno : ¬ (m.byte cpu.regs.pc = 0xDD ∨ m.byte cpu.regs.pc = 0xFD) :=
        not_or.2 (of_prefixIndex_eq_none hbyte)
      rw [if_neg hno, List.length_nil, show UInt16.ofNat 0 = 0 from rfl, UInt16.add_zero]
      exact spelled_of_select hm hbyte rfl h
    | some next =>
      -- Whatever came before it, the byte is the prefix that counts so far.
      obtain ⟨dropped, hrest⟩ := run_select_prefixIndex hbyte h
      have hspelled := ih hrest
      rw [if_pos (of_prefixIndex hbyte).2, List.length_cons, Nat.add_comm _ 1, UInt16.ofNat_add,
        ← UInt16.add_assoc, indexAfter, List.foldl_cons, hbyte]
      exact hspelled

end reading

end Opcode

end Z80
