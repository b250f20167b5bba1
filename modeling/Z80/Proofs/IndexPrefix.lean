import Z80.Memory
import Z80.Proofs.Selection
import Z80.Proofs.Translation.Fields

/-!
# What an index prefix changes

A prefix puts IX or IY in the place of HL. On an opcode that names HL or a half of it as a register,
the prefixed instruction is the plain one with the two pairs exchanged before and after. On an
opcode with memory at HL as its operand, it is the plain one with HL moved for the time of the
instruction to where the index register and the displacement byte point.

Both are translations: `exchange` for the first, `pinned` for the second.
-/

namespace Z80

/-! ## Opcodes that name HL -/

namespace Opcode

/-- The opcodes that name the pair HL. -/
def pairForms : List Byte :=
  [0x09, 0x19, 0x29, 0x39, 0x21, 0x22, 0x2A, 0x23, 0x2B, 0xE1, 0xE3, 0xE5, 0xE9, 0xF9]

/-- The opcodes that name H or L and no memory: INC, DEC and LD of a byte, loads between registers,
and arithmetic. -/
def isHalfForm (byte : Byte) : Bool :=
  let y := fieldY byte
  let z := fieldZ byte
  match fieldX byte with
  | 0 => (y == 4 || y == 5) && (z == 4 || z == 5 || z == 6)
  | 1 => (y == 4 || y == 5 || z == 4 || z == 5) && y != 6 && z != 6
  | 2 => z == 4 || z == 5
  | _ => false

/-- The opcodes that name HL, H or L as registers. -/
def isRegisterForm (byte : Byte) : Bool :=
  pairForms.contains byte || isHalfForm byte

/-- The opcodes with memory at HL as an operand: INC, DEC and LD of a byte, loads from and to a
register, and arithmetic. -/
def isMemoryForm (byte : Byte) : Bool :=
  let y := fieldY byte
  let z := fieldZ byte
  match fieldX byte with
  | 0 => y == 6 && (z == 4 || z == 5 || z == 6)
  | 1 => (y == 6) != (z == 6)
  | 2 => z == 6
  | _ => false

/-- The loads between H or L and memory at HL. -/
def halfLoads : List Byte :=
  [0x66, 0x6E, 0x74, 0x75]

theorem isRegisterForm_eq (byte : Byte) :
    isRegisterForm byte
      = ((pairForms.map UInt8.toNat).any (Nat.beq byte.toNat) || isHalfForm byte) := by
  rw [isRegisterForm, contains_eq_any]

/-- These, and the way to the bit operations, are all the opcodes to which an index matters. -/
theorem usesIndex_eq (byte : Byte) :
    usesIndex byte = (byte == bitsPrefix || isRegisterForm byte || isMemoryForm byte) := by
  rw [isRegisterForm_eq]
  revert byte
  exact forall_byte (by decide +kernel)

/-- The clock cycles after an index prefix, from those without, where HL is named as a register. -/
def registerFormCycles (byte : Byte) (cycles : Nat) : Nat :=
  if byte = 0x23 ∨ byte = 0x2B then 10 else cycles + 4

/-- The clock cycles after an index prefix, from those without, where memory at HL is the
operand. -/
def memoryFormCycles (byte : Byte) (cycles : Nat) : Nat :=
  if byte = 0x36 then cycles + 9 else cycles + 12

end Opcode

/-- The processor with the values of HL and of another pair exchanged. -/
def Cpu.exchangeHl (index : Index) (cpu : Cpu) : Cpu :=
  { cpu with
    regs := (cpu.regs.writePair .hl (cpu.regs.readPair index.pair)).writePair index.pair
      cpu.regs.hl }

/-- An exchange of pairs keeps the two addresses that delimit an opcode. -/
theorem Cpu.exchangeHl_keeps (index : Index) (c : Cpu) :
    (c.exchangeHl index).regs.pc = c.regs.pc ∧ (c.exchangeHl index).start = c.start := by
  cases index <;> exact ⟨rfl, rfl⟩

/-! ## The two translations -/

namespace Translation

/-- Two of the pairs exchange their names and their values. -/
def exchange (i j : Index) : Translation where
  index k := if k = i then j else if k = j then i else k
  values x := (x.set i (x.get j)).set j (x.get i)

/-- HL and another pair have fixed values. -/
def pinned (index : Index) (fixed : Indexes) : Translation where
  values x := (x.set .hl fixed.hl).set index (fixed.get index)

theorem exchange_faithful (i j : Index) : (exchange i j).Faithful := by
  intro k
  constructor
  · intro x
    cases i <;> cases j <;> cases k <;> rfl
  · intro x w
    cases i <;> cases j <;> cases k <;> rfl

theorem exchange_cpu (index : Index) : (exchange .hl index).cpu = Cpu.exchangeHl index := by
  funext c
  cases index <;>
    simp [cpu, regs, exchange, Cpu.exchangeHl, Registers.withIndexes, Registers.indexes,
      Registers.writePair, Registers.readPair, Registers.hl, Indexes.set, Indexes.get, Index.pair]

end Translation

@[simp]
theorem Cpu.exchangeHl_exchangeHl (index : Index) (cpu : Cpu) :
    (cpu.exchangeHl index).exchangeHl index = cpu := by
  cases index <;>
    simp [exchangeHl, Registers.writePair, Registers.readPair, Registers.hl, Index.pair]

/-! ## HL as a register -/

namespace Opcode

variable {index : Index}

theorem leadsOn_of_registerForm (byte : Byte) (h : isRegisterForm byte = true) :
    leadsOn byte = false :=
  leadsOn_eq_false h (by decide)

/-- The loads among these opcodes are loads between registers. -/
theorem fields_registerForm (byte : Byte) (h : isRegisterForm byte = true)
    (hx : fieldX byte = 1) : fieldY byte ≠ 6 ∧ fieldZ byte ≠ 6 := by
  rcases Bool.or_eq_true_iff.1 h with hpair | hhalf
  · have hquarter : pairForms.all (fun b => fieldX b != 1) = true := by decide
    exact absurd hx
      (bne_iff_ne.1 (List.all_eq_true.1 hquarter byte (List.contains_iff_mem.1 hpair)))
  · simp only [isHalfForm, hx, Bool.and_eq_true, bne_iff_ne] at hhalf
    exact ⟨hhalf.1.2, hhalf.2⟩

/-- On these opcodes the prefix does no more than give HL another name. -/
theorem mainInstruction_registerForm (index : Index) (byte : Byte)
    (h : isRegisterForm byte = true) :
    mainInstruction index byte
      = (Translation.exchange .hl index).instruction (mainInstruction .hl byte) := by
  rw [Translation.instruction_main (.inr (fields_registerForm byte h))]
  rfl

theorem usesHl_registerForm (byte : Byte) (h : isRegisterForm byte = true) :
    (mainInstruction .hl byte).usesHl = false := by
  rw [isRegisterForm_eq] at h
  revert byte
  exact forall_byte (by decide +kernel)

theorem cycles_registerForm (hi : index ≠ .hl) (timing : Timing) (taken : Bool) (byte : Byte)
    (h : isRegisterForm byte = true) :
    (mainInstruction index byte).cycles timing taken
      = registerFormCycles byte ((mainInstruction .hl byte).cycles timing taken) := by
  have hall : ∀ byte,
      ((pairForms.map UInt8.toNat).any (Nat.beq byte.toNat) || isHalfForm byte) = true →
      ∀ index ∈ [Index.ix, .iy], ∀ timing ∈ [Timing.reference, .datasheet], ∀ taken : Bool,
      (mainInstruction index byte).cycles timing taken
        = registerFormCycles byte ((mainInstruction .hl byte).cycles timing taken) :=
    forall_byte (by decide +kernel)
  rw [isRegisterForm_eq] at h
  exact hall byte h index (Index.mem_of_ne hi) timing (by cases timing <;> decide) taken

end Opcode

namespace Action

variable {index : Index} {byte : Byte} {cpu : Cpu}

/-- An opcode that names HL as a register, after a prefix, makes the accesses it makes without the
prefix from the exchanged state. -/
theorem parallel_registerForm (lax : Prop) (hi : index ≠ .hl)
    (hc : cpu.variant.conformance = .undocumented) (h : Opcode.isRegisterForm byte = true) :
    (instructionFrom .hl byte (cpu.exchangeHl index)).Parallel lax
      (fun c c' => c' = c.exchangeHl index)
      (fun v c w c' => w = Opcode.registerFormCycles byte v ∧ c' = c.exchangeHl index)
      (instructionFrom index byte cpu) := by
  have hb := Opcode.leadsOn_of_registerForm byte h
  have hu : Opcode.usesIndex byte = true := by simp [Opcode.usesIndex_eq, h]
  rw [instructionFrom_main (.inl rfl) hb, instructionFrom_main (.inr hu) hb,
    perform_of_undocumented _ hc,
    perform_of_undocumented _ (show (cpu.exchangeHl index).variant.conformance = _ from hc)]
  simp only [Opcode.instruction]
  rw [Opcode.mainInstruction_registerForm index byte h]
  have ht : Tracks (.exchange .hl index) lax (Opcode.registerFormCycles byte)
      (complete (Opcode.mainInstruction .hl byte))
      (complete ((Translation.exchange .hl index).instruction
        (Opcode.mainInstruction .hl byte))) := by
    refine tracks_complete (Translation.exchange_faithful .hl index) (fun _ => rfl)
      (.inl fun _ => rfl) (fun _ => rfl) ?_ ?_
    · rw [Opcode.usesHl_registerForm byte h]
      exact fun hn => absurd hn (by decide)
    · intro timing taken
      rw [← Opcode.mainInstruction_registerForm index byte h]
      exact Opcode.cycles_registerForm hi timing taken byte h
  -- Exchanged twice, the state is the one the prefixed opcode starts from.
  have hp := ht (cpu.exchangeHl index)
  simp only [Translation.exchange_cpu, Cpu.exchangeHl_exchangeHl] at hp
  exact hp

end Action

/-! ## Memory at HL as the operand -/

/-- What an instruction does with its operand in memory. -/
inductive MemoryForm
  | increment
  | decrement
  | loadImmediate
  /-- LD r,(HL). -/
  | loadFrom (target : Register)
  /-- LD (HL),r. -/
  | loadTo (source : Register)
  | operate (op : Alu.Operation)
deriving DecidableEq

namespace MemoryForm

/-- The instruction, with the pair that points to its operand. -/
def instruction (index : Index) : MemoryForm → Instruction
  | .increment => .increment (.indirect index)
  | .decrement => .decrement (.indirect index)
  | .loadImmediate => .loadImmediate (.indirect index)
  | .loadFrom target => .load (.register target) (.indirect index)
  | .loadTo source => .load (.indirect index) (.register source)
  | .operate op => .operate op (.indirect index)

/-- What is done once the operand has been found. -/
def onOperand (operand : Operand) : MemoryForm → Action Unit
  | .increment => Action.stepOperand Alu.incByte operand
  | .decrement => Action.stepOperand Alu.decByte operand
  | .loadImmediate => Action.fetchInto operand
  | .loadFrom target => Action.copyByte (.register target) operand
  | .loadTo source => Action.copyByte operand (.register source)
  | .operate op => do Action.operate op (← Action.load operand)

/-- The same, with the clock cycles of the instruction. -/
def completeOn (index : Index) (operand : Operand) (form : MemoryForm) : Action Nat := do
  form.onOperand operand
  return (form.instruction index).cycles (← get).variant.timing false

/-- The register that is loaded or stored; A where there is none. -/
def register : MemoryForm → Register
  | .loadFrom name | .loadTo name => name
  | _ => .a

/-- What an opcode does with its operand in memory. -/
def ofByte (byte : Byte) : MemoryForm :=
  match Opcode.fieldX byte, Opcode.fieldY byte, Opcode.fieldZ byte with
  | 0, _, 4 => .increment
  | 0, _, 5 => .decrement
  | 0, _, _ => .loadImmediate
  | 1, 6, z => .loadTo ((Register.ofField z).getD .a)
  | 1, y, _ => .loadFrom ((Register.ofField y).getD .a)
  | _, y, _ => .operate (.ofField y)

/-- An instruction with its operand in memory first finds it and then works on it. -/
theorem complete_eq (form : MemoryForm) (index : Index) :
    Action.complete (form.instruction index)
      = Action.indirectAddress index >>= fun address =>
          form.completeOn index (.memory address) := by
  cases form <;>
    simp [Action.complete, instruction, Action.execute, Action.always, Action.stepByte,
      Action.moveImmediate, Action.move, Action.locate, completeOn, onOperand, Action.stepOperand,
      Action.fetchInto, Action.copyByte]

theorem complete_hl (form : MemoryForm) (cpu : Cpu) :
    Action.complete (form.instruction .hl) cpu
      = form.completeOn .hl (.memory cpu.regs.hl) cpu := by
  rw [complete_eq]
  rfl

/-- The displacement byte is fetched before all else. -/
theorem complete_of_ne {index : Index} (hi : index ≠ .hl) (form : MemoryForm) (cpu : Cpu) :
    Action.complete (form.instruction index) cpu
      = .read cpu cpu.regs.pc fun d =>
          form.completeOn index (.memory (cpu.regs.addressFrom index.pair d))
            { cpu with regs.pc := cpu.regs.pc + 1 } := by
  rw [complete_eq, Action.indirectAddress_of_ne hi]
  cases index with
  | hl => exact absurd rfl hi
  | ix | iy => rfl

/-- A translation that keeps the flag model and carries the register that is named works on an
operand in memory alike. -/
theorem tracks_onOperand {T : Translation} {lax : Prop} (hf : Action.KeepsFlagModel T)
    (form : MemoryForm) (hr : T.CarriesRegister form.register)
    (hn : T.register form.register = form.register) (address : Word) :
    Action.Tracks T lax id (form.onOperand (.memory address))
      (form.onOperand (.memory address)) := by
  have hm : T.CarriesOperand (.memory address) := trivial
  cases form with
  | increment => exact Action.tracks_stepOperand hf Alu.incByte hm
  | decrement => exact Action.tracks_stepOperand hf Alu.decByte hm
  | loadImmediate => exact Action.tracks_fetchInto hm
  | loadFrom target =>
    have h : Action.Tracks T lax id (Action.copyByte (.register target) (.memory address))
        (Action.copyByte (.register (T.register target)) (.memory address)) :=
      Action.tracks_copyByte (show T.CarriesOperand (.register target) from hr) hm
    rwa [show T.register target = target from hn] at h
  | loadTo source =>
    have h : Action.Tracks T lax id (Action.copyByte (.memory address) (.register source))
        (Action.copyByte (.memory address) (.register (T.register source))) :=
      Action.tracks_copyByte hm (show T.CarriesOperand (.register source) from hr)
    rwa [show T.register source = source from hn] at h
  | operate op =>
    refine .bind (Action.tracks_load hm) fun v => ?_
    exact Action.tracks_operate (fun _ => hf) v

theorem tracks_completeOn {T : Translation} {lax : Prop} (hf : Action.KeepsFlagModel T)
    (ht : ∀ v, (T.variant v).timing = v.timing) (form : MemoryForm)
    (hr : T.CarriesRegister form.register) (hn : T.register form.register = form.register)
    {index index' : Index} {g : Nat → Nat}
    (hg : ∀ timing, (form.instruction index').cycles timing false
      = g ((form.instruction index).cycles timing false)) (address : Word) :
    Action.Tracks T lax g (form.completeOn index (.memory address))
      (form.completeOn index' (.memory address)) := by
  refine .bind (tracks_onOperand hf form hr hn address) fun _ => ?_
  refine .bind Action.tracks_get fun c => ?_
  show Action.Tracks T lax g (pure ((form.instruction index).cycles c.variant.timing false))
    (pure ((form.instruction index').cycles (T.variant c.variant).timing false))
  rw [ht, hg]
  exact .pure g _

end MemoryForm

namespace Opcode

variable {index : Index}

theorem leadsOn_of_memoryForm (byte : Byte) (h : isMemoryForm byte = true) :
    leadsOn byte = false :=
  leadsOn_eq_false h (by decide)

theorem mainInstruction_memoryForm (byte : Byte) (h : isMemoryForm byte = true) :
    mainInstruction index byte = (MemoryForm.ofByte byte).instruction index := by
  revert byte
  cases index <;> exact forall_byte (by decide +kernel)

theorem cycles_memoryForm (hi : index ≠ .hl) (timing : Timing) (byte : Byte)
    (h : isMemoryForm byte = true) :
    ((MemoryForm.ofByte byte).instruction index).cycles timing false
      = memoryFormCycles byte (((MemoryForm.ofByte byte).instruction .hl).cycles timing false) := by
  revert byte
  cases index with
  | hl => exact absurd rfl hi
  | ix | iy => cases timing <;> exact forall_byte (by decide +kernel)

/-- Next to a memory operand stands a register that no translation renames, except in the four
loads. -/
theorem register_memoryForm (byte : Byte) (h : isMemoryForm byte = true) (hb : byte ∉ halfLoads) :
    (MemoryForm.ofByte byte).register ∈ [Register.a, .b, .c, .d, .e] := by
  revert byte
  exact forall_byte (by decide +kernel)

end Opcode

namespace Cpu

/-- The processor with an address in HL. -/
def pointHl (cpu : Cpu) (address : Word) : Cpu :=
  { cpu with regs := cpu.regs.writePair .hl address }

/-- The processor with the values of HL and of another pair taken from `own`. -/
def keepPairs (index : Index) (own cpu : Cpu) : Cpu :=
  { cpu with
    regs := (cpu.regs.writePair .hl own.regs.hl).writePair index.pair
      (own.regs.readPair index.pair) }

end Cpu

namespace Translation

theorem pinned_cpu (index : Index) (own : Cpu) :
    (pinned index own.regs.indexes).cpu = Cpu.keepPairs index own := by
  funext c
  cases index <;>
    simp [cpu, regs, pinned, Cpu.keepPairs, Registers.withIndexes, Registers.indexes,
      Registers.writePair, Registers.readPair, Registers.hl, Indexes.set, Indexes.get, Index.pair]

end Translation

theorem Cpu.keepPairs_keeps (index : Index) (own c : Cpu) :
    (Cpu.keepPairs index own c).regs.pc = c.regs.pc
      ∧ (Cpu.keepPairs index own c).start = c.start := by
  cases index <;> exact ⟨rfl, rfl⟩

theorem Cpu.keepPairs_pointHl (index : Index) (cpu : Cpu) (address : Word) :
    Cpu.keepPairs index cpu (cpu.pastByte.pointHl address) = cpu.pastByte := by
  cases index <;>
    simp [keepPairs, pointHl, pastByte, Registers.writePair, Registers.readPair, Registers.hl,
      Index.pair]

/-- The program counter is in neither pair. -/
theorem Cpu.keepPairs_pastByte (index : Index) (own c : Cpu) :
    Cpu.keepPairs index own c.pastByte = (Cpu.keepPairs index own c).pastByte := by
  cases index <;> rfl

namespace Action

variable {index : Index} {byte : Byte} {cpu : Cpu}

/-- Without a prefix, an opcode with memory at HL as its operand goes to work on it at once. -/
theorem instructionFrom_hl_memoryForm (hc : cpu.variant.conformance = .undocumented)
    (h : Opcode.isMemoryForm byte = true) :
    instructionFrom .hl byte cpu
      = (MemoryForm.ofByte byte).completeOn .hl (.memory cpu.regs.hl) cpu := by
  rw [instructionFrom_main (.inl rfl) (Opcode.leadsOn_of_memoryForm byte h),
    perform_of_undocumented _ hc, Opcode.instruction, Opcode.mainInstruction_memoryForm byte h,
    MemoryForm.complete_hl]

/-- After a prefix it first fetches the displacement. -/
theorem instructionFrom_memoryForm (hi : index ≠ .hl) (hc : cpu.variant.conformance = .undocumented)
    (h : Opcode.isMemoryForm byte = true) :
    instructionFrom index byte cpu
      = .read cpu cpu.regs.pc fun d =>
          (MemoryForm.ofByte byte).completeOn index (.memory (cpu.regs.addressFrom index.pair d))
            cpu.pastByte := by
  have hu : Opcode.usesIndex byte = true := by simp [Opcode.usesIndex_eq, h]
  rw [instructionFrom_main (.inr hu) (Opcode.leadsOn_of_memoryForm byte h),
    perform_of_undocumented _ hc, Opcode.instruction, Opcode.mainInstruction_memoryForm byte h,
    MemoryForm.complete_of_ne hi, Cpu.pastByte]

/-- From there on it makes the accesses that the unprefixed opcode makes with HL at the operand. -/
theorem parallel_memoryForm (lax : Prop) (hi : index ≠ .hl)
    (hc : cpu.variant.conformance = .undocumented) (h : Opcode.isMemoryForm byte = true)
    (hb : byte ∉ Opcode.halfLoads) (address : Word) :
    (instructionFrom .hl byte (cpu.pastByte.pointHl address)).Parallel lax
      (fun c c' => c' = Cpu.keepPairs index cpu c)
      (fun v c w c' => w = Opcode.memoryFormCycles byte v ∧ c' = Cpu.keepPairs index cpu c)
      ((MemoryForm.ofByte byte).completeOn index (.memory address) cpu.pastByte) := by
  rw [instructionFrom_hl_memoryForm
    (show (cpu.pastByte.pointHl address).variant.conformance = _ from hc) h]
  have haddress : (cpu.pastByte.pointHl address).regs.hl = address :=
    Registers.readPair_writePair_self cpu.pastByte.regs .hl address
  -- The register next to the operand is none of those with a fixed value.
  have hregister := Opcode.register_memoryForm byte h hb
  have hcarries : (Translation.pinned index cpu.regs.indexes).CarriesRegister
        (MemoryForm.ofByte byte).register
      ∧ (Translation.pinned index cpu.regs.indexes).register (MemoryForm.ofByte byte).register
        = (MemoryForm.ofByte byte).register := by
    simp only [List.mem_cons, List.not_mem_nil, or_false] at hregister
    rcases hregister with hr | hr | hr | hr | hr <;> rw [hr] <;> exact ⟨trivial, rfl⟩
  have ht : Tracks (.pinned index cpu.regs.indexes) lax (Opcode.memoryFormCycles byte)
      ((MemoryForm.ofByte byte).completeOn .hl (.memory address))
      ((MemoryForm.ofByte byte).completeOn index (.memory address)) :=
    MemoryForm.tracks_completeOn (fun _ => rfl) (fun _ => rfl) (MemoryForm.ofByte byte) hcarries.1
      hcarries.2 (fun timing => Opcode.cycles_memoryForm hi timing byte h) address
  have hp := ht (cpu.pastByte.pointHl address)
  simp only [Translation.pinned_cpu, Cpu.keepPairs_pointHl] at hp
  rw [haddress]
  exact hp

/-- The loads between H or L and indexed memory leave the index register alone: their H and L are
the registers of that name. -/
theorem instructionFrom_halfLoads (hi : index ≠ .hl)
    (hc : cpu.variant.conformance = .undocumented) :
    (instructionFrom index 0x66 cpu = .read cpu cpu.regs.pc fun d =>
      .read cpu.pastByte (cpu.regs.addressFrom index.pair d) fun v =>
        .done 19 { cpu.pastByte with regs.bank.h := v }) ∧
    (instructionFrom index 0x6E cpu = .read cpu cpu.regs.pc fun d =>
      .read cpu.pastByte (cpu.regs.addressFrom index.pair d) fun v =>
        .done 19 { cpu.pastByte with regs.bank.l := v }) ∧
    (instructionFrom index 0x74 cpu = .read cpu cpu.regs.pc fun d =>
      .write cpu.pastByte (cpu.regs.addressFrom index.pair d) cpu.regs.bank.h
        (.done 19 cpu.pastByte)) ∧
    (instructionFrom index 0x75 cpu = .read cpu cpu.regs.pc fun d =>
      .write cpu.pastByte (cpu.regs.addressFrom index.pair d) cpu.regs.bank.l
        (.done 19 cpu.pastByte)) := by
  rw [instructionFrom_memoryForm hi hc (by decide), instructionFrom_memoryForm hi hc (by decide),
    instructionFrom_memoryForm hi hc (by decide), instructionFrom_memoryForm hi hc (by decide)]
  cases index with
  | hl => exact absurd rfl hi
  | ix | iy => exact ⟨rfl, rfl, rfl, rfl⟩

/-! ## The prefixed instruction -/

/-- **An index prefix puts another pair in the place of HL and changes nothing else.** The opcodes
it matters to are the way to the bit operations, those that name HL or a half of it as a register,
and those with memory at HL as an operand.

The first make the accesses they make without the prefix from the state in which the two pairs are
exchanged, to the same end up to the exchange. The second fetch the displacement and then behave as
without the prefix if HL pointed to the operand, but both pairs keep their values. In a load between
H or L and the operand the register is H or L itself. -/
theorem instructionFrom_index {β : Type} [Bus β] {index : Index} (hi : index ≠ .hl) {cpu : Cpu}
    (hc : cpu.variant.conformance = .undocumented) :
    (∀ byte, Opcode.usesIndex byte
      = (byte == Opcode.bitsPrefix || Opcode.isRegisterForm byte || Opcode.isMemoryForm byte)) ∧
    (∀ byte, Opcode.isRegisterForm byte = true →
      instructionFrom index byte cpu
        = (instructionFrom .hl byte (cpu.exchangeHl index)).map
            (Opcode.registerFormCycles byte) (Cpu.exchangeHl index) ∧
      ∀ bus : β, (instructionFrom index byte cpu).run bus
        = ((instructionFrom .hl byte (cpu.exchangeHl index)).run bus).map
            (Opcode.registerFormCycles byte) (Cpu.exchangeHl index)) ∧
    (∀ byte, Opcode.isMemoryForm byte = true → byte ∉ Opcode.halfLoads →
      (instructionFrom index byte cpu = .read cpu cpu.regs.pc fun d =>
        (instructionFrom .hl byte
            (cpu.pastByte.pointHl (cpu.regs.addressFrom index.pair d))).map
          (Opcode.memoryFormCycles byte) (Cpu.keepPairs index cpu)) ∧
      ∀ (bus bus' : β) (d : Byte), Bus.read bus cpu.regs.pc = (.ok d, bus') →
        (instructionFrom index byte cpu).run bus
          = ((instructionFrom .hl byte
                (cpu.pastByte.pointHl (cpu.regs.addressFrom index.pair d))).run bus').map
              (Opcode.memoryFormCycles byte) (Cpu.keepPairs index cpu)) ∧
    (∀ (bus bus' : β) (d : Byte), Bus.read bus cpu.regs.pc = (.ok d, bus') →
      let address := cpu.regs.addressFrom index.pair d
      (instructionFrom index 0x66 cpu).run bus
        = ((readByte address cpu.pastByte).run bus').bind (fun v c bus =>
            { result := .ok 19, cpu := { c with regs.bank.h := v }, bus }) ∧
      (instructionFrom index 0x6E cpu).run bus
        = ((readByte address cpu.pastByte).run bus').bind (fun v c bus =>
            { result := .ok 19, cpu := { c with regs.bank.l := v }, bus }) ∧
      (instructionFrom index 0x74 cpu).run bus
        = ((writeByte address cpu.regs.bank.h cpu.pastByte).run bus').bind (fun _ c bus =>
            { result := .ok 19, cpu := c, bus }) ∧
      (instructionFrom index 0x75 cpu).run bus
        = ((writeByte address cpu.regs.bank.l cpu.pastByte).run bus').bind (fun _ c bus =>
            { result := .ok 19, cpu := c, bus })) := by
  refine ⟨Opcode.usesIndex_eq, fun byte h => ⟨?_, fun bus => ?_⟩,
    fun byte h hb => ⟨?_, fun bus bus' d hd => ?_⟩, fun bus bus' d hd => ?_⟩
  · exact (parallel_registerForm False hi hc h).eq_map
  · exact (parallel_registerForm False hi hc h).run_eq (Cpu.exchangeHl_keeps index) bus False.elim
  · rw [instructionFrom_memoryForm hi hc h]
    congr 1
    funext d
    exact (parallel_memoryForm False hi hc h hb _).eq_map
  · rw [instructionFrom_memoryForm hi hc h, Dialogue.run_read hd]
    exact (parallel_memoryForm False hi hc h hb _).run_eq (Cpu.keepPairs_keeps index cpu) bus'
      False.elim
  · intro address
    obtain ⟨hloadH, hloadL, hstoreH, hstoreL⟩ := instructionFrom_halfLoads hi hc
    rw [hloadH, hloadL, hstoreH, hstoreL]
    rw [Dialogue.run_read hd, Dialogue.run_read hd, Dialogue.run_read hd, Dialogue.run_read hd]
    refine ⟨?_, ?_, ?_, ?_⟩
    · exact Dialogue.run_bind (readByte address cpu.pastByte)
        (fun v c => .done 19 { c with regs.bank.h := v }) bus'
    · exact Dialogue.run_bind (readByte address cpu.pastByte)
        (fun v c => .done 19 { c with regs.bank.l := v }) bus'
    · exact Dialogue.run_bind (writeByte address cpu.regs.bank.h cpu.pastByte)
        (fun _ c => .done 19 c) bus'
    · exact Dialogue.run_bind (writeByte address cpu.regs.bank.l cpu.pastByte)
        (fun _ c => .done 19 c) bus'

/-- INC (IX-1), with 41 at the address that IX-1 is: the displacement is fetched, 41 becomes 42, and
IX and HL stay. -/
theorem instructionFrom_ix_increment :
    let cpu : Cpu := { regs := { ix := 4 }, variant := { conformance := .undocumented } }
    let bus : Memory LatchedPorts := { bytes := #[0xFF, 0, 0, 0x41], device := {} }
    Bus.read bus 0 = (.ok 0xFF, bus) ∧
    (instructionFrom .ix 0x34 cpu).run bus
      = ((instructionFrom .hl 0x34 (cpu.pastByte.pointHl 3)).run bus).map
          (Opcode.memoryFormCycles 0x34) (Cpu.keepPairs .ix cpu) ∧
    ((instructionFrom .ix 0x34 cpu).run bus).result.toOption = some 23 ∧
    ((instructionFrom .ix 0x34 cpu).run bus).bus.bytes = #[0xFF, 0, 0, 0x42] := by
  intro cpu bus
  have hread : Bus.read bus cpu.regs.pc = (.ok 0xFF, bus) := rfl
  have hix : Index.ix ≠ .hl := by decide
  have hcpu : cpu.variant.conformance = .undocumented := rfl
  obtain ⟨-, -, hmemory, -⟩ := instructionFrom_index (β := Memory LatchedPorts) hix hcpu
  have haddress : cpu.regs.addressFrom Index.ix.pair 0xFF = 3 := by decide
  have hrun := (hmemory 0x34 (by decide) (by decide)).2 bus bus 0xFF hread
  rw [haddress] at hrun
  exact ⟨hread, hrun, by decide +kernel, by decide +kernel⟩

end Action

end Z80
