import Z80.Step

/-!
# What the first bytes select

`Opcode.select` walks through index prefixes. Its equations, one for each kind of byte it can meet,
are stated here, and with them what the rest of an instruction is once its first byte is known:
`Action.instructionFrom index byte` runs the instruction that `byte` starts after the prefix of
`index`.
-/

namespace Z80

/-- What holds of the 256 bytes one by one holds of every byte. -/
theorem forall_byte {P : Byte → Prop} (h : ∀ n : Fin 256, P (UInt8.ofNat n)) (b : Byte) : P b := by
  have hb := h ⟨b.toNat, b.toNat_lt⟩
  simpa using hb

/-- Numbers are compared faster than bytes, which matters where a list is searched for each byte. -/
theorem contains_eq_any (bytes : List Byte) (b : Byte) :
    bytes.contains b = (bytes.map UInt8.toNat).any (Nat.beq b.toNat) := by
  rw [Bool.eq_iff_iff]
  simp [UInt8.toNat_inj]

theorem Index.mem_of_ne {index : Index} (h : index ≠ .hl) : index ∈ [Index.ix, .iy] := by
  cases index with
  | hl => exact absurd rfl h
  | ix | iy => decide

/-- The processor with the program counter past the next byte. -/
def Cpu.pastByte (cpu : Cpu) : Cpu :=
  { cpu with regs.pc := cpu.regs.pc + 1 }

/-- Once a bus has answered a read, its dialogue goes on from the answer. -/
theorem Dialogue.run_read {α β : Type} [Bus β] {bus bus' : β} {address : Word} {v : Byte}
    (h : Bus.read bus address = (.ok v, bus')) (c : Cpu) (next : Byte → Dialogue α) :
    (Dialogue.read c address next).run bus = (next v).run bus' :=
  (run_read_eq c address next bus).trans (follow_ok h)

namespace Opcode

/-- Whether a byte leads on to another byte of the opcode. -/
def leadsOn (byte : Byte) : Bool :=
  byte == ixPrefix || byte == iyPrefix || byte == bitsPrefix || byte == extendedPrefix

/-- What holds of none of the four bytes that do holds only of bytes that do not. -/
theorem leadsOn_eq_false {p : Byte → Bool} {byte : Byte} (hp : p byte = true)
    (h : p ixPrefix = false ∧ p iyPrefix = false ∧ p bitsPrefix = false
      ∧ p extendedPrefix = false) :
    leadsOn byte = false := by
  obtain ⟨hix, hiy, hbits, hextended⟩ := h
  have hne {b : Byte} (hb : p b = false) : (byte == b) = false := by
    refine beq_eq_false_iff_ne.2 fun e => ?_
    rw [e, hb] at hp
    cases hp
  simp only [leadsOn, hne hix, hne hiy, hne hbits, hne hextended, Bool.or_self]

variable {budget ignored : Nat} {index : Index} {byte : Byte}

/-- A prefix before a byte for which no index matters is dropped. -/
theorem select_ignored (hi : index ≠ .hl) (hb : usesIndex byte = false) :
    select (budget + 1) ignored index byte
      = Action.requireUndocumented >>= fun _ => select (budget + 1) (ignored + 1) .hl byte := by
  simp [select, hi, hb]

/-- A byte that is not preceded by a prefix to be dropped leads on, or is the opcode. -/
theorem select_kept (h : index = .hl ∨ usesIndex byte = true) :
    select (budget + 1) ignored index byte
      = if byte = ixPrefix then Action.fetch >>= select budget ignored .ix
        else if byte = iyPrefix then Action.fetch >>= select budget ignored .iy
        else if byte = extendedPrefix then do
          return (ignored, .extended (← Action.fetch))
        else if byte = bitsPrefix then
          if index = .hl then do
            return (ignored, .bits (← Action.fetch))
          else do
            let displacement ← Action.fetch
            return (ignored, .indexedBits index displacement (← Action.fetch))
        else pure (ignored, .main index byte) := by
  have hi : (index != .hl && !usesIndex byte) = false := by
    rcases h with rfl | h
    · rfl
    · simp [h]
  rw [select, hi]
  cases index <;> rfl

/-- A byte on the main page is the opcode, if it is not preceded by a prefix to be dropped. -/
theorem select_main (h : index = .hl ∨ usesIndex byte = true) (hb : leadsOn byte = false) :
    select (budget + 1) ignored index byte = pure (ignored, .main index byte) := by
  simp only [leadsOn, Bool.or_eq_false_iff, beq_eq_false_iff_ne] at hb
  obtain ⟨⟨⟨h1, h2⟩, h3⟩, h4⟩ := hb
  rw [select_kept h, if_neg h1, if_neg h2, if_neg h4, if_neg h3]

theorem select_ixPrefix :
    select (budget + 1) ignored .hl ixPrefix = Action.fetch >>= select budget ignored .ix := by
  rw [select_kept (.inl rfl), if_pos rfl]

theorem select_iyPrefix :
    select (budget + 1) ignored .hl iyPrefix = Action.fetch >>= select budget ignored .iy := by
  rw [select_kept (.inl rfl), if_neg (by decide), if_pos rfl]

theorem select_extendedPrefix :
    select (budget + 1) ignored .hl extendedPrefix = do
      return (ignored, .extended (← Action.fetch)) := by
  rw [select_kept (.inl rfl), if_neg (by decide), if_neg (by decide), if_pos rfl]

theorem select_bitsPrefix :
    select (budget + 1) ignored .hl bitsPrefix = do
      return (ignored, .bits (← Action.fetch)) := by
  rw [select_kept (.inl rfl), if_neg (by decide), if_neg (by decide), if_neg (by decide),
    if_pos rfl, if_pos rfl]

theorem select_bitsPrefix_of_ne (hi : index ≠ .hl) :
    select (budget + 1) ignored index bitsPrefix = do
      let displacement ← Action.fetch
      return (ignored, .indexedBits index displacement (← Action.fetch)) := by
  rw [select_kept (.inr (by decide)), if_neg (by decide), if_neg (by decide), if_neg (by decide),
    if_pos rfl, if_neg hi]

/-- How reading an opcode goes on when `byte` has been fetched: it is given up, or asks for a
processor that runs what the manual does not list, or fetches another byte, or is finished. An
opcode on the main page is then the byte fetched last. -/
inductive ReadsOn : (byte : Byte) → Action (Nat × Opcode) → Prop
  | fail {byte : Byte} (fault : Cpu → Fault) : ReadsOn byte fun cpu => .fail (fault cpu) cpu
  | ask {byte : Byte} {a : Action (Nat × Opcode)} (rest : ReadsOn byte a) :
    ReadsOn byte (Action.requireUndocumented >>= fun _ => a)
  | fetch {byte : Byte} {k : Byte → Action (Nat × Opcode)} (rest : ∀ b, ReadsOn b (k b)) :
    ReadsOn byte (Action.fetch >>= k)
  | finished {byte : Byte} {count : Nat} {opcode : Opcode}
    (last : ∀ index b, opcode = .main index b → b = byte) : ReadsOn byte (pure (count, opcode))

theorem ReadsOn.ite {q : Prop} [Decidable q] {a b : Action (Nat × Opcode)} (ha : ReadsOn byte a)
    (hb : ReadsOn byte b) : ReadsOn byte (if q then a else b) := by
  split
  · exact ha
  · exact hb

/-- An opcode that is on no main page is finished with any byte. -/
theorem ReadsOn.finished_of_ne {count : Nat} {opcode : Opcode}
    (h : ∀ index b, opcode ≠ .main index b) : ReadsOn byte (pure (count, opcode)) :=
  .finished fun index b e => absurd e (h index b)

/-- An opcode is selected by reading on, whatever the budget of prefixes. -/
theorem readsOn_select (budget ignored : Nat) (index : Index) (byte : Byte) :
    ReadsOn byte (select budget ignored index byte) := by
  induction budget generalizing ignored index byte with
  | zero => exact .fail fun cpu => .endlessPrefixes cpu.start
  | succ budget ih =>
    have hextended (b : Byte) : ∀ index b', Opcode.extended b ≠ .main index b' := by
      intro _ _ h
      cases h
    have hbits (b : Byte) : ∀ index b', Opcode.bits b ≠ .main index b' := by
      intro _ _ h
      cases h
    have hindexed (i : Index) (d b : Byte) :
        ∀ index b', Opcode.indexedBits i d b ≠ .main index b' := by
      intro _ _ h
      cases h
    unfold select
    -- Whether the prefix is dropped or not, what follows has the same form.
    refine .ite (.ask ?_) ?_
    all_goals
      refine .ite (.fetch fun b => ih _ .ix b) (.ite (.fetch fun b => ih _ .iy b) ?_)
      refine .ite (.fetch fun b => .finished_of_ne (hextended b)) (.ite ?_ (.finished ?_))
      · generalize (if (index != .hl && !usesIndex byte) = true then Index.hl else index) = chosen
        cases chosen with
        | hl => exact .fetch fun b => .finished_of_ne (hbits b)
        | ix | iy => exact .fetch fun d => .fetch fun b => .finished_of_ne (hindexed _ d b)
      · intro _ b h
        cases h
        rfl

end Opcode

namespace Action

/-- Runs the instruction that starts with `byte`, after the prefix of `index` if that is not HL; its
clock cycles are returned, those of that prefix included. -/
def instructionFrom (index : Index) (byte : Byte) : Action Nat := do
  let (ignored, opcode) ← Opcode.select addressSpace 0 index byte
  let cycles ← perform opcode
  return ignoredPrefixCycles * ignored + cycles

/-- An instruction is fetched by its first byte, and goes on from there. -/
theorem instruction_eq : instruction = fetch >>= instructionFrom .hl := by
  unfold instruction fetchOpcode
  rw [bind_assoc]
  rfl

/-- On the main page nothing more is fetched before the instruction runs. -/
theorem instructionFrom_main {index : Index} {byte : Byte}
    (h : index = .hl ∨ Opcode.usesIndex byte = true) (hb : Opcode.leadsOn byte = false) :
    instructionFrom index byte = perform (.main index byte) := by
  have hs : Opcode.select addressSpace 0 index byte = pure (0, .main index byte) :=
    Opcode.select_main h hb
  rw [instructionFrom, hs, pure_bind]
  show (do let cycles ← perform (.main index byte); return ignoredPrefixCycles * 0 + cycles) = _
  simp only [Nat.mul_zero, Nat.zero_add, bind_pure]

/-- Runs an instruction that needs no admission; its clock cycles are returned. -/
def complete (i : Instruction) : Action Nat := do
  let taken ← execute i
  return i.cycles (← get).variant.timing taken

/-- To perform an opcode is to have it admitted and to complete its instruction. -/
theorem perform_eq (opcode : Opcode) :
    perform opcode = admitOpcode opcode >>= fun _ => complete opcode.instruction := by
  rfl

/-- A processor that runs what the manual does not list refuses no opcode beforehand. -/
theorem perform_of_undocumented (opcode : Opcode) {cpu : Cpu}
    (hc : cpu.variant.conformance = .undocumented) :
    perform opcode cpu = complete opcode.instruction cpu := by
  have h : admitOpcode opcode cpu = .done () cpu := by
    unfold admitOpcode
    split
    · rfl
    · exact requireUndocumented_of_undocumented hc
  show (admitOpcode opcode cpu).bind _ = _
  rw [h]
  rfl

end Action

end Z80
