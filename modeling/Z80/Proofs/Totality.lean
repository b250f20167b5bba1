import Z80.Proofs.Inspection

/-!
# Every instruction finishes

A processor that runs what the manual does not list runs every sequence of bytes: it refuses no
opcode and gives up no chain of prefixes but one that has no end. A chain that has been followed
through as many bytes as there are addresses has been through all of memory, so that memory has then
nothing but prefixes in it. Over any other memory a step completes, unless it meets an address
outside, and memory of full size has none (`step_undocumented`).
-/

namespace Z80

variable {α γ δ : Type} {v : Variant}

/-! ## Ends over a memory -/

/-- How a dialogue that completes ends over a memory: with a value, on a processor of the same
variant, or at an address outside. -/
def Outcome.Ends (v : Variant) (out : Outcome (Memory δ) α) : Prop :=
  match out.result with
  | .ok _ => out.cpu.variant = v
  | .error fault =>
    ∃ address : Word, ¬ address.toNat < out.bus.size ∧ fault = out.bus.outside address

variable [Device δ]

theorem Dialogue.Completes.run_ends {d : Dialogue α} (h : d.Completes v) (m : Memory δ) :
    (d.run m).Ends v := by
  induction h generalizing m with
  | done variant => exact variant
  | @read c address k _ ih =>
    rw [run_read_memory]
    by_cases hinside : address.toNat < m.size
    · rw [Memory.read_of_inside hinside]
      exact ih _ m
    · rw [Memory.read_of_outside hinside]
      exact ⟨address, hinside, rfl⟩
  | @write c address value d _ ih =>
    rw [run_write_memory]
    split
    · exact ih _
    · next hinside => exact ⟨address, hinside, rfl⟩
  | input _ ih => exact ih _ _
  | output _ ih => exact ih _

omit [Device δ] in
/-- What goes on from an end with a value ends. -/
theorem Outcome.Ends.bind {out : Outcome (Memory δ) α}
    {k : α → Cpu → Memory δ → Outcome (Memory δ) γ} (h : out.Ends v)
    (hk : ∀ x c bus, c.variant = v → (k x c bus).Ends v) : (out.bind k).Ends v := by
  obtain ⟨fault | x, c, bus⟩ := out
  · exact h
  · exact hk x c bus h

/-- A fetch ends at an address outside, or goes on with the byte at the program counter. -/
theorem Action.fetch_ends {k : Byte → Action α} {cpu : Cpu} {m : Memory δ}
    (hk : ∀ b, m.read cpu.regs.pc = .ok b → ((k b cpu.pastByte).run m).Ends v) :
    (((fetch >>= k) cpu).run m).Ends v := by
  rw [fetch_bind, Dialogue.run_read_memory]
  by_cases hinside : cpu.regs.pc.toNat < m.size
  · have hread := Memory.read_of_inside hinside
    rw [hread]
    exact hk _ hread
  · rw [Memory.read_of_outside hinside]
    exact ⟨cpu.regs.pc, hinside, rfl⟩

/-! ## Chains of prefixes -/

namespace Memory

/-- Memory holds an index prefix at an address. -/
def HasPrefix (m : Memory δ) (address : Word) : Prop :=
  ∃ byte, m.read address = .ok byte ∧ (Opcode.prefixIndex byte).isSome = true

/-- Memory of full size with nothing in it but index prefixes. -/
def OnlyPrefixes (m : Memory δ) : Prop :=
  m.size = addressSpace ∧ ∀ byte ∈ m.bytes, byte = 0xDD ∨ byte = 0xFD

omit [Device δ] in
theorem OnlyPrefixes.hasPrefix {m : Memory δ} (h : m.OnlyPrefixes) (address : Word) :
    m.HasPrefix address := by
  have hinside : address.toNat < m.bytes.size := by
    rw [show m.bytes.size = 65536 from h.1]
    exact address.toNat_lt
  have hbyte : m.byte address = m.bytes[address.toNat] := by
    simp [Memory.byte, hinside]
  refine ⟨m.byte address, read_of_inside hinside, ?_⟩
  rcases h.2 _ (Array.getElem_mem hinside) with hdd | hfd
  · rw [hbyte, hdd]
    rfl
  · rw [hbyte, hfd]
    rfl

omit [Device δ] in
theorem onlyPrefixes_of_hasPrefix {m : Memory δ} (hm : m.size ≤ addressSpace)
    (h : ∀ address, m.HasPrefix address) : m.OnlyPrefixes := by
  have hinside (address : Word) : address.toNat < m.size := by
    obtain ⟨byte, hread, -⟩ := h address
    refine Decidable.byContradiction fun hout => ?_
    rw [read_of_outside hout] at hread
    cases hread
  have hsize : m.size = addressSpace := Nat.le_antisymm hm (hinside 0xFFFF)
  refine ⟨hsize, fun byte hbyte => ?_⟩
  obtain ⟨i, hi, rfl⟩ := Array.mem_iff_getElem.1 hbyte
  -- The byte is the one at the address of its index.
  have haddress : (UInt16.ofNat i).toNat = i :=
    UInt16.toNat_ofNat_of_lt' (Nat.lt_of_lt_of_le hi hm)
  obtain ⟨byte, hread, hindex⟩ := h (UInt16.ofNat i)
  have hbyte : m.byte (UInt16.ofNat i) = m.bytes[i] := by
    simp [Memory.byte, haddress, hi]
  rw [read_of_inside (hinside _), hbyte] at hread
  obtain rfl := Except.ok.inj hread
  obtain ⟨index, hindex⟩ := Option.isSome_iff_exists.1 hindex
  exact (Opcode.of_prefixIndex hindex).2

end Memory

namespace Opcode

variable {budget ignored : Nat} {index next : Index} {byte : Byte} {cpu : Cpu} {m : Memory δ}

/-- A prefix makes a processor that runs all opcodes fetch another byte. -/
theorem select_of_prefixIndex (budget ignored : Nat) (index : Index)
    (h : prefixIndex byte = some next) (hc : cpu.variant.conformance = .undocumented) :
    ∃ dropped, select (budget + 1) ignored index byte cpu
      = (Action.fetch >>= select budget dropped next) cpu := by
  by_cases hi : index = .hl
  · exact ⟨ignored, congrFun (hi ▸ select_prefixIndex h) cpu⟩
  · refine ⟨ignored + 1, ?_⟩
    rw [select_ignored hi (usesIndex_of_prefixIndex h), select_prefixIndex h]
    show (Action.requireUndocumented cpu).bind _ = _
    rw [Action.requireUndocumented_of_undocumented hc]
    rfl

/-- Any other byte finishes the opcode. -/
theorem completes_select (h : prefixIndex byte = none) (hv : v.conformance = .undocumented) :
    Action.Obeys (.completes v) (select (budget + 1) ignored index byte) := by
  obtain ⟨hix, hiy⟩ := of_prefixIndex_eq_none h
  have hask := Action.completes_requireUndocumented hv
  simp only [select, ixPrefix, iyPrefix, hix, hiy, if_false]
  -- With the index as it is or dropped, at most two more bytes are fetched.
  split <;> cases index <;> infer_instance

/-- The `count` bytes before the one fetched last are prefixes. -/
def Chained (count : Nat) (cpu : Cpu) (m : Memory δ) : Prop :=
  ∀ i < count, m.HasPrefix (cpu.regs.pc - 2 - UInt16.ofNat i)

omit [Device δ] in
theorem Chained.pastByte {count : Nat} (h : Chained count cpu m)
    (hbyte : m.HasPrefix (cpu.regs.pc - 1)) : Chained (count + 1) cpu.pastByte m := by
  intro i hi
  cases i with
  | zero =>
    have haddress : cpu.pastByte.regs.pc - 2 - UInt16.ofNat 0 = cpu.regs.pc - 1 := by
      simp only [Cpu.pastByte_pc]
      grind
    rwa [haddress]
  | succ i =>
    have haddress : cpu.pastByte.regs.pc - 2 - UInt16.ofNat (i + 1)
        = cpu.regs.pc - 2 - UInt16.ofNat i := by
      rw [Cpu.pastByte_pc, UInt16.ofNat_add]
      grind
    rw [haddress]
    exact h i (by omega)

omit [Device δ] in
/-- A chain as long as the address space has been through all of memory. -/
theorem Chained.hasPrefix (h : Chained addressSpace cpu m) (address : Word) :
    m.HasPrefix address := by
  have hi := h (cpu.regs.pc - 2 - address).toNat (UInt16.toNat_lt _)
  have haddress : cpu.regs.pc - 2 - UInt16.ofNat (cpu.regs.pc - 2 - address).toNat = address := by
    rw [UInt16.ofNat_toNat]
    grind
  rwa [haddress] at hi

/-- Reading an opcode ends, and if not at an address outside, then with an opcode. -/
theorem select_ends (hv : v.conformance = .undocumented) (hm : m.size ≤ addressSpace)
    (hprefixes : ¬ m.OnlyPrefixes) {count : Nat} (hcount : count + budget = addressSpace)
    (hc : cpu.variant = v) (hbyte : m.read (cpu.regs.pc - 1) = .ok byte)
    (hchained : Chained count cpu m) : ((select budget ignored index byte cpu).run m).Ends v := by
  induction budget generalizing count ignored index byte cpu with
  | zero =>
    obtain rfl : count = addressSpace := hcount
    exact absurd (Memory.onlyPrefixes_of_hasPrefix hm hchained.hasPrefix) hprefixes
  | succ budget ih =>
    cases hnext : prefixIndex byte with
    | none => exact ((completes_select hnext hv).obeys cpu hc).run_ends m
    | some next =>
      obtain ⟨dropped, hselect⟩ := select_of_prefixIndex budget ignored index hnext (hc ▸ hv)
      rw [hselect]
      refine Action.fetch_ends fun b hb => ih (by omega) hc ?_ (hchained.pastByte ?_)
      · rwa [Cpu.pastByte_pc, UInt16.add_sub_cancel]
      · exact ⟨byte, hbyte, by rw [hnext]; rfl⟩

/-- Where there is nothing else, a chain of prefixes goes on until it is given up. -/
theorem select_endless (h : m.OnlyPrefixes) (hc : cpu.variant.conformance = .undocumented)
    (hbyte : (prefixIndex byte).isSome = true) :
    ((select budget ignored index byte cpu).run m).result
      = .error (.endlessPrefixes cpu.start) := by
  induction budget generalizing ignored index byte cpu with
  | zero => rfl
  | succ budget ih =>
    obtain ⟨next, hnext⟩ := Option.isSome_iff_exists.1 hbyte
    obtain ⟨dropped, hselect⟩ := select_of_prefixIndex budget ignored index hnext hc
    obtain ⟨b, hread, hb⟩ := h.hasPrefix cpu.regs.pc
    rw [hselect, Action.run_fetch_ok hread]
    exact ih hc hb

end Opcode

/-! ## The field that names memory -/

/-- Whether an instruction loads memory from memory. -/
def Instruction.loadsMemory : Instruction → Bool
  | .load (.indirect _) (.indirect _) => true
  | _ => false

namespace Opcode

theorem exists_register {index : Index} {field : Nat} (h : field % 8 ≠ 6) :
    ∃ name, place index field = .register name := by
  have hfield : Register.ofField field ≠ none := by
    unfold Register.ofField
    split
    case h_7 h6 => exact absurd h6 h
    all_goals simp
  unfold place
  split
  · next hnone => exact absurd hnone hfield
  all_goals exact ⟨_, rfl⟩

/-- No opcode loads memory from memory. -/
theorem loadsMemory_instruction (opcode : Opcode) :
    opcode.instruction.loadsMemory = false := by
  cases opcode with
  | main index byte =>
    revert byte
    cases index <;> exact forall_byte (by decide +kernel)
  | extended byte =>
    revert byte
    exact forall_byte (by decide +kernel)
  | bits | indexedBits => rfl

end Opcode

/-! ## Steps -/

namespace Action

theorem completes_perform_of_undocumented (hv : v.conformance = .undocumented) (opcode : Opcode) :
    Obeys (.completes v) (perform opcode) := by
  have hask := completes_requireUndocumented hv
  rw [perform_eq]
  exact .bind inferInstance fun _ => completes_complete _ fun _ => hv

theorem instruction_ends {cpu : Cpu} {m : Memory δ} (hc : cpu.variant = v)
    (hv : v.conformance = .undocumented) (hm : m.size ≤ addressSpace)
    (hprefixes : ¬ m.OnlyPrefixes) : ((instruction cpu).run m).Ends v := by
  rw [instruction_eq]
  refine fetch_ends fun byte hbyte => ?_
  unfold instructionFrom
  rw [run_bind]
  refine Outcome.Ends.bind ?_ fun selected c bus hc' => ?_
  · refine Opcode.select_ends hv hm hprefixes (Nat.zero_add _) hc ?_ fun i hi => ?_
    · rwa [Cpu.pastByte_pc, UInt16.add_sub_cancel]
    · exact absurd hi (Nat.not_lt_zero i)
  · have hrest : Obeys (.completes v) (do
        let cycles ← perform selected.2
        return ignoredPrefixCycles * selected.1 + cycles) :=
      .bind (completes_perform_of_undocumented hv _) fun _ => inferInstance
    exact (hrest.obeys c hc').run_ends bus

end Action

/-- Over memory of nothing but prefixes an instruction has no end. -/
theorem step_onlyPrefixes {cpu : Cpu} {m : Memory δ} (hc : cpu.variant.conformance = .undocumented)
    (h : m.OnlyPrefixes) : (cpu.step m).result = .error (.endlessPrefixes cpu.regs.pc) := by
  obtain ⟨byte, hread, hbyte⟩ := h.hasPrefix cpu.begin.regs.pc
  have hselect : ((Opcode.select addressSpace 0 .hl byte cpu.begin.pastByte).run m).result
      = .error (.endlessPrefixes cpu.regs.pc) := Opcode.select_endless h hc hbyte
  have hrun : (Action.instruction cpu.begin).run m
      = (Action.instructionFrom .hl byte cpu.begin.pastByte).run m := by
    rw [Action.instruction_eq, Action.run_fetch_ok hread]
  rw [Cpu.step, hrun, Action.instructionFrom, Action.run_bind]
  generalize (Opcode.select addressSpace 0 .hl byte cpu.begin.pastByte).run m = out at hselect
  obtain ⟨result, c, bus⟩ := out
  obtain rfl : result = _ := hselect
  rfl

/-- **A processor that runs what the manual does not list completes every step**, unless memory has
nothing but prefixes in it or the step meets an address outside. No bytes are refused, for no opcode
asks for the register of the field that names memory: other fields name one, and no load has memory
on both sides. -/
theorem step_undocumented {cpu : Cpu} {m : Memory δ}
    (hc : cpu.variant.conformance = .undocumented) (hm : m.size ≤ addressSpace)
    (hprefixes : ¬ m.OnlyPrefixes) :
    ((∃ cycles, (cpu.step m).result = .ok cycles) ∨
      ∃ address : Word, ¬ address.toNat < m.size ∧
        (cpu.step m).result = .error (.outOfRange cpu.regs.pc address m.size)) ∧
    (m.size = addressSpace → ∃ cycles, (cpu.step m).result = .ok cycles) ∧
    (∀ index field, field % 8 ≠ 6 → ∃ name, Opcode.place index field = .register name) ∧
    ∀ opcode : Opcode, opcode.instruction.loadsMemory = false := by
  have hends : ((Action.instruction cpu.begin).run m).Ends cpu.variant :=
    Action.instruction_ends rfl hc hm hprefixes
  have hsize : ((Action.instruction cpu.begin).run m).bus.size = m.size :=
    Dialogue.run_keeps (Memory.bus_keeps_size m.size) _ rfl
  have hstep : (∃ cycles, (cpu.step m).result = .ok cycles) ∨
      ∃ address : Word, ¬ address.toNat < m.size ∧
        (cpu.step m).result = .error (.outOfRange cpu.regs.pc address m.size) := by
    unfold Cpu.step
    generalize (Action.instruction cpu.begin).run m = out at hends hsize
    obtain ⟨fault | cycles, c, bus⟩ := out
    · obtain ⟨address, houtside, hfault⟩ := hends
      obtain rfl : fault = .outOfRange 0 address m.size := by
        rw [hfault, ← hsize]
        rfl
      rw [hsize] at houtside
      exact .inr ⟨address, houtside, rfl⟩
    · exact .inl ⟨cycles, rfl⟩
  refine ⟨hstep, fun hfull => ?_, fun _ _ => Opcode.exists_register,
    Opcode.loadsMemory_instruction⟩
  rcases hstep with hok | ⟨address, houtside, -⟩
  · exact hok
  · rw [hfull] at houtside
    exact absurd address.toNat_lt houtside

/-- The longest chain of prefixes that has an end. -/
theorem step_undocumented_longest :
    let cpu : Cpu := { variant := { conformance := .undocumented } }
    let m : Memory LatchedPorts := { bytes := (Array.replicate 65535 0xDD).push 0, device := {} }
    cpu.variant.conformance = .undocumented ∧ m.size ≤ addressSpace ∧ ¬ m.OnlyPrefixes ∧
    ∃ cycles, (cpu.step m).result = .ok cycles := by
  intro cpu m
  have hsize : m.size = addressSpace := by
    show ((Array.replicate 65535 0xDD).push (0 : Byte)).size = addressSpace
    rw [Array.size_push, Array.size_replicate]
    rfl
  have hprefixes : ¬ m.OnlyPrefixes := by
    rintro ⟨-, h⟩
    have hlast := h 0 Array.mem_push_self
    revert hlast
    decide
  have hle : m.size ≤ addressSpace := Nat.le_of_eq hsize
  exact ⟨rfl, hle, hprefixes, (step_undocumented rfl hle hprefixes).2.1 hsize⟩

end Z80
