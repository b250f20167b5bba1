import Z80.Memory
import Z80.Proofs.Law

/-!
# Instructions that complete

An instruction is refused before it runs or not at all, with one exception: the shift that moves a
one in. Every other instruction completes unless the bus refuses an access, whatever the state and
the bytes it meets, and over a memory of full size no access is refused.

All accesses and all changes of the registers complete. `Law.completes` is parameterized by the
variant, which no instruction changes.
-/

namespace Z80

variable {α γ : Type} {v : Variant}

/-- A dialogue that ends with a value whatever the bus answers; the processor is then of the variant
`v`. -/
inductive Dialogue.Completes (v : Variant) : Dialogue α → Prop
  | done {x c} (variant : c.variant = v) : Completes v (.done x c)
  | read {c address k} (next : ∀ b, Completes v (k b)) : Completes v (.read c address k)
  | write {c address value d} (next : Completes v d) : Completes v (.write c address value d)
  | input {c port k} (next : ∀ b, Completes v (k b)) : Completes v (.input c port k)
  | output {c port value d} (next : Completes v d) : Completes v (.output c port value d)

/-- A dialogue completes if its first part does, and the rest on the same variant. -/
theorem Dialogue.Completes.bind {d : Dialogue α} {k : α → Cpu → Dialogue γ} (h : d.Completes v)
    (hk : ∀ x c, c.variant = v → (k x c).Completes v) : (d.bind k).Completes v := by
  induction h with
  | done variant => exact hk _ _ variant
  | read _ ih => exact .read ih
  | write _ ih => exact .write ih
  | input _ ih => exact .input ih
  | output _ ih => exact .output ih

/-- The law of what completes on every processor of the variant `v`. -/
def Law.completes (v : Variant) : Law :=
  fun _ a => ∀ cpu, cpu.variant = v → (a cpu).Completes v

instance : (Law.completes v).Composes where
  done _ _ hv := .done hv
  look _ hv := .done hv
  bind ha hk cpu hv := (ha cpu hv).bind fun x c hc => hk x c hc

namespace Action

instance (address : Word) : Obeys (.completes v) (readByte address) :=
  ⟨fun _ hv => .read fun _ => .done hv⟩

instance (address : Word) (x : Byte) : Obeys (.completes v) (writeByte address x) :=
  ⟨fun _ hv => .write (.done hv)⟩

instance (port : Word) : Obeys (.completes v) (inputByte port) :=
  ⟨fun _ hv => .input fun _ => .done hv⟩

instance (port : Word) (x : Byte) : Obeys (.completes v) (outputByte port x) :=
  ⟨fun _ hv => .output (.done hv)⟩

instance (change : Registers → Registers) : Obeys (.completes v) (modifyRegisters change) :=
  ⟨fun _ hv => .done hv⟩

theorem completes_modify {f : Cpu → Cpu} (hf : ∀ c, (f c).variant = c.variant) :
    Obeys (.completes v) (modify f : Action Unit) :=
  ⟨fun cpu hv => .done ((hf cpu).trans hv)⟩

/-- A processor that runs all opcodes goes on where it is asked for it. -/
theorem completes_requireUndocumented (h : v.conformance = .undocumented) :
    Obeys (.completes v) requireUndocumented := by
  refine ⟨fun cpu hv => ?_⟩
  rw [← hv] at h
  rw [requireUndocumented, h]
  exact .done hv

/-- Every instruction completes; the shift that moves a one in does so where the manual does not
count. -/
theorem completes_execute (i : Instruction)
    (h : i.bitOperation? = some (.shift .sll) → v.conformance = .undocumented) :
    Obeys (.completes v) (execute i) := by
  cases hi : i.setsControl with
  | false => exact obeys_execute i hi fun hop => completes_requireUndocumented (h hop)
  | true =>
    cases i with
    | halt => exact .always (obeys_halt (completes_modify fun _ => rfl))
    | disableInterrupts | enableInterrupts | setMode mode =>
      exact .always (completes_modify fun _ => rfl)
    | retInterrupt => exact .always (.bind inferInstance fun _ => completes_modify fun _ => rfl)
    | _ => cases hi

/-- Every instruction completes, SLL where all opcodes are run. -/
theorem completes_complete (i : Instruction)
    (h : i.bitOperation? = some (.shift .sll) → v.conformance = .undocumented) :
    Obeys (.completes v) (complete i) :=
  .bind (completes_execute i h) fun _ => inferInstance

end Action

/-! ## Memory of full size -/

namespace Memory

variable {δ : Type}

/-- The byte at an address; zero outside. -/
def byte (m : Memory δ) (address : Word) : Byte :=
  m.bytes.getD address.toNat 0

/-- Memory of full size answers everywhere. -/
theorem read_of_full {m : Memory δ} (hm : m.size = addressSpace) (address : Word) :
    m.read address = .ok (m.byte address) := by
  have h : address.toNat < m.bytes.size := by
    rw [show m.bytes.size = 65536 from hm]
    exact address.toNat_lt
  simp [read, byte, h]

/-- In a memory without gaps every read is answered, with the byte that is there. -/
theorem bus_read_of_full [Device δ] {m : Memory δ} (hm : m.size = addressSpace) (address : Word) :
    Bus.read m address = (.ok (m.byte address), m) :=
  congrArg (·, m) (read_of_full hm address)

/-- Memory answers every write inside it. -/
theorem write_inside {m : Memory δ} {address : Word} (h : address.toNat < m.size) (x : Byte) :
    ∃ m', m.write address x = (.ok (), m') ∧ m'.size = m.size := by
  have h' : address.toNat < m.bytes.size := h
  refine ⟨(m.write address x).2, ?_, size_write m address x⟩
  simp [write, h']

/-- In a memory without gaps every write is taken. -/
theorem write_of_full {m : Memory δ} (hm : m.size = addressSpace) (address : Word) (x : Byte) :
    ∃ m', m.write address x = (.ok (), m') ∧ m'.size = addressSpace := by
  have h : address.toNat < m.size := by
    rw [hm]
    exact address.toNat_lt
  obtain ⟨m', hwrite, hsize⟩ := write_inside h x
  exact ⟨m', hwrite, hsize.trans hm⟩

end Memory

/-- Over memory of full size, a dialogue that completes ends with a value. -/
theorem Dialogue.Completes.run_ok {δ : Type} [Device δ] {d : Dialogue α} (h : d.Completes v)
    {m : Memory δ} (hm : m.size = addressSpace) : ∃ x, (d.run m).result = .ok x := by
  induction h generalizing m with
  | done => exact ⟨_, rfl⟩
  | @read _ address _ _ ih =>
    rw [run_read_eq, follow_ok (Memory.bus_read_of_full hm address)]
    exact ih _ hm
  | @write _ address value _ _ ih =>
    obtain ⟨m', hwrite, hm'⟩ := Memory.write_of_full hm address value
    have hanswer : Bus.write m address value = (.ok (), m') := hwrite
    rw [run_write_eq, follow_ok hanswer]
    exact ih hm'
  | input _ ih => exact ih _ hm
  | output _ ih => exact ih hm

end Z80
