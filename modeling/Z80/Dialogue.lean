import Z80.Bus
import Z80.Cpu

/-!
# Dialogues between the processor and its buses

What an instruction does depends on the bus only through the bytes the bus hands out. A `Dialogue`
is that dependence and nothing else: a tree whose nodes are the accesses, in the order they are
made, each with one branch for every byte that may come back. An access also holds the processor as
it stands while the access is under way, which is how it is left if the bus refuses.

`Dialogue.run` holds a dialogue over a given bus. Since an instruction is one tree for all buses,
what can be said of its tree is said of every bus at once.
-/

namespace Z80

/-- A dialogue with the buses that ends in an `α`, or in a failure. -/
inductive Dialogue (α : Type) : Type
  /-- The end, with the processor as it is left. -/
  | done (value : α) (cpu : Cpu)
  /-- A failure of the processor's own. -/
  | fail (fault : Fault) (cpu : Cpu)
  /-- The bytes fetched since `cpu.start` form no instruction that `cpu` may run. -/
  | reject (cpu : Cpu)
  | read (cpu : Cpu) (address : Word) (next : Byte → Dialogue α)
  | write (cpu : Cpu) (address : Word) (value : Byte) (next : Dialogue α)
  | input (cpu : Cpu) (port : Word) (next : Byte → Dialogue α)
  | output (cpu : Cpu) (port : Word) (value : Byte) (next : Dialogue α)

/-- How a dialogue ended over some bus. -/
structure Outcome (β α : Type) where
  result : Except Fault α
  cpu : Cpu
  bus : β

namespace Outcome

variable {α β γ : Type}

/-- Goes on from an outcome that is not a failure. -/
def bind (out : Outcome β α) (k : α → Cpu → β → Outcome β γ) : Outcome β γ :=
  match out with
  | { result := .ok value, cpu, bus } => k value cpu bus
  | { result := .error fault, cpu, bus } => { result := .error fault, cpu, bus }

/-- Attributes a memory fault to the instruction at `pc`. -/
def blame (pc : Word) (out : Outcome β α) : Outcome β α :=
  { out with result := out.result.mapError (Fault.blame pc) }

end Outcome

namespace Dialogue

variable {α γ β : Type}

/-- Goes on with another dialogue where the first is done. -/
def bind : Dialogue α → (α → Cpu → Dialogue γ) → Dialogue γ
  | .done value cpu, k => k value cpu
  | .fail fault cpu, _ => .fail fault cpu
  | .reject cpu, _ => .reject cpu
  | .read cpu address next, k => .read cpu address fun v => (next v).bind k
  | .write cpu address value next, k => .write cpu address value (next.bind k)
  | .input cpu port next, k => .input cpu port fun v => (next v).bind k
  | .output cpu port value next, k => .output cpu port value (next.bind k)

/-- Going on with nothing but the value leaves the dialogue as it is. -/
theorem bind_done (d : Dialogue α) : d.bind .done = d := by
  induction d with
  | done | fail | reject => rfl
  | read _ _ _ ih | input _ _ _ ih => simp only [bind, ih]
  | write _ _ _ _ ih | output _ _ _ _ ih => simp only [bind, ih]

/-- It does not matter how dialogues that follow one another are grouped. -/
theorem bind_bind {ε : Type} (d : Dialogue α) (k : α → Cpu → Dialogue γ)
    (k' : γ → Cpu → Dialogue ε) :
    (d.bind k).bind k' = d.bind fun value cpu => (k value cpu).bind k' := by
  induction d with
  | done | fail | reject => rfl
  | read _ _ _ ih | input _ _ _ ih => simp only [bind, ih]
  | write _ _ _ _ ih | output _ _ _ _ ih => simp only [bind, ih]

/-- The most bytes of an invalid opcode that are reported. -/
def reportLimit : Nat := 4

/-- Reads `count` bytes from `address` up, leaving out those the bus refuses. -/
def readAvailable [Bus β] : (count : Nat) → (address : Word) → β → List Byte × β
  | 0, _, bus => ([], bus)
  | count + 1, address, bus =>
    let (byte, bus) := Bus.read bus address
    let (rest, bus) := readAvailable count (address + 1) bus
    match byte with
    | .ok v => (v :: rest, bus)
    | .error _ => (rest, bus)

/-- Reports the bytes fetched since the instruction started as an invalid opcode, reading them
again from the bus. -/
def report [Bus β] (cpu : Cpu) (bus : β) : Outcome β α :=
  let fetched := (cpu.regs.pc - cpu.start).toNat
  let (bytes, bus) := readAvailable (min fetched reportLimit) cpu.start bus
  { result := .error (.invalidOpcode cpu.start bytes), cpu, bus }

/-- Holds the dialogue over a bus. It ends early at the first access the bus refuses. -/
def run [Bus β] : Dialogue α → β → Outcome β α
  | .done value cpu, bus => { result := .ok value, cpu, bus }
  | .fail fault cpu, bus => { result := .error fault, cpu, bus }
  | .reject cpu, bus => report cpu bus
  | .read cpu address next, bus =>
    match Bus.read bus address with
    | (.ok v, bus) => (next v).run bus
    | (.error fault, bus) => { result := .error fault, cpu, bus }
  | .write cpu address value next, bus =>
    match Bus.write bus address value with
    | (.ok _, bus) => next.run bus
    | (.error fault, bus) => { result := .error fault, cpu, bus }
  | .input cpu port next, bus =>
    match Bus.input bus port with
    | (.ok v, bus) => (next v).run bus
    | (.error fault, bus) => { result := .error fault, cpu, bus }
  | .output cpu port value next, bus =>
    match Bus.output bus port value with
    | (.ok _, bus) => next.run bus
    | (.error fault, bus) => { result := .error fault, cpu, bus }

/-! ## One access and the rest -/

variable [Bus β]

/-- How a dialogue goes on from the answer of the bus: it takes what the bus gave, or ends if the
bus refused. -/
def follow {δ : Type} (cpu : Cpu) (next : δ → Dialogue α) (answer : Except Fault δ × β) :
    Outcome β α :=
  match answer with
  | (.ok v, bus) => (next v).run bus
  | (.error fault, bus) => { result := .error fault, cpu, bus }

/-- Reading a byte is one access, followed by the bus's answer. -/
theorem run_read_eq (cpu : Cpu) (address : Word) (next : Byte → Dialogue α) (bus : β) :
    (read cpu address next).run bus = follow cpu next (Bus.read bus address) := by
  rcases h : Bus.read bus address with ⟨_ | _, _⟩ <;> simp only [run, h, follow]

/-- Writing a byte is one access, followed if the bus takes it. -/
theorem run_write_eq (cpu : Cpu) (address : Word) (value : Byte) (next : Dialogue α) (bus : β) :
    (write cpu address value next).run bus
      = follow cpu (fun _ => next) (Bus.write bus address value) := by
  rcases h : Bus.write bus address value with ⟨_ | _, _⟩ <;> simp only [run, h, follow]

/-- Reading a port is one access, followed by the device's answer. -/
theorem run_input_eq (cpu : Cpu) (port : Word) (next : Byte → Dialogue α) (bus : β) :
    (input cpu port next).run bus = follow cpu next (Bus.input bus port) := by
  rcases h : Bus.input bus port with ⟨_ | _, _⟩ <;> simp only [run, h, follow]

/-- Writing a port is one access, followed if the device takes it. -/
theorem run_output_eq (cpu : Cpu) (port : Word) (value : Byte) (next : Dialogue α) (bus : β) :
    (output cpu port value next).run bus
      = follow cpu (fun _ => next) (Bus.output bus port value) := by
  rcases h : Bus.output bus port value with ⟨_ | _, _⟩ <;> simp only [run, h, follow]

section follow

variable {δ : Type} {cpu : Cpu} {next : δ → Dialogue α} {answer : Except Fault δ × β}

/-- An access that is answered is followed by what the dialogue makes of the answer. -/
theorem follow_ok {v : δ} {bus : β} (h : answer = (.ok v, bus)) :
    follow cpu next answer = (next v).run bus := by
  rw [h, follow]

/-- An access that faults is the end; the processor is as it was when it asked. -/
theorem follow_error {fault : Fault} {bus : β} (h : answer = (.error fault, bus)) :
    follow cpu next answer = { result := .error fault, cpu, bus } := by
  rw [h, follow]

/-- A dialogue that is done after an access was given an answer, and went on with it. -/
theorem of_follow_ok {x : α} (h : (follow cpu next answer).result = .ok x) :
    ∃ v bus, answer = (.ok v, bus) ∧ follow cpu next answer = (next v).run bus := by
  obtain ⟨_ | v, bus⟩ := answer
  · cases h
  · exact ⟨v, bus, rfl, rfl⟩

/-- What comes after a dialogue comes after what follows an access, whichever access it is. -/
theorem follow_bind {k : α → Cpu → Dialogue γ}
    (ih : ∀ v (bus : β), ((next v).bind k).run bus
      = ((next v).run bus).bind fun value cpu bus => (k value cpu).run bus) :
    follow cpu (fun v => (next v).bind k) answer
      = (follow cpu next answer).bind fun value cpu bus => (k value cpu).run bus := by
  obtain ⟨_ | v, bus⟩ := answer
  · rfl
  · exact ih v bus

end follow

/-- Holding a dialogue that goes on is holding its first part and then, unless that failed, the
rest. -/
theorem run_bind (d : Dialogue α) (k : α → Cpu → Dialogue γ) (bus : β) :
    (d.bind k).run bus = (d.run bus).bind fun value cpu bus => (k value cpu).run bus := by
  induction d generalizing bus with
  | done | fail | reject => rfl
  | read _ _ _ ih =>
    rw [bind, run_read_eq, run_read_eq]
    exact follow_bind ih
  | write _ _ _ _ ih =>
    rw [bind, run_write_eq, run_write_eq]
    exact follow_bind fun _ => ih
  | input _ _ _ ih =>
    rw [bind, run_input_eq, run_input_eq]
    exact follow_bind ih
  | output _ _ _ _ ih =>
    rw [bind, run_output_eq, run_output_eq]
    exact follow_bind fun _ => ih

end Dialogue

end Z80
