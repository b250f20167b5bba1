import Z80.Proofs.Alike

/-!
# The record of a bus

`Recorded β` is a bus that works as `β` does and writes down what it is asked. What the record holds
after a step is the step as seen from outside: which accesses it made, in which order, and which
bytes it sent. A device cannot tell that it is recorded (`step_recorded`), and a record is only ever
added to (`prefix_run_recorded`).
-/

namespace Z80

variable {α β γ : Type}

/-- An access to a bus, with the byte it sends. -/
inductive Access
  | read (address : Word)
  | write (address : Word) (value : Byte)
  | input (port : Word)
  | output (port : Word) (value : Byte)
deriving DecidableEq, Repr

/-- A bus with the accesses made to it, the first one first. Those it refused are among them. -/
structure Recorded (β : Type) where
  bus : β
  accesses : List Access := []

namespace Recorded

/-- Writes down an access and passes the answer on. -/
def note (r : Recorded β) (access : Access) (answer : Except Fault γ × β) :
    Except Fault γ × Recorded β :=
  (answer.1, { bus := answer.2, accesses := r.accesses ++ [access] })

instance [Bus β] : Bus (Recorded β) where
  read r address := r.note (.read address) (Bus.read r.bus address)
  write r address value := r.note (.write address value) (Bus.write r.bus address value)
  input r port := r.note (.input port) (Bus.input r.bus port)
  output r port value := r.note (.output port value) (Bus.output r.bus port value)

variable [Bus β]

/-- A recorded bus answers as the bus itself. -/
theorem alike : Bus.Alike fun (r : Recorded β) (b : β) => r.bus = b := by
  constructor
  · rintro r _ rfl a
    exact ⟨rfl, rfl⟩
  · rintro r _ rfl a v
    exact ⟨rfl, rfl⟩
  · rintro r _ rfl p
    exact ⟨rfl, rfl⟩
  · rintro r _ rfl p v
    exact ⟨rfl, rfl⟩

/-- What is in the record stays there, at its beginning. -/
theorem keeps_log (log : List Access) :
    Bus.Keeps fun r : Recorded β => log <+: r.accesses := by
  constructor <;> exact fun h => by intros; exact h.trans (List.prefix_append _ _)

/-- A dialogue adds to the record. -/
theorem prefix_run_recorded (d : Dialogue α) (r : Recorded β) :
    r.accesses <+: (d.run r).bus.accesses :=
  Dialogue.run_keeps (keeps_log r.accesses) d (List.prefix_refl _)

/-- A step over a recorded bus is the step over the bus. -/
theorem step_recorded (cpu : Cpu) (r : Recorded β) :
    (cpu.step r).Alike (fun (r : Recorded β) (b : β) => r.bus = b) (cpu.step r.bus) :=
  Cpu.step_alike alike rfl rfl

end Recorded

/-- The accesses that a step makes to a bus, those it refuses included. -/
def Cpu.accesses [Bus β] (cpu : Cpu) (bus : β) : List Access :=
  (cpu.step ({ bus } : Recorded β)).bus.accesses

/-- What a step over a recorded bus says of the step over the bus. -/
theorem Cpu.step_of_recorded [Bus β] {cpu : Cpu} {bus : β} {out : Outcome (Recorded β) Nat}
    (h : cpu.step ({ bus } : Recorded β) = out) :
    (cpu.step bus).result = out.result ∧ cpu.accesses bus = out.bus.accesses := by
  subst h
  exact ⟨(Recorded.step_recorded cpu { bus }).result.symm, rfl⟩

theorem Cpu.step_eq_of_recorded [Bus β] {cpu : Cpu} {bus : β} {out : Outcome (Recorded β) Nat}
    (h : cpu.step ({ bus } : Recorded β) = out) :
    cpu.step bus = { result := out.result, cpu := out.cpu, bus := out.bus.bus } := by
  obtain ⟨hresult, hcpu, hbus⟩ := Recorded.step_recorded cpu ({ bus } : Recorded β)
  rw [h] at hresult hcpu hbus
  rw [hresult, hcpu, hbus]

/-- A dialogue over a recorded bus ends as over the bus. -/
theorem Dialogue.run_of_recorded [Bus β] {d : Dialogue α} {bus : β} {out : Outcome (Recorded β) α}
    (h : d.run ({ bus } : Recorded β) = out) :
    d.run bus = { result := out.result, cpu := out.cpu, bus := out.bus.bus } := by
  obtain ⟨hresult, hcpu, hbus⟩ :=
    run_alike Recorded.alike d (rfl : ({ bus } : Recorded β).bus = bus)
  rw [h] at hresult hcpu hbus
  rw [hresult, hcpu, hbus]

end Z80
