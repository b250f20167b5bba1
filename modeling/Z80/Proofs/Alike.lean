import Z80.Step

/-!
# Buses that answer alike

The processor sees of a bus only the answers to its accesses. If two buses answer alike, and go on
doing so after each access, a dialogue over one ends as it does over the other. Two buses may well
do this without being equal: a device can keep a record that it never shows.

A property of one bus that every access keeps is the case of equal buses that have it.
-/

namespace Z80

variable {α β γ : Type}

/-- Whether `R` relates two answers of a bus: they are the same, and the buses are related. -/
def Bus.AnswersAlike (R : β → γ → Prop) (answer : Except Fault α × β)
    (answer' : Except Fault α × γ) : Prop :=
  answer.1 = answer'.1 ∧ R answer.2 answer'.2

/-- Related buses answer every access alike. -/
structure Bus.Alike [Bus β] [Bus γ] (R : β → γ → Prop) : Prop where
  read : ∀ {b c}, R b c → ∀ a, AnswersAlike R (Bus.read b a) (Bus.read c a)
  write : ∀ {b c}, R b c → ∀ a v, AnswersAlike R (Bus.write b a v) (Bus.write c a v)
  input : ∀ {b c}, R b c → ∀ p, AnswersAlike R (Bus.input b p) (Bus.input c p)
  output : ∀ {b c}, R b c → ∀ p v, AnswersAlike R (Bus.output b p v) (Bus.output c p v)

/-- Every access to a bus keeps a property of it. -/
structure Bus.Keeps [Bus β] (P : β → Prop) : Prop where
  read : ∀ {b}, P b → ∀ a, P (Bus.read b a).2
  write : ∀ {b}, P b → ∀ a v, P (Bus.write b a v).2
  input : ∀ {b}, P b → ∀ p, P (Bus.input b p).2
  output : ∀ {b}, P b → ∀ p v, P (Bus.output b p v).2

/-- Two outcomes with the same result and the same processor over related buses. -/
structure Outcome.Alike (R : β → γ → Prop) (out : Outcome β α) (out' : Outcome γ α) : Prop where
  result : out.result = out'.result
  cpu : out.cpu = out'.cpu
  bus : R out.bus out'.bus

theorem Outcome.Alike.blame {R : β → γ → Prop} {out : Outcome β α} {out' : Outcome γ α}
    (h : out.Alike R out') (pc : Word) : (out.blame pc).Alike R (out'.blame pc) :=
  ⟨congrArg (Except.mapError (Fault.blame pc)) h.result, h.cpu, h.bus⟩

namespace Dialogue

variable [Bus β] [Bus γ] {R : β → γ → Prop}

theorem readAvailable_alike (hR : Bus.Alike R) (count : Nat) (address : Word) {b : β} {c : γ}
    (h : R b c) :
    (readAvailable count address b).1 = (readAvailable count address c).1 ∧
      R (readAvailable count address b).2 (readAvailable count address c).2 := by
  induction count generalizing address b c with
  | zero => exact ⟨rfl, h⟩
  | succ count ih =>
    obtain ⟨hv, hbus⟩ := hR.read h address
    obtain ⟨hrest, hend⟩ := ih (address + 1) hbus
    unfold readAvailable
    simp only [hv]
    cases (Bus.read c address).1 with
    | ok v => exact ⟨congrArg (v :: ·) hrest, hend⟩
    | error fault => exact ⟨hrest, hend⟩

theorem report_alike (hR : Bus.Alike R) (cpu : Cpu) {b : β} {c : γ} (h : R b c) :
    (report cpu b : Outcome β α).Alike R (report cpu c) := by
  obtain ⟨hbytes, hend⟩ :=
    readAvailable_alike hR (min (cpu.regs.pc - cpu.start).toNat reportLimit) cpu.start h
  exact ⟨congrArg (fun bytes => Except.error (Fault.invalidOpcode cpu.start bytes)) hbytes, rfl,
    hend⟩

/-- One access: alike answers leave buses over which the dialogue goes on alike. -/
theorem follow_alike {δ : Type} {cpu : Cpu} {next : δ → Dialogue α} {answer : Except Fault δ × β}
    {answer' : Except Fault δ × γ} (h : Bus.AnswersAlike R answer answer')
    (ih : ∀ v {b c}, R b c → ((next v).run b).Alike R ((next v).run c)) :
    (follow cpu next answer).Alike R (follow cpu next answer') := by
  obtain ⟨result, b⟩ := answer
  obtain ⟨result', c⟩ := answer'
  obtain ⟨hresult, hbus⟩ := h
  obtain rfl : result = result' := hresult
  cases result with
  | ok v => exact ih v hbus
  | error fault => exact ⟨rfl, rfl, hbus⟩

/-- Over buses that answer alike, a dialogue ends alike. -/
theorem run_alike (hR : Bus.Alike R) (d : Dialogue α) {b : β} {c : γ} (h : R b c) :
    (d.run b).Alike R (d.run c) := by
  induction d generalizing b c with
  | done | fail => exact ⟨rfl, rfl, h⟩
  | reject cpu => exact report_alike hR cpu h
  | read _ address _ ih =>
    rw [run_read_eq, run_read_eq]
    exact follow_alike (hR.read h address) ih
  | write _ address value _ ih =>
    rw [run_write_eq, run_write_eq]
    exact follow_alike (hR.write h address value) fun _ => ih
  | input _ port _ ih =>
    rw [run_input_eq, run_input_eq]
    exact follow_alike (hR.input h port) ih
  | output _ port value _ ih =>
    rw [run_output_eq, run_output_eq]
    exact follow_alike (hR.output h port value) fun _ => ih

/-- What every access keeps, a dialogue keeps. -/
theorem run_keeps {P : β → Prop} (hP : Bus.Keeps P) (d : Dialogue α) {b : β} (h : P b) :
    P (d.run b).bus := by
  have hR : Bus.Alike fun b c : β => b = c ∧ P b := by
    constructor
    · rintro b _ ⟨rfl, h⟩ a
      exact ⟨rfl, rfl, hP.read h a⟩
    · rintro b _ ⟨rfl, h⟩ a v
      exact ⟨rfl, rfl, hP.write h a v⟩
    · rintro b _ ⟨rfl, h⟩ p
      exact ⟨rfl, rfl, hP.input h p⟩
    · rintro b _ ⟨rfl, h⟩ p v
      exact ⟨rfl, rfl, hP.output h p v⟩
  exact (run_alike hR d ⟨rfl, h⟩).bus.2

end Dialogue

/-! ## Steps -/

namespace Cpu

variable [Bus β] [Bus γ] {R : β → γ → Prop}

/-- A step starts from what is left of the processor at the beginning of an instruction, so that two
processors which agree there take the same step over buses that answer alike. -/
theorem step_alike (hR : Bus.Alike R) {cpu cpu' : Cpu} (hcpu : cpu.begin = cpu'.begin) {b : β}
    {c : γ} (h : R b c) : (cpu.step b).Alike R (cpu'.step c) := by
  have hpc : cpu.regs.pc = cpu'.regs.pc := congrArg (·.regs.pc) hcpu
  unfold step
  rw [hpc, hcpu]
  exact (Dialogue.run_alike hR _ h).blame _

/-- What every access keeps, a step keeps. -/
theorem step_keeps {P : β → Prop} (hP : Bus.Keeps P) (cpu : Cpu) {b : β} (h : P b) :
    P (cpu.step b).bus :=
  Dialogue.run_keeps hP (Action.instruction cpu.begin) h

end Cpu

end Z80
