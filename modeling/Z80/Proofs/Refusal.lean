import Z80.Memory
import Z80.Proofs.Parallel
import Z80.Proofs.Record

/-!
# Stopping at a refusal

A dialogue ends at the first access that the bus refuses. To say so of every access an instruction
may make, a bus is compared with its `Refusing` variant, which refuses the access with a given
number and would go on answering afterwards. Up to that access both runs are the same, and the
refusal is the last thing that the record of the second one shows (`step_of_refusing`).

A dialogue that rejects is left out. It reads the bytes of the instruction once more for its report,
and there a refusal only shortens the report.
-/

namespace Z80

variable {α β γ : Type}

/-- A bus that works as `β` does, but refuses one access, which then has no effect. -/
structure Refusing (β : Type) where
  bus : β
  /-- The number of the access that is refused, counted from 0. -/
  refused : Nat
  /-- What it is refused with. -/
  fault : Fault
  /-- How many accesses have been made. -/
  made : Nat := 0

namespace Refusing

/-- Counts an access, and passes it on unless it is the one to refuse. -/
def pass (s : Refusing β) (access : β → Except Fault γ × β) : Except Fault γ × Refusing β :=
  if s.made = s.refused then (.error s.fault, { s with made := s.made + 1 })
  else ((access s.bus).1, { s with bus := (access s.bus).2, made := s.made + 1 })

theorem pass_of_eq {s : Refusing β} (access : β → Except Fault γ × β) (h : s.made = s.refused) :
    s.pass access = (.error s.fault, { s with made := s.made + 1 }) :=
  if_pos h

theorem pass_of_ne {s : Refusing β} (access : β → Except Fault γ × β) (h : s.made ≠ s.refused) :
    s.pass access = ((access s.bus).1, { s with bus := (access s.bus).2, made := s.made + 1 }) :=
  if_neg h

instance [Bus β] : Bus (Refusing β) where
  read s address := s.pass fun bus => Bus.read bus address
  write s address value := s.pass fun bus => Bus.write bus address value
  input s port := s.pass fun bus => Bus.input bus port
  output s port value := s.pass fun bus => Bus.output bus port value

end Refusing

/-- A recorded bus that will refuse access number `k` of its record. -/
def Recorded.refusing (r : Recorded β) (k : Nat) (fault : Fault) : Recorded (Refusing β) where
  bus := { bus := r.bus, refused := k, fault, made := r.accesses.length }
  accesses := r.accesses

/-- What refusing access number `k` makes of an outcome. -/
structure Outcome.CutOff (k : Nat) (fault : Fault) (out : Outcome (Recorded β) α)
    (out' : Outcome (Recorded (Refusing β)) α) : Prop where
  refused : k < out.bus.accesses.length →
    out'.result = .error fault ∧ out'.bus.accesses = out.bus.accesses.take (k + 1)
  answered : out.bus.accesses.length ≤ k → out' = { out with bus := out.bus.refusing k fault }

namespace Dialogue

variable [Bus β] {k : Nat} {fault : Fault}

/-- One access: it is the one that is refused, or both buses answer it alike. -/
theorem cutOff_follow {cpu : Cpu} {next : γ → Dialogue α} {r : Recorded β}
    (ih : ∀ v (r : Recorded β), r.accesses.length ≤ k →
      isRejection ((next v).run r).result = false →
      Outcome.CutOff k fault ((next v).run r) ((next v).run (r.refusing k fault)))
    (access : Access) (answer : β → Except Fault γ × β) (hr : r.accesses.length ≤ k)
    (h : isRejection (follow cpu next (r.note access (answer r.bus))).result = false) :
    Outcome.CutOff k fault (follow cpu next (r.note access (answer r.bus)))
      (follow cpu next
        ((r.refusing k fault).note access ((r.refusing k fault).bus.pass answer))) := by
  by_cases hk : r.accesses.length = k
  · -- The refused access is the last one on record; the other run has it in the same place.
    rw [Refusing.pass_of_eq answer hk]
    have hmade : r.accesses ++ [access]
        <+: (follow cpu next (r.note access (answer r.bus))).bus.accesses := by
      rcases answer r.bus with ⟨_ | v, bus⟩
      · exact List.prefix_refl _
      · exact Recorded.prefix_run_recorded (next v) (r.note access (.ok v, bus)).2
    have htake := List.prefix_iff_eq_take.1 hmade
    have hlength := hmade.length_le
    rw [List.length_append, List.length_singleton, hk] at htake hlength
    exact ⟨fun _ => ⟨rfl, htake⟩, fun hle => absurd hle (by omega)⟩
  · rw [Refusing.pass_of_ne answer hk]
    -- The buses that the answer leaves are related as the first two were.
    have hrest : r.accesses.length + 1 ≤ k := by omega
    simp only [Recorded.refusing, Recorded.note]
    rcases hanswer : answer r.bus with ⟨_ | v, bus⟩
    · simp only [follow]
      refine ⟨fun hlt => ?_, fun _ => ?_⟩
      · simp only [List.length_append, List.length_singleton] at hlt
        omega
      · simp [Recorded.refusing]
    · rw [hanswer] at h
      have := ih v { bus, accesses := r.accesses ++ [access] } (by simpa using hrest) h
      simpa [Recorded.refusing, follow] using this

/-- A dialogue that does not reject is cut off at the access that is refused. -/
theorem cutOff_run (d : Dialogue α) {r : Recorded β} (hr : r.accesses.length ≤ k)
    (h : isRejection (d.run r).result = false) :
    Outcome.CutOff k fault (d.run r) (d.run (r.refusing k fault)) := by
  -- As long as the refusal is to come, the refusing bus is the recorded one at the same record.
  induction d generalizing r with
  | done value cpu | fail fault cpu => exact ⟨fun hlt => absurd hlt (Nat.not_lt.2 hr), fun _ => rfl⟩
  | reject cpu => exact absurd h (by simp [run, report, isRejection, Fault.isInvalidOpcode])
  | read cpu address next ih =>
    rw [run_read_eq] at h ⊢
    rw [run_read_eq]
    exact cutOff_follow (fun v r hr h => ih v hr h)
      (.read address) (fun bus => Bus.read bus address) hr h
  | write cpu address value next ih =>
    rw [run_write_eq] at h ⊢
    rw [run_write_eq]
    exact cutOff_follow (fun _ r hr h => ih hr h)
      (.write address value) (fun bus => Bus.write bus address value) hr h
  | input cpu port next ih =>
    rw [run_input_eq] at h ⊢
    rw [run_input_eq]
    exact cutOff_follow (fun v r hr h => ih v hr h)
      (.input port) (fun bus => Bus.input bus port) hr h
  | output cpu port value next ih =>
    rw [run_output_eq] at h ⊢
    rw [run_output_eq]
    exact cutOff_follow (fun _ r hr h => ih hr h)
      (.output port value) (fun bus => Bus.output bus port value) hr h

end Dialogue

variable [Bus β]

/-- **An instruction stops at the first access that is refused.** Let a second bus refuse access
number `k` of a step that is no rejection. If the step makes that access, the second one makes the
same accesses up to and including it, and fails with the fault it was refused with, which names the
instruction if it is one of memory. If the step makes no such access, both are the same. -/
theorem step_of_refusing (cpu : Cpu) (bus : β) (k : Nat) (fault : Fault)
    (h : isRejection (cpu.step bus).result = false) :
    let second : Refusing β := { bus, refused := k, fault }
    (k < (cpu.accesses bus).length →
      cpu.accesses second = (cpu.accesses bus).take (k + 1) ∧
      (cpu.step second).result = .error (fault.blame cpu.regs.pc)) ∧
    ((cpu.accesses bus).length ≤ k →
      cpu.accesses second = cpu.accesses bus ∧
      (cpu.step second).result = (cpu.step bus).result ∧
      (cpu.step second).cpu = (cpu.step bus).cpu ∧
      (cpu.step second).bus.bus = (cpu.step bus).bus) := by
  intro second
  -- Both steps are taken over recorded buses, where the dialogues are compared as they are.
  let r : Recorded β := { bus }
  have hfirst := Recorded.step_recorded cpu r
  have hsecond := Recorded.step_recorded cpu (r.refusing k fault)
  have hno : isRejection ((Action.instruction cpu.begin).run r).result = false := by
    rw [← hfirst.result, Cpu.step, Outcome.isRejection_blame] at h
    exact h
  have hcut : Outcome.CutOff k fault ((Action.instruction cpu.begin).run r)
      ((Action.instruction cpu.begin).run (r.refusing k fault)) :=
    Dialogue.cutOff_run _ (Nat.zero_le k) hno
  refine ⟨fun hk => ?_, fun hk => ?_⟩
  · obtain ⟨hresult, haccesses⟩ := hcut.refused hk
    refine ⟨haccesses, hsecond.result.symm.trans ?_⟩
    exact congrArg (Except.mapError (Fault.blame cpu.regs.pc)) hresult
  · have hsame := hcut.answered hk
    have hstep : cpu.step (r.refusing k fault)
        = { cpu.step r with bus := (cpu.step r).bus.refusing k fault } :=
      congrArg (Outcome.blame cpu.regs.pc) hsame
    refine ⟨congrArg (·.bus.accesses) hstep, ?_, ?_, ?_⟩
    · exact hsecond.result.symm.trans ((congrArg Outcome.result hstep).trans hfirst.result)
    · exact hsecond.cpu.symm.trans ((congrArg Outcome.cpu hstep).trans hfirst.cpu)
    · exact (congrArg Refusing.bus hsecond.bus).symm.trans
        ((congrArg (·.bus.bus.bus) hstep).trans hfirst.bus)

/-- PUSH BC with the first of its two writes refused, and with an access refused that it does not
make. -/
theorem step_of_refusing_push :
    let cpu : Cpu := { regs := { pc := 1, sp := 4, bank := { b := 3, c := 5 } } }
    let m : Memory LatchedPorts := { bytes := #[0, 0xC5, 0, 0], device := {} }
    let refusing (k : Nat) : Refusing (Memory LatchedPorts) :=
      { bus := m, refused := k, fault := .outOfRange 0 3 4 }
    isRejection (cpu.step m).result = false ∧
    cpu.accesses m = [.read 1, .write 3 3, .write 2 5] ∧
    cpu.accesses (refusing 1) = [.read 1, .write 3 3] ∧
    (cpu.step (refusing 1)).result = .error (.outOfRange 1 3 4) ∧
    (cpu.step (refusing 3)).result = (cpu.step m).result := by
  intro cpu m refusing
  have hno : isRejection (cpu.step m).result = false := by decide +kernel
  have haccesses : cpu.accesses m = [.read 1, .write 3 3, .write 2 5] := by decide +kernel
  have hlength : (cpu.accesses m).length = 3 := congrArg List.length haccesses
  obtain ⟨hmade, hresult⟩ := (step_of_refusing cpu m 1 (.outOfRange 0 3 4) hno).1 (by omega)
  obtain ⟨-, hsame, -⟩ := (step_of_refusing cpu m 3 (.outOfRange 0 3 4) hno).2 (by omega)
  rw [haccesses] at hmade
  exact ⟨hno, haccesses, hmade, hresult, hsame⟩

end Z80
