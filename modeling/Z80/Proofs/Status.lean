import Mathlib.Data.List.Induction
import Z80.Proofs.Halting

/-!
# What the status says

The machine keeps its status next to the processor. Each operation that is done sets it, and so does
a step that fails; an interrupt whose push fails leaves it as it was, though the processor has left
its HALT by then. Then the status says that the machine has halted when it has not, and in no other
way does it come to that: `status_haltedRightly_iff`.
-/

namespace Z80

variable {δ : Type} [Device δ]

namespace Machine

/-- The status stays right unless it says that the machine has halted and the machine is sent to a
handler without room for a return address. -/
theorem respond_haltedRightly_iff {m : Machine δ} (h : m.HaltedRightly) (stimulus : Stimulus) :
    (m.respond stimulus).2.HaltedRightly ↔
      (m.status = .halted → m.Enters stimulus → m.HasStack) := by
  rcases m.respond_sent stimulus with rfl | ⟨hno, hsame⟩ | ⟨henters, hsent⟩
  · exact ⟨fun _ _ => nofun, fun _ => step_haltedRightly m⟩
  · rw [hsame]
    exact ⟨fun _ _ henters => absurd henters hno, fun _ => h⟩
  · constructor
    · intro hright hs _
      by_contra hfull
      have hgoing := (hright ((hsent.failed hfull).trans hs)).1
      rw [hsent.going] at hgoing
      cases hgoing
    · intro hroom hs
      by_cases hstack : m.HasStack
      · rw [hsent.reached hstack] at hs
        cases hs
      · rw [hsent.failed hstack] at hs
        exact absurd (hroom hs henters) hstack

theorem operateAll_append (m : Machine δ) (done : List Operation) (operation : Operation) :
    m.operateAll (done ++ [operation]) = (m.operateAll done).operate operation := by
  unfold operateAll
  rw [List.foldl_append]
  rfl

end Machine

/-- **What the status says.** In the course of any operations, failing ones included, a status that
says that the machine has halted is right all along if and only if the machine is never sent to a
handler from that status without room for its return address. -/
theorem status_haltedRightly_iff {s : Setup} {device : δ} {built : Machine δ}
    (hbuilt : s.build device = .ok built) (operations : List Operation) :
    (∀ done, done <+: operations → (built.operateAll done).HaltedRightly) ↔
      ∀ done stimulus, done ++ [.apply stimulus] <+: operations →
        (built.operateAll done).status = .halted → (built.operateAll done).Enters stimulus →
        (built.operateAll done).HasStack := by
  constructor
  · intro hright done stimulus hprefix
    have hnext := hright _ hprefix
    rw [Machine.operateAll_append] at hnext
    have hdone := hright done ((List.prefix_append _ _).trans hprefix)
    exact (Machine.respond_haltedRightly_iff hdone stimulus).1 hnext
  · -- Each operation needs the state before it, so they are taken off the end.
    intro hroom done hprefix
    induction done using List.reverseRec with
    | nil => exact Setup.built_haltedRightly hbuilt
    | append_singleton done operation ih =>
      have hdone := ih ((List.prefix_append _ _).trans hprefix)
      rw [Machine.operateAll_append]
      cases operation with
      | run => exact Machine.run_haltedRightly hdone
      | apply stimulus =>
        exact (Machine.respond_haltedRightly_iff hdone stimulus).2 (hroom done stimulus hprefix)

/-- A HALT and a non-maskable interrupt, with a stack in memory: the status is right all along. -/
theorem status_haltedRightly_interrupt :
    let s : Setup := { registers := { sp := 4 }, memorySize := 4, program := #[0x76] }
    ∃ built : Machine LatchedPorts, s.build {} = .ok built ∧
      ∀ done, done <+: [.run, .apply .nonMaskableInterrupt] →
        (built.operateAll done).HaltedRightly := by
  intro s
  obtain ⟨built, hbuilt, hran⟩ : ∃ built : Machine LatchedPorts, s.build {} = .ok built ∧
      (built.run.2.cpu.regs.sp, built.run.2.memory.size) = (4, 4) :=
    of_toOption_map (by decide +kernel)
  obtain ⟨hsp, hsize⟩ := Prod.mk.inj hran
  refine ⟨built, hbuilt, (status_haltedRightly_iff hbuilt _).2 fun done stimulus hprefix _ _ => ?_⟩
  obtain rfl : done = [.run] := by
    obtain ⟨rest, heq⟩ := hprefix
    match done with
    | [] => cases heq
    | [_] =>
      cases heq
      rfl
    | _ :: _ :: _ => simp at heq
  show (built.run.2.cpu.regs.sp - 1).toNat < built.run.2.memory.size ∧
    (built.run.2.cpu.regs.sp - 2).toNat < built.run.2.memory.size
  rw [hsp, hsize]
  decide

/-- A HALT in memory of one byte, and a non-maskable interrupt: the processor goes on, past the end
of memory, and the status says that it has halted. -/
theorem status_halted_of_failed_push :
    let s : Setup := { memorySize := 1, program := #[0x76] }
    ∃ built : Machine LatchedPorts, s.build {} = .ok built ∧
      let m := built.operateAll [.run, .apply .nonMaskableInterrupt]
      m.status = .halted ∧ m.cpu.halted = false ∧ m.memory.read m.cpu.regs.pc ≠ .ok 0x76 := by
  intro s
  obtain ⟨built, hbuilt, hend⟩ : ∃ built : Machine LatchedPorts, s.build {} = .ok built ∧
      (fun m : Machine LatchedPorts =>
        (m.status, m.cpu.halted, (m.memory.read m.cpu.regs.pc).toOption))
        (built.operateAll [.run, .apply .nonMaskableInterrupt]) = (.halted, false, none) :=
    of_toOption_map (by decide +kernel)
  obtain ⟨hstatus, hend⟩ := Prod.mk.inj hend
  obtain ⟨hgoing, hbyte⟩ := Prod.mk.inj hend
  refine ⟨built, hbuilt, hstatus, hgoing, fun hread => ?_⟩
  rw [hread] at hbyte
  cases hbyte

end Z80
