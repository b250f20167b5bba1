import Z80.Action

/-!
# Dialogues side by side

Two dialogues are *parallel* when both make the same accesses as long as the bus gives both the same
answers, from processors that stay related. This is how two runs are compared that differ in one
respect only: in the variant, in a register that has another name, in a bookkeeping field.

`Parallel.bind` puts such comparisons together and `Parallel.run_eq` is what they are good for: over
every bus the second run is the first one, translated.
-/

namespace Z80

/-- Whether a fault is an invalid opcode. -/
def Fault.isInvalidOpcode : Fault → Bool
  | .invalidOpcode _ _ => true
  | _ => false

/-- Whether a result is the report of an invalid opcode. -/
def isRejection {α : Type} : Except Fault α → Bool
  | .error fault => fault.isInvalidOpcode
  | .ok _ => false

theorem isRejection_map {α γ : Type} (g : α → γ) (result : Except Fault α) :
    isRejection (result.map g) = isRejection result := by
  cases result <;> rfl

namespace Outcome

variable {α γ β : Type}

/-- Replaces the value by `g` of it and the processor by `f` of it. -/
def map (g : α → γ) (f : Cpu → Cpu) (out : Outcome β α) : Outcome β γ where
  result := out.result.map g
  cpu := f out.cpu
  bus := out.bus

theorem map_blame (g : α → γ) (f : Cpu → Cpu) (pc : Word) (out : Outcome β α) :
    (out.map g f).blame pc = (out.blame pc).map g f := by
  obtain ⟨_ | _, cpu, bus⟩ := out <;> rfl

theorem isRejection_blame (pc : Word) (out : Outcome β α) :
    isRejection (out.blame pc).result = isRejection out.result := by
  obtain ⟨fault | _, cpu, bus⟩ := out
  · cases fault <;> rfl
  · rfl

end Outcome

namespace Dialogue

variable {α γ β δ ε : Type}

/-- The same dialogue with the value at its end replaced by `g` of it, and every processor on the
way by `f` of it. -/
def map (g : α → γ) (f : Cpu → Cpu) : Dialogue α → Dialogue γ
  | .done value cpu => .done (g value) (f cpu)
  | .fail fault cpu => .fail fault (f cpu)
  | .reject cpu => .reject (f cpu)
  | .read cpu address next => .read (f cpu) address fun v => (next v).map g f
  | .write cpu address value next => .write (f cpu) address value (next.map g f)
  | .input cpu port next => .input (f cpu) port fun v => (next v).map g f
  | .output cpu port value next => .output (f cpu) port value (next.map g f)

/-- Two dialogues that make the same accesses. `N` relates the processors at an access and at a
failure, `Q` the two ends. If `lax`, nothing is asked of the second dialogue once the first one
rejects. -/
inductive Parallel (lax : Prop) (N : Cpu → Cpu → Prop) (Q : α → Cpu → γ → Cpu → Prop) :
    Dialogue α → Dialogue γ → Prop
  | done {v c w c'} (ends : Q v c w c') : Parallel lax N Q (.done v c) (.done w c')
  | fail {fault c c'} (node : N c c') : Parallel lax N Q (.fail fault c) (.fail fault c')
  | reject {c c'} (node : N c c') : Parallel lax N Q (.reject c) (.reject c')
  | dropped {c e} (allowed : lax) : Parallel lax N Q (.reject c) e
  | read {c c' address k k'} (node : N c c') (next : ∀ v, Parallel lax N Q (k v) (k' v)) :
    Parallel lax N Q (.read c address k) (.read c' address k')
  | write {c c' address value d e} (node : N c c') (next : Parallel lax N Q d e) :
    Parallel lax N Q (.write c address value d) (.write c' address value e)
  | input {c c' port k k'} (node : N c c') (next : ∀ v, Parallel lax N Q (k v) (k' v)) :
    Parallel lax N Q (.input c port k) (.input c' port k')
  | output {c c' port value d e} (node : N c c') (next : Parallel lax N Q d e) :
    Parallel lax N Q (.output c port value d) (.output c' port value e)

/-- One access: what the answer leads to is translated, and so is a refusal. -/
theorem follow_map [Bus β] {g : α → γ} {f : Cpu → Cpu} {cpu : Cpu} {next : δ → Dialogue α}
    {next' : δ → Dialogue γ} {answer : Except Fault δ × β}
    (ih : ∀ v bus, answer = (.ok v, bus) → (next' v).run bus = ((next v).run bus).map g f) :
    follow (f cpu) next' answer = (follow cpu next answer).map g f := by
  obtain ⟨_ | v, bus⟩ := answer
  · rfl
  · exact ih v bus rfl

namespace Parallel

variable {lax : Prop} {N : Cpu → Cpu → Prop}

/-- Parallel dialogues that go on in parallel from related ends are parallel. -/
theorem bind {Q : α → Cpu → γ → Cpu → Prop} {R : δ → Cpu → ε → Cpu → Prop} {d : Dialogue α}
    {e : Dialogue γ} {k : α → Cpu → Dialogue δ} {k' : γ → Cpu → Dialogue ε}
    (h : Parallel lax N Q d e)
    (hk : ∀ v c w c', Q v c w c' → Parallel lax N R (k v c) (k' w c')) :
    Parallel lax N R (d.bind k) (e.bind k') := by
  induction h with
  | done ends => exact hk _ _ _ _ ends
  | fail node => exact .fail node
  | reject node => exact .reject node
  | dropped allowed => exact .dropped allowed
  | read node _ ih => exact .read node ih
  | write node _ ih => exact .write node ih
  | input node _ ih => exact .input node ih
  | output node _ ih => exact .output node ih

/-! ## Translated runs -/

variable {f : Cpu → Cpu} {g : α → γ} {d : Dialogue α} {e : Dialogue γ}

/-- Without leeway, a dialogue parallel to `d` under a translation is the translation of `d`. -/
theorem eq_map
    (h : Parallel False (fun c c' => c' = f c) (fun v c w c' => w = g v ∧ c' = f c) d e) :
    e = d.map g f := by
  induction h with
  | done ends => rw [ends.1, ends.2, Dialogue.map]
  | fail node => rw [node, Dialogue.map]
  | reject node => rw [node, Dialogue.map]
  | dropped allowed => exact allowed.elim
  | read node _ ih | input node _ ih => rw [node, Dialogue.map, funext ih]
  | write node _ ih | output node _ ih => rw [node, Dialogue.map, ih]

/-- An invalid opcode is reported alike if the translation keeps the two addresses that delimit
it. -/
theorem report_map [Bus β] (hf : ∀ c, (f c).regs.pc = c.regs.pc ∧ (f c).start = c.start)
    (g : α → γ) (c : Cpu) (bus : β) :
    (report (f c) bus : Outcome β γ) = (report c bus : Outcome β α).map g f := by
  obtain ⟨hpc, hstart⟩ := hf c
  simp only [report, hpc, hstart, Outcome.map, Except.map]

/-- Over every bus the second of two parallel dialogues runs as the translation of the first, except
where the first one rejects and the comparison leaves that open. -/
theorem run_eq [Bus β] (hf : ∀ c, (f c).regs.pc = c.regs.pc ∧ (f c).start = c.start)
    (h : Parallel lax (fun c c' => c' = f c) (fun v c w c' => w = g v ∧ c' = f c) d e) (bus : β)
    (hb : lax → isRejection (d.run bus).result = false) :
    e.run bus = (d.run bus).map g f := by
  -- Each access may change the bus, and the rest is run over the bus it leaves.
  induction h generalizing bus with
  | done ends =>
    obtain ⟨rfl, rfl⟩ := ends
    rfl
  | fail node =>
    rw [node]
    rfl
  | reject node =>
    rw [node]
    exact report_map hf g _ bus
  | dropped allowed =>
    -- A rejection is excluded by hypothesis.
    exact absurd (hb allowed) (by simp [run, report, isRejection, Fault.isInvalidOpcode])
  | read node _ ih =>
    subst node
    rw [run_read_eq] at hb ⊢
    rw [run_read_eq]
    exact follow_map fun v bus h => ih v bus (by rwa [follow_ok h] at hb)
  | write node _ ih =>
    subst node
    rw [run_write_eq] at hb ⊢
    rw [run_write_eq]
    exact follow_map fun _ bus h => ih bus (by rwa [follow_ok h] at hb)
  | input node _ ih =>
    subst node
    rw [run_input_eq] at hb ⊢
    rw [run_input_eq]
    exact follow_map fun v bus h => ih v bus (by rwa [follow_ok h] at hb)
  | output node _ ih =>
    subst node
    rw [run_output_eq] at hb ⊢
    rw [run_output_eq]
    exact follow_map fun _ bus h => ih bus (by rwa [follow_ok h] at hb)

end Parallel

end Dialogue

end Z80
