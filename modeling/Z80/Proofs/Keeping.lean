import Z80.Proofs.Law

/-!
# What actions leave as it was

A dialogue can break off at any access, and the processor is then left as it is in between. How a
dialogue leaves the processor is said by `Leaves`, where it is done and where it breaks off.

`Law.keeps view` is the law of the actions that leave a view of the processor as it was, wherever
they end. No access to the bus changes the processor, so that all that is to be asked of a view is
which registers it does not show.
-/

namespace Z80

variable {α γ β : Type}

/-! ## How a dialogue leaves the processor -/

/-- Wherever a dialogue ends, it leaves the processor as said: as `Q` says with its value if it is
done, and as `N` says if it breaks off. -/
inductive Dialogue.Leaves (N : Cpu → Prop) (Q : α → Cpu → Prop) : Dialogue α → Prop
  | done {x c} (ends : Q x c) : Leaves N Q (.done x c)
  | fail {fault c} (node : N c) : Leaves N Q (.fail fault c)
  | reject {c} (node : N c) : Leaves N Q (.reject c)
  | read {c address k} (node : N c) (next : ∀ b, Leaves N Q (k b)) :
    Leaves N Q (.read c address k)
  | write {c address value d} (node : N c) (next : Leaves N Q d) :
    Leaves N Q (.write c address value d)
  | input {c port k} (node : N c) (next : ∀ b, Leaves N Q (k b)) : Leaves N Q (.input c port k)
  | output {c port value d} (node : N c) (next : Leaves N Q d) :
    Leaves N Q (.output c port value d)

/-- How an outcome leaves the processor, in the same terms. -/
def Outcome.Leaves (N : Cpu → Prop) (Q : α → Cpu → Prop) (out : Outcome β α) : Prop :=
  match out.result with
  | .ok x => Q x out.cpu
  | .error _ => N out.cpu

namespace Dialogue.Leaves

variable {N : Cpu → Prop} {P : α → Cpu → Prop} {Q : γ → Cpu → Prop}

/-- What a dialogue leaves implies what follows from it. -/
theorem imp {N' : Cpu → Prop} {P' : α → Cpu → Prop} {d : Dialogue α} (h : d.Leaves N P)
    (hN : ∀ c, N c → N' c) (hP : ∀ x c, P x c → P' x c) : d.Leaves N' P' := by
  induction h with
  | done ends => exact .done (hP _ _ ends)
  | fail node => exact .fail (hN _ node)
  | reject node => exact .reject (hN _ node)
  | read node _ ih => exact .read (hN _ node) ih
  | write node _ ih => exact .write (hN _ node) ih
  | input node _ ih => exact .input (hN _ node) ih
  | output node _ ih => exact .output (hN _ node) ih

/-- What the first part of a dialogue leaves is what the rest starts from. -/
theorem bind {d : Dialogue α} {k : α → Cpu → Dialogue γ} (h : d.Leaves N P)
    (hk : ∀ x c, P x c → (k x c).Leaves N Q) : (d.bind k).Leaves N Q := by
  induction h with
  | done ends => exact hk _ _ ends
  | fail node => exact .fail node
  | reject node => exact .reject node
  | read node _ ih => exact .read node ih
  | write node _ ih => exact .write node ih
  | input node _ ih => exact .input node ih
  | output node _ ih => exact .output node ih

/-- One access: it is refused where the processor is as `N` says, or the dialogue goes on. -/
theorem follow [Bus β] {δ : Type} {cpu : Cpu} {next : δ → Dialogue α} {answer : Except Fault δ × β}
    (node : N cpu) (ih : ∀ v (bus : β), ((next v).run bus).Leaves N P) :
    (Dialogue.follow cpu next answer).Leaves N P := by
  obtain ⟨_ | v, bus⟩ := answer
  · exact node
  · exact ih v bus

/-- Over every bus, the outcome of a dialogue leaves the processor as the dialogue does. -/
theorem run [Bus β] {d : Dialogue α} (h : d.Leaves N P) (bus : β) : (d.run bus).Leaves N P := by
  induction h generalizing bus with
  | done ends => exact ends
  | fail node => exact node
  | reject node => exact node
  | read node _ ih =>
    rw [run_read_eq]
    exact follow node ih
  | write node _ ih =>
    rw [run_write_eq]
    exact follow node fun _ => ih
  | input node _ ih =>
    rw [run_input_eq]
    exact follow node ih
  | output node _ ih =>
    rw [run_output_eq]
    exact follow node fun _ => ih

/-- What is said of a dialogue's end holds where the dialogue has come to it. -/
theorem of_run_ok [Bus β] {d : Dialogue α} (h : d.Leaves N P) {c : Cpu} {bus bus' : β} {x : α}
    (hrun : d.run bus = { result := .ok x, cpu := c, bus := bus' }) : P x c := by
  have hleaves := h.run bus
  rw [hrun] at hleaves
  exact hleaves

end Dialogue.Leaves

/-! ## Keeping a view of the processor -/

variable {σ : Type} {view : Cpu → σ}

/-- The law of what leaves a view of the processor as it was, whether it is done or breaks off. -/
def Law.keeps (view : Cpu → σ) : Law :=
  fun _ a => ∀ cpu, (a cpu).Leaves (view · = view cpu) fun _ c => view c = view cpu

instance : (Law.keeps view).Composes where
  done _ _ := .done rfl
  look _ := .done rfl
  bind ha hk cpu := (ha cpu).bind fun x c hc => hc ▸ hk x c

/-- A law of this kind allows the changes that its view does not show. -/
theorem Law.keeps_allows {worked : Worked}
    (h : ∀ change, worked.Confines change → ∀ cpu,
      view { cpu with regs := change cpu.regs } = view cpu) : (Law.keeps view).Allows worked :=
  ⟨fun hchange cpu => .done (h _ hchange cpu)⟩

namespace Action

theorem keeps_modifyRegisters {change : Registers → Registers}
    (h : ∀ cpu, view { cpu with regs := change cpu.regs } = view cpu) :
    Obeys (.keeps view) (modifyRegisters change) :=
  ⟨fun cpu => .done (h cpu)⟩

theorem keeps_modify {f : Cpu → Cpu} (h : ∀ cpu, view (f cpu) = view cpu) :
    Obeys (.keeps view) (modify f : Action Unit) :=
  ⟨fun cpu => .done (h cpu)⟩

instance (address : Word) : Obeys (.keeps view) (readByte address) :=
  ⟨fun _ => .read rfl fun _ => .done rfl⟩

instance (address : Word) (x : Byte) : Obeys (.keeps view) (writeByte address x) :=
  ⟨fun _ => .write rfl (.done rfl)⟩

instance (port : Word) : Obeys (.keeps view) (inputByte port) :=
  ⟨fun _ => .input rfl fun _ => .done rfl⟩

instance (port : Word) (x : Byte) : Obeys (.keeps view) (outputByte port x) :=
  ⟨fun _ => .output rfl (.done rfl)⟩

instance : Obeys (.keeps view) requireUndocumented := by
  refine ⟨fun cpu => ?_⟩
  unfold requireUndocumented
  split
  · exact .done rfl
  · exact .reject rfl

instance [(Law.keeps view).Allows .pc] : Obeys (.keeps view) fetchOpcode :=
  obeys_fetchOpcode fun _ _ => .fail rfl

/-- Wherever it ends, an action that keeps a view has left it as it was. -/
theorem leaves_kept (view : Cpu → σ) (a : Action α) [h : Obeys (.keeps view) a] (cpu : Cpu) :
    (a cpu).Leaves (view · = view cpu) fun _ c => view c = view cpu :=
  h.obeys cpu

/-- What held of the view before holds of it when the action is done. -/
theorem leaves_of_kept (view : Cpu → σ) (a : Action α) [Obeys (.keeps view) a] {Q : σ → Prop}
    {cpu : Cpu} (h : Q (view cpu)) : (a cpu).Leaves (fun _ => True) fun _ c => Q (view c) :=
  (leaves_kept view a cpu).imp (fun _ _ => trivial) fun _ _ hc => hc.symm ▸ h

end Action

end Z80
