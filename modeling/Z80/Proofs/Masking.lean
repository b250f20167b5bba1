import Z80.Proofs.Operation

/-!
# Masking of interrupts

A processor that has maskable interrupts shut off answers one only after an EI. An EI, a DI and an
answered interrupt set both flip-flops, and everything else at most copies one of them to the other:
a non-maskable interrupt the first to the second, RETN the second to the first. So with both shut,
nothing but an EI opens either. The instruction after an EI has completed before an interrupt is
answered.

`Watch` is a processor on its bus with a record of what it did, the latest first. The argument is
one invariant of `Watch.respond`, `Watch.Masks`: no EI since the last shut-off leaves both
flip-flops shut, and an EI as the last instruction holds interrupts off.
-/

namespace Z80

variable {β : Type}

/-- What a processor did at a stimulus. -/
inductive Event
  /-- It took a step, with the instruction that was completed, if one was. -/
  | step (executed : Option Instruction)
  /-- The maskable interrupt line was raised. -/
  | interrupt (accepted : Bool)
  | nonMaskableInterrupt
deriving DecidableEq

namespace Event

/-- An EI was executed. -/
def enabled : Event :=
  .step (some .enableInterrupts)

/-- A DI was executed. -/
def disabled : Event :=
  .step (some .disableInterrupts)

/-- The maskable interrupt line was raised, with this result. -/
def raised : Except Fault (Option Nat) → Event
  | .ok (some _) => .interrupt true
  | .ok none | .error _ => .interrupt false

/-- Whether a step was taken. -/
def isStep : Event → Bool
  | .step _ => true
  | _ => false

theorem raised_of_ne {result : Except Fault (Option Nat)}
    (h : ∀ cycles, result ≠ .ok (some cycles)) : raised result = .interrupt false := by
  rcases result with _ | _ | cycles
  · rfl
  · rfl
  · exact absurd rfl (h cycles)

/-- Raising the line is no step. -/
theorem find_step_raised (result : Except Fault (Option Nat)) (events : List Event) :
    (raised result :: events).find? isStep = events.find? isStep := by
  rcases result with _ | _ | _ <;> rfl

/-- Of the events, the latest first, one is an EI, and neither an answered interrupt nor a DI came
after it. -/
def EnabledSince (events : List Event) : Prop :=
  ∃ later earlier, events = later ++ enabled :: earlier ∧ .interrupt true ∉ later ∧ disabled ∉ later

theorem enabledSince_enabled (events : List Event) : EnabledSince (enabled :: events) :=
  ⟨[], events, rfl, List.not_mem_nil, List.not_mem_nil⟩

theorem EnabledSince.cons {events : List Event} (h : EnabledSince events) {e : Event}
    (hi : e ≠ .interrupt true) (hd : e ≠ disabled) : EnabledSince (e :: events) := by
  obtain ⟨later, earlier, rfl, hinterrupt, hdisabled⟩ := h
  refine ⟨e :: later, earlier, rfl, ?_, ?_⟩
  · exact List.not_mem_cons_of_ne_of_not_mem hi.symm hinterrupt
  · exact List.not_mem_cons_of_ne_of_not_mem hd.symm hdisabled

end Event

/-- A processor on its bus, with what it did, the latest first. -/
structure Watch (β : Type) where
  cpu : Cpu
  bus : β
  events : List Event := []

namespace Watch

/-- Whether the maskable interrupt line, raised now with `data` on the data bus, is answered. -/
def Accepts [Bus β] (w : Watch β) (data : Byte) : Prop :=
  ∃ cycles, (w.cpu.interrupt data w.bus).result = .ok (some cycles)

/-- Applies a stimulus, and records what was done. -/
def respond [Bus β] (w : Watch β) : Stimulus → Watch β
  | .step =>
    let out := w.cpu.step w.bus
    { cpu := out.cpu, bus := out.bus, events := .step (w.cpu.executed w.bus) :: w.events }
  | .interrupt data =>
    let out := w.cpu.interrupt data w.bus
    { cpu := out.cpu, bus := out.bus, events := .raised out.result :: w.events }
  | .nonMaskableInterrupt =>
    let out := w.cpu.nonMaskableInterrupt w.bus
    { cpu := out.cpu, bus := out.bus, events := .nonMaskableInterrupt :: w.events }

/-- Applies stimuli one after another. -/
def respondAll [Bus β] (w : Watch β) (stimuli : List Stimulus) : Watch β :=
  stimuli.foldl respond w

/-- Of equal stimuli the last one may be looked at by itself. -/
theorem respondAll_replicate_succ [Bus β] (w : Watch β) (count : Nat) (stimulus : Stimulus) :
    w.respondAll (List.replicate (count + 1) stimulus)
      = (w.respondAll (List.replicate count stimulus)).respond stimulus := by
  rw [List.replicate_succ', respondAll, List.foldl_append]
  rfl

/-- What the record says of the processor: with no EI since interrupts were shut off, both
flip-flops are shut, and with an EI as the last instruction interrupts are held off. -/
structure Masks (w : Watch β) : Prop where
  flipFlops : Event.EnabledSince w.events ∨ w.cpu.iff1 = false ∧ w.cpu.iff2 = false
  shadow : w.events.find? Event.isStep = some Event.enabled → w.cpu.eiShadow = true

/-- A record that starts with both flip-flops shut. -/
theorem masks_start {cpu : Cpu} (h1 : cpu.iff1 = false) (h2 : cpu.iff2 = false) (bus : β) :
    Masks { cpu, bus } where
  flipFlops := .inr ⟨h1, h2⟩
  shadow h := nomatch h

variable [Bus β]

/-! ## One stimulus -/

/-- A step keeps the record true of the processor: only an EI that it completes opens a
flip-flop. -/
theorem masks_step {w : Watch β} (h : w.Masks) : (w.respond .step).Masks := by
  show Masks ⟨_, _, .step (w.cpu.executed w.bus) :: w.events⟩
  rcases w.cpu.step_cases w.bus with ⟨fault, -, hnone, hc⟩ | ⟨cycles, i, -, hsome, hc⟩
  · -- Nothing is completed, and the flip-flops are as they were.
    obtain ⟨h1, h2, -, -⟩ := Cpu.of_control hc
    rw [hnone]
    refine ⟨?_, nofun⟩
    rw [h1, h2]
    exact h.flipFlops.imp_left fun since => since.cons nofun nofun
  · obtain ⟨h1, h2, -, hshadow⟩ := Cpu.of_control hc
    rw [hsome]
    constructor
    · rw [h1, h2]
      cases i with
      | enableInterrupts => exact .inl (Event.enabledSince_enabled w.events)
      | disableInterrupts => exact .inr ⟨rfl, rfl⟩
      | retInterrupt =>
        -- The second flip-flop is copied to the first.
        exact h.flipFlops.imp (fun since => since.cons nofun nofun) fun shut => ⟨shut.2, shut.2⟩
      | _ => exact h.flipFlops.imp_left fun since => since.cons nofun nofun
    · intro hlast
      have he : Event.step (some i) = Event.enabled := Option.some.inj hlast
      obtain rfl : i = .enableInterrupts := Option.some.inj (Event.step.inj he)
      exact hshadow

/-- An interrupt keeps the record true: if it is answered it shuts both flip-flops. -/
theorem masks_interrupt {w : Watch β} (h : w.Masks) (data : Byte) :
    (w.respond (.interrupt data)).Masks := by
  show Masks ⟨_, _, .raised (w.cpu.interrupt data w.bus).result :: w.events⟩
  rcases w.cpu.interrupt_control data w.bus with ⟨hno, hsame⟩ | ⟨-, hc⟩
  · rw [hsame, Event.raised_of_ne hno]
    exact ⟨h.flipFlops.imp_left fun since => since.cons nofun nofun, h.shadow⟩
  · -- On the way to a handler both flip-flops are shut, whether it is reached or not.
    obtain ⟨h1, h2, -, hshadow⟩ := Cpu.of_control hc
    refine ⟨.inr ⟨h1, h2⟩, fun hlast => hshadow.trans (h.shadow ?_)⟩
    exact (Event.find_step_raised _ w.events).symm.trans hlast

/-- A non-maskable interrupt keeps the record true: after it IFF2 is what IFF1 was. -/
theorem masks_nonMaskableInterrupt {w : Watch β} (h : w.Masks) :
    (w.respond .nonMaskableInterrupt).Masks := by
  show Masks ⟨(w.cpu.nonMaskableInterrupt w.bus).cpu, _, .nonMaskableInterrupt :: w.events⟩
  obtain ⟨h1, h2, -, hshadow⟩ := Cpu.of_control (w.cpu.nonMaskableInterrupt_control w.bus)
  constructor
  · -- The first flip-flop is copied to the second.
    exact h.flipFlops.imp (fun since => since.cons nofun nofun) fun shut => ⟨h1, h2.trans shut.1⟩
  · exact fun hlast => hshadow.trans (h.shadow hlast)

/-! ## Any number of them -/

/-- Whatever is done to a processor, its record stays true. -/
theorem masks_respondAll {w : Watch β} (h : w.Masks) (stimuli : List Stimulus) :
    (w.respondAll stimuli).Masks := by
  induction stimuli generalizing w with
  | nil => exact h
  | cons stimulus stimuli ih =>
    refine ih (w := w.respond stimulus) ?_
    cases stimulus with
    | step => exact masks_step h
    | interrupt data => exact masks_interrupt h data
    | nonMaskableInterrupt => exact masks_nonMaskableInterrupt h

/-- An interrupt is answered only by a processor that is enabled and not held off, and shuts both
flip-flops. -/
theorem Accepts.control {w : Watch β} {data : Byte} (h : w.Accepts data) :
    (w.cpu.iff1 = true ∧ w.cpu.eiShadow = false) ∧
      (w.respond (.interrupt data)).cpu.iff1 = false ∧
      (w.respond (.interrupt data)).cpu.iff2 = false := by
  obtain ⟨cycles, hresult⟩ := h
  rcases w.cpu.interrupt_control data w.bus with ⟨hno, -⟩ | ⟨hopen, hc⟩
  · exact absurd hresult (hno cycles)
  · obtain ⟨h1, h2, -, -⟩ := Cpu.of_control hc
    exact ⟨by simpa [Cpu.acceptsInterrupt] using hopen, h1, h2⟩

/-- **Masking.** From interrupts shut off, whatever is done, a maskable interrupt is answered only
if an EI was executed and neither an answered interrupt nor a DI came after it, and the last
instruction was not itself an EI. So once an interrupt has been answered, no other is until an
EI. -/
theorem accepts_only_after_enable :
    (∀ (cpu : Cpu) (bus : β) (stimuli : List Stimulus) (data : Byte),
      cpu.iff1 = false → cpu.iff2 = false →
      let w := ({ cpu, bus } : Watch β).respondAll stimuli
      w.Accepts data →
        Event.EnabledSince w.events ∧ w.events.find? Event.isStep ≠ some Event.enabled) ∧
    ∀ (before : Watch β) (data data' : Byte) (stimuli : List Stimulus), before.Accepts data →
      let entered := before.respond (.interrupt data)
      let w := ({ cpu := entered.cpu, bus := entered.bus } : Watch β).respondAll stimuli
      Event.enabled ∉ w.events → ¬ w.Accepts data' := by
  have hfirst (cpu : Cpu) (bus : β) (stimuli : List Stimulus) (data : Byte)
      (h1 : cpu.iff1 = false) (h2 : cpu.iff2 = false)
      (h : (({ cpu, bus } : Watch β).respondAll stimuli).Accepts data) :
      Event.EnabledSince (({ cpu, bus } : Watch β).respondAll stimuli).events ∧
        (({ cpu, bus } : Watch β).respondAll stimuli).events.find? Event.isStep
          ≠ some Event.enabled := by
    have hmasks := masks_respondAll (masks_start h1 h2 bus) stimuli
    obtain ⟨⟨hopen, hfree⟩, -⟩ := h.control
    constructor
    · rcases hmasks.flipFlops with since | ⟨hshut, -⟩
      · exact since
      · rw [hshut] at hopen
        cases hopen
    · intro hlast
      rw [hmasks.shadow hlast] at hfree
      cases hfree
  refine ⟨hfirst, fun before data data' stimuli h => ?_⟩
  intro entered w hnone haccepts
  obtain ⟨-, h1, h2⟩ := h.control
  obtain ⟨⟨later, earlier, hevents, -, -⟩, -⟩ :=
    hfirst entered.cpu entered.bus stimuli data' h1 h2 haccepts
  have hmem : Event.enabled ∈ later ++ Event.enabled :: earlier := by simp
  exact hnone (hevents ▸ hmem)

/-- EI, NOP and an interrupt, which is answered; in its handler a non-maskable interrupt and an
instruction later, another is not. -/
theorem accepts_after_ei_nop :
    let cpu : Cpu := { regs := { sp := 4 }, mode := .mode1 }
    let bus : Memory LatchedPorts := { bytes := #[0xFB] ++ Array.replicate 63 0, device := {} }
    let w := ({ cpu, bus } : Watch (Memory LatchedPorts)).respondAll [.step, .step]
    let entered := w.respond (.interrupt 0xFF)
    let handling := ({ cpu := entered.cpu, bus := entered.bus } : Watch _).respondAll
      [.step, .nonMaskableInterrupt]
    w.Accepts 0xFF ∧ Event.EnabledSince w.events ∧
      w.events.find? Event.isStep ≠ some Event.enabled ∧ ¬ handling.Accepts 0xFF := by
  intro cpu bus w entered handling
  have haccepts : w.Accepts 0xFF := ⟨13, ok_of_toOption (by decide +kernel)⟩
  have hsince := accepts_only_after_enable.1 cpu bus [.step, .step] 0xFF rfl rfl haccepts
  refine ⟨haccepts, hsince.1, hsince.2, ?_⟩
  exact accepts_only_after_enable.2 w 0xFF 0xFF [.step, .nonMaskableInterrupt] haccepts
    (by decide +kernel)

end Watch

end Z80
