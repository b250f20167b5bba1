import Z80.Proofs.Inspection
import Z80.Proofs.Masking

/-!
# Returning from a handler

An interrupt and the RETN or RETI at the end of its handler are inverse to each other. On the way in
the return address is pushed and nothing else of memory changes (`Entered`); on the way out it is
popped, if the handler has left it where it was. The first flip-flop is brought back from the
second, which no instruction changes but EI and DI: this is the invariant that carries a handler of
any length (`Watch.steps_keep`).
-/

namespace Z80

variable {δ : Type}

/-! ## Memory of full size -/

theorem Memory.byte_write {m : Memory δ} (hm : m.size = addressSpace) (address other : Word)
    (v : Byte) :
    (m.write address v).2.byte other = if other = address then v else m.byte other := by
  have hm' : (m.write address v).2.size = addressSpace := (size_write m address v).trans hm
  have haddress : address.toNat < m.size := by
    rw [hm]
    exact address.toNat_lt
  split
  · next h =>
    subst h
    have hread := read_write_self m v haddress
    rw [read_of_full hm'] at hread
    exact Except.ok.inj hread
  · next h =>
    have hread := read_write_of_ne m v h
    rw [read_of_full hm', read_of_full hm] at hread
    exact Except.ok.inj hread

theorem Memory.byte_zeroed (size : Nat) (device : δ) (address : Word) :
    (zeroed size device).byte address = 0 := by
  simp only [byte, zeroed, Array.getD_eq_getD_getElem?, Array.getElem?_replicate]
  split <;> rfl

/-- Memory of full size with these bytes, and zero everywhere else. -/
def Memory.holding (device : δ) : List (Word × Byte) → Memory δ
  | [] => zeroed addressSpace device
  | (address, v) :: rest => ((holding device rest).write address v).2

theorem Memory.size_holding (device : δ) (bytes : List (Word × Byte)) :
    (holding device bytes).size = addressSpace := by
  induction bytes with
  | nil => exact Array.size_replicate
  | cons entry rest ih => exact (size_write ..).trans ih

theorem Memory.byte_holding (device : δ) (bytes : List (Word × Byte)) (address : Word) :
    (holding device bytes).byte address = (bytes.lookup address).getD 0 := by
  induction bytes with
  | nil => exact byte_zeroed ..
  | cons entry rest ih =>
    rw [holding, byte_write (size_holding device rest), List.lookup_cons, ih]
    by_cases h : address = entry.1
    · rw [if_pos h, h, beq_self_eq_true]
      rfl
    · rw [if_neg h, beq_false_of_ne h]

/-- Memory with a word pushed below `top`, the high byte first. -/
def Memory.pushed (m : Memory δ) (top w : Word) : Memory δ :=
  ((m.write (top - 1) (highByte w)).2.write (top - 2) (lowByte w)).2

theorem Memory.size_pushed (m : Memory δ) (top w : Word) : (m.pushed top w).size = m.size :=
  (size_write ..).trans (size_write ..)

theorem Memory.byte_pushed {m : Memory δ} (hm : m.size = addressSpace) (top w other : Word) :
    (m.pushed top w).byte other
      = if other = top - 2 then lowByte w else if other = top - 1 then highByte w
        else m.byte other := by
  have hfirst : (m.write (top - 1) (highByte w)).2.size = addressSpace :=
    (size_write ..).trans hm
  rw [pushed, byte_write hfirst, byte_write hm]

theorem Memory.byte_pushed_low {m : Memory δ} (hm : m.size = addressSpace) (top w : Word) :
    (m.pushed top w).byte (top - 2) = lowByte w := by
  rw [byte_pushed hm, if_pos rfl]

theorem Memory.byte_pushed_high {m : Memory δ} (hm : m.size = addressSpace) (top w : Word) :
    (m.pushed top w).byte (top - 1) = highByte w := by
  have hne : top - 1 ≠ top - 2 := by grind
  rw [byte_pushed hm, if_neg hne, if_pos rfl]

variable [Device δ]

theorem Dialogue.run_push_of_full {α : Type} {m : Memory δ} (hm : m.size = addressSpace)
    (c c' : Cpu) (top w : Word) (d : Dialogue α) :
    (Dialogue.write c (top - 1) (highByte w) (.write c' (top - 2) (lowByte w) d)).run m
      = d.run (m.pushed top w) := by
  rw [run_write_of_full hm, run_write_of_full ((Memory.size_write ..).trans hm), Memory.pushed]

/-! ## Entry -/

/-- How a processor goes to a handler: `c` and `m'` are what `cpu` and `m` become. -/
structure Entered (cpu : Cpu) (m : Memory δ) (c : Cpu) (m' : Memory δ) : Prop where
  regs : c.regs = { cpu.regs with pc := c.regs.pc, sp := cpu.regs.sp - 2 }
  going : c.halted = false
  low : m'.byte (cpu.regs.sp - 2) = lowByte cpu.returnAddress
  high : m'.byte (cpu.regs.sp - 1) = highByte cpu.returnAddress
  others : ∀ address, address ≠ cpu.regs.sp - 2 → address ≠ cpu.regs.sp - 1 →
    m'.byte address = m.byte address
  size : m'.size = m.size

omit [Device δ] in
/-- The flip-flops have no part in going to a handler. -/
theorem Entered.of_flipFlops {cpu c : Cpu} {m m' : Memory δ} {iff1 iff2 : Bool}
    (h : Entered { cpu with iff1, iff2 } m c m') : Entered cpu m c m' :=
  ⟨h.regs, h.going, h.low, h.high, h.others, h.size⟩

namespace Action

variable {m : Memory δ}

/-- Over memory of full size a handler is always reached. -/
theorem run_enterHandler_of_full (handler : Word) (cpu : Cpu) (hm : m.size = addressSpace) :
    ∃ m', (enterHandler handler cpu).run m
        = { result := .ok (), cpu := cpu.entered handler, bus := m' } ∧
      Entered cpu m (cpu.entered handler) m' := by
  refine ⟨m.pushed cpu.regs.sp cpu.returnAddress, ?_, rfl, rfl, Memory.byte_pushed_low hm _ _,
    Memory.byte_pushed_high hm _ _, ?_, Memory.size_pushed ..⟩
  · rw [enterHandler_eq, Dialogue.run_push_of_full hm]
    rfl
  · intro address hlow hhigh
    rw [Memory.byte_pushed hm, if_neg hlow, if_neg hhigh]

end Action

namespace Cpu

variable {m : Memory δ}

/-- A non-maskable interrupt keeps the first flip-flop in the second. -/
theorem nonMaskableInterrupt_entered (cpu : Cpu) (hm : m.size = addressSpace) :
    (cpu.nonMaskableInterrupt m).result = .ok 11 ∧
      Entered cpu m (cpu.nonMaskableInterrupt m).cpu (cpu.nonMaskableInterrupt m).bus ∧
      (cpu.nonMaskableInterrupt m).cpu.iff2 = cpu.iff1 := by
  obtain ⟨m', hrun, hentered⟩ := Action.run_enterHandler_of_full Action.nonMaskableHandler
    { cpu with iff1 := false, iff2 := cpu.iff1 } hm
  rw [nonMaskableInterrupt_eq, hrun]
  exact ⟨rfl, .of_flipFlops hentered, rfl⟩

/-- A maskable interrupt that is answered shuts both. -/
theorem interrupt_entered {cpu : Cpu} {data : Byte} {cycles : Nat} (hm : m.size = addressSpace)
    (haccepted : (cpu.interrupt data m).result = .ok (some cycles)) :
    Entered cpu m (cpu.interrupt data m).cpu (cpu.interrupt data m).bus ∧
      (cpu.interrupt data m).cpu.iff2 = false := by
  have hlook := Action.run_handlerFor_bus data cpu m
  rcases cpu.interrupt_cases data m with
    ⟨-, he⟩ | ⟨-, fault, bus, -, he⟩ | ⟨-, handler, cycles', bus, hfound, he⟩
  · rw [he] at haccepted
    cases haccepted
  · rw [he] at haccepted
    cases haccepted
  · rw [hfound] at hlook
    obtain rfl : bus = m := hlook
    obtain ⟨m', hrun, hentered⟩ := Action.run_enterHandler_of_full handler cpu.masked hm
    rw [he, hrun]
    exact ⟨.of_flipFlops hentered, rfl⟩

end Cpu

/-! ## Return -/

/-- How a processor comes back from a handler that was entered with the stack pointer at `sp` and
the return address `address`. -/
structure Returned (sp address : Word) (iff1 : Bool) (out : Outcome (Memory δ) Nat) : Prop where
  completes : ∃ cycles, out.result = .ok cycles
  pc : out.cpu.regs.pc = address
  sp : out.cpu.regs.sp = sp
  iff1 : out.cpu.iff1 = iff1

/-- RETN and RETI over memory of full size. -/
theorem Action.run_retInterrupt_of_full {m : Memory δ} (cpu : Cpu) (hm : m.size = addressSpace) :
    (execute .retInterrupt cpu).run m =
      { result := .ok false
        cpu :=
          { cpu with
            iff1 := cpu.iff2
            regs :=
              { cpu.regs with
                pc := wordOf (m.byte (cpu.regs.sp + 1)) (m.byte cpu.regs.sp)
                sp := cpu.regs.sp + 2 } }
        bus := m } := by
  have heq : execute .retInterrupt cpu =
      .read cpu cpu.regs.sp fun low => .read cpu (cpu.regs.sp + 1) fun high =>
        .done false
          { cpu with
            iff1 := cpu.iff2
            regs := { cpu.regs with pc := wordOf high low, sp := cpu.regs.sp + 2 } } := rfl
  rw [heq, Dialogue.run_read_of_full hm, Dialogue.run_read_of_full hm]
  rfl

/-- **RETN and RETI complete over memory of full size**: the return address is popped, and the first
flip-flop brought back from the second. -/
theorem Cpu.step_retInterrupt {cpu : Cpu} {m : Memory δ} (hm : m.size = addressSpace)
    (h : cpu.Selects m fun i _ => i = .retInterrupt) :
    Returned (cpu.regs.sp + 2) (wordOf (m.byte (cpu.regs.sp + 1)) (m.byte cpu.regs.sp)) cpu.iff2
      (cpu.step m) := by
  rcases cpu.step_over_memory m with ⟨_, -, hnone, -⟩ | ⟨i, c, hreads, hc, -, cycles, hstep⟩
  · exact absurd h (not_selects hnone)
  · obtain rfl : i = .retInterrupt := (selects_iff hreads).1 h
    rw [Action.run_retInterrupt_of_full c hm] at hstep
    obtain ⟨count, rfl, -⟩ := hc
    rw [hstep]
    exact ⟨⟨_, rfl⟩, rfl, rfl, rfl⟩

/-! ## The handler -/

namespace Watch

/-- A step that executes neither EI nor DI leaves the second flip-flop. -/
theorem iff2_step {w : Watch (Memory δ)} (henabled : Event.enabled ∉ (w.respond .step).events)
    (hdisabled : Event.disabled ∉ (w.respond .step).events) :
    (w.respond .step).cpu.iff2 = w.cpu.iff2 := by
  replace henabled : Event.enabled ∉ .step (w.cpu.executed w.bus) :: w.events := henabled
  replace hdisabled : Event.disabled ∉ .step (w.cpu.executed w.bus) :: w.events := hdisabled
  show (w.cpu.step w.bus).cpu.iff2 = w.cpu.iff2
  rcases w.cpu.step_cases w.bus with ⟨fault, -, -, hc⟩ | ⟨cycles, i, -, hsome, hc⟩
  · exact (Cpu.of_control hc).2.1
  · rw [hsome] at henabled hdisabled
    have h2 := (Cpu.of_control hc).2.1
    cases i with
    | enableInterrupts => exact absurd (List.mem_cons_self ..) henabled
    | disableInterrupts => exact absurd (List.mem_cons_self ..) hdisabled
    | _ => exact h2

/-- What any number of steps keep, if none of them is an EI or a DI: the second flip-flop and the
size of memory. -/
theorem steps_keep (w : Watch (Memory δ)) (count : Nat) :
    let w' := w.respondAll (List.replicate count .step)
    Event.enabled ∉ w'.events → Event.disabled ∉ w'.events →
      w'.cpu.iff2 = w.cpu.iff2 ∧ w'.bus.size = w.bus.size := by
  induction count with
  | zero => exact fun _ _ => ⟨rfl, rfl⟩
  | succ count ih =>
    intro w' henabled hdisabled
    let before := w.respondAll (List.replicate count .step)
    have hlast : w' = before.respond .step := w.respondAll_replicate_succ count .step
    rw [hlast] at henabled hdisabled ⊢
    obtain ⟨h2, hsize⟩ := ih (fun h => henabled (List.mem_cons_of_mem _ h))
      fun h => hdisabled (List.mem_cons_of_mem _ h)
    refine ⟨(iff2_step henabled hdisabled).trans h2, ?_⟩
    exact (Cpu.step_keeps (Memory.bus_keeps_size before.bus.size) before.cpu rfl).trans hsize

/-- At the end of a handler: no EI or DI has been executed since it was entered at `entry`, the
stack pointer is back where it was then, with the two bytes there as they were, and what comes next
is a RETN or RETI. -/
structure AtEnd (entry w : Watch (Memory δ)) : Prop where
  enabled : Event.enabled ∉ w.events
  disabled : Event.disabled ∉ w.events
  sp : w.cpu.regs.sp = entry.cpu.regs.sp
  low : w.bus.byte entry.cpu.regs.sp = entry.bus.byte entry.cpu.regs.sp
  high : w.bus.byte (entry.cpu.regs.sp + 1) = entry.bus.byte (entry.cpu.regs.sp + 1)
  returns : w.cpu.Selects w.bus fun i _ => i = .retInterrupt

/-- A handler of any length returns to where it was entered from. -/
theorem returned_of_entered {cpu : Cpu} {m : Memory δ} {entry : Watch (Memory δ)}
    (hm : m.size = addressSpace) (hentry : Entered cpu m entry.cpu entry.bus) (count : Nat) :
    let w := entry.respondAll (List.replicate count .step)
    entry.AtEnd w →
      Returned cpu.regs.sp cpu.returnAddress entry.cpu.iff2 (w.cpu.step w.bus) := by
  intro w hend
  obtain ⟨h2, hsize⟩ := entry.steps_keep count hend.enabled hend.disabled
  have hreturned := Cpu.step_retInterrupt ((hsize.trans hentry.size).trans hm) hend.returns
  have hsp : entry.cpu.regs.sp = cpu.regs.sp - 2 := by rw [hentry.regs]
  have hnext : cpu.regs.sp - 2 + 1 = cpu.regs.sp - 1 := by grind
  -- The word at the stack pointer is the return address, still as it was pushed.
  have hlow := hend.low
  have hhigh := hend.high
  rw [hsp, hentry.low] at hlow
  rw [hsp, hnext, hentry.high] at hhigh
  rw [hend.sp, hsp, hnext, hlow, hhigh, UInt16.sub_add_cancel, wordOf_highByte_lowByte,
    h2] at hreturned
  exact hreturned

end Watch

/-- **An interrupt and the return from its handler are inverse.** Over memory of full size a
processor goes to the handler with the return address pushed and nothing else of memory changed, and
from its end, however many steps that is away, it returns to where it was. The first flip-flop is
then as it was before a non-maskable interrupt, and shut after a maskable one. -/
theorem handler_returns {cpu : Cpu} {m : Memory δ} (hm : m.size = addressSpace) :
    (let out := cpu.nonMaskableInterrupt m
      let entry : Watch (Memory δ) := { cpu := out.cpu, bus := out.bus }
      out.result = .ok 11 ∧ Entered cpu m out.cpu out.bus ∧
      ∀ count, let w := entry.respondAll (List.replicate count .step)
        entry.AtEnd w →
          Returned cpu.regs.sp cpu.returnAddress cpu.iff1 (w.cpu.step w.bus)) ∧
    ∀ data cycles, let out := cpu.interrupt data m
      let entry : Watch (Memory δ) := { cpu := out.cpu, bus := out.bus }
      out.result = .ok (some cycles) → Entered cpu m out.cpu out.bus ∧
      ∀ count, let w := entry.respondAll (List.replicate count .step)
        entry.AtEnd w →
          Returned cpu.regs.sp cpu.returnAddress false (w.cpu.step w.bus) := by
  constructor
  · intro out entry
    obtain ⟨hresult, hentered, h2⟩ := Cpu.nonMaskableInterrupt_entered cpu hm
    exact ⟨hresult, hentered, fun count => h2 ▸ Watch.returned_of_entered hm hentered count⟩
  · intro data cycles out entry haccepted
    obtain ⟨hentered, h2⟩ := Cpu.interrupt_entered hm haccepted
    exact ⟨hentered, fun count => h2 ▸ Watch.returned_of_entered hm hentered count⟩

/-- The step of a NOP. -/
theorem Watch.respond_nop (w : Watch (Memory δ)) (h : w.bus.read w.cpu.regs.pc = .ok 0) :
    w.respond .step =
      { cpu := w.cpu.begin.pastByte, bus := w.bus, events := .step (some .nop) :: w.events } := by
  have hread : w.bus.read w.cpu.begin.regs.pc = .ok 0 := h
  have hfetch : (Action.fetchOpcode w.cpu.begin).run w.bus
      = { result := .ok (0, .main .hl 0), cpu := w.cpu.begin.pastByte, bus := w.bus } := by
    rw [Action.fetchOpcode, Action.run_fetch_ok hread]
    rfl
  have hreads : w.cpu.reads w.bus = some (.nop, w.cpu.begin.pastByte) :=
    Cpu.reads_of_fetchOpcode hfetch rfl
  rcases w.cpu.step_over_memory w.bus with
    ⟨_, -, hnone, -⟩ | ⟨i, c, hsome, -, hexecuted, cycles, hstep⟩
  · rw [hreads] at hnone
    cases hnone
  · rw [hreads] at hsome
    cases hsome
    rw [respond, hexecuted, hstep]
    rfl

/-- The bytes ED 45 are RETN. -/
theorem Cpu.selects_retInterrupt {cpu : Cpu} {m : Memory δ} (h0 : m.read cpu.regs.pc = .ok 0xED)
    (h1 : m.read (cpu.regs.pc + 1) = .ok 0x45) : cpu.Selects m fun i _ => i = .retInterrupt := by
  have hfetch : (Action.fetchOpcode cpu.begin).run m
      = { result := .ok (0, .extended 0x45), cpu := cpu.begin.pastByte.pastByte, bus := m } := by
    have hread0 : m.read cpu.begin.regs.pc = .ok 0xED := h0
    have hread1 : m.read cpu.begin.pastByte.regs.pc = .ok 0x45 := h1
    rw [Action.fetchOpcode, Action.run_fetch_ok hread0]
    exact Action.run_fetch_ok hread1 _
  exact ⟨_, _, reads_of_fetchOpcode hfetch rfl, rfl⟩

/-- The handler that consists of NOP and RETN. -/
theorem Watch.atEnd_nop {cpu : Cpu} {m : Memory δ} (h0 : m.read cpu.regs.pc = .ok 0)
    (h1 : m.read (cpu.regs.pc + 1) = .ok 0xED) (h2 : m.read (cpu.regs.pc + 1 + 1) = .ok 0x45) :
    let entry : Watch (Memory δ) := { cpu, bus := m }
    entry.AtEnd (entry.respondAll (List.replicate 1 .step)) := by
  intro entry
  have hstep : entry.respondAll (List.replicate 1 .step)
      = { cpu := cpu.begin.pastByte, bus := m, events := [.step (some .nop)] } :=
    entry.respond_nop h0
  have henabled : Event.enabled ∉ [Event.step (some .nop)] := by decide
  have hdisabled : Event.disabled ∉ [Event.step (some .nop)] := by decide
  rw [hstep]
  exact ⟨henabled, hdisabled, rfl, rfl, rfl, Cpu.selects_retInterrupt h1 h2⟩

/-- A stopped processor that gets a non-maskable interrupt, whose handler is NOP and RETN, goes on
after its HALT. -/
theorem handler_returns_nop :
    let cpu : Cpu := { regs := { pc := 0x1000, sp := 0x8000 }, iff1 := true, halted := true }
    let zeroed : Memory LatchedPorts := Memory.zeroed addressSpace {}
    let m := ((zeroed.write 0x67 0xED).2.write 0x68 0x45).2
    let out := cpu.nonMaskableInterrupt m
    let entry : Watch (Memory LatchedPorts) := { cpu := out.cpu, bus := out.bus }
    let w := entry.respondAll (List.replicate 1 .step)
    m.size = addressSpace ∧ entry.AtEnd w ∧ Returned 0x8000 0x1001 true (w.cpu.step w.bus) := by
  intro cpu zeroed m out entry w
  have hzeroed : zeroed.size = addressSpace := Array.size_replicate
  have hwritten : (zeroed.write 0x67 0xED).2.size = addressSpace :=
    (Memory.size_write ..).trans hzeroed
  have hm : m.size = addressSpace := (Memory.size_write ..).trans hwritten
  obtain ⟨-, hentered, hreturns⟩ := (@handler_returns _ _ cpu m hm).1
  have hpc : out.cpu.regs.pc = 0x66 := by
    obtain ⟨m', hrun, -⟩ := Action.run_enterHandler_of_full Action.nonMaskableHandler
      { cpu with iff1 := false, iff2 := cpu.iff1 } hm
    have hout : out = _ := cpu.nonMaskableInterrupt_eq m
    rw [hout, hrun]
    rfl
  -- The handler is not where the return address was pushed.
  have hread (address : Word) (hlow : address ≠ 0x8000 - 2) (hhigh : address ≠ 0x8000 - 1) :
      out.bus.read address = .ok
        (if address = 0x68 then 0x45
        else if address = 0x67 then 0xED else zeroed.byte address) := by
    rw [Memory.read_of_full (hentered.size.trans hm), hentered.others address hlow hhigh,
      Memory.byte_write hwritten, Memory.byte_write hzeroed]
  have hend : entry.AtEnd w := by
    refine Watch.atEnd_nop ?_ ?_ ?_
    · rw [hpc, hread 0x66 (by decide) (by decide), Memory.byte_zeroed]
      rfl
    · rw [hpc]
      exact hread 0x67 (by decide) (by decide)
    · rw [hpc]
      exact hread 0x68 (by decide) (by decide)
  exact ⟨hm, hend, hreturns 1 hend⟩

end Z80
