import Z80.Proofs.Acceptance
import Z80.Proofs.Returning
import Z80.Proofs.Totality
import Z80.Proofs.Translation.Variant

/-!
# Chains of index prefixes

On a processor that runs what the manual does not list, an index prefix that is followed by another
one is dropped: it costs its four cycles and does nothing. So a chain of prefixes acts as its last
one does, and if the byte after the chain is one to which no index matters, as no prefix at all.

`run_chain` takes the prefixes one by one. What is then left to do is a whole instruction but for
two things: it has fewer bytes left to try, which does not matter to a byte that is no prefix
(`select_budget`), and it remembers where the chain started, which is used in reports alone
(`select_finish_startedAt`).
-/

namespace Z80

variable {α γ β δ : Type}

/-! ## Where an instruction started -/

/-- The processor with another address for the start of its instruction. -/
def Cpu.startedAt (start : Word) (cpu : Cpu) : Cpu :=
  { cpu with start }

namespace Translation

/-- The processor with another start; the pairs and the variant stay. -/
def ofStart (start : Word) : Translation where
  start _ := start

theorem ofStart_cpu (start : Word) : (ofStart start).cpu = Cpu.startedAt start := by
  funext c
  show ({ c with regs := c.regs.withIndexes c.regs.indexes, start } : Cpu) = _
  rw [Registers.withIndexes_indexes]
  rfl

theorem ofStart_faithful (start : Word) : (ofStart start).Faithful :=
  fun _ => ⟨fun _ => rfl, fun _ _ => rfl⟩

end Translation

/-- Translated or not, a dialogue that completes runs over the same answers: it reports nothing. -/
theorem Dialogue.Completes.run_map [Bus β] {v : Variant} {d : Dialogue α} (h : d.Completes v)
    (g : α → γ) (f : Cpu → Cpu) (bus : β) : (d.map g f).run bus = (d.run bus).map g f := by
  induction h generalizing bus with
  | done => rfl
  | read _ ih =>
    rw [map, run_read_eq, run_read_eq]
    exact follow_map fun v bus _ => ih v bus
  | write _ ih =>
    rw [map, run_write_eq, run_write_eq]
    exact follow_map fun _ bus _ => ih bus
  | input _ ih =>
    rw [map, run_input_eq, run_input_eq]
    exact follow_map fun v bus _ => ih v bus
  | output _ ih =>
    rw [map, run_output_eq, run_output_eq]
    exact follow_map fun _ bus _ => ih bus

namespace Action

variable {budget ignored : Nat} {index : Index} {byte : Byte} {cpu : Cpu}

/-- What a byte that is no prefix leads to does not depend on where the chain before it started. -/
theorem select_finish_startedAt (h : Opcode.prefixIndex byte = none) (start : Word) (cpu : Cpu) :
    (Opcode.select (budget + 1) ignored index byte >>= finish) (cpu.startedAt start)
      = ((Opcode.select (budget + 1) ignored index byte >>= finish) cpu).map id
          (Cpu.startedAt start) := by
  have htracks : Tracks (.ofStart start) False id
      (Opcode.select (budget + 1) ignored index byte >>= finish)
      (Opcode.select (budget + 1) ignored index byte >>= finish) := by
    refine .bind (tracks_select_succ (.inl fun _ => rfl) (absurd h) ignored index)
      fun selected => ?_
    refine .bind (tracks_perform (Translation.ofStart_faithful start) (fun _ => rfl) (fun _ => rfl)
      (.inl fun _ => rfl) (fun _ => rfl) selected.2) fun cycles => ?_
    exact .pure id _
  have hmap := htracks cpu
  rw [Translation.ofStart_cpu] at hmap
  exact hmap.eq_map

/-! ## Bytes after a chain -/

/-- Counts prefixes that were dropped before the others. -/
def dropping (dropped : Nat) (selected : Nat × Opcode) : Nat × Opcode :=
  (dropped + selected.1, selected.2)

theorem select_budget_of_kept (h : Opcode.prefixIndex byte = none)
    (hkept : index = .hl ∨ Opcode.usesIndex byte = true) (budget budget' dropped : Nat) :
    Opcode.select (budget + 1) (dropped + ignored) index byte
      = dropping dropped <$> Opcode.select (budget' + 1) ignored index byte := by
  obtain ⟨hix, hiy⟩ : byte ≠ Opcode.ixPrefix ∧ byte ≠ Opcode.iyPrefix :=
    Opcode.of_prefixIndex_eq_none h
  simp only [Opcode.select_kept hkept, hix, hiy, if_false]
  split
  · simp only [map_bind, map_pure, dropping]
  split
  · split <;> simp only [map_bind, map_pure, dropping]
  · rfl

/-- A byte that is no prefix selects the same opcode however many bytes are left to try, and however
many prefixes have been dropped before. -/
theorem select_budget (h : Opcode.prefixIndex byte = none) (budget budget' dropped : Nat) :
    Opcode.select (budget + 1) (dropped + ignored) index byte
      = dropping dropped <$> Opcode.select (budget' + 1) ignored index byte := by
  by_cases hi : index = .hl
  · exact select_budget_of_kept h (.inl hi) budget budget' dropped
  cases hu : Opcode.usesIndex byte with
  | true => exact select_budget_of_kept h (.inr hu) budget budget' dropped
  | false =>
    rw [Opcode.select_ignored hi hu, Opcode.select_ignored hi hu, map_bind, Nat.add_assoc]
    exact congrArg _ (funext fun _ => select_budget_of_kept h (.inl rfl) budget budget' dropped)

/-- Each prefix that was dropped costs four cycles. -/
theorem finish_dropping (dropped : Nat) (selected : Nat × Opcode) :
    finish (dropping dropped selected)
      = (ignoredPrefixCycles * dropped + ·) <$> finish selected := by
  unfold finish dropping
  simp only [map_bind, map_pure, Nat.mul_add, Nat.add_assoc]

theorem select_finish_dropping (h : Opcode.prefixIndex byte = none) (budget budget' dropped : Nat) :
    Opcode.select (budget + 1) dropped index byte >>= finish
      = (ignoredPrefixCycles * dropped + ·) <$>
          (Opcode.select (budget' + 1) 0 index byte >>= finish) := by
  rw [← Nat.add_zero dropped, select_budget h budget budget' dropped, map_bind, bind_map_left]
  exact congrArg _ (funext fun selected => finish_dropping dropped selected)

/-! ## The chain -/

/-- Runs the instruction at the program counter when `budget` bytes are left to try and `dropped`
prefixes have gone before. -/
def instructionAfter (budget dropped : Nat) : Action Nat :=
  fetch >>= fun byte => Opcode.select budget dropped .hl byte >>= finish

theorem instruction_eq_after : instruction = instructionAfter addressSpace 0 := by
  rw [instruction_eq, instructionAfter]
  exact congrArg _ (funext fun byte => instructionFrom_eq .hl byte)

theorem run_functor_map [Bus β] (g : α → γ) (a : Action α) (cpu : Cpu) (bus : β) :
    ((g <$> a) cpu).run bus = ((a cpu).run bus).map g id := by
  rw [map_eq_pure_bind, run_bind]
  rcases (a cpu).run bus with ⟨_ | _, _, _⟩ <;> rfl

variable [Device δ] {m : Memory δ} {n : Nat}

theorem run_fetch_of_full (hm : m.size = addressSpace) (k : Byte → Action α) (cpu : Cpu) :
    ((fetch >>= k) cpu).run m = (k (m.byte cpu.regs.pc) cpu.pastByte).run m :=
  run_fetch_ok (Memory.read_of_full hm cpu.regs.pc) k

theorem requireUndocumented_bind (hc : cpu.variant.conformance = .undocumented) (a : Action α) :
    (requireUndocumented >>= fun _ => a) cpu = a cpu := by
  show (requireUndocumented cpu).bind _ = _
  rw [requireUndocumented_of_undocumented hc]
  rfl

/-- A prefix leads on to the byte after it. -/
theorem run_prefixIndex (hm : m.size = addressSpace)
    (hindex : Opcode.prefixIndex (m.byte cpu.regs.pc) = some index) (budget dropped : Nat) :
    (instructionAfter (budget + 1) dropped cpu).run m
      = ((Opcode.select budget dropped index (m.byte cpu.pastByte.regs.pc) >>= finish)
          cpu.pastByte.pastByte).run m := by
  unfold instructionAfter
  rw [run_fetch_of_full hm, Opcode.select_prefixIndex hindex, bind_assoc, run_fetch_of_full hm]

/-- A prefix that another one follows is dropped. -/
theorem run_dropped (hc : cpu.variant.conformance = .undocumented) (hm : m.size = addressSpace)
    (hfirst : Opcode.prefixIndex (m.byte cpu.regs.pc) ≠ none)
    (hsecond : Opcode.prefixIndex (m.byte cpu.pastByte.regs.pc) ≠ none) (budget dropped : Nat) :
    (instructionAfter (budget + 2) dropped cpu).run m
      = (instructionAfter (budget + 1) (dropped + 1) cpu.pastByte).run m := by
  obtain ⟨index, hindex⟩ := Option.ne_none_iff_exists'.1 hfirst
  obtain ⟨next, hnext⟩ := Option.ne_none_iff_exists'.1 hsecond
  have hi := (Opcode.of_prefixIndex hindex).1
  have hlater : cpu.pastByte.pastByte.variant.conformance = .undocumented := hc
  rw [run_prefixIndex hm hindex, Opcode.select_ignored hi (Opcode.usesIndex_of_prefixIndex hnext),
    bind_assoc, requireUndocumented_bind hlater, instructionAfter, run_fetch_of_full hm]

/-- All prefixes of a chain but the last one are dropped. -/
theorem run_chain (hc : cpu.variant.conformance = .undocumented) (hm : m.size = addressSpace)
    (hchain : ∀ i ≤ n, Opcode.prefixIndex (cpu.ahead m i) ≠ none) (budget : Nat) :
    (instructionAfter (budget + 1 + n) 0 cpu).run m
      = (instructionAfter (budget + 1) n (cpu.past n)).run m := by
  induction n generalizing budget with
  | zero => rw [Nat.add_zero, cpu.past_zero]
  | succ n ih =>
    -- The prefixes before the last two of the chain leave one byte more to try.
    have hearlier := ih (fun i hi => hchain i (Nat.le_succ_of_le hi)) (budget + 1)
    have hfirst : Opcode.prefixIndex (m.byte (cpu.past n).regs.pc) ≠ none :=
      hchain n (Nat.le_succ n)
    have hsecond : Opcode.prefixIndex (m.byte (cpu.past n).pastByte.regs.pc) ≠ none := by
      rw [← cpu.past_succ]
      exact hchain (n + 1) (Nat.le_refl _)
    rw [show budget + 1 + (n + 1) = budget + 1 + 1 + n by omega, hearlier, cpu.past_succ]
    exact run_dropped (show (cpu.past n).variant.conformance = _ from hc) hm hfirst hsecond
      budget n

omit [Device δ] in
/-- A chain that has an end is shorter than memory. -/
theorem chain_lt (hchain : ∀ i < n, Opcode.prefixIndex (cpu.ahead m i) ≠ none)
    (hend : Opcode.prefixIndex (cpu.ahead m n) = none) : n < addressSpace := by
  refine Decidable.byContradiction fun hn => ?_
  have hle : addressSpace ≤ n := Nat.le_of_not_lt hn
  -- The byte at its end would be one that was met before, since addresses wrap around.
  have hwrap : UInt16.ofNat (n - addressSpace) = UInt16.ofNat n := by
    rw [← UInt16.toNat_inj, UInt16.toNat_ofNat', UInt16.toNat_ofNat']
    exact (Nat.mod_eq_sub_mod hle).symm
  refine hchain (n - addressSpace) (Nat.sub_lt_self (by decide) hle) ?_
  rwa [Cpu.ahead, Cpu.past, hwrap]

/-- The byte after a chain selects the opcode, with all prefixes but one dropped. -/
theorem run_throughChain (hc : cpu.variant.conformance = .undocumented)
    (hm : m.size = addressSpace) (hchain : ∀ i ≤ n, Opcode.prefixIndex (cpu.ahead m i) ≠ none)
    (hend : Opcode.prefixIndex (cpu.ahead m (n + 1)) = none)
    (hindex : Opcode.prefixIndex (cpu.ahead m n) = some index) :
    ∃ budget, (instruction cpu.begin).run m
      = ((Opcode.select (budget + 1) n index (cpu.ahead m (n + 1)) >>= finish)
          (cpu.begin.past (n + 2))).run m := by
  -- So there are bytes left to try when the chain has been gone through.
  have hlt : n + 1 < addressSpace := chain_lt (fun i hi => hchain i (Nat.le_of_lt_succ hi)) hend
  obtain ⟨budget, hbudget⟩ : ∃ budget, addressSpace = budget + 1 + 1 + n :=
    ⟨addressSpace - n - 2, by omega⟩
  have hc' : cpu.begin.variant.conformance = .undocumented := hc
  have hthrough := run_chain hc' hm hchain (budget + 1)
  have hindex' : Opcode.prefixIndex (m.byte (cpu.begin.past n).regs.pc) = some index := hindex
  have hafter := run_prefixIndex hm hindex' (budget + 1) n
  rw [← Cpu.past_succ, ← Cpu.past_succ] at hafter
  refine ⟨budget, ?_⟩
  rw [instruction_eq_after, hbudget]
  exact hthrough.trans hafter

/-! ## After the chain -/

theorem completes_finish {v : Variant} (hv : v.conformance = .undocumented)
    (selected : Nat × Opcode) : Obeys (.completes v) (finish selected) :=
  .bind (completes_perform_of_undocumented hv _) fun _ => inferInstance

end Action

namespace Cpu

variable [Device δ] {m : Memory δ} {cpu : Cpu} {n : Nat}

/-- A dialogue that is left of one step when `cycles` have been spent, and is all of another, makes
the first the same as the second. -/
theorem step_of_rest {rest : Action Nat} {cpu' c : Cpu} {v : Variant} {cycles : Nat}
    (hm : m.size = addressSpace) (hrest : Action.Obeys (.completes v) rest) (hv : c.variant = v)
    (hstart : rest (c.startedAt cpu.regs.pc) = (rest c).map id (startedAt cpu.regs.pc))
    (h : (Action.instruction cpu.begin).run m
      = (((cycles + ·) <$> rest) (c.startedAt cpu.regs.pc)).run m)
    (h' : (Action.instruction cpu'.begin).run m = (rest c).run m) :
    (∃ taken, (cpu'.step m).result = .ok taken) ∧
      cpu.step m = (cpu'.step m).map (· + cycles) (startedAt cpu.regs.pc) := by
  have hcompletes := hrest.obeys c hv
  obtain ⟨taken, htaken⟩ := hcompletes.run_ok hm
  unfold step
  rw [h, h', Action.run_functor_map, hstart, hcompletes.run_map]
  -- It ends with a value, and only a fault would tell where it started.
  generalize (rest c).run m = out at htaken
  obtain ⟨result, c, bus⟩ := out
  obtain rfl : result = .ok taken := htaken
  refine ⟨⟨taken, rfl⟩, ?_⟩
  change (⟨.ok (cycles + taken), startedAt cpu.regs.pc c, bus⟩ : Outcome (Memory δ) Nat)
    = ⟨.ok (taken + cycles), startedAt cpu.regs.pc c, bus⟩
  rw [Nat.add_comm]

/-- **A chain of prefixes acts as its last one.** -/
theorem step_lastPrefix (hc : cpu.variant.conformance = .undocumented) (hm : m.size = addressSpace)
    (hchain : ∀ i ≤ n, Opcode.prefixIndex (cpu.ahead m i) ≠ none)
    (hend : Opcode.prefixIndex (cpu.ahead m (n + 1)) = none) :
    (∃ cycles, ((cpu.past n).step m).result = .ok cycles) ∧
      cpu.step m = ((cpu.past n).step m).map (· + 4 * n) (startedAt cpu.regs.pc) := by
  obtain ⟨index, hindex⟩ := Option.ne_none_iff_exists'.1 (hchain n (Nat.le_refl n))
  obtain ⟨budget, hrun⟩ := Action.run_throughChain hc hm hchain hend hindex
  -- The last prefix by itself is a chain of one.
  have hahead (i : Nat) : (cpu.past n).ahead m i = cpu.ahead m (n + i) :=
    congrArg (fun c : Cpu => m.byte c.regs.pc) (cpu.past_past n i)
  have hlast : ∀ i ≤ 0, Opcode.prefixIndex ((cpu.past n).ahead m i) ≠ none := by
    intro i hi
    rw [hahead]
    exact hchain (n + i) (Nat.add_le_add_left hi n)
  have hc' : (cpu.past n).variant.conformance = .undocumented := hc
  obtain ⟨budget', hrun'⟩ := Action.run_throughChain hc' hm hlast
    (by rw [hahead]; exact hend) (by rw [hahead]; exact hindex)
  rw [Action.select_finish_dropping hend budget budget' n] at hrun
  rw [hahead] at hrun'
  have hrest : Action.Obeys (.completes cpu.variant)
      (Opcode.select (budget' + 1) 0 index (cpu.ahead m (n + 1)) >>= Action.finish) :=
    .bind (Opcode.completes_select hend hc) (Action.completes_finish hc)
  refine step_of_rest (c := (cpu.past n).begin.past 2) hm hrest rfl
    (Action.select_finish_startedAt hend _ _) ?_ hrun'
  rw [hrun, ← past_past]
  rfl

/-- Before a byte to which no index matters, a chain acts as if it was not there. -/
theorem step_unprefixed (hc : cpu.variant.conformance = .undocumented) (hm : m.size = addressSpace)
    (hchain : ∀ i ≤ n, Opcode.prefixIndex (cpu.ahead m i) ≠ none)
    (hend : Opcode.prefixIndex (cpu.ahead m (n + 1)) = none)
    (hu : Opcode.usesIndex (cpu.ahead m (n + 1)) = false) :
    cpu.step m = ((cpu.past (n + 1)).step m).map (· + 4 * (n + 1)) (startedAt cpu.regs.pc) := by
  obtain ⟨index, hindex⟩ := Option.ne_none_iff_exists'.1 (hchain n (Nat.le_refl n))
  obtain ⟨budget, hrun⟩ := Action.run_throughChain hc hm hchain hend hindex
  have hlater : (cpu.begin.past (n + 2)).variant.conformance = .undocumented := hc
  rw [Opcode.select_ignored (Opcode.of_prefixIndex hindex).1 hu, bind_assoc,
    Action.requireUndocumented_bind hlater,
    Action.select_finish_dropping hend budget 65535 (n + 1)] at hrun
  have hrest : Action.Obeys (.completes cpu.variant)
      (Opcode.select (65535 + 1) 0 .hl (cpu.ahead m (n + 1)) >>= Action.finish) :=
    .bind (Opcode.completes_select hend hc) (Action.completes_finish hc)
  refine (step_of_rest (c := (cpu.past (n + 1)).begin.pastByte) hm hrest rfl
    (Action.select_finish_startedAt hend _ _) ?_ ?_).2
  · rw [hrun, past_succ]
    rfl
  · rw [Action.instruction_eq_after, Action.instructionAfter, Action.run_fetch_of_full hm]
    rfl

end Cpu

/-- **In a chain of index prefixes only the last one counts.** On a processor that runs what the
manual does not list, with memory everywhere, let there be `n` index prefixes at the program counter
and another byte after them. The step completes. It is the step from the last prefix, for four
cycles more for each of the prefixes before it, and all that tells the two ends apart is where the
instruction started. If no index matters to the byte after the chain, it is also the step from that
byte, for four cycles more for each of the prefixes. -/
theorem step_prefixChain [Device δ] {cpu : Cpu} {m : Memory δ} {n : Nat}
    (hc : cpu.variant.conformance = .undocumented) (hm : m.size = addressSpace) (hn : 1 ≤ n)
    (hchain : ∀ i < n, cpu.ahead m i = 0xDD ∨ cpu.ahead m i = 0xFD)
    (hend : cpu.ahead m n ≠ 0xDD ∧ cpu.ahead m n ≠ 0xFD) :
    (∃ cycles, ((cpu.past (n - 1)).step m).result = .ok cycles) ∧
    cpu.step m
      = ((cpu.past (n - 1)).step m).map (· + 4 * (n - 1)) (Cpu.startedAt cpu.regs.pc) ∧
    (Opcode.usesIndex (cpu.ahead m n) = false →
      cpu.step m = ((cpu.past n).step m).map (· + 4 * n) (Cpu.startedAt cpu.regs.pc)) := by
  obtain ⟨k, rfl⟩ : ∃ k, n = k + 1 := ⟨n - 1, by omega⟩
  have hprefix : ∀ i ≤ k, Opcode.prefixIndex (cpu.ahead m i) ≠ none := by
    intro i hi
    rcases hchain i (Nat.lt_succ_of_le hi) with h | h
    · rw [h]
      decide
    · rw [h]
      decide
  have hnone : Opcode.prefixIndex (cpu.ahead m (k + 1)) = none :=
    (if_neg hend.1).trans (if_neg hend.2)
  obtain ⟨hok, hlast⟩ := Cpu.step_lastPrefix hc hm hprefix hnone
  exact ⟨hok, hlast, Cpu.step_unprefixed hc hm hprefix hnone⟩

/-- Two prefixes at the end of memory and INC A at its beginning. -/
theorem step_prefixChain_increment :
    let cpu : Cpu := { regs := { pc := 0xFFFE }, variant := { conformance := .undocumented } }
    let zeroed : Memory LatchedPorts := Memory.zeroed addressSpace {}
    let m := (((zeroed.write 0xFFFE 0xFD).2.write 0xFFFF 0xDD).2.write 0 0x3C).2
    m.size = addressSpace ∧
    (∀ i < 2, cpu.ahead m i = 0xDD ∨ cpu.ahead m i = 0xFD) ∧ cpu.ahead m 2 = 0x3C ∧
    (∃ cycles, ((cpu.past 1).step m).result = .ok cycles) ∧
    cpu.step m = ((cpu.past 1).step m).map (· + 4) (Cpu.startedAt 0xFFFE) ∧
    cpu.step m = ((cpu.past 2).step m).map (· + 8) (Cpu.startedAt 0xFFFE) := by
  intro cpu zeroed m
  have hzeroed : zeroed.size = addressSpace := Array.size_replicate
  have hfirst : (zeroed.write 0xFFFE 0xFD).2.size = addressSpace :=
    (Memory.size_write ..).trans hzeroed
  have hsecond : ((zeroed.write 0xFFFE 0xFD).2.write 0xFFFF 0xDD).2.size = addressSpace :=
    (Memory.size_write ..).trans hfirst
  have hm : m.size = addressSpace := (Memory.size_write ..).trans hsecond
  have hbyte (address : Word) : m.byte address
      = if address = 0 then 0x3C else if address = 0xFFFF then 0xDD
        else if address = 0xFFFE then 0xFD else zeroed.byte address := by
    rw [Memory.byte_write hsecond, Memory.byte_write hfirst, Memory.byte_write hzeroed]
  have hahead (i : Nat) : cpu.ahead m i = m.byte (cpu.past i).regs.pc := rfl
  have hchain : ∀ i < 2, cpu.ahead m i = 0xDD ∨ cpu.ahead m i = 0xFD := by
    intro i hi
    match i, hi with
    | 0, _ =>
      rw [hahead, show (cpu.past 0).regs.pc = 0xFFFE by decide, hbyte]
      exact .inr rfl
    | 1, _ =>
      rw [hahead, show (cpu.past 1).regs.pc = 0xFFFF by decide, hbyte]
      exact .inl rfl
  have hend : cpu.ahead m 2 = 0x3C := by
    rw [hahead, show (cpu.past 2).regs.pc = 0 by decide, hbyte]
    rfl
  obtain ⟨hok, hlast, hunprefixed⟩ :=
    step_prefixChain rfl hm (by decide) hchain (by rw [hend]; decide)
  exact ⟨hm, hchain, hend, hok, hlast, hunprefixed (by rw [hend]; decide)⟩

end Z80
