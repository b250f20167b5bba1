import Mathlib.Data.List.Induction
import Mathlib.Data.List.Infix
import Z80.Proofs.Acceptance
import Z80.Proofs.Harm
import Z80.Proofs.Returning

/-!
# The stack

A push writes two bytes below the stack pointer, and a pop reads two from it up. Together they make
a stack because words that were pushed stay where they are until they are popped: from the stack
pointer up lie the words that are outstanding, the last one pushed first. A call adds one at this
end or takes one away (`Stacked.pushed`, `Stacked.popped`), so this is so after any number of calls
(`exists_stacked`). Addresses wrap, and it does not matter where the stack begins, as long as no
more words are outstanding than fit into memory.

EX (SP),HL writes the word on top and reads it in one step, so that two of them cancel each other
(`Cpu.step_exchangeStackTop_again`).
-/

namespace Z80

variable {δ : Type}

/-! ## Words in memory -/

/-- Going up and going down do not meet before all addresses have been passed. -/
theorem add_ne_sub (top : Word) (up down : Nat) (hdown : 0 < down)
    (hroom : up + down < addressSpace) : top + UInt16.ofNat up ≠ top - UInt16.ofNat down := by
  rw [addressSpace] at hroom
  rw [Ne, ← UInt16.toNat_inj, UInt16.toNat_add, UInt16.toNat_sub, UInt16.toNat_ofNat',
    UInt16.toNat_ofNat']
  omega

theorem sub_words_succ (top : Word) (count : Nat) :
    top - UInt16.ofNat (2 * count) - 2 = top - UInt16.ofNat (2 * (count + 1)) := by
  rw [Nat.mul_succ, UInt16.ofNat_add]
  grind

namespace Memory

/-- The word at an address, its low byte first. -/
def word (m : Memory δ) (address : Word) : Word :=
  wordOf (m.byte (address + 1)) (m.byte address)

/-- The words from an address up. -/
def words (m : Memory δ) (address : Word) : (count : Nat) → List Word
  | 0 => []
  | count + 1 => m.word address :: m.words (address + 2) count

variable {m m' : Memory δ}

/-- The word that has been pushed lies where the stack pointer has gone. -/
theorem word_pushed (hm : m.size = addressSpace) (top w : Word) :
    (m.pushed top w).word (top - 2) = w := by
  have hnext : top - 2 + 1 = top - 1 := by grind
  rw [word, hnext, byte_pushed_high hm, byte_pushed_low hm, wordOf_highByte_lowByte]

/-- The words from an address on are those of any memory with the same bytes there. -/
theorem words_congr {address : Word} {count : Nat}
    (h : ∀ k < 2 * count,
      m'.byte (address + UInt16.ofNat k) = m.byte (address + UInt16.ofNat k)) :
    m'.words address count = m.words address count := by
  induction count generalizing address with
  | zero => rfl
  | succ count ih =>
    have hlow := h 0 (by omega)
    have hhigh := h 1 (by omega)
    rw [show address + UInt16.ofNat 0 = address from UInt16.add_zero _] at hlow
    have hrest : m'.words (address + 2) count = m.words (address + 2) count := ih fun k hk => by
      have hk' := h (2 + k) (by omega)
      rwa [UInt16.ofNat_add, ← UInt16.add_assoc] at hk'
    rw [words, words, hrest, word, word, hlow]
    exact congrArg (wordOf · _ :: _) hhigh

/-- A push leaves the words that were there, as long as there is room for one more. -/
theorem words_pushed (hm : m.size = addressSpace) (top w : Word) (count : Nat)
    (hroom : 2 * count + 2 ≤ addressSpace) :
    (m.pushed top w).words (top - 2) (count + 1) = w :: m.words top count := by
  rw [words, word_pushed hm, UInt16.sub_add_cancel]
  refine congrArg (w :: ·) (words_congr fun k hk => ?_)
  have hlow : top + UInt16.ofNat k ≠ top - 2 := add_ne_sub top k 2 (by decide) (by omega)
  have hhigh : top + UInt16.ofNat k ≠ top - 1 := add_ne_sub top k 1 (by decide) (by omega)
  rw [byte_pushed hm, if_neg hlow, if_neg hhigh]

theorem device_pushed (m : Memory δ) (top w : Word) : (m.pushed top w).device = m.device :=
  (device_write ..).trans (device_write ..)

end Memory

/-! ## Calls of the stack -/

/-- A call of the stack. -/
inductive StackCall
  | push (w : Word)
  | pop
deriving DecidableEq

namespace StackCall

/-- Makes a call; the answer is the word that was popped, if it was a pop. -/
def make : StackCall → Action (Option Word)
  | push w => do
    Action.push w
    return none
  | pop => do
    return some (← Action.pop)

/-- Makes one call after another; the answers are the result. -/
def makeAll (calls : List StackCall) : Action (List (Option Word)) :=
  calls.mapM make

/-- The number of pushes that are outstanding: by how many there are more of them than pops. -/
def depth : List StackCall → Int
  | [] => 0
  | push _ :: rest => depth rest + 1
  | pop :: rest => depth rest - 1

/-- At no time are more words popped than were pushed, or more outstanding than memory has room
for. -/
def Fits (calls : List StackCall) : Prop :=
  ∀ first, first <+: calls → 0 ≤ depth first ∧ depth first ≤ 32768

instance (calls : List StackCall) : Decidable (Fits calls) :=
  decidable_of_iff (∀ first ∈ calls.inits, 0 ≤ depth first ∧ depth first ≤ 32768) (by
    simp only [List.mem_inits]
    rfl)

/-- Calls among which each push has its pop, and each pop its push. -/
inductive Balanced : List StackCall → Prop
  | nil : Balanced []
  | snoc {before inner : List StackCall} (w : Word) (hbefore : Balanced before)
    (hinner : Balanced inner) : Balanced (before ++ push w :: (inner ++ [pop]))

/-- Answers to calls. A push has none. The answer to a pop is the word of the push that it matches,
which is the one with only balanced calls in between. -/
inductive Answered : List StackCall → List (Option Word) → Prop
  | nil : Answered [] []
  | push {calls : List StackCall} {answers : List (Option Word)} (w : Word)
    (h : Answered calls answers) : Answered (calls ++ [push w]) (answers ++ [none])
  | pop {before inner : List StackCall} {answers : List (Option Word)} {w : Word}
    (h : Answered (before ++ push w :: inner) answers) (hinner : Balanced inner) :
    Answered (before ++ push w :: inner ++ [pop]) (answers ++ [some w])

/-- The words that calls leave outstanding, the last one first: each is the word of a push after
which, up to the next one of these, only balanced calls were made. -/
inductive Outstanding : List StackCall → List Word → Prop
  | nil {calls : List StackCall} (h : Balanced calls) : Outstanding calls []
  | cons {before inner : List StackCall} {words : List Word} (w : Word)
    (h : Outstanding before words) (hinner : Balanced inner) :
    Outstanding (before ++ push w :: inner) (w :: words)

variable {calls : List StackCall} {words : List Word} {w : Word}

/-- The depth of calls one after another is the sum of their depths. -/
theorem depth_append (calls more : List StackCall) :
    depth (calls ++ more) = depth calls + depth more := by
  induction calls with
  | nil => exact (Int.zero_add _).symm
  | cons call rest ih =>
    cases call with
    | push | pop =>
      rw [List.cons_append, depth, depth, ih]
      omega

/-- Balanced calls end at the depth they started from. -/
theorem Balanced.depth_eq (h : Balanced calls) : depth calls = 0 := by
  induction h with
  | nil => rfl
  | snoc w _ _ hbefore hinner =>
    rw [depth_append, depth, depth_append, hbefore, hinner]
    rfl

/-- The depth is the number of words that are still to be popped. -/
theorem Outstanding.depth_eq (h : Outstanding calls words) : depth calls = words.length := by
  induction h with
  | nil h => exact h.depth_eq
  | cons w _ hinner ih =>
    rw [depth_append, depth, ih, hinner.depth_eq, List.length_cons]
    omega

/-- A push leaves one more word to be popped, before all others. -/
theorem Outstanding.pushed (h : Outstanding calls words) (w : Word) :
    Outstanding (calls ++ [push w]) (w :: words) :=
  .cons w h .nil

/-- A pop takes the word of the push that it matches. -/
theorem Outstanding.popped {answers : List (Option Word)} (h : Outstanding calls (w :: words))
    (hanswers : Answered calls answers) :
    Outstanding (calls ++ [pop]) words ∧ Answered (calls ++ [pop]) (answers ++ [some w]) := by
  cases h with
  | cons _ hbefore hinner =>
    refine ⟨?_, hanswers.pop hinner⟩
    rw [List.append_assoc, List.cons_append]
    cases hbefore with
    | nil hbalanced => exact .nil (.snoc w hbalanced hinner)
    | cons below h hbetween =>
      rw [List.append_assoc, List.cons_append]
      exact .cons below h (.snoc w hbetween hinner)

/-- Among balanced calls no pop comes before its push. -/
theorem Balanced.depth_nonneg {calls first rest : List StackCall} (h : Balanced calls)
    (hfirst : calls = first ++ rest) : 0 ≤ depth first := by
  induction h generalizing first rest with
  | nil =>
    rw [(List.append_eq_nil_iff.1 hfirst.symm).1]
    decide
  | @snoc before inner w hbefore hinner ihbefore ihinner =>
    rcases List.append_eq_append_iff.1 hfirst with ⟨past, rfl, hrest⟩ | ⟨left, hleft, -⟩
    · -- Past what is before, the outer pair is open until the very end.
      cases past with
      | nil =>
        rw [List.append_nil]
        exact Int.le_of_eq hbefore.depth_eq.symm
      | cons call more =>
        obtain ⟨rfl, hmore⟩ := List.cons.inj hrest
        rw [depth_append, hbefore.depth_eq, depth]
        rcases List.append_eq_append_iff.1 hmore with ⟨last, rfl, hlast⟩ | ⟨left, hleft, -⟩
        · have hclosing : depth last = 0 ∨ depth last = -1 := by
            rcases List.append_eq_singleton_iff.1 hlast.symm with ⟨rfl, -⟩ | ⟨rfl, -⟩
            · exact .inl rfl
            · exact .inr rfl
          rw [depth_append, hinner.depth_eq]
          omega
        · have hopened := ihinner hleft
          omega
    · exact ihbefore hleft

/-- Of two pushes after which only balanced calls were made, neither comes before the other. -/
theorem eq_of_push_append {past inner inner' : List StackCall} {w w' : Word}
    (hinner : Balanced inner) (hinner' : Balanced inner')
    (h : push w :: inner = past ++ push w' :: inner') : w = w' := by
  cases past with
  | nil => exact StackCall.push.inj (List.cons.inj h).1
  | cons call more =>
    have hmore : inner = more ++ push w' :: inner' := (List.cons.inj h).2
    have hdepth := hinner.depth_eq
    have hnonneg := hinner.depth_nonneg hmore
    rw [hmore, depth_append, depth, hinner'.depth_eq] at hdepth
    omega

/-- There is one push at most that a pop matches. -/
theorem eq_of_matches {before before' inner inner' : List StackCall} {w w' : Word}
    (hinner : Balanced inner) (hinner' : Balanced inner')
    (h : before ++ push w :: inner = before' ++ push w' :: inner') : w = w' := by
  rcases List.append_eq_append_iff.1 h with ⟨past, -, hpast⟩ | ⟨past, -, hpast⟩
  · exact eq_of_push_append hinner hinner' hpast
  · exact (eq_of_push_append hinner' hinner hpast).symm

/-- There are no other answers. -/
theorem Answered.unique {answers answers' : List (Option Word)} (h : Answered calls answers)
    (h' : Answered calls answers') : answers = answers' := by
  induction h generalizing answers' with
  | nil =>
    generalize hcalls : ([] : List StackCall) = calls at h'
    cases h' with
    | nil => rfl
    | push | pop => simp at hcalls
  | push w h ih =>
    generalize hcalls : _ ++ [StackCall.push w] = calls at h'
    cases h' with
    | nil => simp at hcalls
    | push w' h' =>
      obtain ⟨rfl, -⟩ := List.append_inj' hcalls rfl
      rw [ih h']
    | pop => cases (List.append_inj' hcalls rfl).2
  | pop h hinner ih =>
    generalize hcalls : _ ++ [StackCall.pop] = calls at h'
    cases h' with
    | nil => simp at hcalls
    | push => cases (List.append_inj' hcalls rfl).2
    | pop h' hinner' =>
      obtain ⟨heq, -⟩ := List.append_inj' hcalls rfl
      rw [eq_of_matches hinner hinner' heq, ih (heq ▸ h')]

/-! ## One call -/

/-- PUSH writes its word below the stack pointer, which moves there. -/
theorem run_make_push [Device δ] {m : Memory δ} (hm : m.size = addressSpace) (w : Word)
    (cpu : Cpu) :
    (make (push w) cpu).run m =
      { result := .ok none
        cpu := { cpu with regs.sp := cpu.regs.sp - 2 }
        bus := m.pushed cpu.regs.sp w } := by
  show ((Action.push w cpu).bind fun _ => .done none).run m = _
  rw [Action.push_eq]
  exact Dialogue.run_push_of_full hm ..

/-- POP answers with the word at the stack pointer, which moves past it. -/
theorem run_make_pop [Device δ] {m : Memory δ} (hm : m.size = addressSpace) (cpu : Cpu) :
    (make pop cpu).run m =
      { result := .ok (some (m.word cpu.regs.sp))
        cpu := { cpu with regs.sp := cpu.regs.sp + 2 }
        bus := m } := by
  have hpop : make pop cpu = .read cpu cpu.regs.sp fun low =>
      .read cpu (cpu.regs.sp + 1) fun high =>
        .done (some (wordOf high low)) { cpu with regs.sp := cpu.regs.sp + 2 } := rfl
  rw [hpop, Dialogue.run_read_of_full hm, Dialogue.run_read_of_full hm]
  rfl

/-- One call more is made from where the calls before it have left off. -/
theorem run_makeAll_concat {β : Type} [Bus β] {cpu c c' : Cpu} {bus bus' bus'' : β}
    {call : StackCall} {answers : List (Option Word)} {answer : Option Word}
    (h : (makeAll calls cpu).run bus = { result := .ok answers, cpu := c, bus := bus' })
    (hcall : (make call c).run bus' = { result := .ok answer, cpu := c', bus := bus'' }) :
    (makeAll (calls ++ [call]) cpu).run bus
      = { result := .ok (answers ++ [answer]), cpu := c', bus := bus'' } := by
  have hconcat : makeAll (calls ++ [call])
      = makeAll calls >>= fun answers => make call >>= fun answer =>
          pure (answers ++ [answer]) := by
    simp [makeAll]
  rw [hconcat, Action.run_bind, h]
  show ((make call >>= fun answer => pure (answers ++ [answer])) c).run bus' = _
  rw [Action.run_bind, hcall]
  rfl

/-! ## All of them -/

/-- Whether an address is that of a byte of a word that is outstanding at some time, where the
first one pushed lies below `top`. -/
def Reaches (calls : List StackCall) (top address : Word) : Prop :=
  ∃ first, first <+: calls ∧
    ∃ below : Nat, 0 < below ∧ below ≤ 2 * depth first ∧ address = top - UInt16.ofNat below

theorem Reaches.append {top address : Word} (h : Reaches calls top address)
    (more : List StackCall) : Reaches (calls ++ more) top address := by
  obtain ⟨first, hfirst, hbelow⟩ := h
  exact ⟨first, hfirst.trans (List.prefix_append calls more), hbelow⟩

theorem Fits.of_append {more : List StackCall} (h : Fits (calls ++ more)) : Fits calls :=
  fun first hfirst => h first (hfirst.trans (List.prefix_append calls more))

end StackCall

open StackCall

/-- What a processor `cpu` and memory `m` become by calls of the stack, `c` and `m'`, with the
answers given and the words outstanding. -/
structure Stacked (cpu : Cpu) (m : Memory δ) (calls : List StackCall)
    (answers : List (Option Word)) (words : List Word) (c : Cpu) (m' : Memory δ) : Prop where
  answered : Answered calls answers
  outstanding : Outstanding calls words
  /-- All else in the processor is as it was. -/
  cpu_eq : c = { cpu with regs.sp := cpu.regs.sp - UInt16.ofNat (2 * words.length) }
  words_eq : m'.words c.regs.sp words.length = words
  others : ∀ address, ¬ Reaches calls cpu.regs.sp address → m'.byte address = m.byte address
  size : m'.size = m.size
  device : m'.device = m.device

namespace Stacked

variable {cpu c : Cpu} {m m' : Memory δ} {calls : List StackCall} {answers : List (Option Word)}
  {words : List Word}

/-- The stack pointer lies as many words below its start as are still to be popped. -/
theorem sp_eq (h : Stacked cpu m calls answers words c m') :
    c.regs.sp = cpu.regs.sp - UInt16.ofNat (2 * words.length) := by
  rw [h.cpu_eq]

/-- The stack pointer, by the depth of the calls. -/
theorem toNat_sp (h : Stacked cpu m calls answers words c m') :
    (c.regs.sp.toNat : Int) = (cpu.regs.sp.toNat - 2 * depth calls) % addressSpace := by
  rw [h.sp_eq, h.outstanding.depth_eq, UInt16.toNat_sub, UInt16.toNat_ofNat', addressSpace]
  omega

theorem start (cpu : Cpu) (m : Memory δ) : Stacked cpu m [] [] [] cpu m where
  answered := .nil
  outstanding := .nil .nil
  cpu_eq := by
    show cpu = { cpu with regs.sp := cpu.regs.sp - 0 }
    rw [UInt16.sub_zero]
  words_eq := rfl
  others := fun _ _ => rfl
  size := rfl
  device := rfl

/-- A push, if there is room for another word. -/
theorem pushed (h : Stacked cpu m calls answers words c m') (hm : m.size = addressSpace) (w : Word)
    (hroom : depth (calls ++ [.push w]) ≤ 32768) :
    Stacked cpu m (calls ++ [.push w]) (answers ++ [none]) (w :: words)
      { c with regs.sp := c.regs.sp - 2 } (m'.pushed c.regs.sp w) := by
  have hm' : m'.size = addressSpace := h.size.trans hm
  have houtstanding := h.outstanding.pushed w
  have hdepth : depth (calls ++ [.push w]) = words.length + 1 := houtstanding.depth_eq
  -- The two bytes written are the lowest that have been outstanding so far.
  have hreaches (below : Nat) (hpos : 0 < below) (hle : below ≤ 2) :
      Reaches (calls ++ [.push w]) cpu.regs.sp (c.regs.sp - UInt16.ofNat below) := by
    refine ⟨_, List.prefix_refl _, 2 * words.length + below, by omega, by omega, ?_⟩
    rw [h.sp_eq, UInt16.ofNat_add]
    grind
  refine ⟨h.answered.push w, houtstanding, ?_, ?_, fun address ha => ?_, ?_, ?_⟩
  · rw [h.cpu_eq, List.length_cons, ← sub_words_succ]
  · have hpushed := Memory.words_pushed hm' c.regs.sp w words.length (by
      rw [addressSpace]
      omega)
    rw [h.words_eq] at hpushed
    exact hpushed
  · have hlow : address ≠ c.regs.sp - 2 := by
      rintro rfl
      exact ha (hreaches 2 (by decide) (by decide))
    have hhigh : address ≠ c.regs.sp - 1 := by
      rintro rfl
      exact ha (hreaches 1 (by decide) (by decide))
    rw [Memory.byte_pushed hm', if_neg hlow, if_neg hhigh]
    exact h.others address fun hr => ha (hr.append _)
  · exact (Memory.size_pushed ..).trans h.size
  · exact (Memory.device_pushed ..).trans h.device

/-- A pop, if there is a word. -/
theorem popped {w : Word} (h : Stacked cpu m calls answers (w :: words) c m') :
    Stacked cpu m (calls ++ [.pop]) (answers ++ [some (m'.word c.regs.sp)]) words
      { c with regs.sp := c.regs.sp + 2 } m' := by
  obtain ⟨hword, hwords⟩ := List.cons.inj h.words_eq
  obtain ⟨houtstanding, hanswered⟩ := h.outstanding.popped h.answered
  refine ⟨hword ▸ hanswered, houtstanding, ?_, hwords, fun address ha => ?_, h.size, h.device⟩
  · simp only [h.cpu_eq, List.length_cons, ← sub_words_succ, UInt16.sub_add_cancel]
  · exact h.others address fun hr => ha (hr.append _)

end Stacked

/-- Calls that fit all succeed, and leave a stack. -/
theorem exists_stacked [Device δ] {m : Memory δ} (hm : m.size = addressSpace) (cpu : Cpu)
    {calls : List StackCall} (h : Fits calls) :
    ∃ answers words c m',
      (makeAll calls cpu).run m = { result := .ok answers, cpu := c, bus := m' } ∧
      Stacked cpu m calls answers words c m' := by
  induction calls using List.reverseRecOn with
  | nil => exact ⟨[], [], cpu, m, rfl, .start cpu m⟩
  | append_singleton calls call ih =>
    obtain ⟨answers, words, c, m', hrun, hstacked⟩ := ih h.of_append
    obtain ⟨hnot, hroom⟩ := h _ (List.prefix_refl _)
    have hm' : m'.size = addressSpace := hstacked.size.trans hm
    cases call with
    | push w =>
      exact ⟨_, _, _, _, run_makeAll_concat hrun (run_make_push hm' w c),
        hstacked.pushed hm w hroom⟩
    | pop =>
      cases words with
      | nil =>
        -- Without a word outstanding it would be a pop too many.
        rw [depth_append, hstacked.outstanding.depth_eq] at hnot
        exact absurd hnot (by decide)
      | cons w words =>
        exact ⟨_, _, _, _, run_makeAll_concat hrun (run_make_pop hm' c), hstacked.popped⟩

/-! ## Exchanging the word on top -/

namespace Memory

/-- Memory with a word stored at an address, the low byte first. -/
def withWord (m : Memory δ) (address w : Word) : Memory δ :=
  ((m.write address (lowByte w)).2.write (address + 1) (highByte w)).2

variable {m m' : Memory δ}

theorem size_withWord (m : Memory δ) (address w : Word) : (m.withWord address w).size = m.size :=
  (size_write ..).trans (size_write ..)

theorem device_withWord (m : Memory δ) (address w : Word) :
    (m.withWord address w).device = m.device :=
  (device_write ..).trans (device_write ..)

/-- A word replaces the bytes at its address and above it, and no other. -/
theorem byte_withWord (hm : m.size = addressSpace) (address w other : Word) :
    (m.withWord address w).byte other
      = if other = address + 1 then highByte w else if other = address then lowByte w
        else m.byte other := by
  have hfirst : (m.write address (lowByte w)).2.size = addressSpace := (size_write ..).trans hm
  rw [withWord, byte_write hfirst, byte_write hm]

/-- A word that has been put in place is read there. -/
theorem word_withWord (hm : m.size = addressSpace) (address w : Word) :
    (m.withWord address w).word address = w := by
  have hne : address ≠ address + 1 := by grind
  rw [word, byte_withWord hm, byte_withWord hm, if_pos rfl, if_neg hne, if_pos rfl,
    wordOf_highByte_lowByte]

/-- Memories of full size are equal if all their bytes are, and their devices. -/
theorem eq_of_byte (hm : m.size = addressSpace) (hm' : m'.size = addressSpace)
    (hdevice : m'.device = m.device) (h : ∀ address, m'.byte address = m.byte address) :
    m' = m := by
  obtain ⟨bytes, device⟩ := m
  obtain ⟨bytes', device'⟩ := m'
  obtain rfl : device' = device := hdevice
  refine congrArg (Memory.mk · device') (Array.ext (hm'.trans hm.symm) fun i hi' hi => ?_)
  have hbyte := h (UInt16.ofNat i)
  have hi'' : i < 65536 := Nat.lt_of_lt_of_eq hi' hm'
  simpa [byte, Nat.mod_eq_of_lt hi'', hi, hi'] using hbyte

/-- Storing a word and then the one that was there before restores memory. -/
theorem withWord_withWord_word (hm : m.size = addressSpace) (address w : Word) :
    (m.withWord address w).withWord address (m.word address) = m := by
  have hfirst : (m.withWord address w).size = addressSpace := (size_withWord ..).trans hm
  refine eq_of_byte hm ((size_withWord ..).trans hfirst)
    ((device_withWord ..).trans (device_withWord ..)) fun other => ?_
  rw [byte_withWord hfirst, byte_withWord hm, word, highByte_wordOf, lowByte_wordOf]
  grind

/-- Whether some bytes stand in memory from an address up. -/
def HasBytes (m : Memory δ) (address : Word) (bytes : List Byte) : Prop :=
  ∀ i (h : i < bytes.length), m.byte (address + UInt16.ofNat i) = bytes[i]

/-- A memory made from a list of bytes holds what the list says. -/
theorem hasBytes_holding (device : δ) (held : List (Word × Byte)) {address : Word}
    {bytes : List Byte} (h : ∀ i (h : i < bytes.length),
      (held.lookup (address + UInt16.ofNat i)).getD 0 = bytes[i]) :
    (holding device held).HasBytes address bytes :=
  fun i hi => (byte_holding ..).trans (h i hi)

theorem HasBytes.withWord {address : Word} {bytes : List Byte} (h : m.HasBytes address bytes)
    (hm : m.size = addressSpace) {target : Word} (w : Word)
    (hspares : ∀ i < bytes.length,
      address + UInt16.ofNat i ≠ target ∧ address + UInt16.ofNat i ≠ target + 1) :
    (m.withWord target w).HasBytes address bytes := by
  intro i hi
  obtain ⟨hlow, hhigh⟩ := hspares i hi
  rw [byte_withWord hm, if_neg hhigh, if_neg hlow]
  exact h i hi

end Memory

/-- The bytes of EX (SP),HL, and of EX (SP),IX and EX (SP),IY. -/
def Index.exchangeBytes : Index → List Byte
  | .hl => [0xE3]
  | .ix => [0xDD, 0xE3]
  | .iy => [0xFD, 0xE3]

variable [Device δ] {m : Memory δ}

/-- EX (SP) puts the pair on top of the stack and the word that was there in the pair. -/
theorem Action.run_exchangeStackTop (hm : m.size = addressSpace) (name : Pair) (cpu : Cpu) :
    (exchangeStackTop name cpu).run m =
      { result := .ok ()
        cpu := { cpu with regs := cpu.regs.writePair name (m.word cpu.regs.sp) }
        bus := m.withWord cpu.regs.sp (cpu.regs.readPair name) } := by
  have hfirst : (m.write cpu.regs.sp (lowByte (cpu.regs.readPair name))).2.size = addressSpace :=
    (Memory.size_write ..).trans hm
  have heq : exchangeStackTop name cpu =
      .read cpu cpu.regs.sp fun low => .read cpu (cpu.regs.sp + 1) fun high =>
        .write cpu cpu.regs.sp (lowByte (cpu.regs.readPair name))
          (.write cpu (cpu.regs.sp + 1) (highByte (cpu.regs.readPair name))
            (.done () { cpu with regs := cpu.regs.writePair name (wordOf high low) })) := rfl
  rw [heq, Dialogue.run_read_of_full hm, Dialogue.run_read_of_full hm,
    Dialogue.run_write_of_full hm, Dialogue.run_write_of_full hfirst]
  rfl

namespace Cpu

/-- The processor after an exchange that found a word on top of the stack. -/
def exchanged (cpu : Cpu) (index : Index) (w : Word) : Cpu :=
  { cpu.begin with
    regs :=
      { cpu.regs.writePair index.pair w with
        pc := cpu.regs.pc + UInt16.ofNat index.exchangeBytes.length } }

theorem readPair_exchanged (cpu : Cpu) (index : Index) (w : Word) :
    (cpu.exchanged index w).regs.readPair index.pair = w := by
  refine Eq.trans ?_ (cpu.regs.readPair_writePair_self index.pair w)
  cases index <;> rfl

/-- Exchanged a second time, at any address, for what it held before the first. -/
theorem exchanged_exchanged (cpu : Cpu) (index : Index) (w again : Word) :
    ({ cpu.exchanged index w with regs.pc := again } : Cpu).exchanged index
        (cpu.regs.readPair index.pair) =
      { cpu.begin with
        regs := { cpu.regs with pc := again + UInt16.ofNat index.exchangeBytes.length }
        start := again } := by
  cases index with
  | hl =>
    simp [exchanged, begin, Index.pair, Registers.writePair, Registers.readPair, Registers.hl]
  | ix | iy => rfl

/-- One step at an exchange. -/
theorem step_exchangeStackTop (hm : m.size = addressSpace) (index : Index) (cpu : Cpu)
    (hat : m.HasBytes cpu.regs.pc index.exchangeBytes) :
    cpu.step m =
      { result := .ok (19 + index.extra)
        cpu := cpu.exchanged index (m.word cpu.regs.sp)
        bus := m.withWord cpu.regs.sp (cpu.regs.readPair index.pair) } := by
  let opcode : Opcode := .main index 0xE3
  have hopcode : Opcode.ofBytes (cpu.ahead m 0) (cpu.ahead m 1) (cpu.ahead m 2) (cpu.ahead m 3)
      = some opcode := by
    have hfirst : cpu.ahead m 0 = index.exchangeBytes.get ⟨0, by cases index <;> decide⟩ :=
      hat 0 _
    cases index with
    | hl =>
      rw [hfirst]
      rfl
    | ix | iy =>
      have hsecond : cpu.ahead m 1 = 0xE3 := hat 1 (by decide)
      rw [hfirst, hsecond]
      rfl
  have hlisted : opcode.isDocumented = true := by cases index <;> decide
  have hinstruction : opcode.instruction = .exchangeStackTop index := by cases index <;> rfl
  have hlength : opcode.length = index.exchangeBytes.length := by cases index <;> rfl
  have hrun := Action.run_instruction hopcode (yields_ahead hm _)
  rw [Action.perform_of_documented hlisted, hinstruction, hlength] at hrun
  show ((Action.instruction cpu.begin).run m).blame cpu.regs.pc = _
  rw [hrun]
  show Outcome.blame _ (((Action.exchangeStackTop index.pair >>= fun _ => do
    return (Instruction.exchangeStackTop index).cycles (← get).variant.timing false)
      (cpu.begin.past index.exchangeBytes.length)).run m) = _
  rw [Action.run_bind, Action.run_exchangeStackTop hm]
  cases index <;> rfl

/-- A step at an exchange that stands there still after one, at the same address or another. -/
theorem step_exchangeStackTop_again (hm : m.size = addressSpace) (index : Index) {cpu : Cpu}
    {again : Word} (hat : m.HasBytes again index.exchangeBytes)
    (hspares : ∀ i < index.exchangeBytes.length,
      again + UInt16.ofNat i ≠ cpu.regs.sp ∧ again + UInt16.ofNat i ≠ cpu.regs.sp + 1) :
    ({ cpu.exchanged index (m.word cpu.regs.sp) with regs.pc := again } : Cpu).step
        (m.withWord cpu.regs.sp (cpu.regs.readPair index.pair)) =
      { result := .ok (19 + index.extra)
        cpu :=
          { cpu.begin with
            regs := { cpu.regs with pc := again + UInt16.ofNat index.exchangeBytes.length }
            start := again }
        bus := m } := by
  let c : Cpu := { cpu.exchanged index (m.word cpu.regs.sp) with regs.pc := again }
  have hfirst : (m.withWord cpu.regs.sp (cpu.regs.readPair index.pair)).size = addressSpace :=
    (Memory.size_withWord ..).trans hm
  have hsp : c.regs.sp = cpu.regs.sp := by cases index <;> rfl
  have hpair : c.regs.readPair index.pair = m.word cpu.regs.sp := by
    refine Eq.trans ?_ (cpu.readPair_exchanged index (m.word cpu.regs.sp))
    cases index <;> rfl
  -- What the first exchange stored is read back, and what it read is stored again.
  rw [step_exchangeStackTop hfirst index c (hat.withWord hm _ hspares), hsp, hpair,
    Memory.word_withWord hm, Memory.withWord_withWord_word hm, exchanged_exchanged]

end Cpu

/-! ## What the stack gives back -/

/-- **The stack gives back what was put on it**, wherever in a full memory it lies, around the end
of it too. Calls that fit all succeed. At each time the pops so far have answered with the words of
the pushes they match, the stack pointer is two lower for each push that is outstanding, the words
outstanding are in memory, and a byte that has not been part of the stack is what it was. And an
exchange of the word on top with HL, IX or IY undoes itself when made again, if the instruction that
makes it again has not been overwritten. -/
theorem stack_gives_back {m : Memory δ} (hm : m.size = addressSpace) (cpu : Cpu) :
    (∀ calls, Fits calls → ∀ first, first <+: calls →
      ∃ answers words c m',
        (makeAll first cpu).run m = { result := .ok answers, cpu := c, bus := m' } ∧
        Stacked cpu m first answers words c m' ∧
        (c.regs.sp.toNat : Int) = (cpu.regs.sp.toNat - 2 * depth first) % addressSpace) ∧
    ∀ (index : Index) (again : Word),
      m.HasBytes cpu.regs.pc index.exchangeBytes → m.HasBytes again index.exchangeBytes →
      (∀ i < index.exchangeBytes.length,
        again + UInt16.ofNat i ≠ cpu.regs.sp ∧ again + UInt16.ofNat i ≠ cpu.regs.sp + 1) →
      let first := cpu.step m
      let second := ({ first.cpu with regs.pc := again } : Cpu).step first.bus
      first.result = .ok (19 + index.extra) ∧
      first.cpu.regs.pc = cpu.regs.pc + UInt16.ofNat index.exchangeBytes.length ∧
      first.cpu.regs.readPair index.pair = m.word cpu.regs.sp ∧
      first.bus.word cpu.regs.sp = cpu.regs.readPair index.pair ∧
      second =
        { result := .ok (19 + index.extra)
          cpu :=
            { cpu.begin with
              regs := { cpu.regs with pc := again + UInt16.ofNat index.exchangeBytes.length }
              start := again }
          bus := m } := by
  refine ⟨fun calls hfits first hfirst => ?_, fun index again hat hagain hspares => ?_⟩
  · obtain ⟨rest, rfl⟩ := hfirst
    obtain ⟨answers, words, c, m', hrun, hstacked⟩ := exists_stacked hm cpu hfits.of_append
    exact ⟨answers, words, c, m', hrun, hstacked, hstacked.toNat_sp⟩
  · rw [Cpu.step_exchangeStackTop hm index cpu hat]
    exact ⟨rfl, rfl, Cpu.readPair_exchanged .., Memory.word_withWord hm ..,
      Cpu.step_exchangeStackTop_again hm index hagain hspares⟩

/-- A stack that lies around address 0, and two exchanges in a row of the word on top with IX. -/
theorem stack_gives_back_wrapping :
    let cpu : Cpu := { regs := { pc := 0x100, sp := 1, ix := 0x1234 } }
    let m : Memory LatchedPorts :=
      .holding {} [(0x100, 0xDD), (0x101, 0xE3), (0x102, 0xDD), (0x103, 0xE3), (1, 0x55)]
    let calls : List StackCall := [.push 0xABCD, .push 0x5678, .pop, .push 0x9ABC, .pop, .pop]
    m.size = addressSpace ∧ Fits calls ∧
    (∃ c m', (makeAll (calls.take 2) cpu).run m
        = { result := .ok [none, none], cpu := c, bus := m' } ∧
      c.regs.sp = 0xFFFD) ∧
    (∃ m', (makeAll calls cpu).run m
      = { result := .ok [none, none, some 0x5678, none, some 0x9ABC, some 0xABCD]
          cpu := cpu
          bus := m' }) ∧
    m.HasBytes 0x100 [0xDD, 0xE3] ∧ m.HasBytes 0x102 [0xDD, 0xE3] ∧
    ∃ c m', cpu.step m = { result := .ok 23, cpu := c, bus := m' } ∧
      c.regs.ix = 0x0055 ∧ m'.word 1 = 0x1234 ∧
      c.step m' =
        { result := .ok 23
          cpu := { cpu with regs.pc := 0x104, start := 0x102 }
          bus := m } := by
  intro cpu m calls
  have hm : m.size = addressSpace := Memory.size_holding ..
  have hfits : Fits calls := by decide
  have hat : m.HasBytes 0x100 [0xDD, 0xE3] := Memory.hasBytes_holding _ _ (by decide)
  have hagain : m.HasBytes 0x102 [0xDD, 0xE3] := Memory.hasBytes_holding _ _ (by decide)
  have htwo : Answered [.push 0xABCD, .push 0x5678] [none, none] :=
    (Answered.nil.push 0xABCD).push 0x5678
  have hthree : Answered [.push 0xABCD, .push 0x5678, .pop] [none, none, some 0x5678] :=
    @Answered.pop [.push 0xABCD] [] _ _ htwo .nil
  have hfive : Answered [.push 0xABCD, .push 0x5678, .pop, .push 0x9ABC, .pop]
      [none, none, some 0x5678, none, some 0x9ABC] :=
    @Answered.pop [.push 0xABCD, .push 0x5678, .pop] [] _ _ (hthree.push 0x9ABC) .nil
  have hall : Answered calls [none, none, some 0x5678, none, some 0x9ABC, some 0xABCD] :=
    @Answered.pop [] [.push 0x5678, .pop, .push 0x9ABC, .pop] _ _ hfive
      (@Balanced.snoc [.push 0x5678, .pop] [] 0x9ABC (@Balanced.snoc [] [] 0x5678 .nil .nil) .nil)
  obtain ⟨hcalls, hexchange⟩ := stack_gives_back hm cpu
  obtain ⟨hresult, hpc, hix, hword, hsecond⟩ := hexchange .ix 0x102 hat hagain (by decide)
  refine ⟨hm, hfits, ?_, ?_, hat, hagain, ?_⟩
  · obtain ⟨answers, words, c, m', hrun, hstacked, hsp⟩ :=
      hcalls calls hfits (calls.take 2) (List.take_prefix 2 calls)
    obtain rfl := hstacked.answered.unique htwo
    exact ⟨c, m', hrun, UInt16.toNat_inj.1 (Int.ofNat.inj (hsp.trans (by decide)))⟩
  · obtain ⟨answers, words, c, m', hrun, hstacked, -⟩ :=
      hcalls calls hfits calls (List.prefix_refl calls)
    obtain rfl := hstacked.answered.unique hall
    have hdepth : (words.length : Int) = 0 :=
      hstacked.outstanding.depth_eq.symm.trans (by decide)
    obtain rfl : words = [] := List.length_eq_zero_iff.1 (Int.ofNat.inj hdepth)
    obtain rfl : c = cpu := hstacked.cpu_eq.trans (by decide)
    exact ⟨m', hrun⟩
  · rcases hstep : cpu.step m with ⟨result, c, m'⟩
    rw [hstep] at hresult hpc hix hword hsecond
    obtain rfl : result = .ok 23 := hresult
    have htop : m.word 1 = 0x0055 := by
      rw [Memory.word, Memory.byte_holding, Memory.byte_holding]
      decide
    have hpc' : c.regs.pc = 0x102 := hpc.trans (by decide)
    have hnext : ({ c with regs.pc := 0x102 } : Cpu) = c := by rw [← hpc']
    exact ⟨c, m', rfl, hix.trans htop, hword, hnext ▸ hsecond⟩

end Z80
