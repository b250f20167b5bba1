import Z80.Proofs.Harm
import Z80.Proofs.Repetition

/-!
# Transferring a block

INIR and INDR take bytes from a port and store them from HL on; OTIR and OTDR send the bytes from HL
on to a port. Each byte is transferred once, and in order. The device may change at each transfer:
`Device.afterInputs` and `Device.afterOutputs` are what becomes of it.

The port is C with B above it, and B counts down. On input it is B before the count, on output
after it.
-/

namespace Z80

variable {δ : Type} [Device δ]

/-! ## Devices -/

namespace Device

/-- A device that bytes have been taken from, one from each of the ports. -/
def afterInputs (device : δ) (port : Nat → Word) : (count : Nat) → δ
  | 0 => device
  | count + 1 => (Device.input (afterInputs device port count) (port count)).2

/-- The byte that is taken after `count` others. -/
def inputAt (device : δ) (port : Nat → Word) (count : Nat) : Byte :=
  (Device.input (afterInputs device port count) (port count)).1

/-- A device that bytes have been sent to, one to each of the ports. -/
def afterOutputs (device : δ) (port : Nat → Word) (value : Nat → Byte) : (count : Nat) → δ
  | 0 => device
  | count + 1 => Device.output (afterOutputs device port value count) (port count) (value count)

end Device

/-! ## Bytes taken from a device -/

namespace Memory

omit [Device δ] in
theorem device_holding (device : δ) (bytes : List (Word × Byte)) :
    (holding device bytes).device = device := by
  induction bytes with
  | nil => rfl
  | cons entry rest ih => exact (device_write ..).trans ih

/-- Memory with `count` bytes taken from its device and stored from `start` on. -/
def received (m : Memory δ) (backwards : Bool) (start : Word) (port : Nat → Word) :
    (count : Nat) → Memory δ
  | 0 => m
  | count + 1 =>
    let before := m.received backwards start port count
    let answer := Device.input before.device (port count)
    (({ before with device := answer.2 } : Memory δ).write (blockAddress backwards start count)
      answer.1).2

variable {m : Memory δ} {backwards : Bool} {start : Word} {port : Nat → Word} {count : Nat}

theorem size_received (count : Nat) : (m.received backwards start port count).size = m.size := by
  induction count with
  | zero => rfl
  | succ count ih => exact (size_write ..).trans ih

theorem device_received (count : Nat) :
    (m.received backwards start port count).device = Device.afterInputs m.device port count := by
  induction count with
  | zero => rfl
  | succ count ih =>
    rw [received, device_write, Device.afterInputs, ih]

theorem storesEach_received (hm : m.size = addressSpace) (count : Nat) :
    StoresEach (m.received backwards start port) (blockAddress backwards start)
      (Device.inputAt m.device port) count := by
  intro i _ address
  let before := m.received backwards start port i
  let asked : Memory δ :=
    { before with device := (Device.input before.device (port i)).2 }
  have hasked : asked.size = addressSpace := (size_received i).trans hm
  have hvalue : Device.inputAt m.device port i = (Device.input before.device (port i)).1 := by
    rw [Device.inputAt, ← device_received]
  rw [hvalue]
  exact byte_write hasked ..

/-- Outside the block nothing changes. -/
theorem byte_received_of_ne (hm : m.size = addressSpace) {address : Word}
    (ha : ∀ i < count, address ≠ blockAddress backwards start i) :
    (m.received backwards start port count).byte address = m.byte address :=
  (storesEach_received hm count).elsewhere ha

/-- The block has the bytes that were taken, in order. -/
theorem byte_received (hm : m.size = addressSpace) (hcount : count ≤ addressSpace) {i : Nat}
    (hi : i < count) :
    (m.received backwards start port count).byte (blockAddress backwards start i)
      = Device.inputAt m.device port i :=
  (storesEach_received hm count).stored (blockAddress_inj backwards start hcount) hi

end Memory

/-! ## The passes of a transfer -/

/-- The registers once `count` bytes have been transferred. -/
def Registers.transferred (regs : Registers) (backwards : Bool) (count : Nat) : Registers :=
  { regs.writePair .hl (blockAddress backwards regs.hl count) with
    bank.b := regs.bank.b - UInt8.ofNat count
    acc.f :=
      match count with
      | 0 => regs.acc.f
      | last + 1 => (Alu.decByte (regs.bank.b - UInt8.ofNat last) regs.acc.f).flags }

/-- The port of the transfer that comes after `count` others, with B counting down from `b`. -/
def blockPort (b c : Byte) (count : Nat) : Word :=
  wordOf (b - UInt8.ofNat count) c

namespace Registers

variable (regs : Registers) (backwards : Bool) (count : Nat)

theorem transferred_zero : regs.transferred backwards 0 = regs := by
  have hhl := writePair_blockAddress_zero regs backwards .hl
  have hb : regs.bank.b - UInt8.ofNat 0 = regs.bank.b := UInt8.sub_zero _
  simp only [readPair] at hhl
  simp only [transferred, hhl, hb]

theorem hl_transferred :
    (regs.transferred backwards count).hl = blockAddress backwards regs.hl count :=
  wordOf_highByte_lowByte _

/-- An output is sent with B as it has been counted down. -/
theorem outputPort_transferred :
    BlockKind.outputPort (regs.transferred backwards count)
      = blockPort (regs.bank.b - 1) regs.bank.c count := by
  have hb : regs.bank.b - UInt8.ofNat count - 1 = regs.bank.b - 1 - UInt8.ofNat count := by
    grind
  exact congrArg (wordOf · regs.bank.c) hb

/-- Input and output step the registers alike, whatever the byte. -/
theorem passed_transferred (v : Byte) :
    BlockKind.passed backwards (regs.transferred backwards count) v .input
      = regs.transferred backwards (count + 1) := by
  have hb : (regs.transferred backwards count).bank.b - 1
      = regs.bank.b - UInt8.ofNat (count + 1) := byte_sub_succ ..
  rw [BlockKind.passed, hl_transferred, advance_blockAddress, hb]
  cases count <;> rfl

/-- At the end B is zero, and the flags are those of its last count. -/
theorem transferred_byteCount :
    regs.transferred backwards (byteCount regs.bank.b)
      = { regs.writePair .hl (blockAddress backwards regs.hl (byteCount regs.bank.b)) with
          bank.b := 0
          acc.f := { zero := true, subtract := true, carry := regs.acc.f.carry } } := by
  have hpos := byteCount_pos regs.bank.b
  have hzero : regs.bank.b - UInt8.ofNat (byteCount regs.bank.b) = 0 := by
    rw [ofNat_byteCount, UInt8.sub_self]
  generalize byteCount regs.bank.b = count at *
  cases count with
  | zero => exact absurd hpos (Nat.lt_irrefl 0)
  | succ last =>
    have hone : regs.bank.b - UInt8.ofNat last = 1 := by
      rw [← byte_sub_succ] at hzero
      grind
    simp only [transferred, hzero, hone]
    rfl

end Registers

namespace BlockKind

/-- The passes of an input. -/
theorem passes_input (backwards : Bool) (s : BlockState δ) (count : Nat) :
    BlockKind.input.passes backwards s count
      = { regs := s.regs.transferred backwards count
          memory := s.memory.received backwards s.regs.hl
            (blockPort s.regs.bank.b s.regs.bank.c) count } := by
  let port := blockPort s.regs.bank.b s.regs.bank.c
  induction count with
  | zero =>
    rw [Registers.transferred_zero]
    rfl
  | succ count ih =>
    let before := s.memory.received backwards s.regs.hl port count
    let regs := s.regs.transferred backwards count
    let answer := Device.input before.device (port count)
    rw [passes, ih]
    show BlockState.mk (passed backwards regs answer.1 .input)
      (({ before with device := answer.2 } : Memory δ).write regs.hl answer.1).2 = _
    rw [Registers.passed_transferred, Registers.hl_transferred]
    rfl

/-- The passes of an output. -/
theorem passes_output (backwards : Bool) (s : BlockState δ) (count : Nat) :
    let value (i : Nat) := s.memory.byte (blockAddress backwards s.regs.hl i)
    let port := blockPort (s.regs.bank.b - 1) s.regs.bank.c
    BlockKind.output.passes backwards s count
      = { regs := s.regs.transferred backwards count
          memory :=
            { s.memory with
              device := Device.afterOutputs s.memory.device port value count } } := by
  intro value port
  induction count with
  | zero =>
    rw [Registers.transferred_zero]
    rfl
  | succ count ih =>
    let before := Device.afterOutputs s.memory.device port value count
    let regs := s.regs.transferred backwards count
    rw [passes, ih]
    show BlockState.mk (passed backwards regs (s.memory.byte regs.hl) .output)
      { s.memory with
        device := Device.output before (outputPort regs) (s.memory.byte regs.hl) } = _
    rw [Registers.outputPort_transferred]
    show BlockState.mk (passed backwards regs (s.memory.byte regs.hl) .input) _ = _
    rw [Registers.passed_transferred, Registers.hl_transferred]
    rfl

/-- What the pass of an input after `count` others accesses. -/
theorem accesses_input (backwards : Bool) (s : BlockState δ) (count : Nat) :
    let port := blockPort s.regs.bank.b s.regs.bank.c
    BlockKind.input.accesses (BlockKind.input.passes backwards s count)
      = [.input (port count), .write (blockAddress backwards s.regs.hl count)
          (Device.inputAt s.memory.device port count)] := by
  intro port
  let before := s.memory.received backwards s.regs.hl port count
  rw [passes_input]
  show [Access.input (port count), .write (s.regs.transferred backwards count).hl
    (Device.input before.device (port count)).1] = _
  rw [Registers.hl_transferred, Memory.device_received]
  rfl

/-- What the pass of an output after `count` others accesses. -/
theorem accesses_output (backwards : Bool) (s : BlockState δ) (count : Nat) :
    let address := blockAddress backwards s.regs.hl count
    BlockKind.output.accesses (BlockKind.output.passes backwards s count)
      = [.read address, .output (blockPort (s.regs.bank.b - 1) s.regs.bank.c count)
          (s.memory.byte address)] := by
  intro address
  let regs := s.regs.transferred backwards count
  rw [passes_output]
  show [Access.read regs.hl, .output (outputPort regs) (s.memory.byte regs.hl)] = _
  rw [Registers.hl_transferred, Registers.outputPort_transferred]

end BlockKind

namespace Cpu

variable {cpu : Cpu} {m : Memory δ} {backwards : Bool}

/-- The processor once a block of as many bytes as B stands for has been transferred: HL has moved
past the block, B is zero, Z and N are set, C is as it was, and the other flags are clear. -/
def transferred (cpu : Cpu) (backwards : Bool) : Cpu :=
  let regs := cpu.regs
  { cpu.begin with
    regs :=
      { regs.writePair .hl (blockAddress backwards regs.hl (byteCount regs.bank.b)) with
        bank.b := 0
        acc.f := { zero := true, subtract := true, carry := regs.acc.f.carry }
        pc := regs.pc + 2 } }

theorem atBlock_input (hm : m.size = addressSpace)
    (hat : BlockKind.input.StandsAt backwards m cpu.regs.pc)
    (hspares : ∀ i, i + 1 < byteCount cpu.regs.bank.b →
      blockAddress backwards cpu.regs.hl i ≠ cpu.regs.pc ∧
        blockAddress backwards cpu.regs.hl i ≠ cpu.regs.pc + 1) :
    cpu.AtBlock m .input backwards (byteCount cpu.regs.bank.b) := by
  refine ⟨hm, hat, fun i hi address ha => ?_, byteCount_pos _, fun i hi => ?_⟩
  · rw [BlockKind.passes_input] at ha
    have htarget : (cpu.regs.transferred backwards i).hl = address := Option.some.inj ha
    rw [Registers.hl_transferred] at htarget
    exact htarget ▸ hspares i hi
  · rw [passes, BlockKind.passes_input]
    exact countsDown_byte hi

theorem atBlock_output (hm : m.size = addressSpace)
    (hat : BlockKind.output.StandsAt backwards m cpu.regs.pc) :
    cpu.AtBlock m .output backwards (byteCount cpu.regs.bank.b) := by
  refine ⟨hm, hat, fun i hi address ha => absurd ha (Option.some_ne_none address).symm,
    byteCount_pos _, fun i hi => ?_⟩
  rw [passes, BlockKind.passes_output]
  exact countsDown_byte hi

/-- **INIR, INDR, OTIR and OTDR transfer each byte once, and in order.** Let the instruction stand
in memory of full size; for an input, let none of the addresses but the last be one of its own two
bytes. It takes as many steps as B stands for. Besides its own two bytes, each step accesses the
port once and memory once, and the addresses and the ports follow one another. After an input,
memory holds what the device has given, and after an output it is as it was. -/
theorem stepped_transfer (hm : m.size = addressSpace) :
    let regs := cpu.regs
    let count := byteCount regs.bank.b
    let address := blockAddress backwards regs.hl
    let after := cpu.stepped m count
    (BlockKind.input.StandsAt backwards m regs.pc →
      (∀ i, i + 1 < count → address i ≠ regs.pc ∧ address i ≠ regs.pc + 1) →
      let port := blockPort regs.bank.b regs.bank.c
      let value := Device.inputAt m.device port
      cpu.RepeatsFor m count ∧
      (∀ i < count, (cpu.stepped m i).nextAccesses
        = Access.reads 2 regs.pc ++ [.input (port i), .write (address i) (value i)]) ∧
      after.cpu = cpu.transferred backwards ∧
      (∀ i < count, after.bus.byte (address i) = value i) ∧
      (∀ other, (∀ i < count, other ≠ address i) → after.bus.byte other = m.byte other) ∧
      after.bus.device = Device.afterInputs m.device port count) ∧
    (BlockKind.output.StandsAt backwards m regs.pc →
      let port := blockPort (regs.bank.b - 1) regs.bank.c
      let value (i : Nat) := m.byte (address i)
      cpu.RepeatsFor m count ∧
      (∀ i < count, (cpu.stepped m i).nextAccesses
        = Access.reads 2 regs.pc ++ [.read (address i), .output (port i) (value i)]) ∧
      after.cpu = cpu.transferred backwards ∧
      after.bus = { m with device := Device.afterOutputs m.device port value count }) := by
  intro regs count address after
  refine ⟨fun hat hspares => ?_, fun hat => ?_⟩
  · intro port value
    have hpasses : cpu.passes m .input backwards count
        = { regs := regs.transferred backwards count
            memory := m.received backwards regs.hl port count } :=
      BlockKind.passes_input backwards { regs, memory := m } count
    have hcount : count ≤ addressSpace := Nat.le_trans (byteCount_le _) (by decide)
    obtain ⟨hrepeats, haccesses, hcpu, hbus⟩ := (atBlock_input hm hat hspares).runs
    rw [hpasses] at hbus
    rw [hpasses, Registers.transferred_byteCount] at hcpu
    refine ⟨hrepeats, fun i hi => ?_, hcpu, fun i hi => ?_, fun other hother => ?_, ?_⟩
    · rw [haccesses i hi, passes, BlockKind.accesses_input]
    · rw [hbus]
      exact Memory.byte_received hm hcount hi
    · rw [hbus]
      exact Memory.byte_received_of_ne hm hother
    · rw [hbus]
      exact Memory.device_received _
  · intro port value
    have hpasses : cpu.passes m .output backwards count
        = { regs := regs.transferred backwards count
            memory := { m with device := Device.afterOutputs m.device port value count } } :=
      BlockKind.passes_output backwards { regs, memory := m } count
    obtain ⟨hrepeats, haccesses, hcpu, hbus⟩ := (atBlock_output hm hat).runs
    rw [hpasses] at hbus
    rw [hpasses, Registers.transferred_byteCount] at hcpu
    refine ⟨hrepeats, fun i hi => ?_, hcpu, hbus⟩
    rw [haccesses i hi, passes, BlockKind.accesses_output]

/-- INIR takes two bytes from a port, and OTDR sends two with B above the port as it counts down. -/
theorem stepped_transfer_latched :
    let ports : LatchedPorts := ({} : LatchedPorts).setInput 0x10 0x34
    let cpu : Cpu := { regs := { pc := 0x4000, bank := { b := 2, c := 0x10, h := 0x80 } } }
    let m : Memory LatchedPorts := .holding ports [(0x4000, 0xED), (0x4001, 0xB2)]
    let m' : Memory LatchedPorts :=
      .holding ports [(0x4000, 0xED), (0x4001, 0xBB), (0x8000, 0x56), (0x7FFF, 0x57)]
    (m.size = addressSpace ∧ BlockKind.input.StandsAt false m cpu.regs.pc ∧
      cpu.RepeatsFor m 2 ∧ (cpu.stepped m 2).bus.byte 0x8001 = 0x34) ∧
    m'.size = addressSpace ∧ BlockKind.output.StandsAt true m' cpu.regs.pc ∧
      cpu.RepeatsFor m' 2 ∧
      (cpu.stepped m' 2).bus.device.outputs = #[(0x0110, 0x56), (0x0010, 0x57)] := by
  intro ports cpu m m'
  have hm : m.size = addressSpace := Memory.size_holding ..
  have hm' : m'.size = addressSpace := Memory.size_holding ..
  have hat : BlockKind.input.StandsAt false m cpu.regs.pc :=
    ⟨Memory.byte_holding .., (Memory.byte_holding ..).trans (by decide)⟩
  have hat' : BlockKind.output.StandsAt true m' cpu.regs.pc :=
    ⟨Memory.byte_holding .., (Memory.byte_holding ..).trans (by decide)⟩
  have hspares : ∀ i, i + 1 < 2 → blockAddress false cpu.regs.hl i ≠ cpu.regs.pc ∧
      blockAddress false cpu.regs.hl i ≠ cpu.regs.pc + 1 := by
    intro i hi
    obtain rfl : i = 0 := by omega
    decide
  obtain ⟨hrepeats, -, -, hbyte, -⟩ := (stepped_transfer hm).1 hat hspares
  obtain ⟨hrepeats', -, -, hbus⟩ := (stepped_transfer hm').2 hat'
  refine ⟨⟨hm, hat, hrepeats, ?_⟩, hm', hat', hrepeats', ?_⟩
  · refine (hbyte 1 (by decide)).trans ?_
    rw [Memory.device_holding]
    show ports.latch (blockPort 2 0x10 1) = 0x34
    rw [show blockPort 2 0x10 1 = 0x0110 by decide]
    simp [ports, LatchedPorts.latch, LatchedPorts.setInput]
  · let address := blockAddress true cpu.regs.hl
    have hfirst : m'.byte (address 0) = 0x56 := (Memory.byte_holding ..).trans (by decide)
    have hsecond : m'.byte (address 1) = 0x57 := (Memory.byte_holding ..).trans (by decide)
    have hcount : byteCount cpu.regs.bank.b = 2 := by decide
    rw [hcount] at hbus
    rw [hbus, Memory.device_holding]
    let port := blockPort (cpu.regs.bank.b - 1) cpu.regs.bank.c
    show #[(port 0, m'.byte (address 0)), (port 1, m'.byte (address 1))] = _
    rw [hfirst, hsecond]
    decide

end Cpu

end Z80
