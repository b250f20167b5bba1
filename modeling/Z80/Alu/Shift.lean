import Z80.Alu.Result

/-!
# Rotations and shifts

Each of the eight shifts moves a byte by one place and has one bit fall out, which becomes the
carry; they differ in what enters at the other end. In numbers, a shift to the left is `2 * v` plus
what enters, cut to a byte, and a shift to the right is `v / 2` plus 128 times what enters.

The two digit rotations move a hexadecimal digit instead of a bit, through the low digit of the
accumulator.
-/

namespace Z80.Alu

/-- The shifts, in the order of their opcode field. -/
inductive Shift
  /-- Left, bit 7 enters at the right. -/
  | rlc
  /-- Right, bit 0 enters at the left. -/
  | rrc
  /-- Left through the carry. -/
  | rl
  /-- Right through the carry. -/
  | rr
  /-- Left, zero enters. -/
  | sla
  /-- Right, the sign is kept. -/
  | sra
  /-- Left, one enters; the manual does not list it. -/
  | sll
  /-- Right, zero enters. -/
  | srl
deriving DecidableEq

namespace Shift

/-- The shift that a three-bit opcode field names. Only the low three bits of `field` count. -/
def ofField (field : Nat) : Shift :=
  match field % 8 with
  | 0 => .rlc
  | 1 => .rrc
  | 2 => .rl
  | 3 => .rr
  | 4 => .sla
  | 5 => .sra
  | 6 => .sll
  | _ => .srl

/-- Whether bits move towards bit 7. -/
def isLeft : Shift → Bool
  | .rlc | .rl | .sla | .sll => true
  | .rrc | .rr | .sra | .srl => false

/-- The bit that enters at the free end, given the byte and the carry before the shift. -/
def entering (s : Shift) (v : Byte) (carry : Bool) : Bool :=
  match s with
  | .rlc | .sra => isNegative v
  | .rrc => v.toNat % 2 == 1
  | .rl | .rr => carry
  | .sla | .srl => false
  | .sll => true

/-- The bit that falls out. -/
def leaving (s : Shift) (v : Byte) : Bool :=
  if s.isLeft then isNegative v else v.toNat % 2 == 1

/-- The shifted byte. -/
def apply (s : Shift) (v : Byte) (carry : Bool) : Byte :=
  if s.isLeft then UInt8.ofNat (2 * v.toNat + (s.entering v carry).toNat)
  else UInt8.ofNat (v.toNat / 2 + 128 * (s.entering v carry).toNat)

end Shift

/-- A shift with its flags: S, Z and parity of the result, C the bit that fell out. -/
def shift (s : Shift) (v : Byte) (prior : Flags) : Result :=
  let value := s.apply v prior.carry
  { value, flags := { signZeroParity value with carry := s.leaving v } }

/-- A shift of the accumulator in its one-byte form, which keeps S, Z and P/V. -/
def shiftAccumulator (s : Shift) (a : Byte) (prior : Flags) : Result :=
  { value := s.apply a prior.carry
    flags :=
      { sign := prior.sign
        zero := prior.zero
        parity := prior.parity
        carry := s.leaving a } }

/-! ## Digits -/

/-- The accumulator and a memory byte after their digits moved, and the flags of the former. -/
structure DigitResult where
  a : Byte
  memory : Byte
  flags : Flags
deriving DecidableEq

/-- The byte with hexadecimal digits `high` and `low`. -/
def ofDigits (high low : Nat) : Byte :=
  UInt8.ofNat (16 * high + low)

/-- Rotates the three digits `a.low, m.high, m.low` one place to the left: the low digit of `a`
enters `m` at the right and the digit leaving `m` at the left takes its place. -/
def rotateDigitLeft (a m : Byte) (prior : Flags) : DigitResult :=
  let value := ofDigits (a.toNat / 16) (m.toNat / 16)
  { a := value
    memory := ofDigits (m.toNat % 16) (a.toNat % 16)
    flags := { signZeroParity value with carry := prior.carry } }

/-- Rotates the three digits `a.low, m.high, m.low` one place to the right. -/
def rotateDigitRight (a m : Byte) (prior : Flags) : DigitResult :=
  let value := ofDigits (a.toNat / 16) (m.toNat % 16)
  { a := value
    memory := ofDigits (a.toNat % 16) (m.toNat / 16)
    flags := { signZeroParity value with carry := prior.carry } }

end Z80.Alu
