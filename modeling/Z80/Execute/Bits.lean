import Z80.Alu.Logic
import Z80.Operand

/-!
# Bit operations

Shifts, tests, and single bits cleared or set, on a register or on memory. A test only sets flags;
the others write their operand back. An indexed operation can also copy what it wrote to a register.

The shift that moves a one in is the one operation refused for what it is only after its operand
has been read.
-/

namespace Z80.Action

/-- What an operation makes of a byte. The flags are set here; no byte comes back from a test. -/
def transform : BitOperation → Byte → Action (Option Byte)
  | .shift kind, v => do
    if kind = .sll then requireUndocumented
    let out := Alu.shift kind v (← flags)
    setFlags out.flags
    return some out.value
  | .test bit, v => do
    setFlags (Alu.testBit bit v (← flags))
    return none
  | .reset bit, v => return some (Alu.clearBit bit v)
  | .set bit, v => return some (Alu.setBit bit v)

/-- A bit operation on a register or on memory at HL. -/
def bits (op : BitOperation) (place : Place) : Action Unit := do
  let operand ← locate place
  let v ← load operand
  if let some result ← transform op v then
    store operand result

/-- A bit operation on indexed memory, with a copy to a register if one is named. -/
def indexedBits (op : BitOperation) (index : Index) (displacement : Byte)
    (copy : Option Register) : Action Unit := do
  let address := (← registers).addressFrom index.pair displacement
  let v ← readByte address
  if let some result ← transform op v then
    writeByte address result
    if let some name := copy then
      store (.register name) result

end Z80.Action
