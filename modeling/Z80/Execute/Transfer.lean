import Z80.Action
import Z80.Instruction

/-!
# Transfers of control

Jumps, calls and returns. The target is always fetched, whether the condition holds or not. Each
conditional form returns whether it was taken, which is what its clock cycles depend on.
-/

namespace Z80.Action

/-- Whether a condition holds now; the absent condition always does. -/
def test (condition : Option Condition) : Action Bool := do
  let f ← flags
  return condition.all (·.holds f)

/-- JP. -/
def jump (condition : Option Condition) : Action Bool := do
  let target ← fetchWord
  let taken ← test condition
  if taken then jumpTo target
  return taken

/-- Fetches the displacement of a relative jump, which counts from the byte after it, and jumps if
`taken`. -/
def jumpBy (taken : Bool) : Action Bool := do
  let displacement ← fetch
  if taken then jumpTo (displaced (← registers).pc displacement)
  return taken

/-- JR. -/
def jumpRelative (condition : Option Condition) : Action Bool := do
  jumpBy (← test condition)

/-- DJNZ: B is decremented before the displacement is fetched; the flags are kept. -/
def decrementAndJump : Action Bool := do
  modifyRegisters fun regs => { regs with bank.b := regs.bank.b - 1 }
  jumpBy ((← registers).bank.b != 0)

/-- CALL: the address of the byte after it is pushed. -/
def call (condition : Option Condition) : Action Bool := do
  let target ← fetchWord
  let taken ← test condition
  if taken then
    push (← registers).pc
    jumpTo target
  return taken

/-- RET. -/
def ret : Action Unit := do
  jumpTo (← pop)

/-- RET cc. -/
def retIf (condition : Condition) : Action Bool := do
  let taken ← test (some condition)
  if taken then ret
  return taken

/-- RETN and RETI, which enable interrupts again if they were enabled when the handler was
entered. -/
def retInterrupt : Action Unit := do
  ret
  modify fun cpu => { cpu with iff1 := cpu.iff2 }

/-- RST: a call of a fixed address. -/
def restart (target : Word) : Action Unit := do
  push (← registers).pc
  jumpTo target

end Z80.Action
