import Z80.Alu.Logic
import Z80.Operand

/-!
# Loads, exchanges and ports

Instructions that move a byte or a word and compute nothing. Those with an address or a port in
the instruction fetch it first. Only the loads from I and R and the inputs to a named register set
flags.
-/

namespace Z80.Action

/-! ## Bytes -/

/-- LD between two operands; both are found before the byte moves. -/
def move (target source : Place) : Action Unit := do
  let target ← locate target
  let source ← locate source
  store target (← load source)

/-- LD of an immediate byte, which comes after the displacement of an indexed operand. -/
def moveImmediate (target : Place) : Action Unit := do
  let target ← locate target
  store target (← fetch)

/-- Replaces the accumulator and keeps the flags. -/
def setA (v : Byte) : Action Unit :=
  store (.register .a) v

/-- Loads the accumulator from memory. -/
def loadAFrom (address : Word) : Action Unit := do
  setA (← readByte address)

/-- Stores the accumulator in memory. -/
def storeATo (address : Word) : Action Unit := do
  writeByte address (← registers).acc.a

/-- LD A,I and LD A,R: P/V shows IFF2. -/
def loadSpecial (source : Register) : Action Unit := do
  let cpu ← get
  let v := cpu.regs.read source
  setAccumulator { value := v, flags := Alu.specialFlags v cpu.iff2 cpu.regs.acc.f }

/-! ## Words -/

/-- LD of an immediate word. -/
def movePairImmediate (target : Pair) : Action Unit := do
  writePair target (← fetchWord)

/-- LD of a pair from the address in the instruction. -/
def loadPair (target : Pair) : Action Unit := do
  writePair target (← readWord (← fetchWord))

/-- LD of a pair to the address in the instruction. -/
def storePair (source : Pair) : Action Unit := do
  let address ← fetchWord
  writeWord address (← readPair source)

/-- Copies a pair to another. -/
def copyPair (target source : Pair) : Action Unit := do
  writePair target (← readPair source)

/-- EX DE,HL. -/
def exchangeDeHl : Action Unit := do
  let regs ← registers
  writePair .de regs.hl
  writePair .hl regs.de

/-- EX of a pair with the word on top of the stack; the pair changes last. -/
def exchangeStackTop (name : Pair) : Action Unit := do
  let sp := (← registers).sp
  let top ← readWord sp
  writeWord sp (← readPair name)
  writePair name top

/-! ## Ports -/

/-- The port of the forms with the port number in the instruction: the accumulator is the high
byte of its address. -/
def immediatePort : Action Word := do
  let low ← fetch
  return wordOf (← registers).acc.a low

/-- IN A,(n); the flags are kept. -/
def inputImmediate : Action Unit := do
  setA (← inputByte (← immediatePort))

/-- OUT (n),A. -/
def outputImmediate : Action Unit := do
  let port ← immediatePort
  outputByte port (← registers).acc.a

/-- IN r,(C), or the flags of it alone. -/
def inputTo (target : Option Register) : Action Unit := do
  let v ← inputByte (← registers).bc
  if let some name := target then
    store (.register name) v
  setFlags (Alu.portFlags v (← flags))

/-- OUT (C),r, or OUT (C),0. -/
def outputFrom (source : Option Register) : Action Unit := do
  let regs ← registers
  outputByte regs.bc ((source.map regs.read).getD 0)

end Z80.Action
