import Z80.Alu.Shift
import Z80.Execute.Arithmetic
import Z80.Execute.Bits
import Z80.Execute.Block
import Z80.Execute.Move
import Z80.Execute.Transfer

/-!
# What each instruction does

`execute` gives every instruction its meaning as an action. The instruction's opcode has been
fetched; what else belongs to it is fetched here. The answer is whether a conditional transfer or a
repetition was taken; instructions without the choice answer that it was not.
-/

namespace Z80.Action

/-- Stops the processor: the program counter goes back to the HALT, which runs again until an
interrupt. -/
def halt : Action Unit := do
  modify fun cpu => { cpu with halted := true }
  modifyRegisters fun regs => { regs with pc := regs.pc - 1 }

/-- EI: interrupts are enabled from the end of the next instruction on. -/
def enableInterrupts : Action Unit :=
  modify fun cpu => { cpu with iff1 := true, iff2 := true, eiShadow := true }

/-- DI. -/
def disableInterrupts : Action Unit :=
  modify fun cpu => { cpu with iff1 := false, iff2 := false }

/-- An action without a choice: nothing was taken. -/
def always (action : Action Unit) : Action Bool := do
  action
  return false

/-- Runs an instruction; whether its transfer or repetition was taken is returned. -/
def execute : Instruction → Action Bool
  | .nop | .nothing => return false
  | .halt => always halt
  | .disableInterrupts => always disableInterrupts
  | .enableInterrupts => always enableInterrupts
  | .setMode mode => always (modify fun cpu => { cpu with mode })
  | .load target source => always (move target source)
  | .loadImmediate target => always (moveImmediate target)
  | .loadAccumulatorFrom pointer => always do loadAFrom (← readPair pointer)
  | .storeAccumulatorTo pointer => always do storeATo (← readPair pointer)
  | .loadAccumulator => always do loadAFrom (← fetchWord)
  | .storeAccumulator => always do storeATo (← fetchWord)
  | .loadSpecial source => always (loadSpecial source)
  | .storeSpecial target => always (move (.register target) (.register .a))
  | .loadPairImmediate target => always (movePairImmediate target)
  | .loadIndex target => always (loadPair target.pair)
  | .storeIndex source => always (storePair source.pair)
  | .loadPair target => always (loadPair target)
  | .storePair source => always (storePair source)
  | .loadStackPointer source => always (copyPair .sp source.pair)
  | .push source => always do push (← readPair source)
  | .pop target => always do writePair target (← pop)
  | .exchangeAccumulator => always (modifyRegisters Registers.exchangeAccumulator)
  | .exchangeBank => always (modifyRegisters Registers.exchangeBank)
  | .exchangeDeHl => always exchangeDeHl
  | .exchangeStackTop index => always (exchangeStackTop index.pair)
  | .operate op operand => always do operate op (← load (← locate operand))
  | .operateImmediate op => always do operate op (← fetch)
  | .increment operand => always (stepByte Alu.incByte operand)
  | .decrement operand => always (stepByte Alu.decByte operand)
  | .decimalAdjust => always (accumulator Alu.decimalAdjust)
  | .complement => always (accumulator Alu.complement)
  | .negate => always (accumulator fun a _ => Alu.negate a)
  | .setCarry => always do setFlags (Alu.setCarry (← flags))
  | .flipCarry => always do setFlags (Alu.flipCarry (← flags))
  | .shiftAccumulator kind => always (accumulator (Alu.shiftAccumulator kind))
  | .rotateDigitLeft => always (rotateDigit Alu.rotateDigitLeft)
  | .rotateDigitRight => always (rotateDigit Alu.rotateDigitRight)
  | .addPair target source => always (addPair target source)
  | .addPairCarry source => always (combinePair Alu.addWordCarry source)
  | .subPairCarry source => always (combinePair Alu.subWordCarry source)
  | .incrementPair target => always do writePair target ((← readPair target) + 1)
  | .decrementPair target => always do writePair target ((← readPair target) - 1)
  | .bits op operand => always (bits op operand)
  | .indexedBits op index displacement copy => always (indexedBits op index displacement copy)
  | .jump condition => jump condition
  | .jumpRelative condition => jumpRelative condition
  | .decrementAndJump => decrementAndJump
  | .jumpIndex target => always (copyPair .pc target.pair)
  | .call condition => call condition
  | .ret => always ret
  | .retIf condition => retIf condition
  | .retInterrupt => always retInterrupt
  | .restart target => always (restart target)
  | .input => always inputImmediate
  | .output => always outputImmediate
  | .inputTo target => always (inputTo target)
  | .outputFrom source => always (outputFrom source)
  | .block kind backwards repeats => block kind backwards repeats

end Z80.Action
