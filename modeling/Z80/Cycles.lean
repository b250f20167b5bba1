import Z80.Instruction

/-!
# Clock cycles

The clock cycles of an instruction depend on what the opcode selects and on whether a jump, call,
return or repetition was taken, and on no value in a register or in memory. The variants of the
processor differ in one place only, INC and DEC of an unprefixed pair.

An index prefix adds four cycles, its fetch; an indexed operand adds twelve, for the prefix, the
displacement and the addition. In LD (IX+d),n the addition overlaps the fetch of the byte, which
leaves nine.
-/

namespace Z80.Instruction

/-- The cycles of a form with a byte operand, from those of the register form and of the memory
form: four more for half of an index register, twelve more for indexed memory. -/
def formCycles (operand : Place) (inRegister inMemory : Nat) : Nat :=
  match operand with
  | .register name => inRegister + if name.isIndexHalf then 4 else 0
  | .indirect .hl => inMemory
  | .indirect _ => inMemory + 12

/-- The operand of a load that decides its cycles: memory before half of an index register before
any other register. -/
def loadForm : Place → Place → Place
  | .indirect index, _ => .indirect index
  | _, .indirect index => .indirect index
  | target, source => if target.isIndexHalf then target else source

/-- The extra cycles of a pair named by an index prefix. -/
def pairExtra : Pair → Nat
  | .ix | .iy => 4
  | _ => 0

/-- The clock cycles of INC and DEC of a pair. -/
def pairStep (timing : Timing) : Pair → Nat
  | .ix | .iy => 10
  | _ => timing.pairStep

/-- The clock cycles of an instruction, given whether its jump, call, return or repetition was
taken. -/
def cycles (timing : Timing) (taken : Bool) : Instruction → Nat
  | .nop | .halt | .disableInterrupts | .enableInterrupts => 4
  | .setMode _ => 8
  | .load target source => formCycles (loadForm target source) 4 7
  | .loadImmediate (.register name) => formCycles (.register name) 7 10
  | .loadImmediate (.indirect .hl) => 10
  | .loadImmediate (.indirect _) => 19
  | .loadAccumulatorFrom _ | .storeAccumulatorTo _ => 7
  | .loadAccumulator | .storeAccumulator => 13
  | .loadSpecial _ | .storeSpecial _ => 9
  | .loadPairImmediate target => 10 + pairExtra target
  | .loadIndex index | .storeIndex index => 16 + index.extra
  | .loadPair _ | .storePair _ => 20
  | .loadStackPointer source => 6 + source.extra
  | .push source => 11 + pairExtra source
  | .pop target => 10 + pairExtra target
  | .exchangeAccumulator | .exchangeBank | .exchangeDeHl => 4
  | .exchangeStackTop index => 19 + index.extra
  | .operate _ operand => formCycles operand 4 7
  | .operateImmediate _ => 7
  | .increment operand | .decrement operand => formCycles operand 4 11
  | .decimalAdjust | .complement | .setCarry | .flipCarry | .shiftAccumulator _ => 4
  | .negate => 8
  | .rotateDigitLeft | .rotateDigitRight => 18
  | .addPair target _ => 11 + target.extra
  | .addPairCarry _ | .subPairCarry _ => 15
  | .incrementPair target | .decrementPair target => pairStep timing target
  | .bits (.test _) operand => formCycles operand 8 12
  | .bits _ operand => formCycles operand 8 15
  | .indexedBits (.test _) _ _ _ => 20
  | .indexedBits _ _ _ _ => 23
  | .jump _ => 10
  | .jumpRelative _ => if taken then 12 else 7
  | .decrementAndJump => if taken then 13 else 8
  | .jumpIndex target => 4 + target.extra
  | .call _ => if taken then 17 else 10
  | .ret => 10
  | .retIf _ => if taken then 11 else 5
  | .retInterrupt => 14
  | .restart _ => 11
  | .input | .output => 11
  | .inputTo _ | .outputFrom _ => 12
  | .block _ _ _ => if taken then 21 else 16
  | .nothing => 8

end Z80.Instruction
