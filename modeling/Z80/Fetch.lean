import Z80.Action
import Z80.Opcode

/-!
# Fetching an opcode

An instruction starts with any number of index prefixes. Each replaces the one before it; one that
is replaced, or that stands before a byte for which no index matters, has no effect but its own four
cycles, and the manual lists none of those. `fetchOpcode` reads up to the byte that selects the
instruction and counts the prefixes without effect.

A chain of prefixes as long as the address space has come back to its own beginning, so reading is
given up there. Over a memory that is exact, for reading does not change it and the chain has no
end. A bus may answer the same address with another byte the second time, and so end such a chain
with an opcode after all, which a processor would read on to.
-/

namespace Z80.Opcode

/-- The byte that announces IX. -/
def ixPrefix : Byte := 0xDD

/-- The byte that announces IY. -/
def iyPrefix : Byte := 0xFD

/-- The byte that leads to the bit operations. -/
def bitsPrefix : Byte := 0xCB

/-- The byte that leads to the extensions. -/
def extendedPrefix : Byte := 0xED

/-- The opcode that starts with `byte`, after an index prefix if `index` is not HL and after
`ignored` prefixes without effect. At most `budget` bytes are tried as prefixes; where all of them
are prefixes the fault is `endlessPrefixes`. A budget of `addressSpace` is exact over a `Memory`.
Over a bus that answers with as many prefixes and then with an opcode, a processor, which has no
budget, would go on to that opcode. Lemmas about `select` leave the budget open. -/
def select (budget ignored : Nat) (index : Index) (byte : Byte) : Action (Nat × Opcode) :=
  match budget with
  | 0 => do Action.fail (.endlessPrefixes (← get).start)
  | budget + 1 => do
    let isIgnored := index != .hl && !usesIndex byte
    if isIgnored then Action.requireUndocumented
    let ignored := if isIgnored then ignored + 1 else ignored
    let index := if isIgnored then .hl else index
    if byte = ixPrefix then
      select budget ignored .ix (← Action.fetch)
    else if byte = iyPrefix then
      select budget ignored .iy (← Action.fetch)
    else if byte = extendedPrefix then
      return (ignored, .extended (← Action.fetch))
    else if byte = bitsPrefix then
      match index with
      | .hl => return (ignored, .bits (← Action.fetch))
      | _ =>
        let displacement ← Action.fetch
        return (ignored, .indexedBits index displacement (← Action.fetch))
    else
      return (ignored, .main index byte)

end Z80.Opcode

namespace Z80.Action

/-- Reads an opcode, with the number of prefixes before it that have no effect. -/
def fetchOpcode : Action (Nat × Opcode) := do
  Opcode.select addressSpace 0 .hl (← fetch)

end Z80.Action
