import Z80.Fault

/-!
# The two buses

The processor talks to the outside in four ways: it reads and writes memory at an address, and it
reads and writes ports. Anything that can answer these is a bus. Each access may be refused with a
fault, and may change the bus, refused or not. `Device` is the peripheral half alone: it always
answers.
-/

namespace Z80

/-- What the processor is wired to. -/
class Bus (β : Type) where
  /-- The byte in memory at an address. -/
  read : β → Word → Except Fault Byte × β
  /-- Stores a byte in memory. -/
  write : β → Word → Byte → Except Fault Unit × β
  /-- Takes a byte from a port. All sixteen bits of the port address are driven. -/
  input : β → Word → Except Fault Byte × β
  /-- Sends a byte to a port. -/
  output : β → Word → Byte → Except Fault Unit × β

/-- The peripherals behind the ports; each access is served at once. -/
class Device (δ : Type) where
  /-- Takes a byte from a port. -/
  input : δ → Word → Byte × δ
  /-- Sends a byte to a port. -/
  output : δ → Word → Byte → δ

/-! ## Latched ports -/

/-- A device with one input latch for each low byte of the port address, and a record of every byte
sent, in order, with the full port address. -/
structure LatchedPorts where
  latches : Vector Byte 256 := Vector.replicate 256 0
  outputs : Array (Word × Byte) := #[]
deriving DecidableEq

namespace LatchedPorts

/-- The latch that a port address selects. -/
def latch (ports : LatchedPorts) (port : Word) : Byte :=
  have : port.toNat % 256 < 256 := Nat.mod_lt _ (by decide)
  ports.latches[port.toNat % 256]

/-- Sets what later inputs from the ports with this low byte will take. -/
def setInput (ports : LatchedPorts) (port value : Byte) : LatchedPorts :=
  { ports with latches := ports.latches.set port.toNat value port.toNat_lt }

instance : Device LatchedPorts where
  input ports port := (ports.latch port, ports)
  output ports port value := { ports with outputs := ports.outputs.push (port, value) }

end LatchedPorts

end Z80
