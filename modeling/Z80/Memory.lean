import Z80.Bus

/-!
# Memory with a device

A flat memory of a fixed number of bytes, with a device behind the ports. An address at or past
the end is refused and nothing happens; every other access is plain: a read sees the last byte
written (`read_write_self`), and ports always answer.
-/

namespace Z80

/-- Memory and the device wired next to it. -/
structure Memory (δ : Type) where
  bytes : Array Byte
  device : δ

namespace Memory

variable {δ : Type}

/-- Memory of `size` zero bytes. -/
def zeroed (size : Nat) (device : δ) : Memory δ :=
  { bytes := Array.replicate size 0, device }

/-- The number of bytes. -/
def size (m : Memory δ) : Nat :=
  m.bytes.size

/-- The fault of an address that lies outside; which instruction asked is not known here. -/
def outside (m : Memory δ) (address : Word) : Fault :=
  .outOfRange 0 address m.size

/-- The byte at an address. -/
def read (m : Memory δ) (address : Word) : Except Fault Byte :=
  if h : address.toNat < m.bytes.size then .ok m.bytes[address.toNat]
  else .error (m.outside address)

/-- Stores a byte; outside the memory nothing changes. -/
def write (m : Memory δ) (address : Word) (value : Byte) : Except Fault Unit × Memory δ :=
  if h : address.toNat < m.bytes.size then
    (.ok (), { m with bytes := m.bytes.set address.toNat value h })
  else (.error (m.outside address), m)

/-- Copies a block of bytes to `start` and up. -/
def load (m : Memory δ) (start : Word) (block : Array Byte) : Except Fault (Memory δ) :=
  let stop := start.toNat + block.size
  if m.size < stop then .error (.setup (.blockTooLong block.size start m.size))
  else
    .ok
      { m with
        bytes := m.bytes.extract 0 start.toNat ++ block ++ m.bytes.extract stop m.bytes.size }

instance [Device δ] : Bus (Memory δ) where
  read m address := (m.read address, m)
  write := write
  input m port :=
    let (value, device) := Device.input m.device port
    (.ok value, { m with device })
  output m port value := (.ok (), { m with device := Device.output m.device port value })

/-! ## What was written is read -/

/-- A write leaves the size of the memory, whether or not it is refused. -/
@[simp]
theorem size_write (m : Memory δ) (address : Word) (value : Byte) :
    (m.write address value).2.size = m.size := by
  unfold write size
  split
  · simp
  · rfl

/-- A byte that lies inside is read as it was written. -/
theorem read_write_self (m : Memory δ) {address : Word} (value : Byte)
    (h : address.toNat < m.size) : (m.write address value).2.read address = .ok value := by
  have h' : address.toNat < m.bytes.size := h
  simp [write, read, h']

/-- A write leaves every other address. -/
theorem read_write_of_ne (m : Memory δ) {address other : Word} (value : Byte)
    (h : other ≠ address) : (m.write address value).2.read other = m.read other := by
  have hn : address.toNat ≠ other.toNat := fun e => h (UInt16.toNat_inj.1 e).symm
  unfold write
  split
  · simp [read, outside, size, Array.getElem_set, hn]
  · rfl

end Memory

end Z80
