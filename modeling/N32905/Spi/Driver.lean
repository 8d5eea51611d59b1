import N32905.Lib.Loop
import N32905.Lib.NorFlash

/-!
# The SPI flash functions

The functions of `spi.c` over the bus of `/dev/spi0`, with the flash at its end.
`SPI_IOC_TRANSIT` shifts the low `bit_len` bits of `write_data` out, high bit
first, and leaves what comes back in `read_data`. Everything on the bus is
recorded, with the chip at work or not.

A buffer is the memory its pointer leads to, and a 16-bit word in it has its low
byte first. `none` stands for a busy loop without an end.
-/

namespace N32905.Spi

open N32905.Lib

/-! ## The bus -/

structure SpiData where
  writeData : BitVec 32
  readData : BitVec 32
  bitLen : Nat

/-- What happens on the bus, and whether the chip is at work then. -/
inductive BusEvent where
  | select (busy : Bool)
  | byte (b : Byte) (busy : Bool)
  | deselect (busy : Bool)
  deriving DecidableEq

/-- The flash, `gdata` and the events on the bus so far. -/
structure Bus where
  dev : Nor
  gdata : SpiData
  bus : List BusEvent

def spiSelectCS0 (s : Bus) : Bus :=
  { s with dev := s.dev.select, bus := s.bus ++ [.select s.dev.working] }

def spiDeselectCS0 (s : Bus) : Bus :=
  { s with dev := s.dev.deselect, bus := s.bus ++ [.deselect s.dev.working] }

def transferByte (b : Byte) (s : Bus) : Byte × Bus :=
  ((s.dev.receive b).1,
    { s with dev := (s.dev.receive b).2, bus := s.bus ++ [.byte b s.dev.working] })

def transferBytes : List Byte → Bus → List Byte × Bus
  | [], s => ([], s)
  | b :: bs, s =>
    let r := transferByte b s
    let rs := transferBytes bs r.2
    (r.1 :: rs.1, rs.2)

/-- The low `bitLen` bits of a word as the bytes on the bus. -/
def shiftOut (bitLen : Nat) (w : BitVec 32) : List Byte := (leBytes (bitLen / 8) w.toNat).reverse

def shiftIn (bs : List Byte) : BitVec 32 := BitVec.ofNat 32 (leVal bs.reverse)

def spiDoTransit (s : Bus) : Bus :=
  let r := transferBytes (shiftOut s.gdata.bitLen s.gdata.writeData) s
  { r.2 with gdata := { s.gdata with readData := shiftIn r.1 } }

def spiSetData (x : BitVec 32) (s : Bus) : Bus := { s with gdata := { s.gdata with writeData := x } }

def spiSetBitLen (n : Nat) (s : Bus) : Bus := { s with gdata := { s.gdata with bitLen := n } }

def spiGetData (s : Bus) : BitVec 32 := s.gdata.readData

/-- `SpiSetData(x); SpiSetBitLen(n); SpiDoTransit();` -/
def transit (x : BitVec 32) (n : Nat) (s : Bus) : Bus :=
  spiDoTransit (spiSetBitLen n (spiSetData x s))

/-! ## The functions -/

def swap16 (val : BitVec 16) : BitVec 16 := (val <<< 8) ||| (val >>> 8)

def pollStep (s : Bus) : Step Bus Bus :=
  let s := transit 0xFF 8 s
  if spiGetData s &&& 0xFF &&& 0x01 ≠ 0x01 then .done s else .next s

/-- The loop needs a pass for each byte the chip is still at work, and one more. -/
def spiCheckBusy (s : Bus) : Option Bus := do
  let s := spiSelectCS0 s
  let s := transit 0x05 8 s
  let s ← iterate pollStep (s.dev.busy + 1) s
  return spiDeselectCS0 s

def readData : Nat → Bus → List Byte × Bus
  | 0, s => ([], s)
  | n + 1, s =>
    let s := transit 0xFF 8 s
    let b := (spiGetData s &&& 0xFF).setWidth 8
    let r := readData n s
    (b :: r.1, r.2)

def spiRead (addr len : BitVec 32) (s : Bus) : Option (List Byte × Bus) := do
  let s ← spiCheckBusy s
  let s := spiSelectCS0 s
  let s := transit 0x03 8 s
  let s := transit addr 24 s
  let r := readData len.toNat s
  return (r.1, spiDeselectCS0 r.2)

def spiReadFast (addr len : BitVec 32) (s : Bus) : Option (List Byte × Bus) := do
  let s ← spiCheckBusy s
  let s := spiSelectCS0 s
  let s := transit 0x0B 8 s
  let s := transit addr 24 s
  -- dummy byte
  let s := transit 0xFF 8 s
  let r := readData len.toNat s
  return (r.1, spiDeselectCS0 r.2)

def spiWriteEnable (s : Bus) : Bus := spiDeselectCS0 (transit 0x06 8 (spiSelectCS0 s))

def spiWriteDisable (s : Bus) : Bus := spiDeselectCS0 (transit 0x04 8 (spiSelectCS0 s))

/-- The `k`-th `unsigned short` of a buffer. -/
def bufWord (buf : Nat → Byte) (k : Nat) : BitVec 16 := buf (2 * k + 1) ++ buf (2 * k)

/-- `page` words from the `k`-th on. -/
def writeData (buf : Nat → Byte) : Nat → Nat → Bus → Bus
  | 0, _, s => s
  | page + 1, k, s =>
    writeData buf page (k + 1) (transit ((swap16 (bufWord buf k)).setWidth 32) 16 s)

/-- The loop of `spiWrite`: `n` more passes from pass `i`, with `len` bytes left
and `buf` at its `k`-th word. -/
def writePages (addr : BitVec 32) (buf : Nat → Byte) : Nat → Nat → Nat → Nat → Bus → Option Bus
  | 0, _, _, _, s => some s
  | n + 1, i, len, k, s => do
    let page := if len ≥ 256 then 128 else len / 2
    let len := if len ≥ 256 then len - 256 else len
    let s := spiWriteEnable s
    let s := spiSelectCS0 s
    let s := transit 0x02 8 s
    let s := transit (addr + BitVec.ofNat 32 i * 256) 24 s
    let s := writeData buf page k s
    let s := spiDeselectCS0 s
    let s ← spiCheckBusy s
    writePages addr buf n (i + 1) len (k + page) s

def spiWrite (addr len : BitVec 32) (buf : Nat → Byte) (s : Bus) : Option Bus := do
  let s ← spiCheckBusy s
  let count := len.toNat / 256
  let count := if len.toNat % 256 ≠ 0 then count + 1 else count
  writePages addr buf count 0 len.toNat 0 s

/-- The loop of `spiEraseSector`: `n` more passes from pass `i`. -/
def eraseSectors (addr : BitVec 32) : Nat → Nat → Bus → Option Bus
  | 0, _, s => some s
  | n + 1, i, s => do
    let s := spiWriteEnable s
    let s := spiSelectCS0 s
    let s := transit 0xD8 8 s
    let s := transit (addr + BitVec.ofNat 32 i * 256) 24 s
    let s := spiDeselectCS0 s
    let s ← spiCheckBusy s
    eraseSectors addr n (i + 1) s

def spiEraseSector (addr secCount : BitVec 32) (s : Bus) : Option Bus := do
  let s ← spiCheckBusy s
  eraseSectors addr secCount.toNat 0 s

def spiEraseAll (s : Bus) : Option Bus := do
  let s := spiWriteEnable s
  let s := spiDeselectCS0 (transit 0xC7 8 (spiSelectCS0 s))
  spiCheckBusy s

def spiReadID (s : Bus) : BitVec 16 × Bus :=
  let s := spiSelectCS0 s
  let s := transit 0x90 8 s
  let s := transit 0x000000 24 s
  let s := transit 0xFFFF 16 s
  ((spiGetData s &&& 0xFFFF).setWidth 16, spiDeselectCS0 s)

def spiStatusRead (s : Bus) : Byte × Bus :=
  let s := spiSelectCS0 s
  let s := transit 0x05 8 s
  let s := transit 0xFF 8 s
  ((spiGetData s &&& 0xFF).setWidth 8, spiDeselectCS0 s)

def spiStatusWrite (data : Byte) (s : Bus) : Option Bus := do
  let s := spiWriteEnable s
  let s := spiSelectCS0 s
  let s := transit 0x01 8 s
  let s := transit (data.setWidth 32) 8 s
  let s := spiDeselectCS0 s
  spiCheckBusy s

end N32905.Spi
