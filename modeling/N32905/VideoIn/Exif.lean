import N32905.Lib.CString
import N32905.Lib.Memory
import N32905.Lib.Tiff
import N32905.VideoIn.Dsc

/-!
# The EXIF header

`create_simple_EXIF` of `exif.c` writes its header into bytes that `JpegEnc.c` has
reserved in the bitstream. The offsets in the header count from the TIFF header, 6
bytes into the buffer.

The text of the date and its NUL are 21 bytes; the model stores them as `sprintf`
does, the last one behind `timeString[20]`.
-/

namespace N32905.VideoIn

open N32905.Lib

/-! ## Numbers -/

/-- The arrays `create_simple_EXIF` stores to. -/
inductive ExifArray
  | timeString | buffer
  deriving DecidableEq

abbrev ExifMem := Memory ExifArray

def put16u (MotorolaOrder : Bool) (m : ExifMem) (at_ : Nat) (PutValue : BitVec 16) : ExifMem :=
  if MotorolaOrder then
    m.store .buffer at_ [(PutValue >>> 8).setWidth 8, PutValue.setWidth 8]
  else
    m.store .buffer at_ [PutValue.setWidth 8, (PutValue >>> 8).setWidth 8]

def put32u (MotorolaOrder : Bool) (m : ExifMem) (at_ : Nat) (PutValue : BitVec 32) : ExifMem :=
  if MotorolaOrder then
    m.store .buffer at_ [(PutValue >>> 24).setWidth 8, (PutValue >>> 16).setWidth 8,
      (PutValue >>> 8).setWidth 8, PutValue.setWidth 8]
  else
    m.store .buffer at_ [PutValue.setWidth 8, (PutValue >>> 8).setWidth 8,
      (PutValue >>> 16).setWidth 8, (PutValue >>> 24).setWidth 8]

def get16u (MotorolaOrder : Bool) (m : ExifMem) (at_ : Nat) : BitVec 32 :=
  let b := fun i => ((m.load .buffer at_ 2).getD i 0).setWidth 32
  if MotorolaOrder then (b 0 <<< 8) ||| b 1 else (b 1 <<< 8) ||| b 0

def get32s (MotorolaOrder : Bool) (m : ExifMem) (at_ : Nat) : BitVec 32 :=
  let b := fun i => ((m.load .buffer at_ 4).getD i 0).setWidth 32
  if MotorolaOrder then (b 0 <<< 24) ||| (b 1 <<< 16) ||| (b 2 <<< 8) ||| b 3
  else (b 3 <<< 24) ||| (b 2 <<< 16) ||| (b 1 <<< 8) ||| b 0

def get32u (MotorolaOrder : Bool) (m : ExifMem) (at_ : Nat) : BitVec 32 :=
  get32s MotorolaOrder m at_ &&& 0xffffffff

/-! ## The header -/

def TAG_DATETIME : BitVec 16 := 0x0132
def TAG_THUMBNAIL_OFFSET : BitVec 16 := 0x0201
def TAG_THUMBNAIL_LENGTH : BitVec 16 := 0x0202
def TAG_EXIF_OFFSET : BitVec 16 := 0x8769
def TAG_DATETIME_ORIGINAL : BitVec 16 := 0x9003

def FMT_STRING : BitVec 16 := 0x0002
def FMT_ULONG : BitVec 16 := 0x0004

/-- A `struct tm` as `localtime` fills it, in a year with four digits. -/
structure LocalTime where
  tm_year : Int
  tm_mon : Nat
  tm_mday : Nat
  tm_hour : Nat
  tm_min : Nat
  tm_sec : Nat
  year_ge : 1000 ≤ 1900 + tm_year
  year_le : 1900 + tm_year ≤ 9999
  mon_le : tm_mon ≤ 11
  mday_pos : 1 ≤ tm_mday
  mday_le : tm_mday ≤ 31
  hour_le : tm_hour ≤ 23
  min_le : tm_min ≤ 59
  sec_le : tm_sec ≤ 61

def charBytes (s : List Char) : List Byte := s.map fun c => BitVec.ofNat 8 c.toNat

/-- `"%d:%02d:%02d %02d:%02d:%02d\n"`. -/
def timeText (ltime : LocalTime) : List Byte :=
  charBytes (fmtInt 0 (1900 + ltime.tm_year) ++ ":".toList ++ fmtInt 2 (ltime.tm_mon + 1) ++
    ":".toList ++ fmtInt 2 ltime.tm_mday ++ " ".toList ++ fmtInt 2 ltime.tm_hour ++ ":".toList ++
    fmtInt 2 ltime.tm_min ++ ":".toList ++ fmtInt 2 ltime.tm_sec ++ "\n".toList)

/-- The four stores that make a directory entry, at `DirIndex`. -/
def putEntry (m : ExifMem) (DirIndex : Nat) (tag format : BitVec 16) (components value : BitVec 32) :
    ExifMem :=
  let m := put16u false m DirIndex tag
  let m := put16u false m (DirIndex + 2) format
  let m := put32u false m (DirIndex + 4) components
  put32u false m (DirIndex + 8) value

/-- The block of IFD0. It returns the free place behind its data, where the date is
and where the continuation goes. -/
def putIfd0 (m : ExifMem) (DataWriteIndex : Nat) : ExifMem × Nat × Nat × Nat :=
  let DirIndex := DataWriteIndex
  let NumEntries := 2
  let DataWriteIndex := DataWriteIndex + (2 + NumEntries * 12 + 4)
  let m := put16u false m DirIndex (BitVec.ofNat 16 NumEntries)
  let DirIndex := DirIndex + 2
  let m := putEntry m DirIndex TAG_DATETIME FMT_STRING 20 (BitVec.ofNat 32 (DataWriteIndex - 6))
  let DirIndex := DirIndex + 12
  let DateIndex := DataWriteIndex
  let m := m.store .buffer DataWriteIndex (m.load .timeString 0 19)
  let m := m.store .buffer (DataWriteIndex + 19) [0]
  let DataWriteIndex := DataWriteIndex + 20
  let m := putEntry m DirIndex TAG_EXIF_OFFSET FMT_ULONG 1 (BitVec.ofNat 32 (DataWriteIndex - 6))
  let DirIndex := DirIndex + 12
  (m, DataWriteIndex, DateIndex, DirIndex)

def putExifIfd (m : ExifMem) (DataWriteIndex DateIndex : Nat) : ExifMem × Nat :=
  let DirIndex := DataWriteIndex
  let NumEntries := 1
  let DataWriteIndex := DataWriteIndex + (2 + NumEntries * 12 + 4)
  let m := put16u false m DirIndex (BitVec.ofNat 16 NumEntries)
  let DirIndex := DirIndex + 2
  let m := putEntry m DirIndex TAG_DATETIME_ORIGINAL FMT_STRING 20
    (BitVec.ofNat 32 (DataWriteIndex - 6))
  let DirIndex := DirIndex + 12
  let m := m.store .buffer DataWriteIndex (m.load .buffer DateIndex 20)
  let DataWriteIndex := DataWriteIndex + 20
  let m := put32u false m DirIndex 0
  (m, DataWriteIndex)

def putIfd1 (m : ExifMem) (DataWriteIndex DirContinuation : Nat)
    (thumbnail_offset thumbnail_size : BitVec 32) : ExifMem :=
  let m := put32u false m DirContinuation (BitVec.ofNat 32 (DataWriteIndex - 6))
  let DirIndex := DataWriteIndex
  let NumEntries := 2
  let m := put16u false m DirIndex (BitVec.ofNat 16 NumEntries)
  let DirIndex := DirIndex + 2
  let m := putEntry m DirIndex TAG_THUMBNAIL_OFFSET FMT_ULONG 1 thumbnail_offset
  let DirIndex := DirIndex + 12
  let m := putEntry m DirIndex TAG_THUMBNAIL_LENGTH FMT_ULONG 1 thumbnail_size
  let DirIndex := DirIndex + 12
  put32u false m DirIndex 0

def putHeader (m : ExifMem) (ltime : LocalTime) : ExifMem × Nat :=
  let m := m.store .timeString 0 (timeText ltime ++ [0])
  let m := m.store .buffer 0 (ascii "Exif\x00\x00II")
  let m := put16u false m 8 0x2a
  let DataWriteIndex := 14
  let m := put32u false m 10 (BitVec.ofNat 32 (DataWriteIndex - 6))
  (m, DataWriteIndex)

/-- `create_simple_EXIF`. It sets `MotorolaOrder` to 0 before the first number. -/
def createSimpleExif (ltime : LocalTime) (thumbnail_offset thumbnail_size : BitVec 32)
    (m : ExifMem) : ExifMem :=
  let (m, DataWriteIndex) := putHeader m ltime
  let (m, DataWriteIndex, DateIndex, DirContinuation) := putIfd0 m DataWriteIndex
  let (m, DataWriteIndex) := putExifIfd m DataWriteIndex DateIndex
  putIfd1 m DataWriteIndex DirContinuation thumbnail_offset thumbnail_size

/-- `i32EncReservedSize` of `JpegEncFromVIN`. -/
def jpegEncFromVinReserved : Nat := 0x84

/-- `i32EncReservedSize` of `JpegEncFromVIN_Packet`. -/
def jpegEncFromVinPacketReserved : Nat := 0x84

/-! ## Reading back -/

/-- The numbers behind the TIFF header, with `MotorolaOrder` as it was left. -/
def exifReader (m : ExifMem) : TiffReader where
  u16 o := (get16u false m (6 + o)).toNat
  u32 o := (get32u false m (6 + o)).toNat

/-- The walk from the offset in the TIFF header; `TAG_EXIF_OFFSET` leads to a
sub-directory. -/
def WalksTo (m : ExifMem) (dirs : List TiffDirectory) : Prop :=
  Ends ((exifReader m).walk fun tag => tag = TAG_EXIF_OFFSET.toNat) ([(exifReader m).u32 4], []) dirs

/-- What an entry stands for: the bytes of a string, or a number. -/
inductive ExifValue
  | string (s : List Byte)
  | long (n : Nat)
  deriving DecidableEq

def exifValue (m : ExifMem) (e : TiffEntry) : ExifValue :=
  if e.format = FMT_STRING.toNat then .string (m.load .buffer (6 + e.value) e.components)
  else .long e.value

/-- The tags and values of all directories, in the order of the walk. -/
def exifContents (m : ExifMem) (dirs : List TiffDirectory) : List (Nat × ExifValue) :=
  (dirs.flatMap TiffDirectory.entries).map fun e => (e.tag, exifValue m e)

/-- Start and length of the headers, the directories and the strings. -/
def exifAreas (dirs : List TiffDirectory) : List (Nat × Nat) :=
  (0, 14) :: dirs.map (fun d => (6 + d.offset, d.size)) ++
    ((dirs.flatMap TiffDirectory.entries).filter fun e => e.format = FMT_STRING.toNat).map
      fun e => (6 + e.value, e.components)

/-- The areas lie in the first `n` bytes, do not overlap and leave none of them out. -/
def Tiles (areas : List (Nat × Nat)) (n : Nat) : Prop :=
  (∀ a ∈ areas, a.1 + a.2 ≤ n) ∧
    areas.Pairwise (fun a b => a.1 + a.2 ≤ b.1 ∨ b.1 + b.2 ≤ a.1) ∧
    ∀ i < n, ∃ a ∈ areas, a.1 ≤ i ∧ i < a.1 + a.2

def dateString (t : LocalTime) : List Byte :=
  let digit := fun n : Nat => Nat.digitChar (n % 10)
  let two := fun n : Nat => [digit (n / 10), digit n]
  let year := (1900 + t.tm_year).toNat
  charBytes ([digit (year / 1000), digit (year / 100)] ++ two year ++ [':'] ++ two (t.tm_mon + 1) ++
    [':'] ++ two t.tm_mday ++ [' '] ++ two t.tm_hour ++ [':'] ++ two t.tm_min ++ [':'] ++
    two t.tm_sec)

/-! ## Stores and loads -/

section Loads
variable {m : ExifMem} {o k n : Nat}

def le16 (v : BitVec 16) : List Byte := [v.setWidth 8, (v >>> 8).setWidth 8]

def le32 (v : BitVec 32) : List Byte :=
  [v.setWidth 8, (v >>> 8).setWidth 8, (v >>> 16).setWidth 8, (v >>> 24).setWidth 8]

theorem get16u_of_load {v : BitVec 16} (h : m.load .buffer o 2 = le16 v) :
    (get16u false m o).toNat = v.toNat := by
  have hbits : (((v >>> 8).setWidth 8).setWidth 32 <<< 8) ||| (v.setWidth 8).setWidth 32 =
      v.setWidth 32 := by
    apply BitVec.eq_of_getLsbD_eq
    intro i hi
    simp only [BitVec.getLsbD_or, BitVec.getLsbD_shiftLeft, BitVec.getLsbD_setWidth,
      BitVec.getLsbD_ushiftRight]
    grind
  have hget : get16u false m o = v.setWidth 32 := by
    unfold get16u
    rw [h]
    exact hbits
  rw [hget, BitVec.toNat_setWidth]
  exact Nat.mod_eq_of_lt (Nat.lt_trans v.isLt (by decide))

theorem get32u_of_load {v : BitVec 32} (h : m.load .buffer o 4 = le32 v) :
    (get32u false m o).toNat = v.toNat := by
  have hbits : (((v >>> 24).setWidth 8).setWidth 32 <<< 24) |||
      (((v >>> 16).setWidth 8).setWidth 32 <<< 16) ||| (((v >>> 8).setWidth 8).setWidth 32 <<< 8) |||
      (v.setWidth 8).setWidth 32 = v := by
    apply BitVec.eq_of_getLsbD_eq
    intro i hi
    simp only [BitVec.getLsbD_or, BitVec.getLsbD_shiftLeft, BitVec.getLsbD_setWidth,
      BitVec.getLsbD_ushiftRight]
    grind
  have hget : get32s false m o = v := by
    unfold get32s
    rw [h]
    exact hbits
  unfold get32u
  rw [hget]
  exact congrArg BitVec.toNat (BitVec.and_allOnes (x := v))

theorem load_put16u_self (v : BitVec 16) : (put16u false m o v).load .buffer o 2 = le16 v :=
  Memory.load_store_self rfl

theorem load_put32u_self (v : BitVec 32) : (put32u false m o v).load .buffer o 4 = le32 v :=
  Memory.load_store_self rfl

theorem load_put16u_of_ne {v : BitVec 16} (h : k + n ≤ o ∨ o + 2 ≤ k) :
    (put16u false m o v).load .buffer k n = m.load .buffer k n :=
  Memory.load_store_of_ne (.inr h)

theorem load_put32u_of_ne {v : BitVec 32} (h : k + n ≤ o ∨ o + 4 ≤ k) :
    (put32u false m o v).load .buffer k n = m.load .buffer k n :=
  Memory.load_store_of_ne (.inr h)

def entryBytes (tag format : BitVec 16) (components value : BitVec 32) : List Byte :=
  le16 tag ++ le16 format ++ le32 components ++ le32 value

theorem load_putEntry_self (tag format : BitVec 16) (components value : BitVec 32) :
    (putEntry m o tag format components value).load .buffer o 12 =
      entryBytes tag format components value := by
  unfold putEntry entryBytes
  rw [Memory.load_add _ _ o 8 4, Memory.load_add _ _ o 4 4, Memory.load_add _ _ o 2 2,
    load_put32u_self]
  congr 1
  rw [load_put32u_of_ne (.inl (by omega)), load_put32u_of_ne (.inl (by omega)),
    load_put32u_of_ne (.inl (by omega)), load_put32u_of_ne (.inl (by omega)),
    load_put32u_of_ne (.inl (by omega)), load_put32u_self,
    load_put16u_of_ne (.inl (by omega)), load_put16u_self, load_put16u_self]

theorem load_putEntry_of_ne {tag format : BitVec 16} {components value : BitVec 32}
    (h : k + n ≤ o ∨ o + 12 ≤ k) :
    (putEntry m o tag format components value).load .buffer k n = m.load .buffer k n := by
  unfold putEntry
  rw [load_put32u_of_ne (by omega), load_put32u_of_ne (by omega), load_put16u_of_ne (by omega),
    load_put16u_of_ne (by omega)]

theorem entry_of_load {tag format : BitVec 16} {components value : BitVec 32}
    (h : m.load .buffer (6 + o) 12 = entryBytes tag format components value) :
    (exifReader m).entry o = ⟨tag.toNat, format.toNat, components.toNat, value.toNat⟩ := by
  rw [Memory.load_add _ _ _ 8 4, Memory.load_add _ _ _ 4 4, Memory.load_add _ _ _ 2 2] at h
  unfold entryBytes at h
  obtain ⟨h, h4⟩ := List.append_inj' h rfl
  obtain ⟨h, h3⟩ := List.append_inj' h rfl
  obtain ⟨h1, h2⟩ := List.append_inj' h rfl
  simp only [TiffReader.entry, exifReader, ← Nat.add_assoc]
  rw [get16u_of_load h1, get16u_of_load h2, get32u_of_load h3, get32u_of_load h4]

end Loads

/-! ## The blocks -/

section Blocks
variable {m : ExifMem} {D k n : Nat}

theorem load_store_buffer_of_ne {o : Nat} {data : List Byte}
    (h : k + n ≤ o ∨ o + data.length ≤ k) :
    (m.store .buffer o data).load .buffer k n = m.load .buffer k n :=
  Memory.load_store_of_ne (.inr h)

theorem load_timeString_putEntry {o : Nat} {tag format : BitVec 16} {components value : BitVec 32} :
    (putEntry m o tag format components value).load .timeString k n = m.load .timeString k n := by
  have hne : ExifArray.timeString ≠ ExifArray.buffer := by decide
  exact (Memory.load_store_of_ne (.inl hne)).trans ((Memory.load_store_of_ne (.inl hne)).trans
    ((Memory.load_store_of_ne (.inl hne)).trans (Memory.load_store_of_ne (.inl hne))))

theorem load_timeString_put16u {o : Nat} {v : BitVec 16} :
    (put16u false m o v).load .timeString k n = m.load .timeString k n :=
  Memory.load_store_of_ne (.inl (by decide))

theorem putIfd0_loads (m : ExifMem) (D : Nat) :
    (putIfd0 m D).1.load .buffer D 2 = le16 2 ∧
    (putIfd0 m D).1.load .buffer (D + 2) 12 =
      entryBytes TAG_DATETIME FMT_STRING 20 (BitVec.ofNat 32 (D + 30 - 6)) ∧
    (putIfd0 m D).1.load .buffer (D + 14) 12 =
      entryBytes TAG_EXIF_OFFSET FMT_ULONG 1 (BitVec.ofNat 32 (D + 50 - 6)) ∧
    (putIfd0 m D).1.load .buffer (D + 30) 20 = m.load .timeString 0 19 ++ [0] ∧
    ∀ k n, k + n ≤ D → (putIfd0 m D).1.load .buffer k n = m.load .buffer k n := by
  unfold putIfd0
  dsimp only
  rw [load_timeString_putEntry, load_timeString_put16u]
  have hlen := m.length_load .timeString 0 19
  generalize m.load .timeString 0 19 = date at hlen ⊢
  have hnul : [(0 : Byte)].length = 1 := rfl
  refine ⟨?_, ?_, ?_, ?_, fun k n hk => ?_⟩
  · rw [load_putEntry_of_ne (by omega), load_store_buffer_of_ne (by omega),
      load_store_buffer_of_ne (by omega), load_putEntry_of_ne (by omega)]
    exact load_put16u_self _
  · rw [load_putEntry_of_ne (by omega), load_store_buffer_of_ne (by omega),
      load_store_buffer_of_ne (by omega)]
    exact load_putEntry_self _ _ _ _
  · exact load_putEntry_self _ _ _ _
  · rw [load_putEntry_of_ne (by omega), Memory.load_add _ _ _ 19 1]
    congr 1
    · rw [load_store_buffer_of_ne (by omega)]
      exact Memory.load_store_self hlen.symm
    · exact Memory.load_store_self rfl
  · rw [load_putEntry_of_ne (by omega), load_store_buffer_of_ne (by omega),
      load_store_buffer_of_ne (by omega), load_putEntry_of_ne (by omega),
      load_put16u_of_ne (by omega)]

/-- The Exif directory at `D`, with a copy of the date at `date` behind it. -/
theorem putExifIfd_loads (m : ExifMem) {D date : Nat} (hdate : date + 20 ≤ D) :
    (putExifIfd m D date).1.load .buffer D 2 = le16 1 ∧
    (putExifIfd m D date).1.load .buffer (D + 2) 12 =
      entryBytes TAG_DATETIME_ORIGINAL FMT_STRING 20 (BitVec.ofNat 32 (D + 18 - 6)) ∧
    (putExifIfd m D date).1.load .buffer (D + 14) 4 = le32 0 ∧
    (putExifIfd m D date).1.load .buffer (D + 18) 20 = m.load .buffer date 20 ∧
    ∀ k n, k + n ≤ D → (putExifIfd m D date).1.load .buffer k n = m.load .buffer k n := by
  unfold putExifIfd
  dsimp only
  rw [load_putEntry_of_ne (by omega), load_put16u_of_ne (by omega)]
  have hlen := m.length_load .buffer date 20
  generalize m.load .buffer date 20 = text at hlen ⊢
  refine ⟨?_, ?_, ?_, ?_, fun k n hk => ?_⟩
  · rw [load_put32u_of_ne (by omega), load_store_buffer_of_ne (by omega),
      load_putEntry_of_ne (by omega)]
    exact load_put16u_self _
  · rw [load_put32u_of_ne (by omega), load_store_buffer_of_ne (by omega)]
    exact load_putEntry_self _ _ _ _
  · exact load_put32u_self _
  · rw [load_put32u_of_ne (by omega)]
    exact Memory.load_store_self hlen.symm
  · rw [load_put32u_of_ne (by omega), load_store_buffer_of_ne (by omega),
      load_putEntry_of_ne (by omega), load_put16u_of_ne (by omega)]

theorem putIfd1_loads (m : ExifMem) {D cont : Nat} (off size : BitVec 32) (hcont : cont + 4 ≤ D) :
    (putIfd1 m D cont off size).load .buffer cont 4 = le32 (BitVec.ofNat 32 (D - 6)) ∧
    (putIfd1 m D cont off size).load .buffer D 2 = le16 2 ∧
    (putIfd1 m D cont off size).load .buffer (D + 2) 12 =
      entryBytes TAG_THUMBNAIL_OFFSET FMT_ULONG 1 off ∧
    (putIfd1 m D cont off size).load .buffer (D + 14) 12 =
      entryBytes TAG_THUMBNAIL_LENGTH FMT_ULONG 1 size ∧
    (putIfd1 m D cont off size).load .buffer (D + 26) 4 = le32 0 ∧
    ∀ k n, k + n ≤ cont ∨ (cont + 4 ≤ k ∧ k + n ≤ D) →
      (putIfd1 m D cont off size).load .buffer k n = m.load .buffer k n := by
  unfold putIfd1
  dsimp only
  refine ⟨?_, ?_, ?_, ?_, load_put32u_self _, fun k n hk => ?_⟩
  · rw [load_put32u_of_ne (by omega), load_putEntry_of_ne (by omega),
      load_putEntry_of_ne (by omega), load_put16u_of_ne (by omega)]
    exact load_put32u_self _
  · rw [load_put32u_of_ne (by omega), load_putEntry_of_ne (by omega),
      load_putEntry_of_ne (by omega)]
    exact load_put16u_self _
  · rw [load_put32u_of_ne (by omega), load_putEntry_of_ne (by omega)]
    exact load_putEntry_self _ _ _ _
  · rw [load_put32u_of_ne (by omega)]
    exact load_putEntry_self _ _ _ _
  · rw [load_put32u_of_ne (by omega), load_putEntry_of_ne (by omega),
      load_putEntry_of_ne (by omega), load_put16u_of_ne (by omega), load_put32u_of_ne (by omega)]

end Blocks

/-! ## The date -/

theorem fmtInt_two {n : Nat} (h : n < 100) :
    fmtInt 2 n = [Nat.digitChar (n / 10 % 10), Nat.digitChar (n % 10)] := by
  have hall : ∀ n < 100, fmtInt 2 ((n : Nat) : Int) =
      [Nat.digitChar (n / 10 % 10), Nat.digitChar (n % 10)] := by decide
  exact hall n h

theorem fmtInt_year {y : Int} (h : 1000 ≤ y) (h' : y ≤ 9999) :
    fmtInt 0 y = [Nat.digitChar (y.toNat / 1000 % 10), Nat.digitChar (y.toNat / 100 % 10),
      Nat.digitChar (y.toNat / 10 % 10), Nat.digitChar (y.toNat % 10)] := by
  obtain ⟨n, rfl⟩ := Int.eq_ofNat_of_zero_le (show 0 ≤ y by omega)
  have hn : 1000 ≤ n ∧ n ≤ 9999 := by omega
  have hdigits : Nat.toDigits 10 n = [Nat.digitChar (n / 1000 % 10), Nat.digitChar (n / 100 % 10),
      Nat.digitChar (n / 10 % 10), Nat.digitChar (n % 10)] := by
    have h100 : n / 10 / 10 = n / 100 := by omega
    have h1000 : n / 100 / 10 = n / 1000 % 10 := by omega
    rw [Nat.toDigits_of_base_le (by decide) (by omega),
      Nat.toDigits_of_base_le (by decide) (by omega),
      Nat.toDigits_of_base_le (by decide) (by omega), Nat.toDigits_of_lt_base (by omega), h100, h1000]
    rfl
  unfold fmtInt
  rw [if_neg (by omega)]
  simp only [Int.natAbs_natCast, hdigits, Int.toNat_natCast]
  rfl

theorem timeText_eq (t : LocalTime) : timeText t = dateString t ++ [0x0A] := by
  have hmon := t.mon_le
  have hmday := t.mday_le
  have hhour := t.hour_le
  have hmin := t.min_le
  have hsec := t.sec_le
  have hmon' : fmtInt 2 (t.tm_mon + 1) = fmtInt 2 ((t.tm_mon + 1 : Nat) : Int) := rfl
  unfold timeText
  rw [fmtInt_year t.year_ge t.year_le, hmon', fmtInt_two (by omega), fmtInt_two (by omega),
    fmtInt_two (by omega), fmtInt_two (by omega), fmtInt_two (by omega)]
  rfl

theorem length_dateString (t : LocalTime) : (dateString t).length = 19 := by
  simp [dateString, charBytes]

theorem load_timeText (m : ExifMem) (t : LocalTime) :
    (m.store .timeString 0 (timeText t ++ [0])).load .timeString 0 19 = dateString t := by
  have hall : (m.store .timeString 0 (timeText t ++ [0])).load .timeString 0 (19 + 2) =
      dateString t ++ [0x0A, 0] := by
    have hlen : 19 + 2 = (timeText t ++ [0]).length := by
      rw [timeText_eq, List.length_append, List.length_append, length_dateString]
      rfl
    rw [Memory.load_store_self hlen, timeText_eq, List.append_assoc]
    rfl
  rw [Memory.load_add] at hall
  exact (List.append_inj' hall (Memory.length_load _ _ _ _)).1

theorem putHeader_loads (m : ExifMem) (t : LocalTime) :
    (putHeader m t).1.load .timeString 0 19 = dateString t ∧
      (putHeader m t).1.load .buffer 0 8 = ascii "Exif\x00\x00II" ∧
      (putHeader m t).1.load .buffer 8 2 = le16 0x2a ∧
      (putHeader m t).1.load .buffer 10 4 = le32 8 := by
  have hne : ExifArray.timeString ≠ ExifArray.buffer := by decide
  refine ⟨?_, ?_, ?_, load_put32u_self _⟩
  · exact (Memory.load_store_of_ne (.inl hne)).trans ((Memory.load_store_of_ne (.inl hne)).trans
      ((Memory.load_store_of_ne (.inl hne)).trans (load_timeText m t)))
  · exact (load_put32u_of_ne (by omega)).trans ((load_put16u_of_ne (by omega)).trans
      (Memory.load_store_self rfl))
  · exact (load_put32u_of_ne (by omega)).trans (load_put16u_self _)

/-! ## The walk -/

theorem createSimpleExif_eq (t : LocalTime) (off size : BitVec 32) (m : ExifMem) :
    createSimpleExif t off size m =
      putIfd1 (putExifIfd (putIfd0 (putHeader m t).1 14).1 64 44).1 102 40 off size := rfl

theorem directory_of_loads {m : ExifMem} {o : Nat} {count : BitVec 16} {next : BitVec 32}
    (hcount : m.load .buffer (6 + o) 2 = le16 count)
    (hnext : m.load .buffer (6 + (o + 2 + 12 * count.toNat)) 4 = le32 next) :
    (exifReader m).directory o =
      ⟨o, (List.range count.toNat).map fun i => (exifReader m).entry (o + 2 + 12 * i),
        next.toNat⟩ := by
  have hu16 : (exifReader m).u16 o = count.toNat := get16u_of_load hcount
  have hu32 : (exifReader m).u32 (o + 2 + 12 * count.toNat) = next.toNat := get32u_of_load hnext
  unfold TiffReader.directory
  rw [hu16, hu32]

section Walk
variable (t : LocalTime) (off size : BitVec 32) (m : ExifMem)

def ifd0Entries : List TiffEntry :=
  [⟨TAG_DATETIME.toNat, FMT_STRING.toNat, 20, 38⟩, ⟨TAG_EXIF_OFFSET.toNat, FMT_ULONG.toNat, 1, 58⟩]

def exifIfdEntries : List TiffEntry := [⟨TAG_DATETIME_ORIGINAL.toNat, FMT_STRING.toNat, 20, 76⟩]

def ifd1Entries : List TiffEntry :=
  [⟨TAG_THUMBNAIL_OFFSET.toNat, FMT_ULONG.toNat, 1, off.toNat⟩,
    ⟨TAG_THUMBNAIL_LENGTH.toNat, FMT_ULONG.toNat, 1, size.toNat⟩]

structure SegmentLoads (m' : ExifMem) : Prop where
  head : m'.load .buffer 0 8 = ascii "Exif\x00\x00II"
  magic : m'.load .buffer 8 2 = le16 0x2a
  first : m'.load .buffer 10 4 = le32 8
  count0 : m'.load .buffer 14 2 = le16 2
  dateTime : m'.load .buffer 16 12 = entryBytes TAG_DATETIME FMT_STRING 20 38
  exifOffset : m'.load .buffer 28 12 = entryBytes TAG_EXIF_OFFSET FMT_ULONG 1 58
  next0 : m'.load .buffer 40 4 = le32 96
  date : m'.load .buffer 44 20 = dateString t ++ [0]
  countX : m'.load .buffer 64 2 = le16 1
  original : m'.load .buffer 66 12 = entryBytes TAG_DATETIME_ORIGINAL FMT_STRING 20 76
  nextX : m'.load .buffer 78 4 = le32 0
  dateX : m'.load .buffer 82 20 = dateString t ++ [0]
  count1 : m'.load .buffer 102 2 = le16 2
  offset : m'.load .buffer 104 12 = entryBytes TAG_THUMBNAIL_OFFSET FMT_ULONG 1 off
  length : m'.load .buffer 116 12 = entryBytes TAG_THUMBNAIL_LENGTH FMT_ULONG 1 size
  next1 : m'.load .buffer 128 4 = le32 0

/-- Later blocks leave the earlier ones, but for the continuation of IFD0. -/
theorem createSimpleExif_loads : SegmentLoads t off size (createSimpleExif t off size m) := by
  obtain ⟨htime, hexif, hmagic, hfirst⟩ := putHeader_loads m t
  obtain ⟨h0, h0a, h0b, h0date, hframe0⟩ := putIfd0_loads (putHeader m t).1 14
  obtain ⟨hx, hxa, hxnext, hxdate, hframex⟩ := putExifIfd_loads (putIfd0 (putHeader m t).1 14).1
    (show 44 + 20 ≤ 64 by omega)
  obtain ⟨hcont, h1, h1a, h1b, h1next, hframe1⟩ := putIfd1_loads (putExifIfd (putIfd0
    (putHeader m t).1 14).1 64 44).1 off size (show 40 + 4 ≤ 102 by omega)
  rw [createSimpleExif_eq]
  rw [htime] at h0date
  generalize putIfd1 (putExifIfd (putIfd0 (putHeader m t).1 14).1 64 44).1 102 40 off size = m' at *
  -- the blocks behind IFD0, and behind the headers
  have hframe : ∀ k n, k + n ≤ 40 ∨ (44 ≤ k ∧ k + n ≤ 64) →
      m'.load .buffer k n = (putIfd0 (putHeader m t).1 14).1.load .buffer k n := by
    intro k n hk
    rw [hframe1 k n (by omega), hframex k n (by omega)]
  have hhead : ∀ k n, k + n ≤ 14 → m'.load .buffer k n = (putHeader m t).1.load .buffer k n := by
    intro k n hk
    rw [hframe k n (by omega), hframe0 k n hk]
  exact
    { head := (hhead _ _ (by omega)).trans hexif
      magic := (hhead _ _ (by omega)).trans hmagic
      first := (hhead _ _ (by omega)).trans hfirst
      count0 := (hframe _ _ (by omega)).trans h0
      dateTime := (hframe _ _ (by omega)).trans h0a
      exifOffset := (hframe _ _ (by omega)).trans h0b
      next0 := hcont
      date := (hframe _ _ (by omega)).trans h0date
      countX := (hframe1 _ _ (by omega)).trans hx
      original := (hframe1 _ _ (by omega)).trans hxa
      nextX := (hframe1 _ _ (by omega)).trans hxnext
      dateX := (hframe1 _ _ (by omega)).trans (hxdate.trans h0date)
      count1 := h1
      offset := h1a
      length := h1b
      next1 := h1next }

theorem createSimpleExif_reads :
    let m' := createSimpleExif t off size m
    (m'.load .buffer 0 8 = ascii "Exif\x00\x00II" ∧ (exifReader m').u16 2 = 0x2a ∧
      (exifReader m').u32 4 = 8) ∧
    (exifReader m').directory 8 = ⟨8, ifd0Entries, 96⟩ ∧
    (exifReader m').directory 58 = ⟨58, exifIfdEntries, 0⟩ ∧
    (exifReader m').directory 96 = ⟨96, ifd1Entries off size, 0⟩ ∧
    m'.load .buffer 44 20 = dateString t ++ [0] ∧
    m'.load .buffer 82 20 = dateString t ++ [0] := by
  intro m'
  have h : SegmentLoads t off size m' := createSimpleExif_loads t off size m
  clear_value m'
  refine ⟨⟨h.head, ?_, ?_⟩, ?_, ?_, ?_, h.date, h.dateX⟩
  · exact get16u_of_load h.magic
  · exact get32u_of_load h.first
  · have hnext : m'.load .buffer (6 + (8 + 2 + 12 * (2 : BitVec 16).toNat)) 4 = le32 96 := h.next0
    rw [directory_of_loads (o := 8) h.count0 hnext]
    change TiffDirectory.mk 8 [(exifReader m').entry 10, (exifReader m').entry 22] 96 = _
    rw [entry_of_load (o := 10) h.dateTime, entry_of_load (o := 22) h.exifOffset]
    rfl
  · have hnext : m'.load .buffer (6 + (58 + 2 + 12 * (1 : BitVec 16).toNat)) 4 = le32 0 := h.nextX
    rw [directory_of_loads (o := 58) h.countX hnext]
    change TiffDirectory.mk 58 [(exifReader m').entry 60] 0 = _
    rw [entry_of_load (o := 60) h.original]
    rfl
  · rw [directory_of_loads (o := 96) h.count1 h.next1]
    change TiffDirectory.mk 96 [(exifReader m').entry 98, (exifReader m').entry 110] 0 = _
    rw [entry_of_load (o := 98) h.offset, entry_of_load (o := 110) h.length]
    rfl

def exifDirectories : List TiffDirectory :=
  [⟨8, ifd0Entries, 96⟩, ⟨58, exifIfdEntries, 0⟩, ⟨96, ifd1Entries off size, 0⟩]

theorem createSimpleExif_walk :
    WalksTo (createSimpleExif t off size m) (exifDirectories off size) := by
  obtain ⟨⟨-, -, hfirst⟩, h0, hx, h1, -, -⟩ := createSimpleExif_reads t off size m
  unfold WalksTo
  generalize exifReader (createSimpleExif t off size m) = r at hfirst h0 hx h1 ⊢
  rw [hfirst]
  rw [ends_next (TiffReader.walk_directory (by decide) h0)]
  change Ends _ ([58, 96], [_]) _
  rw [ends_next (TiffReader.walk_directory (by decide) hx)]
  change Ends _ ([0, 96], [_, _]) _
  rw [ends_next TiffReader.walk_zero, ends_next (TiffReader.walk_directory (by decide) h1)]
  change Ends _ ([0], exifDirectories off size) _
  rw [ends_next TiffReader.walk_zero, ends_done TiffReader.walk_nil]

end Walk

/-- **The EXIF header reads back.** A walk over it ends, and finds the date twice, with
its NUL, and the place of the thumbnail. Headers, directories and dates together are
the bytes `JpegEncFromVIN` and `JpegEncFromVIN_Packet` reserve. -/
theorem exif_round_trip (t : LocalTime) (thumbnail_offset thumbnail_size : BitVec 32)
    (m : ExifMem) :
    let m' := createSimpleExif t thumbnail_offset thumbnail_size m
    m'.load .buffer 0 8 = ascii "Exif\x00\x00II" ∧ get16u false m' 8 = 0x2a ∧
    ∃ dirs, WalksTo m' dirs ∧
      exifContents m' dirs =
        [(TAG_DATETIME.toNat, .string (dateString t ++ [0])), (TAG_EXIF_OFFSET.toNat, .long 58),
          (TAG_DATETIME_ORIGINAL.toNat, .string (dateString t ++ [0])),
          (TAG_THUMBNAIL_OFFSET.toNat, .long thumbnail_offset.toNat),
          (TAG_THUMBNAIL_LENGTH.toNat, .long thumbnail_size.toNat)] ∧
      Tiles (exifAreas dirs) jpegEncFromVinReserved ∧
      Tiles (exifAreas dirs) jpegEncFromVinPacketReserved := by
  intro m'
  obtain ⟨⟨hexif, hmagic, -⟩, -, -, -, hdate, hdate'⟩ :=
    createSimpleExif_reads t thumbnail_offset thumbnail_size m
  have htiles : Tiles [(0, 14), (14, 30), (64, 18), (102, 30), (44, 20), (82, 20)] 0x84 := by
    unfold Tiles
    decide
  refine ⟨hexif, BitVec.eq_of_toNat_eq hmagic, exifDirectories thumbnail_offset thumbnail_size,
    createSimpleExif_walk t thumbnail_offset thumbnail_size m, ?_, htiles, htiles⟩
  have hread : exifContents m' (exifDirectories thumbnail_offset thumbnail_size) =
      [(TAG_DATETIME.toNat, .string (m'.load .buffer 44 20)), (TAG_EXIF_OFFSET.toNat, .long 58),
        (TAG_DATETIME_ORIGINAL.toNat, .string (m'.load .buffer 82 20)),
        (TAG_THUMBNAIL_OFFSET.toNat, .long thumbnail_offset.toNat),
        (TAG_THUMBNAIL_LENGTH.toNat, .long thumbnail_size.toNat)] := rfl
  rw [hread, hdate, hdate']

end N32905.VideoIn
