import N32905.VideoIn.Exif

/-!
# Where the EXIF header is stored

Every number and every string of `create_simple_EXIF` goes into the `0x84` bytes that
`JpegEnc.c` reserves. The text of the date is longer than its array by the NUL, in
every year with four digits.
-/

namespace N32905.VideoIn

open N32905.Lib

/-- The size of `timeString`, and `i32EncReservedSize`. -/
def ExifArray.size : ExifArray → Nat
  | .timeString => 20
  | .buffer => jpegEncFromVinReserved

/-- A store, by array, offset and length, is inside its array. -/
def StoreInside (s : ExifArray × Nat × Nat) : Prop := s.2.1 + s.2.2 ≤ s.1.size

instance (s : ExifArray × Nat × Nat) : Decidable (StoreInside s) :=
  inferInstanceAs (Decidable (_ ≤ _))

/-! ## The stores -/

section Stores
variable {m : ExifMem}

@[simp] theorem store_stores (a : ExifArray) (off : Nat) (data : List Byte) :
    (m.store a off data).stores = m.stores ++ [(a, off, data.length)] := rfl

@[simp] theorem put16u_stores (o : Nat) (v : BitVec 16) :
    (put16u false m o v).stores = m.stores ++ [(.buffer, o, 2)] := rfl

@[simp] theorem put32u_stores (o : Nat) (v : BitVec 32) :
    (put32u false m o v).stores = m.stores ++ [(.buffer, o, 4)] := rfl

def entryStores (o : Nat) : List (ExifArray × Nat × Nat) :=
  [(.buffer, o, 2), (.buffer, o + 2, 2), (.buffer, o + 4, 4), (.buffer, o + 8, 4)]

@[simp] theorem putEntry_stores (o : Nat) (tag format : BitVec 16) (components value : BitVec 32) :
    (putEntry m o tag format components value).stores = m.stores ++ entryStores o := by
  simp [putEntry, entryStores]

theorem length_timeText (t : LocalTime) : (timeText t ++ [0]).length = 21 := by
  rw [timeText_eq]
  simp [length_dateString]

theorem putHeader_stores (t : LocalTime) : (putHeader m t).1.stores =
    m.stores ++ [(.timeString, 0, 21), (.buffer, 0, 8), (.buffer, 8, 2), (.buffer, 10, 4)] := by
  have hmagic : (ascii "Exif\x00\x00II").length = 8 := by decide
  simp only [putHeader, put32u_stores, put16u_stores, store_stores, length_timeText, hmagic,
    List.append_assoc, List.cons_append, List.nil_append]

def directoryStores : List (ExifArray × Nat × Nat) :=
  List.flatten [
    [(.buffer, 14, 2)], entryStores 16, [(.buffer, 44, 19), (.buffer, 63, 1)], entryStores 28,
    [(.buffer, 64, 2)], entryStores 66, [(.buffer, 82, 20), (.buffer, 78, 4)],
    [(.buffer, 40, 4), (.buffer, 102, 2)], entryStores 104, entryStores 116, [(.buffer, 128, 4)]]

/-- **All stores** of a call, in their order. -/
theorem createSimpleExif_stores (t : LocalTime) (off size : BitVec 32) :
    (createSimpleExif t off size m).stores =
      m.stores ++ [(.timeString, 0, 21), (.buffer, 0, 8), (.buffer, 8, 2), (.buffer, 10, 4)] ++
        directoryStores := by
  have hindex : (putHeader m t).2 = 14 := rfl
  rw [← putHeader_stores t]
  simp [createSimpleExif, putIfd0, putExifIfd, putIfd1, directoryStores, hindex]

end Stores

/-- **The bounds of the EXIF writer**, for every time and all arguments: the text of the date is
stored past its array, and nothing else is past its own. -/
theorem exif_bounds (t : LocalTime) (thumbnail_offset thumbnail_size : BitVec 32)
    (bytes : ExifArray → Nat → Byte) :
    ¬ (∀ s ∈ (createSimpleExif t thumbnail_offset thumbnail_size ⟨bytes, []⟩).stores,
        StoreInside s) ∧
      (createSimpleExif t thumbnail_offset thumbnail_size ⟨bytes, []⟩).stores.filter
        (fun s => ¬ StoreInside s) = [(.timeString, 0, 21)] := by
  rw [createSimpleExif_stores, List.nil_append]
  exact ⟨by decide, by decide⟩

/-- 31 December 2012, 23:59:58. -/
def newYearsEve : LocalTime where
  tm_year := 112
  tm_mon := 11
  tm_mday := 31
  tm_hour := 23
  tm_min := 59
  tm_sec := 58
  year_ge := by decide
  year_le := by decide
  mon_le := by decide
  mday_pos := by decide
  mday_le := by decide
  hour_le := by decide
  min_le := by decide
  sec_le := by decide

theorem newYearsEve_past_timeString :
    ¬ ∀ s ∈ (createSimpleExif newYearsEve 0 0 ⟨fun _ _ => 0, []⟩).stores, StoreInside s := by
  intro hall
  rw [createSimpleExif_stores, List.nil_append] at hall
  have htext : StoreInside (.timeString, 0, 21) := hall _ (by decide)
  revert htext
  decide

end N32905.VideoIn
