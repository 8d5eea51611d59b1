import N32905.Lib.Codec

/-!
# Rasters

A picture is its rows one behind the other, `stride` bytes each. `copyFrom` is
`memcpy` between two buffers, with the bounds of both checked. Copying row after
row from one raster into another clips the one to the other (`Clipped`); the step is
`Clipped.row`. A raster is what its rows say (`Clipped.unique`), and what holds of
the bytes holds of pixels of any size (`Clipped.pixel`).
-/

namespace N32905.Lib

/-- `memcpy(dst + off, src + soff, n)`: `none` is a read or a store outside. -/
def copyFrom (dst : List Byte) (off : Nat) (src : List Byte) (soff n : Nat) :
    Option (List Byte) :=
  if soff + n ≤ src.length then memcpy dst off ((src.drop soff).take n) else none

/-- The pixel `(x, y)` of a raster with `width` pixels of `bpp` bytes in a row. -/
def pixel (bpp width : Nat) (bytes : List Byte) (x y : Nat) : List Byte :=
  (bytes.drop ((y * width + x) * bpp)).take bpp

/-! ## One copy -/

section Copy
variable {dst src data : List Byte} {off soff n i : Nat}

theorem blit_getElem? (h : off + data.length ≤ dst.length) :
    (blit dst off data)[i]? =
      if off ≤ i ∧ i < off + data.length then data[i - off]? else dst[i]? := by
  have htake : (dst.take off).length = off := by
    rw [List.length_take]
    omega
  rw [blit, List.append_assoc, List.getElem?_append, htake]
  split
  case isTrue hlt => rw [List.getElem?_take_of_lt hlt, if_neg (by omega)]
  case isFalse hge =>
    rw [List.getElem?_append]
    split
    case isTrue hlt => rw [if_pos (by omega)]
    case isFalse hge' =>
      rw [if_neg (by omega), List.getElem?_drop]
      congr 1
      omega

/-- A copy inside both buffers gets through, and changes the bytes it covers. -/
theorem copyFrom_eq (hdst : off + n ≤ dst.length) (hsrc : soff + n ≤ src.length) :
    ∃ dst', copyFrom dst off src soff n = some dst' ∧ dst'.length = dst.length ∧
      ∀ i, dst'[i]? = if off ≤ i ∧ i < off + n then src[soff + (i - off)]? else dst[i]? := by
  have hlen : ((src.drop soff).take n).length = n := by
    rw [List.length_take, List.length_drop]
    omega
  have hcopy : copyFrom dst off src soff n = some (blit dst off ((src.drop soff).take n)) := by
    rw [copyFrom, if_pos hsrc, memcpy, hlen, if_pos hdst]
  refine ⟨_, hcopy, ?_, fun i => ?_⟩
  · rw [copyFrom, if_pos hsrc] at hcopy
    exact length_memcpy hcopy
  · rw [blit_getElem? (by rw [hlen]; exact hdst), hlen]
    split
    case isTrue h => rw [List.getElem?_take_of_lt (by omega), List.getElem?_drop]
    case isFalse => rfl

end Copy

/-! ## Rows -/

/-- Where the rows of two positions differ, so do the positions. -/
theorem row_add_lt {stride y y' x : Nat} (hx : x < stride) (hy : y < y') :
    y * stride + x < y' * stride := by
  have h := Nat.mul_le_mul_right stride hy
  rw [Nat.succ_mul] at h
  omega

/-- `dst` has `height` rows of `stride` bytes. Its first `rows` rows begin with `width` bytes of
the rows of `src`; all else is zero. -/
structure Clipped (stride height rows width sstride : Nat) (src dst : List Byte) : Prop where
  length_eq : dst.length = height * stride
  byte : ∀ y x, y < height → x < stride →
    dst[y * stride + x]? = if y < rows ∧ x < width then src[y * sstride + x]? else some 0

section Clipped
variable {stride height rows width sstride k : Nat} {src dst dst' : List Byte}

theorem clipped_zero : Clipped stride height 0 width sstride src
    (List.replicate (height * stride) 0) where
  length_eq := List.length_replicate
  byte y x hy hx := by
    rw [List.getElem?_replicate_of_lt (row_add_lt hx hy), if_neg (by omega)]

/-- **One more row.** -/
theorem Clipped.row (h : Clipped stride height k width sstride src dst) (hk : k < height)
    (hwidth : width ≤ stride) (hsrc : k * sstride + width ≤ src.length) :
    ∃ dst', copyFrom dst (k * stride) src (k * sstride) width = some dst' ∧
      Clipped stride height (k + 1) width sstride src dst' := by
  have hfit : k * stride + width ≤ dst.length := by
    have := Nat.mul_le_mul_right stride hk
    rw [Nat.succ_mul] at this
    rw [h.length_eq]
    omega
  obtain ⟨dst', hcopy, hlen, hbyte⟩ := copyFrom_eq hfit hsrc
  refine ⟨dst', hcopy, hlen.trans h.length_eq, fun y x hy hx => ?_⟩
  rw [hbyte, h.byte y x hy hx]
  -- the copy covers the beginning of row `k` only
  rcases Nat.lt_trichotomy y k with hlt | rfl | hgt
  · have := row_add_lt hx hlt
    rw [if_neg (by omega)]
    by_cases hw : x < width
    · rw [if_pos ⟨hlt, hw⟩, if_pos ⟨by omega, hw⟩]
    · rw [if_neg (fun h => hw h.2), if_neg (fun h => hw h.2)]
  · by_cases hw : x < width
    · rw [if_pos (by omega), if_pos ⟨by omega, hw⟩, Nat.add_sub_cancel_left]
    · rw [if_neg (by omega), if_neg (by omega), if_neg (by omega)]
  · have := Nat.mul_le_mul_right stride hgt
    rw [Nat.succ_mul] at this
    rw [if_neg (by omega), if_neg (by omega), if_neg (by omega)]

theorem clipped_copy (hdst : dst.length = height * stride) (hsrc : src.length = height * stride) :
    ∃ dst', copyFrom dst 0 src 0 (height * stride) = some dst' ∧
      Clipped stride height height stride stride src dst' := by
  have hfit : 0 + height * stride ≤ dst.length := by omega
  have hread : 0 + height * stride ≤ src.length := by omega
  obtain ⟨dst', hcopy, hlen, hbyte⟩ := copyFrom_eq hfit hread
  refine ⟨dst', hcopy, hlen.trans hdst, fun y x hy hx => ?_⟩
  have := row_add_lt hx hy
  rw [hbyte, if_pos (by omega), if_pos ⟨hy, hx⟩, Nat.sub_zero, Nat.zero_add]

theorem Clipped.unique (h : Clipped stride height rows width sstride src dst)
    (h' : Clipped stride height rows width sstride src dst') : dst = dst' := by
  apply List.ext_getElem?
  intro i
  rcases Nat.lt_or_ge i (height * stride) with hi | hi
  · have hpos : 0 < stride := Nat.pos_of_mul_pos_left (Nat.zero_lt_of_lt hi)
    have hy : i / stride < height := Nat.div_lt_of_lt_mul (by rwa [Nat.mul_comm])
    have hx := Nat.mod_lt i hpos
    have hsplit : i / stride * stride + i % stride = i := Nat.div_add_mod' i stride
    have hbyte := h.byte _ _ hy hx
    rw [← h'.byte _ _ hy hx, hsplit] at hbyte
    exact hbyte
  · rw [List.getElem?_eq_none (by rw [h.length_eq]; exact hi),
      List.getElem?_eq_none (by rw [h'.length_eq]; exact hi)]

/-- Without any bytes in a row the number of rows does not matter. -/
theorem Clipped.of_stride_zero (h : Clipped 0 height k width sstride src dst) :
    Clipped 0 height rows width sstride src dst :=
  ⟨h.length_eq, fun _ _ _ hx => absurd hx (Nat.not_lt_zero _)⟩

/-- **Pixels**: clipping `xs` pixels of a row clips their bytes. -/
theorem Clipped.pixel {bpp xres w xs x y : Nat}
    (h : Clipped (xres * bpp) height rows (xs * bpp) (w * bpp) src dst) (hx : x < xres)
    (hy : y < height) :
    pixel bpp xres dst x y =
      if x < xs ∧ y < rows then pixel bpp w src x y else List.replicate bpp 0 := by
  have hbyte : ∀ b < bpp, dst[(y * xres + x) * bpp + b]? =
      if y < rows ∧ x < xs then src[(y * w + x) * bpp + b]? else some 0 := by
    intro b hb
    have hpos : ∀ v, (y * v + x) * bpp + b = y * (v * bpp) + (x * bpp + b) := by
      intro v
      rw [Nat.add_mul, Nat.mul_assoc, Nat.add_assoc]
    have hlt : x * bpp + b < xs * bpp ↔ x < xs := by
      constructor
      · intro hlt
        by_contra hge
        have := Nat.mul_le_mul_right bpp (Nat.le_of_not_lt hge)
        omega
      · exact row_add_lt hb
    rw [hpos, hpos, h.byte y _ hy (row_add_lt hb hx)]
    simp only [hlt]
  apply List.ext_getElem?
  intro b
  unfold Lib.pixel
  rcases Nat.lt_or_ge b bpp with hb | hb
  · rw [List.getElem?_take_of_lt hb, List.getElem?_drop, hbyte b hb]
    by_cases hin : x < xs ∧ y < rows
    · rw [if_pos hin.symm, if_pos hin, List.getElem?_take_of_lt hb, List.getElem?_drop]
    · rw [if_neg (fun h => hin h.symm), if_neg hin, List.getElem?_replicate_of_lt hb]
  · have hnone : ∀ l : List Byte, (l.take bpp)[b]? = none := fun l =>
      List.getElem?_eq_none (Nat.le_trans (List.length_take_le _ _) hb)
    rw [hnone]
    split
    case isTrue => rw [hnone]
    case isFalse => rw [List.getElem?_eq_none (by rw [List.length_replicate]; exact hb)]

end Clipped

end N32905.Lib
