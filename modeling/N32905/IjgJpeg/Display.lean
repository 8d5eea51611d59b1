import N32905.Lib.Raster

/-!
# The decoded image on the panel

The end of `decompress` of `ijg_jpeg_demo.c` clears the mapped frame buffer and copies
the converted image into it: at once if the sizes are equal, else row by row. Both
pointers are offsets from the start of their buffers, in 32 bits as the program
computes them.
-/

namespace N32905.IjgJpeg

open N32905.Lib

/-! ## The model -/

/-- What the driver reports of the panel. -/
structure Panel where
  xres : BitVec 32
  yres : BitVec 32
  line_length : BitVec 32
  u8bytes_per_pixel : BitVec 8
  bytes_eq : u8bytes_per_pixel = 2 ∨ u8bytes_per_pixel = 4
  line_length_eq : line_length.toNat = xres.toNat * u8bytes_per_pixel.toNat
  mapped_lt : line_length.toNat * yres.toNat < 2 ^ 32

/-- The `line_length * yres` bytes `mmap` returned. -/
structure LcmBuffer (p : Panel) where
  bytes : List Byte
  length_eq : bytes.length = p.line_length.toNat * p.yres.toNat

/-- The frame buffer after the conversion to the panel's pixels: an object in the memory of
a 32-bit machine. -/
structure Image (p : Panel) where
  output_width : BitVec 32
  output_height : BitVec 32
  bytes : List Byte
  length_eq : bytes.length =
    output_height.toNat * (output_width.toNat * p.u8bytes_per_pixel.toNat)
  length_lt : bytes.length < 2 ^ 32

/-- `u8bytes_per_pixel` in an expression of `unsigned int`. -/
def Panel.bpp (p : Panel) : BitVec 32 := p.u8bytes_per_pixel.setWidth 32

/-- `memset(pLCMBuffer2, 0, line_length * yres)`. -/
def clear (p : Panel) (lcm : List Byte) : Option (List Byte) :=
  memcpy lcm 0 (List.replicate (p.line_length * p.yres).toNat 0)

section Render
variable (p : Panel) (img : Image p)

def displayOffset : BitVec 32 :=
  if p.xres < img.output_width then (img.output_width - p.xres) * p.bpp else 0

def displayWidth : BitVec 32 :=
  if p.xres < img.output_width then p.line_length else img.output_width * p.bpp

def displayHeight : BitVec 32 :=
  if p.yres < img.output_height then p.yres else img.output_height

/-- The two pointers, and the bytes behind `pLCMBuffer`. -/
structure RenderSt where
  pLCMBuffer2 : BitVec 32
  frame_buffer : BitVec 32
  lcm : List Byte

def renderRow (st : RenderSt) : Option RenderSt :=
  (copyFrom st.lcm st.pLCMBuffer2.toNat img.bytes st.frame_buffer.toNat
    (displayWidth p img).toNat).map fun lcm =>
      { pLCMBuffer2 := st.pLCMBuffer2 + p.xres * p.bpp
        frame_buffer := st.frame_buffer + (displayWidth p img + displayOffset p img)
        lcm := lcm }

def renderRows : Nat → RenderSt → Option RenderSt
  | 0, st => some st
  | n + 1, st => (renderRow p img st).bind (renderRows n)

/-- The loop. `i` and `display_height` are signed. -/
def rowByRow (lcm : List Byte) : Option (List Byte) :=
  (renderRows p img (displayHeight p img).toInt.toNat ⟨0, 0, lcm⟩).map RenderSt.lcm

def display (lcm : List Byte) : Option (List Byte) :=
  (clear p lcm).bind fun lcm =>
    if img.output_width = p.xres ∧ img.output_height = p.yres then
      copyFrom lcm 0 img.bytes 0 (p.xres * p.yres * p.bpp).toNat
    else rowByRow p img lcm

end Render

/-! ## The sizes in 32 bits -/

section Sizes
variable {p : Panel} {img : Image p}

theorem toNat_bpp (p : Panel) : p.bpp.toNat = p.u8bytes_per_pixel.toNat := by
  have := p.u8bytes_per_pixel.isLt
  rw [Panel.bpp, BitVec.toNat_setWidth]
  exact Nat.mod_eq_of_lt (by omega)

theorem two_le_bpp (p : Panel) : 2 ≤ p.bpp.toNat := by
  rw [toNat_bpp]
  rcases p.bytes_eq with h | h
  · rw [h]
    decide
  · rw [h]
    decide

theorem line_length_eq (p : Panel) : p.line_length.toNat = p.xres.toNat * p.bpp.toNat := by
  rw [p.line_length_eq, toNat_bpp]

theorem xres_mul_bpp (p : Panel) : p.xres * p.bpp = p.line_length := by
  apply BitVec.eq_of_toNat_eq
  rw [BitVec.toNat_mul, ← line_length_eq, Nat.mod_eq_of_lt p.line_length.isLt]

theorem mapped_lt (p : Panel) : p.yres.toNat * p.line_length.toNat < 2 ^ 32 := by
  rw [Nat.mul_comm]
  exact p.mapped_lt

theorem length_bytes (img : Image p) :
    img.bytes.length = img.output_height.toNat * (img.output_width.toNat * p.bpp.toNat) := by
  rw [img.length_eq, toNat_bpp]

/-- The step from one row of the image to the next is a row, whichever is wider. -/
theorem image_step : displayWidth p img + displayOffset p img = img.output_width * p.bpp := by
  unfold displayWidth displayOffset
  split
  · rw [← xres_mul_bpp, BitVec.add_comm, ← BitVec.add_mul, BitVec.sub_add_cancel]
  · exact BitVec.add_zero _

theorem toNat_displayWidth :
    (displayWidth p img).toNat = min img.output_width.toNat p.xres.toNat * p.bpp.toNat := by
  unfold displayWidth
  split
  case isTrue hlt => rw [line_length_eq, Nat.min_eq_right (Nat.le_of_lt hlt)]
  case isFalse hge =>
    have hle : img.output_width.toNat ≤ p.xres.toNat := Nat.le_of_not_lt hge
    have hrow := Nat.mul_le_mul_right p.bpp.toNat hle
    rw [← line_length_eq] at hrow
    rw [Nat.min_eq_left hle, BitVec.toNat_mul,
      Nat.mod_eq_of_lt (Nat.lt_of_le_of_lt hrow p.line_length.isLt)]

theorem toNat_displayHeight (img : Image p) :
    (displayHeight p img).toNat = min img.output_height.toNat p.yres.toNat := by
  unfold displayHeight
  split
  case isTrue hlt => exact (Nat.min_eq_right (Nat.le_of_lt hlt)).symm
  case isFalse hge => exact (Nat.min_eq_left (Nat.le_of_not_lt hge)).symm

/-- The loop makes no more passes than the lower picture has rows, and as many unless the
panel has no columns. -/
theorem toInt_displayHeight (img : Image p) :
    (displayHeight p img).toInt.toNat ≤ min img.output_height.toNat p.yres.toNat ∧
      (0 < p.xres.toNat → (displayHeight p img).toInt.toNat =
        min img.output_height.toNat p.yres.toNat) := by
  have hmapped := mapped_lt p
  have hheight := toNat_displayHeight img
  rw [BitVec.toInt_eq_toNat_cond]
  constructor
  · split <;> omega
  · intro hx
    have hline : 2 ≤ p.line_length.toNat := by
      rw [line_length_eq]
      exact Nat.le_trans (two_le_bpp p) (Nat.le_mul_of_pos_left _ hx)
    have := Nat.mul_le_mul_left p.yres.toNat hline
    rw [if_pos (by omega)]
    omega

end Sizes

/-! ## The loop -/

section Loop
variable {p : Panel} {img : Image p} {st : RenderSt} {k : Nat}

/-- The mapped bytes show the first `k` rows. -/
abbrev Shows (p : Panel) (img : Image p) (k : Nat) (lcm : List Byte) : Prop :=
  Clipped (p.xres.toNat * p.bpp.toNat) p.yres.toNat k
    (min img.output_width.toNat p.xres.toNat * p.bpp.toNat)
    (img.output_width.toNat * p.bpp.toNat) img.bytes lcm

/-- Before the pass `k`. -/
structure RenderInv (p : Panel) (img : Image p) (k : Nat) (st : RenderSt) : Prop where
  panel : st.pLCMBuffer2.toNat = k * (p.xres.toNat * p.bpp.toNat)
  image : st.frame_buffer.toNat = k * (img.output_width.toNat * p.bpp.toNat)
  shows : Shows p img k st.lcm

theorem toNat_add_row {ptr step : BitVec 32} {row rows : Nat} (hptr : ptr.toNat = k * row)
    (hstep : step.toNat = row % 2 ^ 32) (hk : k < rows) (hrows : rows * row < 2 ^ 32) :
    (ptr + step).toNat = (k + 1) * row := by
  have hle := Nat.mul_le_mul_right row hk
  rw [Nat.succ_mul] at hle ⊢
  rw [BitVec.toNat_add, hstep, hptr, Nat.mod_eq_of_lt (a := row) (by omega)]
  exact Nat.mod_eq_of_lt (by omega)

/-- **One pass** copies one row, inside both buffers. -/
theorem RenderInv.row (h : RenderInv p img k st) (hy : k < p.yres.toNat)
    (hh : k < img.output_height.toNat) :
    ∃ st', renderRow p img st = some st' ∧ RenderInv p img (k + 1) st' := by
  have hread : k * (img.output_width.toNat * p.bpp.toNat) +
      min img.output_width.toNat p.xres.toNat * p.bpp.toNat ≤ img.bytes.length := by
    have hrow := Nat.mul_le_mul_right (img.output_width.toNat * p.bpp.toNat) hh
    have hmin := Nat.mul_le_mul_right p.bpp.toNat
      (Nat.min_le_left img.output_width.toNat p.xres.toNat)
    rw [Nat.succ_mul] at hrow
    rw [length_bytes]
    omega
  obtain ⟨lcm, hcopy, hclip⟩ := h.shows.row hy
    (Nat.mul_le_mul_right _ (Nat.min_le_right _ _)) hread
  refine ⟨⟨st.pLCMBuffer2 + p.xres * p.bpp,
    st.frame_buffer + (displayWidth p img + displayOffset p img), lcm⟩, ?_, ?_, ?_, hclip⟩
  · rw [renderRow, h.panel, h.image, toNat_displayWidth, hcopy]
    rfl
  · apply toNat_add_row h.panel (BitVec.toNat_mul _ _) hy
    rw [← line_length_eq]
    exact mapped_lt p
  · apply toNat_add_row h.image ?_ hh
    · rw [← length_bytes]
      exact img.length_lt
    · rw [image_step, BitVec.toNat_mul]

/-- **`n` passes.** -/
theorem RenderInv.rows {n : Nat} (h : RenderInv p img k st) (hy : k + n ≤ p.yres.toNat)
    (hh : k + n ≤ img.output_height.toNat) :
    ∃ st', renderRows p img n st = some st' ∧ RenderInv p img (k + n) st' := by
  induction n generalizing k st with
  | zero => exact ⟨st, rfl, h⟩
  | succ n ih =>
    obtain ⟨st', hst', hinv⟩ := h.row (by omega) (by omega)
    obtain ⟨st'', hst'', hinv'⟩ := ih hinv (by omega) (by omega)
    refine ⟨st'', ?_, ?_⟩
    · rw [renderRows, hst']
      exact hst''
    · rw [Nat.add_assoc, Nat.add_comm 1] at hinv'
      exact hinv'

theorem clear_eq (lcm : LcmBuffer p) :
    clear p lcm.bytes = some
      (List.replicate (p.yres.toNat * (p.xres.toNat * p.bpp.toNat)) 0) := by
  have hlen : (p.line_length * p.yres).toNat = lcm.bytes.length := by
    rw [BitVec.toNat_mul, Nat.mod_eq_of_lt p.mapped_lt, lcm.length_eq]
  rw [clear, hlen, memcpy, List.length_replicate, if_pos (by omega), blit, List.take_zero,
    List.nil_append, List.length_replicate, Nat.zero_add, List.drop_length, List.append_nil,
    lcm.length_eq, line_length_eq, Nat.mul_comm]

theorem rowByRow_eq (p : Panel) (img : Image p) :
    ∃ lcm, rowByRow p img (List.replicate (p.yres.toNat * (p.xres.toNat * p.bpp.toNat)) 0) =
        some lcm ∧
      Shows p img (min img.output_height.toNat p.yres.toNat) lcm := by
  have hstart : RenderInv p img 0
      ⟨0, 0, List.replicate (p.yres.toNat * (p.xres.toNat * p.bpp.toNat)) 0⟩ :=
    ⟨by rw [Nat.zero_mul]; rfl, by rw [Nat.zero_mul]; rfl, clipped_zero⟩
  obtain ⟨hle, heq⟩ := toInt_displayHeight img
  obtain ⟨st, hst, hinv⟩ := hstart.rows (n := (displayHeight p img).toInt.toNat)
    (by omega) (by omega)
  refine ⟨st.lcm, by rw [rowByRow, hst]; rfl, ?_⟩
  have hshows := hinv.shows
  rw [Nat.zero_add] at hshows
  rcases Nat.eq_zero_or_pos p.xres.toNat with hx | hx
  · unfold Shows at hshows ⊢
    rw [hx, Nat.zero_mul] at hshows ⊢
    exact hshows.of_stride_zero
  · rw [heq hx] at hshows
    exact hshows

theorem copy_eq (hw : img.output_width = p.xres) (hh : img.output_height = p.yres) :
    ∃ lcm, copyFrom (List.replicate (p.yres.toNat * (p.xres.toNat * p.bpp.toNat)) 0) 0 img.bytes 0
        (p.xres * p.yres * p.bpp).toNat = some lcm ∧
      Shows p img (min img.output_height.toNat p.yres.toNat) lcm := by
  have hmapped := mapped_lt p
  have hsize : (p.xres * p.yres * p.bpp).toNat =
      p.yres.toNat * (p.xres.toNat * p.bpp.toNat) := by
    rw [BitVec.mul_comm p.xres, BitVec.mul_assoc, xres_mul_bpp, BitVec.toNat_mul,
      Nat.mod_eq_of_lt hmapped, line_length_eq]
  have hlen := length_bytes img
  rw [hw, hh] at hlen
  unfold Shows
  rw [hsize, hw, hh, Nat.min_self, Nat.min_self]
  exact clipped_copy List.length_replicate hlen

end Loop

/-- **The decoded image reaches the panel clipped**: no access leaves the mapped bytes or
the image, each pixel of the panel is the image's or zero, and the single copy for equal
sizes leaves what the loop would. -/
theorem display_clipped (p : Panel) (img : Image p) (lcm : LcmBuffer p) :
    (∃ lcm', display p img lcm.bytes = some lcm' ∧ lcm'.length = lcm.bytes.length ∧
      ∀ x y, x < p.xres.toNat → y < p.yres.toNat →
        pixel p.bpp.toNat p.xres.toNat lcm' x y =
          if x < min img.output_width.toNat p.xres.toNat ∧
              y < min img.output_height.toNat p.yres.toNat
          then pixel p.bpp.toNat img.output_width.toNat img.bytes x y
          else List.replicate p.bpp.toNat 0) ∧
    display p img lcm.bytes = (clear p lcm.bytes).bind (rowByRow p img) := by
  obtain ⟨rows, hrows, hshows⟩ := rowByRow_eq p img
  have hpath : display p img lcm.bytes = some rows := by
    rw [display, clear_eq, Option.bind_some]
    split
    case isTrue h =>
      obtain ⟨copied, hcopied, hshows'⟩ := copy_eq h.1 h.2
      rw [hcopied, hshows'.unique hshows]
    case isFalse => exact hrows
  refine ⟨⟨rows, hpath, ?_, fun x y hx hy => hshows.pixel hx hy⟩, ?_⟩
  · rw [hshows.length_eq, lcm.length_eq, line_length_eq, Nat.mul_comm]
  · rw [hpath, clear_eq, Option.bind_some, hrows]

end N32905.IjgJpeg
