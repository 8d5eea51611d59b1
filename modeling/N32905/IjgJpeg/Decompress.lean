import Mathlib.Data.List.Basic
import N32905.IjgJpeg.Convert
import N32905.IjgJpeg.Display

/-!
# From the scanlines to the panel

`decompress` of `ijg_jpeg_demo.c` once the library has decoded: the scanlines are copied
into `frame_buffer`, `frame_buffer` is converted to the panel's pixels, in place or through
a second buffer, and shown. A decoded pixel has 1 to 4 bytes, a pixel of the panel 2 or 4.
-/

namespace N32905.IjgJpeg

open N32905.Lib

/-! ## The model -/

/-- What the library gives out. The buffers of the image are objects in the memory of a 32-bit
machine. -/
structure Decoded where
  output_width : BitVec 32
  output_height : BitVec 32
  output_components : Nat
  scanlines : List (List Byte)
  components_mem : 1 ≤ output_components ∧ output_components ≤ 4
  length_scanlines : scanlines.length = output_height.toNat
  length_scanline : ∀ l ∈ scanlines, l.length = output_width.toNat * output_components
  fits : output_height.toNat * (output_width.toNat * 4) < 2 ^ 32

/-- What `malloc` returns the `k`-th time. -/
structure Heap where
  malloc : Nat → Nat → List Byte
  length_malloc : ∀ k n, (malloc k n).length = n

def Panel.bits_per_pixel (p : Panel) : Nat := 8 * p.u8bytes_per_pixel.toNat

def Decoded.pixels (d : Decoded) : Nat := d.output_height.toNat * d.output_width.toNat

def Decoded.row_stride (d : Decoded) : Nat := d.output_width.toNat * d.output_components

def readScanlines (d : Decoded) (frame_buffer : List Byte) : Option (List Byte) :=
  passes (fun fb output_scanline => do
    let buffer ← d.scanlines[output_scanline]?
    memcpy fb (output_scanline * d.row_stride) buffer) frame_buffer d.output_height.toNat

def store4 (buf : List Byte) (i : Nat) (b0 b1 b2 b3 : Byte) : Option (List Byte) := do
  let buf ← memcpy buf (i * 4) [b0]
  let buf ← memcpy buf (i * 4 + 1) [b1]
  let buf ← memcpy buf (i * 4 + 2) [b2]
  memcpy buf (i * 4 + 3) [b3]

def expand2 (frame_buffer buf : List Byte) (i : Nat) : Option (List Byte) := do
  let lo ← frame_buffer[i * 2]?
  let hi ← frame_buffer[i * 2 + 1]?
  let pu16Temp : BitVec 16 := hi ++ lo
  let u8R := (((pu16Temp &&& 0xF800) >>> 11).setWidth 8 : Byte) <<< 3
  let u8G := (((pu16Temp &&& 0x07E0) >>> 5).setWidth 8 : Byte) <<< 2
  let u8B := ((pu16Temp &&& 0x001F).setWidth 8 : Byte) <<< 3
  store4 buf i u8B u8G u8R 0x00

def expand3 (frame_buffer buf : List Byte) (i : Nat) : Option (List Byte) := do
  let r ← frame_buffer[i * 3]?
  let g ← frame_buffer[i * 3 + 1]?
  let b ← frame_buffer[i * 3 + 2]?
  store4 buf i b g r 0x00

def grey (p : Panel) (src buf : List Byte) (i : Nat) : Option (List Byte) := do
  let y ← src[i]?
  if p.bits_per_pixel = 16 then storeRgb buf i (rgb565 y y y)
  else store4 buf i y y y y

section Decompress
variable (p : Panel) (heap : Heap)

/-- A conversion through `_frame_buffer`, which is copied to a new `frame_buffer`. -/
def through (convert : List Byte → List Byte → Nat → Option (List Byte)) (n : Nat)
    (frame_buffer : List Byte) : Option (List Byte) := do
  let size := n * p.u8bytes_per_pixel.toNat
  let _frame_buffer ← passes (convert frame_buffer) (heap.malloc 1 size) n
  copyFrom (heap.malloc 2 size) 0 _frame_buffer 0 size

/-- The conversion of `n` pixels to those of the panel. -/
def converted (output_components n : Nat) (frame_buffer : List Byte) : Option (List Byte) :=
  if output_components = 2 then
    if p.bits_per_pixel = 32 then through p heap expand2 n frame_buffer else some frame_buffer
  else if output_components = 3 then
    if p.bits_per_pixel = 16 then passes convert3 frame_buffer n
    else through p heap expand3 n frame_buffer
  else if output_components = 4 then
    if p.bits_per_pixel = 16 then passes convert4 frame_buffer n else some frame_buffer
  else if output_components = 1 then do
    let _frame_buffer ← copyFrom (heap.malloc 1 n) 0 frame_buffer 0 n
    passes (grey p _frame_buffer) (heap.malloc 2 (n * p.u8bytes_per_pixel.toNat)) n
  else some frame_buffer

/-- `decompress` from the first scanline on. Of a buffer converted in place the rendering gets the
part that was converted. -/
def decompress (d : Decoded) (lcm : List Byte) : Option (List Byte) := do
  let frame_buffer ← readScanlines d (heap.malloc 0 (d.pixels * d.output_components))
  let frame_buffer ← converted p heap d.output_components d.pixels frame_buffer
  let bytes := frame_buffer.take (d.pixels * p.u8bytes_per_pixel.toNat)
  if h : bytes.length = d.output_height.toNat * (d.output_width.toNat * p.u8bytes_per_pixel.toNat) ∧
      bytes.length < 2 ^ 32 then
    display p ⟨d.output_width, d.output_height, bytes, h.1, h.2⟩ lcm
  else none

end Decompress

/-! ## Colours -/

def Rgb.of565 (w : Nat) : Rgb :=
  ⟨BitVec.ofNat 8 (w / 2048 * 8), BitVec.ofNat 8 (w / 32 % 64 * 4), BitVec.ofNat 8 (w % 32 * 8)⟩

def Rgb.cut (c : Rgb) : Rgb := Rgb.of565 c.to565

def colour : Nat → List Byte → Rgb
  | 1, [y] => ⟨y, y, y⟩
  | 2, [lo, hi] => Rgb.of565 (leVal [lo, hi])
  | 3, [r, g, b] => ⟨r, g, b⟩
  | 4, [b, g, r, _] => ⟨r, g, b⟩
  | _, _ => ⟨0, 0, 0⟩

/-- A colour as the panel can show it. -/
def Rgb.onPanel (p : Panel) (c : Rgb) : Rgb := if p.u8bytes_per_pixel = 2 then c.cut else c

/-- The bytes of pixel `i`. -/
def stretch (size : Nat) (bytes : List Byte) (i : Nat) : List Byte := (bytes.drop (i * size)).take size

/-- The first `n` pixels of `buf` are those of `src` on the panel. -/
structure Converted (p : Panel) (comps n : Nat) (src buf : List Byte) : Prop where
  length_ge : n * p.u8bytes_per_pixel.toNat ≤ buf.length
  colour : ∀ i < n, colour p.u8bytes_per_pixel.toNat (stretch p.u8bytes_per_pixel.toNat buf i) =
    (colour comps (stretch comps src i)).onPanel p

/-! ## One pixel -/

section Pixel
variable {src buf : List Byte} {i n : Nat}

theorem stretch_succ {k m : Nat} (h : k < src.length) :
    (src.drop k).take (m + 1) = src.getD k 0 :: (src.drop (k + 1)).take m := by
  rw [List.drop_eq_getElem_cons h, List.take_succ_cons, List.getD_eq_getElem?_getD,
    List.getElem?_eq_getElem h, Option.getD_some]

theorem getElem?_eq_getD {k : Nat} (h : k < src.length) : src[k]? = some (src.getD k 0) := by
  rw [List.getD_eq_getElem?_getD, List.getElem?_eq_getElem h, Option.getD_some]

theorem stretch3 (h : i * 3 + 3 ≤ src.length) : stretch 3 src i =
    [src.getD (i * 3) 0, src.getD (i * 3 + 1) 0, src.getD (i * 3 + 2) 0] := by
  rw [stretch, stretch_succ (by omega), stretch_succ (by omega), stretch_succ (by omega)]
  rfl

theorem stretch4 (h : i * 4 + 4 ≤ src.length) : stretch 4 src i = [src.getD (i * 4) 0,
    src.getD (i * 4 + 1) 0, src.getD (i * 4 + 2) 0, src.getD (i * 4 + 3) 0] := by
  rw [stretch, stretch_succ (by omega), stretch_succ (by omega), stretch_succ (by omega),
    stretch_succ (by omega)]
  rfl

theorem stretch2 (h : i * 2 + 2 ≤ src.length) : stretch 2 src i =
    [src.getD (i * 2) 0, src.getD (i * 2 + 1) 0] := by
  rw [stretch, stretch_succ (by omega), stretch_succ (by omega)]
  rfl

theorem stretch1 (h : i < src.length) : stretch 1 src i = [src.getD i 0] := by
  rw [stretch, Nat.mul_one, stretch_succ h]
  rfl

theorem to565_lt (c : Rgb) : c.to565 < 2 ^ 16 := by
  have hr := c.r.isLt
  have hg := c.g.isLt
  have hb := c.b.isLt
  rw [Rgb.to565]
  omega

theorem to565_of565 {w : Nat} (h : w < 2 ^ 16) : (Rgb.of565 w).to565 = w := by
  simp only [Rgb.to565, Rgb.of565, BitVec.toNat_ofNat]
  omega

theorem leVal_lt_2 (lo hi : Byte) : leVal [lo, hi] < 2 ^ 16 := leVal_lt [lo, hi]

theorem cut_of565 {w : Nat} (h : w < 2 ^ 16) : (Rgb.of565 w).cut = Rgb.of565 w := by
  rw [Rgb.cut, to565_of565 h]

theorem colour_word (c : Rgb) : colour 2 (leBytes 2 c.to565) = c.cut := by
  have hval := leVal_leBytes 2 c.to565
  rw [Nat.mod_eq_of_lt (to565_lt c)] at hval
  change Rgb.of565 (leVal (leBytes 2 c.to565)) = _
  rw [hval, Rgb.cut]

theorem store4_eq (buf : List Byte) (i : Nat) (b0 b1 b2 b3 : Byte) :
    store4 buf i b0 b1 b2 b3 = memcpy buf (i * 4) [b0, b1, b2, b3] := by
  have h1 := memcpy_append buf [b0] [b1, b2, b3] (i * 4)
  have h2 : ∀ b, (memcpy b (i * 4 + 1) [b1]).bind (fun b => memcpy b (i * 4 + 2) [b2, b3]) =
      memcpy b (i * 4 + 1) [b1, b2, b3] := fun b => memcpy_append b [b1] [b2, b3] (i * 4 + 1)
  have h3 : ∀ b, (memcpy b (i * 4 + 2) [b2]).bind (fun b => memcpy b (i * 4 + 3) [b3]) =
      memcpy b (i * 4 + 2) [b2, b3] := fun b => memcpy_append b [b2] [b3] (i * 4 + 2)
  simp only [store4, Option.bind_eq_bind, h3, h2]
  exact h1

theorem mask_red (v : BitVec 16) : ((v &&& 0xF800) >>> 11).toNat = v.toNat / 2048 := by
  have hlt := v.isLt
  have h := Nat.and_two_pow_sub_one_eq_mod (v.toNat / 2048) 5
  rw [BitVec.ushiftRight_and_distrib, BitVec.toNat_and]
  simpa [Nat.shiftRight_eq_div_pow] using h.trans (Nat.mod_eq_of_lt (by omega))

theorem mask_green (v : BitVec 16) : ((v &&& 0x07E0) >>> 5).toNat = v.toNat / 32 % 64 := by
  have h := Nat.and_two_pow_sub_one_eq_mod (v.toNat / 32) 6
  rw [BitVec.ushiftRight_and_distrib, BitVec.toNat_and]
  simpa [Nat.shiftRight_eq_div_pow] using h

theorem mask_blue (v : BitVec 16) : (v &&& 0x001F).toNat = v.toNat % 32 := by
  have h := Nat.and_two_pow_sub_one_eq_mod v.toNat 5
  simpa [BitVec.toNat_and] using h

theorem shift_eq (v : BitVec 16) (k : Nat) :
    (v.setWidth 8 <<< k : Byte) = BitVec.ofNat 8 (v.toNat * 2 ^ k) := by
  apply BitVec.eq_of_toNat_eq
  simp [Nat.shiftLeft_eq, Nat.mod_mul_mod]

theorem expand2_colour (lo hi : Byte) :
    (⟨(((hi ++ lo : BitVec 16) &&& 0xF800) >>> 11).setWidth 8 <<< 3,
      (((hi ++ lo : BitVec 16) &&& 0x07E0) >>> 5).setWidth 8 <<< 2,
      ((hi ++ lo : BitVec 16) &&& 0x001F).setWidth 8 <<< 3⟩ : Rgb) = Rgb.of565 (leVal [lo, hi]) := by
  have hw : (hi ++ lo : BitVec 16).toNat = leVal [lo, hi] := by
    rw [BitVec.toNat_append, ← Nat.shiftLeft_add_eq_or_of_lt lo.isLt, Nat.shiftLeft_eq]
    simp [leVal]
    omega
  rw [shift_eq, shift_eq, shift_eq, mask_red, mask_green, mask_blue, hw]
  rfl

end Pixel

/-! ## The conversions -/

section Convert
variable {p : Panel} {comps n : Nat} {src buf : List Byte}

/-- Passes that store the right colours, one pixel each, behind what is still to be read. -/
theorem converted_of_passes {pass : List Byte → Nat → Option (List Byte)} {f : Nat → List Byte}
    {size : Nat} (hle : p.u8bytes_per_pixel.toNat ≤ size) (hbuf : n * size ≤ buf.length)
    (hf : ∀ i, (f i).length = p.u8bytes_per_pixel.toNat)
    (hpass : ∀ i < n, ∀ b : List Byte, (∀ j, i * size ≤ j → b[j]? = buf[j]?) →
      pass b i = memcpy b (i * p.u8bytes_per_pixel.toNat) (f i))
    (hcolour : ∀ i < n, colour p.u8bytes_per_pixel.toNat (f i) =
      (colour comps (stretch comps src i)).onPanel p) :
    ∃ buf', passes pass buf n = some buf' ∧ buf'.length = buf.length ∧
      Converted p comps n src buf' := by
  obtain ⟨hpasses, hlen⟩ := in_place hle hbuf hf hpass (Nat.le_refl n)
  have hfit : n * p.u8bytes_per_pixel.toNat ≤ buf.length :=
    Nat.le_trans (Nat.mul_le_mul_left n hle) hbuf
  have hkept : (partly ((List.range n).flatMap f) buf).length = buf.length :=
    partly_length (by rw [hlen]; exact hfit)
  refine ⟨_, hpasses, hkept, ?_, fun i hi => ?_⟩
  · rw [hkept]
    exact hfit
  · rw [stretch, partly_stretch hf hi]
    exact hcolour i hi

theorem through_converts {heap : Heap} {convert : List Byte → List Byte → Nat → Option (List Byte)}
    {f : Nat → List Byte} (hf : ∀ i, (f i).length = p.u8bytes_per_pixel.toNat)
    (hpass : ∀ i < n, ∀ b : List Byte,
      convert src b i = memcpy b (i * p.u8bytes_per_pixel.toNat) (f i))
    (hcolour : ∀ i < n, colour p.u8bytes_per_pixel.toNat (f i) =
      (colour comps (stretch comps src i)).onPanel p) :
    ∃ buf', through p heap convert n src = some buf' ∧ Converted p comps n src buf' := by
  have hmalloc : ∀ k, (heap.malloc k (n * p.u8bytes_per_pixel.toNat)).length =
      n * p.u8bytes_per_pixel.toNat := fun k => heap.length_malloc k _
  obtain ⟨buf', hrun, hlen, hconv⟩ := @converted_of_passes p comps n src
    (heap.malloc 1 (n * p.u8bytes_per_pixel.toNat)) (convert src) f _ (Nat.le_refl _) (Nat.le_of_eq (hmalloc 1).symm) hf (fun i hi b _ => hpass i hi b) hcolour
  rw [hmalloc] at hlen
  refine ⟨buf', ?_, hconv⟩
  rw [through, hrun, Option.bind_eq_bind, Option.bind_some, copyFrom, if_pos (by omega),
    List.drop_zero, List.take_of_length_le (by omega), memcpy, if_pos (by rw [hmalloc]; omega), blit,
    List.take_zero, List.nil_append, List.drop_of_length_le (by rw [hmalloc]; omega), List.append_nil]

theorem converted_same (hlen : src.length = n * comps)
    (hcomps : p.u8bytes_per_pixel.toNat = comps)
    (hcolour : ∀ i < n, colour comps (stretch comps src i) =
      (colour comps (stretch comps src i)).onPanel p) : Converted p comps n src src := by
  refine ⟨by rw [hcomps, hlen], fun i hi => ?_⟩
  rw [hcomps]
  exact hcolour i hi

theorem onPanel_two (h : p.u8bytes_per_pixel = 2) (c : Rgb) : c.onPanel p = c.cut := if_pos h

theorem onPanel_four (h : p.u8bytes_per_pixel = 4) (c : Rgb) : c.onPanel p = c := by
  rw [Rgb.onPanel, h]
  rfl

theorem panel_cases (p : Panel) :
    (p.u8bytes_per_pixel = 2 ∧ p.bits_per_pixel = 16 ∧ p.u8bytes_per_pixel.toNat = 2) ∨
      (p.u8bytes_per_pixel = 4 ∧ p.bits_per_pixel = 32 ∧ p.u8bytes_per_pixel.toNat = 4) := by
  rcases p.bytes_eq with h | h
  · exact .inl ⟨h, by rw [Panel.bits_per_pixel, h]; rfl, by rw [h]; rfl⟩
  · exact .inr ⟨h, by rw [Panel.bits_per_pixel, h]; rfl, by rw [h]; rfl⟩

theorem storeRgb_word (buf : List Byte) (i : Nat) (c : Rgb) :
    storeRgb buf i (rgb565 c.r c.g c.b) = memcpy buf (i * 2) (leBytes 2 c.to565) := by
  rw [storeRgb_eq, rgb565_toNat]

variable (p) (heap : Heap)

theorem converted_one (hlen : src.length = n * 1) :
    ∃ buf, converted p heap 1 n src = some buf ∧ Converted p 1 n src buf := by
  have hcopy : copyFrom (heap.malloc 1 n) 0 src 0 n = some src := by
    have := heap.length_malloc 1 n
    rw [copyFrom, if_pos (by omega), List.drop_zero, List.take_of_length_le (by omega), memcpy,
      if_pos (by omega), blit, List.take_zero, List.nil_append, List.drop_of_length_le (by omega),
      List.append_nil]
  have hmalloc := heap.length_malloc 2 (n * p.u8bytes_per_pixel.toNat)
  have hread : ∀ i < n, src[i]? = some (src.getD i 0) := fun i hi => getElem?_eq_getD (by omega)
  have hpixel : ∀ i < n, colour 1 (stretch 1 src i) = ⟨src.getD i 0, src.getD i 0, src.getD i 0⟩ := by
    intro i hi
    rw [stretch1 (by omega)]
    rfl
  have hgoal : ∃ buf', passes (grey p src) (heap.malloc 2 (n * p.u8bytes_per_pixel.toNat)) n =
      some buf' ∧ buf'.length = (heap.malloc 2 (n * p.u8bytes_per_pixel.toNat)).length ∧
        Converted p 1 n src buf' := by
    rcases panel_cases p with ⟨h2, hbits, hbytes⟩ | ⟨h4, hbits, hbytes⟩
    · refine converted_of_passes
        (f := fun i => leBytes 2 (Rgb.to565 ⟨src.getD i 0, src.getD i 0, src.getD i 0⟩))
        (Nat.le_refl _) (Nat.le_of_eq hmalloc.symm) (fun i => by rw [length_leBytes, hbytes])
        (fun i hi b _ => ?_) fun i hi => ?_
      · rw [grey, hread i hi, Option.bind_eq_bind, Option.bind_some, if_pos hbits, hbytes]
        exact storeRgb_word b i ⟨src.getD i 0, src.getD i 0, src.getD i 0⟩
      · rw [hbytes, colour_word, hpixel i hi, onPanel_two h2]
    · refine converted_of_passes
        (f := fun i => [src.getD i 0, src.getD i 0, src.getD i 0, src.getD i 0])
        (Nat.le_refl _) (Nat.le_of_eq hmalloc.symm) (fun i => by rw [hbytes]; rfl)
        (fun i hi b _ => ?_) fun i hi => ?_
      · rw [grey, hread i hi, Option.bind_eq_bind, Option.bind_some, if_neg (by omega), hbytes,
          store4_eq]
      · rw [hbytes, hpixel i hi, onPanel_four h4]
        rfl
  obtain ⟨buf', hrun, -, hconv⟩ := hgoal
  exact ⟨buf', by simpa [converted, hcopy] using hrun, hconv⟩

theorem converted_two (hlen : src.length = n * 2) :
    ∃ buf, converted p heap 2 n src = some buf ∧ Converted p 2 n src buf := by
  have hpixel : ∀ i < n, colour 2 (stretch 2 src i) =
      Rgb.of565 (leVal [src.getD (i * 2) 0, src.getD (i * 2 + 1) 0]) := by
    intro i hi
    rw [stretch2 (by omega)]
    rfl
  rcases panel_cases p with ⟨h2, hbits, hbytes⟩ | ⟨h4, hbits, hbytes⟩
  · refine ⟨src, by simp [converted, hbits], converted_same hlen hbytes fun i hi => ?_⟩
    rw [hpixel i hi, onPanel_two h2, cut_of565 (leVal_lt_2 _ _)]
  · rw [converted, if_pos rfl, if_pos hbits]
    let c := fun i => Rgb.of565 (leVal [src.getD (i * 2) 0, src.getD (i * 2 + 1) 0])
    refine through_converts (f := fun i => [(c i).b, (c i).g, (c i).r, 0])
      (fun i => by rw [hbytes]; rfl) (fun i hi b => ?_) fun i hi => ?_
    · rw [expand2, getElem?_eq_getD (by omega), getElem?_eq_getD (by omega), hbytes, ← store4_eq]
      simp only [c, ← expand2_colour]
      rfl
    · rw [hbytes, hpixel i hi, onPanel_four h4]
      rfl

theorem converted_three (hlen : src.length = n * 3) :
    ∃ buf, converted p heap 3 n src = some buf ∧ Converted p 3 n src buf := by
  have hpixel : ∀ i < n, colour 3 (stretch 3 src i) = rgbPixel src i := by
    intro i hi
    rw [stretch3 (by omega)]
    rfl
  rcases panel_cases p with ⟨h2, hbits, hbytes⟩ | ⟨h4, hbits, hbytes⟩
  · obtain ⟨buf', hrun, -, hconv⟩ := @converted_of_passes p 3 n src src convert3
      (fun i => leBytes 2 (rgbPixel src i).to565) 3 (by rw [hbytes]; omega) (by omega) (fun i => by rw [length_leBytes, hbytes])
      (fun i hi b hb => by rw [convert3_pass src b i (by omega) hb, storeRgb_word, hbytes])
      fun i hi => by rw [hbytes, colour_word, hpixel i hi, onPanel_two h2]
    exact ⟨buf', by simpa [converted, hbits] using hrun, hconv⟩
  · rw [converted, if_neg (by omega), if_pos rfl, if_neg (by omega)]
    refine through_converts
      (f := fun i => [(rgbPixel src i).b, (rgbPixel src i).g, (rgbPixel src i).r, 0])
      (fun i => by rw [hbytes]; rfl) (fun i hi b => ?_) fun i hi => ?_
    · rw [expand3, getElem?_eq_getD (by omega), getElem?_eq_getD (by omega),
        getElem?_eq_getD (by omega), hbytes, ← store4_eq]
      rfl
    · rw [hbytes, hpixel i hi, onPanel_four h4]
      rfl

theorem converted_four (hlen : src.length = n * 4) :
    ∃ buf, converted p heap 4 n src = some buf ∧ Converted p 4 n src buf := by
  have hpixel : ∀ i < n, colour 4 (stretch 4 src i) = bgraPixel src i := by
    intro i hi
    rw [stretch4 (by omega)]
    rfl
  rcases panel_cases p with ⟨h2, hbits, hbytes⟩ | ⟨h4, hbits, hbytes⟩
  · obtain ⟨buf', hrun, -, hconv⟩ := @converted_of_passes p 4 n src src convert4
      (fun i => leBytes 2 (bgraPixel src i).to565) 4 (by rw [hbytes]; omega) (by omega) (fun i => by rw [length_leBytes, hbytes])
      (fun i hi b hb => by rw [convert4_pass src b i (by omega) hb, storeRgb_word, hbytes])
      fun i hi => by rw [hbytes, colour_word, hpixel i hi, onPanel_two h2]
    exact ⟨buf', by simpa [converted, hbits] using hrun, hconv⟩
  · refine ⟨src, by simp [converted, hbits], converted_same hlen hbytes fun i hi => ?_⟩
    rw [onPanel_four h4]

/-- **The conversion**, of any number of pixels, from and to any kind of pixel. -/
theorem converted_eq {comps : Nat} (hcomps : 1 ≤ comps ∧ comps ≤ 4)
    (hlen : src.length = n * comps) :
    ∃ buf, converted p heap comps n src = some buf ∧ Converted p comps n src buf := by
  have hcases : comps = 1 ∨ comps = 2 ∨ comps = 3 ∨ comps = 4 := by omega
  rcases hcases with rfl | rfl | rfl | rfl
  · exact converted_one p heap hlen
  · exact converted_two p heap hlen
  · exact converted_three p heap hlen
  · exact converted_four p heap hlen

end Convert

/-! ## The whole -/

section Whole
variable (p : Panel) (d : Decoded)

theorem getElem_scanlines {k : Nat} (hk : k < d.output_height.toNat) :
    ∃ l, d.scanlines[k]? = some l ∧ l.length = d.row_stride ∧
      (d.scanlines.take (k + 1)).flatten = (d.scanlines.take k).flatten ++ l := by
  have hlt : k < d.scanlines.length := by
    rw [d.length_scanlines]
    exact hk
  refine ⟨d.scanlines[k], List.getElem?_eq_getElem hlt, d.length_scanline _ (List.getElem_mem hlt), ?_⟩
  rw [List.take_add_one, List.getElem?_eq_getElem hlt, List.flatten_append]
  simp

theorem readScanlines_step {frame_buffer : List Byte} {k : Nat} (hk : k ≤ d.output_height.toNat)
    (hlen : frame_buffer.length = d.output_height.toNat * d.row_stride) :
    (List.range k).foldlM (fun fb output_scanline => do
        let buffer ← d.scanlines[output_scanline]?
        memcpy fb (output_scanline * d.row_stride) buffer) frame_buffer =
      some (partly (d.scanlines.take k).flatten frame_buffer) ∧
    (d.scanlines.take k).flatten.length = k * d.row_stride := by
  induction k with
  | zero => exact ⟨by simp [partly], by simp⟩
  | succ k ih =>
    obtain ⟨hrun, hflat⟩ := ih (by omega)
    obtain ⟨l, hget, hl, hsucc⟩ := getElem_scanlines d hk
    have hfit : (k + 1) * d.row_stride ≤ d.output_height.toNat * d.row_stride :=
      Nat.mul_le_mul_right _ hk
    rw [Nat.succ_mul] at hfit
    constructor
    · rw [List.range_succ, List.foldlM_append, hrun, Option.bind_eq_bind, Option.bind_some,
        List.foldlM_cons, hget, Option.bind_eq_bind, Option.bind_some, ← hflat,
        memcpy_partly (by omega), hsucc]
      rfl
    · rw [hsucc, List.length_append, hflat, hl, Nat.succ_mul]

theorem readScanlines_eq {frame_buffer : List Byte}
    (hlen : frame_buffer.length = d.pixels * d.output_components) :
    readScanlines d frame_buffer = some d.scanlines.flatten ∧
      d.scanlines.flatten.length = d.pixels * d.output_components := by
  have hsize : d.pixels * d.output_components = d.output_height.toNat * d.row_stride :=
    Nat.mul_assoc _ _ _
  rw [hsize] at hlen ⊢
  obtain ⟨hrun, hflat⟩ := readScanlines_step d (Nat.le_refl _) hlen
  rw [← d.length_scanlines, List.take_length, d.length_scanlines] at hflat hrun
  refine ⟨?_, hflat⟩
  rw [readScanlines, passes, hrun, partly, List.drop_of_length_le (by omega), List.append_nil]

theorem flatten_piece {rows : List (List Byte)} {size o m y : Nat}
    (hrows : ∀ l ∈ rows, l.length = size) (hy : y < rows.length) (ho : o + m ≤ size) :
    (rows.flatten.drop (y * size + o)).take m = ((rows.getD y []).drop o).take m := by
  induction rows generalizing y with
  | nil => cases hy
  | cons l ls ih =>
    have hl := hrows l (by simp)
    rw [List.flatten_cons]
    cases y with
    | zero =>
      rw [Nat.zero_mul, Nat.zero_add, List.drop_append_of_le_length (by omega),
        List.take_append_of_le_length (by rw [List.length_drop]; omega)]
      rfl
    | succ y =>
      rw [Nat.succ_mul, Nat.add_assoc, Nat.add_comm, Nat.add_assoc, Nat.add_comm o, ← hl,
        ← List.drop_drop, List.drop_left]
      rw [hl]
      exact ih (fun l hl => hrows l (by simp [hl])) (by simpa using hy)

theorem display_shows {p : Panel} (img : Image p) (lcm : LcmBuffer p) : ∃ lcm',
    display p img lcm.bytes = some lcm' ∧
      Shows p img (min img.output_height.toNat p.yres.toNat) lcm' := by
  rw [display, clear_eq, Option.bind_some]
  split
  case isTrue h => exact copy_eq h.1 h.2
  case isFalse => exact rowByRow_eq p img

def Decoded.colour (d : Decoded) (x y : Nat) : Rgb :=
  IjgJpeg.colour d.output_components (stretch d.output_components (d.scanlines.getD y []) x)

theorem stretch_scanlines {x y : Nat} (hx : x < d.output_width.toNat)
    (hy : y < d.output_height.toNat) :
    IjgJpeg.colour d.output_components
        (stretch d.output_components d.scanlines.flatten (y * d.output_width.toNat + x)) =
      d.colour x y := by
  have hfit := Nat.mul_le_mul_right d.output_components hx
  rw [Nat.succ_mul] at hfit
  rw [Decoded.colour, stretch, Nat.add_mul, Nat.mul_assoc,
    flatten_piece d.length_scanline (by rw [d.length_scanlines]; exact hy) hfit]
  rfl

/-- **Every pixel has its colour**: whatever the decoder puts out and whatever the panel is, no
access leaves a buffer, and each pixel of the panel that the image reaches shows the colour decoded
there, the others are black. A panel of 16 bits shows the first 5, 6 and 5 bits of it. -/
theorem decompress_shows (heap : Heap) (lcm : LcmBuffer p) : ∃ lcm',
    decompress p heap d lcm.bytes = some lcm' ∧ lcm'.length = lcm.bytes.length ∧
      ∀ x y, x < p.xres.toNat → y < p.yres.toNat →
        if x < d.output_width.toNat ∧ y < d.output_height.toNat then
          colour p.u8bytes_per_pixel.toNat
            (pixel p.u8bytes_per_pixel.toNat p.xres.toNat lcm' x y) = (d.colour x y).onPanel p
        else pixel p.u8bytes_per_pixel.toNat p.xres.toNat lcm' x y =
          List.replicate p.u8bytes_per_pixel.toNat 0 := by
  obtain ⟨hread, hlen⟩ := readScanlines_eq d (heap.length_malloc 0 _)
  obtain ⟨buf, hconv, hshown⟩ := converted_eq p heap d.components_mem hlen
  have hbpp : p.u8bytes_per_pixel.toNat ≤ 4 := by
    rcases panel_cases p with ⟨-, -, h⟩ | ⟨-, -, h⟩ <;> omega
  have hsize : (buf.take (d.pixels * p.u8bytes_per_pixel.toNat)).length =
      d.output_height.toNat * (d.output_width.toNat * p.u8bytes_per_pixel.toNat) := by
    rw [List.length_take, Nat.min_eq_left hshown.length_ge]
    exact Nat.mul_assoc _ _ _
  have hlt : (buf.take (d.pixels * p.u8bytes_per_pixel.toNat)).length < 2 ^ 32 := by
    rw [hsize]
    exact Nat.lt_of_le_of_lt (Nat.mul_le_mul_left _ (Nat.mul_le_mul_left _ hbpp)) d.fits
  obtain ⟨lcm', hdisplay, hshows⟩ := display_shows
    ⟨d.output_width, d.output_height, _, hsize, hlt⟩ lcm
  refine ⟨lcm', ?_, ?_, fun x y hx hy => ?_⟩
  · rw [decompress, hread, Option.bind_eq_bind, Option.bind_some, hconv, Option.bind_some]
    exact (dif_pos ⟨hsize, hlt⟩).trans hdisplay
  · rw [hshows.length_eq, lcm.length_eq, line_length_eq, Nat.mul_comm]
  · have hpixel := hshows.pixel hx hy
    rw [toNat_bpp] at hpixel
    dsimp only at hpixel
    rw [hpixel]
    by_cases hin : x < d.output_width.toNat ∧ y < d.output_height.toNat
    · have hlt : y * d.output_width.toNat + x < d.pixels := row_add_lt hin.1 hin.2
      rw [if_pos hin, if_pos (by omega), ← stretch_scanlines d hin.1 hin.2, ← hshown.colour _ hlt]
      congr 1
      rw [pixel, stretch, List.drop_take, List.take_take, Nat.min_eq_left]
      rw [← Nat.sub_mul]
      exact Nat.le_mul_of_pos_left _ (by omega)
    · rw [if_neg hin, if_neg (by omega)]

end Whole

/-! ### A red pixel on two of 16 bits -/

def twoPixels : Panel where
  xres := 2
  yres := 1
  line_length := 4
  u8bytes_per_pixel := 2
  bytes_eq := .inl rfl
  line_length_eq := rfl
  mapped_lt := by decide

def redPixel : Decoded where
  output_width := 1
  output_height := 1
  output_components := 3
  scanlines := [[0xFF, 0x07, 0x00]]
  components_mem := by decide
  length_scanlines := rfl
  length_scanline := by decide
  fits := by decide

def zeroHeap : Heap where
  malloc _ n := List.replicate n 0
  length_malloc _ _ := List.length_replicate

theorem decompress_shows_red : ∃ lcm',
    decompress twoPixels zeroHeap redPixel [0x55, 0x55, 0x55, 0x55] = some lcm' ∧
      colour 2 (pixel 2 2 lcm' 0 0) = ⟨0xF8, 0x04, 0x00⟩ ∧ pixel 2 2 lcm' 1 0 = [0, 0] := by
  obtain ⟨lcm', hrun, -, hshows⟩ :=
    decompress_shows twoPixels redPixel zeroHeap (⟨[0x55, 0x55, 0x55, 0x55], rfl⟩ : LcmBuffer twoPixels)
  have hleft := hshows 0 0 (by decide) (by decide)
  have hright := hshows 1 0 (by decide) (by decide)
  rw [if_pos (by decide)] at hleft
  rw [if_neg (by decide)] at hright
  exact ⟨lcm', hrun, hleft.trans (by decide), hright⟩

end N32905.IjgJpeg
