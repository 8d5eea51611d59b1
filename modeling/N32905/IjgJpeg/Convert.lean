import N32905.Lib.InPlace

/-!
# RGB565 in place

`decompress` of `ijg_jpeg_demo.c` turns the decoded pixels of three or four bytes
into the panel's 16-bit pixels, in the buffer they were decoded to.
-/

namespace N32905.IjgJpeg

open N32905.Lib

/-! ## The model -/

/-- The decoded image: `output_width * output_height` pixels of `output_components` bytes. -/
structure FrameBuffer (output_components : Nat) where
  pixels : Nat
  bytes : List Byte
  length_eq : bytes.length = pixels * output_components

/-- `((r >> 3) << 11) | ((g >> 2) << 5) | (b >> 3)`. -/
def rgb565 (r g b : Byte) : BitVec 16 :=
  (r.setWidth 16 >>> 3) <<< 11 ||| (g.setWidth 16 >>> 2) <<< 5 ||| b.setWidth 16 >>> 3

def storeRgb (frame_buffer : List Byte) (i : Nat) (rgb : BitVec 16) : Option (List Byte) := do
  let frame_buffer ← memcpy frame_buffer (i * 2) [(rgb &&& 0x00FF).setWidth 8]
  memcpy frame_buffer (i * 2 + 1) [((rgb &&& 0xFF00) >>> 8).setWidth 8]

def convert3 (frame_buffer : List Byte) (i : Nat) : Option (List Byte) := do
  let r ← frame_buffer[i * 3]?
  let g ← frame_buffer[i * 3 + 1]?
  let b ← frame_buffer[i * 3 + 2]?
  storeRgb frame_buffer i (rgb565 r g b)

def convert4 (frame_buffer : List Byte) (i : Nat) : Option (List Byte) := do
  let b ← frame_buffer[i * 4]?
  let g ← frame_buffer[i * 4 + 1]?
  let r ← frame_buffer[i * 4 + 2]?
  let _a ← frame_buffer[i * 4 + 3]?
  storeRgb frame_buffer i (rgb565 r g b)

/-- The buffer after `k` passes; `none` is an access outside of it. -/
def passes (convert : List Byte → Nat → Option (List Byte)) (frame_buffer : List Byte) (k : Nat) :
    Option (List Byte) :=
  (List.range k).foldlM convert frame_buffer

/-! ## The colours -/

structure Rgb where
  r : Byte
  g : Byte
  b : Byte
  deriving DecidableEq

def Rgb.to565 (c : Rgb) : Nat := c.r.toNat / 8 * 2048 + c.g.toNat / 4 * 32 + c.b.toNat / 8

def rgbPixel (src : List Byte) (i : Nat) : Rgb where
  r := src.getD (i * 3) 0
  g := src.getD (i * 3 + 1) 0
  b := src.getD (i * 3 + 2) 0

def bgraPixel (src : List Byte) (i : Nat) : Rgb where
  b := src.getD (i * 4) 0
  g := src.getD (i * 4 + 1) 0
  r := src.getD (i * 4 + 2) 0

/-- The conversion of `n` pixels into a buffer of their own. -/
def apart (px : Nat → Rgb) (n : Nat) : List Byte :=
  (List.range n).flatMap fun i => leBytes 2 (px i).to565

theorem rgb565_toNat (c : Rgb) : (rgb565 c.r c.g c.b).toNat = c.to565 := by
  have hr := c.r.isLt
  have hg := c.g.isLt
  have hb := c.b.isLt
  have hg' : (c.g.toNat / 4) <<< 5 < 2 ^ 11 := by rw [Nat.shiftLeft_eq]; omega
  have hb' : c.b.toNat / 8 < 2 ^ 5 := by omega
  have hrg : (c.r.toNat / 8) <<< 11 ||| (c.g.toNat / 4) <<< 5 =
      (c.r.toNat / 8 * 64 + c.g.toNat / 4) <<< 5 := by
    rw [← Nat.shiftLeft_add_eq_or_of_lt hg', Nat.shiftLeft_eq, Nat.shiftLeft_eq, Nat.shiftLeft_eq]
    omega
  have hred : ((c.r.setWidth 16 >>> 3) <<< 11 : BitVec 16).toNat = (c.r.toNat / 8) <<< 11 := by
    simp [Nat.shiftRight_eq_div_pow, Nat.shiftLeft_eq]
    omega
  have hgreen : ((c.g.setWidth 16 >>> 2) <<< 5 : BitVec 16).toNat = (c.g.toNat / 4) <<< 5 := by
    simp [Nat.shiftRight_eq_div_pow, Nat.shiftLeft_eq]
    omega
  have hblue : (c.b.setWidth 16 >>> 3 : BitVec 16).toNat = c.b.toNat / 8 := by
    simp [Nat.shiftRight_eq_div_pow]
    omega
  rw [rgb565, BitVec.toNat_or, BitVec.toNat_or, hred, hgreen, hblue, hrg, ← Nat.shiftLeft_add_eq_or_of_lt hb', Nat.shiftLeft_eq, Rgb.to565]
  omega

theorem storeRgb_eq (frame_buffer : List Byte) (i : Nat) (rgb : BitVec 16) :
    storeRgb frame_buffer i rgb = memcpy frame_buffer (i * 2) (leBytes 2 rgb.toNat) := by
  have hlow : (rgb &&& 0x00FF).setWidth 8 = BitVec.ofNat 8 rgb.toNat := by
    apply BitVec.eq_of_toNat_eq
    have hmask := Nat.and_two_pow_sub_one_eq_mod (rgb.toNat % 256) 8
    simpa using hmask
  have hhigh : ((rgb &&& 0xFF00) >>> 8).setWidth 8 = BitVec.ofNat 8 (rgb.toNat / 256) := by
    rw [BitVec.ushiftRight_and_distrib]
    apply BitVec.eq_of_toNat_eq
    have hmask := Nat.and_two_pow_sub_one_eq_mod (rgb.toNat / 256 % 256) 8
    simpa [Nat.shiftRight_eq_div_pow] using hmask
  have htwo := memcpy_append frame_buffer [BitVec.ofNat 8 rgb.toNat]
    [BitVec.ofNat 8 (rgb.toNat / 256)] (i * 2)
  rw [storeRgb, hlow, hhigh]
  exact htwo

/-! ## The loops -/

theorem getElem?_unread {buf src : List Byte} {lo j : Nat} (h : ∀ j, lo ≤ j → buf[j]? = src[j]?)
    (hlo : lo ≤ j) (hj : j < src.length) : buf[j]? = some (src.getD j 0) := by
  rw [h j hlo, List.getD_eq_getElem?_getD, List.getElem?_eq_getElem hj, Option.getD_some]

/-- The loop over `convert` is the conversion into a buffer of its own: it stays inside, changes
nothing behind the converted pixels, and still finds every pixel when it comes to it. -/
def ConvertsInPlace (output_components : Nat) (convert : List Byte → Nat → Option (List Byte))
    (px : List Byte → Nat → Rgb) : Prop :=
  ∀ fb : FrameBuffer output_components,
    (∃ buf, passes convert fb.bytes fb.pixels = some buf ∧
      buf.take (fb.pixels * 2) = apart (px fb.bytes) fb.pixels ∧
      buf.drop (fb.pixels * 2) = fb.bytes.drop (fb.pixels * 2)) ∧
    ∀ k ≤ fb.pixels, ∃ buf, passes convert fb.bytes k = some buf ∧
      buf.drop (k * output_components) = fb.bytes.drop (k * output_components)

theorem convertsInPlace_of_pass {comps : Nat} {convert : List Byte → Nat → Option (List Byte)}
    {px : List Byte → Nat → Rgb} (hcomps : 2 ≤ comps)
    (hpass : ∀ (src buf : List Byte) i, i * comps + comps ≤ src.length →
      (∀ j, i * comps ≤ j → buf[j]? = src[j]?) →
      convert buf i = storeRgb buf i (rgb565 (px src i).r (px src i).g (px src i).b)) :
    ConvertsInPlace comps convert px := by
  intro fb
  have hrun : ∀ k ≤ fb.pixels, passes convert fb.bytes k =
      some (partly (apart (px fb.bytes) k) fb.bytes) ∧ (apart (px fb.bytes) k).length = k * 2 := by
    intro k hk
    refine in_place hcomps (Nat.le_of_eq fb.length_eq.symm) (fun i => length_leBytes _ _) ?_ hk
    intro i hi buf hbuf
    have hfit := Nat.mul_le_mul_right comps hi
    rw [Nat.succ_mul, ← fb.length_eq] at hfit
    rw [hpass fb.bytes buf i hfit hbuf, storeRgb_eq, rgb565_toNat]
  constructor
  · obtain ⟨hpasses, hlen⟩ := hrun _ (Nat.le_refl _)
    refine ⟨_, hpasses, ?_, partly_drop (Nat.le_of_eq hlen)⟩
    rw [partly, List.take_left' hlen]
  · intro k hk
    obtain ⟨hpasses, hlen⟩ := hrun k hk
    exact ⟨_, hpasses, partly_drop (by rw [hlen]; exact Nat.mul_le_mul_left k hcomps)⟩

theorem convert3_pass (src buf : List Byte) (i : Nat) (hfit : i * 3 + 3 ≤ src.length)
    (hbuf : ∀ j, i * 3 ≤ j → buf[j]? = src[j]?) :
    convert3 buf i =
      storeRgb buf i (rgb565 (rgbPixel src i).r (rgbPixel src i).g (rgbPixel src i).b) := by
  unfold convert3
  rw [getElem?_unread hbuf (by omega) (by omega), getElem?_unread hbuf (by omega) (by omega),
    getElem?_unread hbuf (by omega) (by omega)]
  rfl

theorem convert4_pass (src buf : List Byte) (i : Nat) (hfit : i * 4 + 4 ≤ src.length)
    (hbuf : ∀ j, i * 4 ≤ j → buf[j]? = src[j]?) :
    convert4 buf i =
      storeRgb buf i (rgb565 (bgraPixel src i).r (bgraPixel src i).g (bgraPixel src i).b) := by
  unfold convert4
  rw [getElem?_unread hbuf (by omega) (by omega), getElem?_unread hbuf (by omega) (by omega),
    getElem?_unread hbuf (by omega) (by omega), getElem?_unread hbuf (by omega) (by omega)]
  rfl

/-- **In-place conversion**, of any number of pixels. -/
theorem conversion_in_place :
    ConvertsInPlace 3 convert3 rgbPixel ∧ ConvertsInPlace 4 convert4 bgraPixel :=
  ⟨convertsInPlace_of_pass (by omega) convert3_pass, convertsInPlace_of_pass (by omega) convert4_pass⟩

/-- A white and a blue pixel; the last two bytes are left over. -/
example : passes convert3 [0xFF, 0xFF, 0xFF, 0, 0, 0xFF] 2 =
    some [0xFF, 0xFF, 0x1F, 0, 0, 0xFF] := by decide

end N32905.IjgJpeg
