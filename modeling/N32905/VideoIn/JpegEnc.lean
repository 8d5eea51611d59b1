import N32905.VideoIn.Zoom

/-!
# `JpegEncFromVIN`

The encoder of `JpegEnc.c` takes a planar picture at a physical address. It tells the
engine where the U and V planes are, how large the picture is and its stride. A window
smaller than the picture asked for is encoded as it is and scaled up.

The tests on the window mix a signed and an unsigned number and are unsigned. The EXIF
header is written after the engine is done and is left out.
-/

namespace N32905.VideoIn

/-! ## The model -/

inductive ImageResol where
  | qvga | wqvga | vga | svga | hd720
  deriving DecidableEq

/-- `u32Width` and `u32Height`. -/
def ImageResol.width : ImageResol → BitVec 32
  | .wqvga => 480
  | .vga => 640
  | .svga => 800
  | .hd720 => 1280
  | .qvga => 320

def ImageResol.height : ImageResol → BitVec 32
  | .wqvga => 272
  | .vga => 480
  | .svga => 600
  | .hd720 => 720
  | .qvga => 240

/-- `E_JPEG_ENC_THB_SUPP`. -/
inductive JpegEncThb where
  | none | qqvga | qvga
  deriving DecidableEq

/-- The fields of `s_sJpegParam` the function sets. -/
structure JpegParam where
  encode_image_format : BitVec 32
  encode_source_format : BitVec 32
  scale : BitVec 32
  scaled_width : BitVec 32
  scaled_height : BitVec 32
  encode_width : BitVec 32
  encode_height : BitVec 32
  deriving DecidableEq

def DRVJPEG_ENC_PRIMARY_YUV422 : BitVec 32 := 0xA8
def DRVJPEG_ENC_SRC_PLANAR : BitVec 32 := 0

inductive JpegIoctl where
  | setYAddress (a : BitVec 32)
  | setUAddress (a : BitVec 32)
  | setVAddress (a : BitVec 32)
  | setReserved (size : BitVec 32)
  | setStride (stride : BitVec 32)
  | setParam (p : JpegParam)
  | setThumbnail (n : BitVec 32)
  | trigger
  deriving DecidableEq

def JpegIoctl.checked : JpegIoctl → Bool
  | .setReserved _ | .setStride _ | .setThumbnail _ => false
  | _ => true

/-- The requests that are made of `reqs`, and whether all checked ones succeed. -/
def send (fails : JpegIoctl → Bool) : List JpegIoctl → List JpegIoctl × Bool
  | [] => ([], true)
  | r :: reqs =>
    if r.checked && fails r then ([r], false)
    else ((r :: (send fails reqs).1), (send fails reqs).2)

/-- What a call meets: the requests that fail, and `image_size[0]` if the bitstream can
be read. -/
structure EncEnv where
  fails : JpegIoctl → Bool
  read : Option (BitVec 32)

/-- The result (`none` is -1), the parameters and the requests made. -/
structure EncResult where
  len : Option (BitVec 32)
  param : JpegParam
  log : List JpegIoctl

section
variable (resol : ImageResol) (crop : Rect)

/-- `u32PlanarUBufPhyAddr`. -/
def planeU (Y : BitVec 32) : BitVec 32 :=
  if crop.width > resol.width then Y + resol.width * resol.height
  else Y + crop.width * crop.height

/-- `u32PlanarVBufPhyAddr`. The fields of the window are signed, and so is their half. -/
def planeV (Y : BitVec 32) : BitVec 32 :=
  if crop.width > resol.width then planeU resol crop Y + resol.width * resol.height / 2
  else planeU resol crop Y + (crop.width * crop.height).sdiv 2

def upscales : Bool := crop.width < resol.width || crop.height < resol.height

/-- The size of the source, and of the picture if that is larger. -/
def sourceParam (p : JpegParam) : JpegParam :=
  let p := { p with encode_image_format := DRVJPEG_ENC_PRIMARY_YUV422
                    encode_source_format := DRVJPEG_ENC_SRC_PLANAR }
  if upscales resol crop then
    { p with scaled_width := resol.width, scaled_height := resol.height
             encode_width := crop.width, encode_height := crop.height, scale := 1 }
  else { p with scale := 0, encode_width := resol.width, encode_height := resol.height }

/-- The argument of `JPEG_SET_ENC_STRIDE`; where the window is scaled up it is the value of
the comparison `c.width > u32Width`. -/
def sourceStride : BitVec 32 :=
  if upscales resol crop then (if crop.width > resol.width then 1 else 0) else resol.width

def planeRequests (Y : BitVec 32) : List JpegIoctl :=
  [.setYAddress Y, .setUAddress (planeU resol crop Y), .setVAddress (planeV resol crop Y)]

/-- The requests behind them, with the parameters `p`. -/
def sourceRequests (thb : JpegEncThb) (p : JpegParam) : List JpegIoctl :=
  (if thb ≠ .none then [.setReserved 0x84] else []) ++
    [.setStride (sourceStride resol crop), .setParam p] ++
    (if thb ≠ .none then [.setThumbnail (if thb = .qqvga then 1 else 0)] else []) ++ [.trigger]

def jpegEncFromVIN (Y : BitVec 32) (thb : JpegEncThb) (env : EncEnv) (p : JpegParam) : EncResult :=
  match send env.fails (planeRequests resol crop Y) with
  | (log, false) => ⟨none, p, log⟩
  | (log, true) =>
    let p := sourceParam resol crop p
    let (log', ok) := send env.fails (sourceRequests resol crop thb p)
    ⟨if ok then env.read else none, p, log ++ log'⟩

end

/-! ## One source image -/

/-- The values handed to the engine describe one planar YUV422 image at `Y`. -/
def DescribesSource (Y : BitVec 32) (log : List JpegIoctl) : Prop :=
  ∀ U V stride p, .setUAddress U ∈ log → .setVAddress V ∈ log → .setStride stride ∈ log →
    .setParam p ∈ log →
    U.toNat = Y.toNat + p.encode_width.toNat * p.encode_height.toNat ∧
      V.toNat = U.toNat + p.encode_width.toNat * p.encode_height.toNat / 2 ∧
      stride = p.encode_width

/-- The planes of an image of `area` pixels at `Y` end below 2^32. -/
def PlanesFit (Y : BitVec 32) (area : Nat) : Prop := Y.toNat + area + area / 2 < 2 ^ 32

section Source
variable {resol : ImageResol} {crop : Rect} {Y : BitVec 32} {thb : JpegEncThb} {env : EncEnv}
  {p : JpegParam}

theorem mem_send {fails : JpegIoctl → Bool} {reqs : List JpegIoctl} {r : JpegIoctl}
    (h : r ∈ (send fails reqs).1) : r ∈ reqs := by
  induction reqs with
  | nil => exact h
  | cons q reqs ih =>
    unfold send at h
    split at h
    · exact List.mem_cons.2 (.inl (List.mem_singleton.1 h))
    · exact List.mem_cons.2 ((List.mem_cons.1 h).imp_right ih)

theorem send_all {fails : JpegIoctl → Bool} {reqs : List JpegIoctl} (h : ∀ r, fails r = false) :
    send fails reqs = (reqs, true) := by
  induction reqs with
  | nil => rfl
  | cons q reqs ih =>
    unfold send
    rw [h, Bool.and_false, if_neg Bool.false_ne_true, ih]

theorem mem_log {r : JpegIoctl} (h : r ∈ (jpegEncFromVIN resol crop Y thb env p).log) :
    r ∈ planeRequests resol crop Y ++ sourceRequests resol crop thb (sourceParam resol crop p) := by
  unfold jpegEncFromVIN at h
  split at h
  · rename_i log hsend
    have hlog : log = (send env.fails (planeRequests resol crop Y)).1 := by rw [hsend]
    exact List.mem_append_left _ (mem_send (hlog ▸ h))
  · rename_i log hsend
    have hlog : log = (send env.fails (planeRequests resol crop Y)).1 := by rw [hsend]
    rcases List.mem_append.1 h with h | h
    · exact List.mem_append_left _ (mem_send (hlog ▸ h))
    · exact List.mem_append_right _ (mem_send h)

theorem log_all (h : ∀ r, env.fails r = false) : (jpegEncFromVIN resol crop Y thb env p).log =
    planeRequests resol crop Y ++ sourceRequests resol crop thb (sourceParam resol crop p) := by
  simp only [jpegEncFromVIN, send_all h]

theorem mem_requests (resol : ImageResol) (crop : Rect) (Y : BitVec 32) (thb : JpegEncThb)
    (q : JpegParam) :
    let reqs := planeRequests resol crop Y ++ sourceRequests resol crop thb q
    (∀ U, .setUAddress U ∈ reqs ↔ U = planeU resol crop Y) ∧
      (∀ V, .setVAddress V ∈ reqs ↔ V = planeV resol crop Y) ∧
      (∀ stride, .setStride stride ∈ reqs ↔ stride = sourceStride resol crop) ∧
      ∀ p, .setParam p ∈ reqs ↔ p = q := by
  cases thb <;> simp [planeRequests, sourceRequests]

/-- The values of a call with the source `w` x `h`. -/
def SourceAgrees (resol : ImageResol) (crop : Rect) (Y w h : BitVec 32) : Prop :=
  (planeU resol crop Y).toNat = Y.toNat + w.toNat * h.toNat ∧
    (planeV resol crop Y).toNat = (planeU resol crop Y).toNat + w.toNat * h.toNat / 2 ∧
    sourceStride resol crop = w

/-- The size of the source does not depend on the parameters of earlier calls. -/
theorem sourceParam_size (resol : ImageResol) (crop : Rect) (p : JpegParam) :
    ((sourceParam resol crop p).encode_width, (sourceParam resol crop p).encode_height) =
      if upscales resol crop then (crop.width, crop.height) else (resol.width, resol.height) := by
  unfold sourceParam
  dsimp only
  split <;> rfl

theorem describes_iff :
    (∀ env p, DescribesSource Y (jpegEncFromVIN resol crop Y thb env p).log) ↔
      if upscales resol crop then SourceAgrees resol crop Y crop.width crop.height
      else SourceAgrees resol crop Y resol.width resol.height := by
  have hsize := sourceParam_size resol crop
  have hagrees : ∀ p, SourceAgrees resol crop Y (sourceParam resol crop p).encode_width
      (sourceParam resol crop p).encode_height ↔
        if upscales resol crop then SourceAgrees resol crop Y crop.width crop.height
        else SourceAgrees resol crop Y resol.width resol.height := by
    intro p
    have := hsize p
    split at this
    all_goals
      rename_i hup
      rw [(Prod.mk.inj this).1, (Prod.mk.inj this).2]
      simp only [hup, if_true, if_false, Bool.false_eq_true]
  constructor
  · intro h
    let p : JpegParam := ⟨0, 0, 0, 0, 0, 0, 0⟩
    obtain ⟨hU, hV, hstride, hp⟩ := mem_requests resol crop Y thb
      (sourceParam resol crop p)
    have hall := h ⟨fun _ => false, none⟩ p
    rw [log_all fun _ => rfl] at hall
    exact (hagrees p).1 (hall _ _ _ _ ((hU _).2 rfl) ((hV _).2 rfl) ((hstride _).2 rfl)
      ((hp _).2 rfl))
  · intro h env p U V stride q hU hV hstride hq
    obtain ⟨hU', hV', hstride', hp'⟩ := mem_requests resol crop Y thb
      (sourceParam resol crop p)
    rw [(hU' U).1 (mem_log hU), (hV' V).1 (mem_log hV), (hstride' stride).1 (mem_log hstride),
      (hp' q).1 (mem_log hq)]
    exact (hagrees p).2 h

end Source

/-! ## Where the values agree -/

section Agree
variable {resol : ImageResol} {crop : Rect} {Y : BitVec 32}

theorem upscales_iff (resol : ImageResol) (crop : Rect) : upscales resol crop = true ↔
    crop.width.toNat < resol.width.toNat ∨ crop.height.toNat < resol.height.toNat := by
  simp only [upscales, Bool.or_eq_true, decide_eq_true_eq, BitVec.lt_def]

theorem not_agrees_of_upscales (hup : upscales resol crop = true) (hw : 0 < crop.width.toInt) :
    ¬ SourceAgrees resol crop Y crop.width crop.height := by
  rintro ⟨-, -, hstride⟩
  rw [sourceStride, if_pos hup] at hstride
  split at hstride
  · rename_i hgt
    rw [gt_iff_lt, BitVec.lt_def, ← hstride] at hgt
    cases resol <;> exact absurd hgt (by decide)
  · rw [← hstride] at hw
    exact absurd hw (by decide)

theorem toNat_add_mul {x y : BitVec 32} (h : PlanesFit Y (x.toNat * y.toNat)) :
    (Y + x * y).toNat = Y.toNat + x.toNat * y.toNat := by
  unfold PlanesFit at h
  rw [BitVec.toNat_add, BitVec.toNat_mul, Nat.add_mod_mod, Nat.mod_eq_of_lt (by omega)]

theorem half_area (resol : ImageResol) :
    (resol.width * resol.height / 2).toNat = resol.width.toNat * resol.height.toNat / 2 ∧
      (resol.width * resol.height).sdiv 2 = resol.width * resol.height / 2 := by
  cases resol <;> decide

theorem planes_agree (hfit : PlanesFit Y (resol.width.toNat * resol.height.toNat)) :
    (Y + resol.width * resol.height).toNat = Y.toNat + resol.width.toNat * resol.height.toNat ∧
      (Y + resol.width * resol.height + resol.width * resol.height / 2).toNat =
        (Y + resol.width * resol.height).toNat + resol.width.toNat * resol.height.toNat / 2 := by
  have hU := toNat_add_mul hfit
  refine ⟨hU, ?_⟩
  unfold PlanesFit at hfit
  rw [BitVec.toNat_add, hU, (half_area resol).1, Nat.mod_eq_of_lt hfit]

/-- Without scaling, the planes are those of the picture if the window is wider, and those
of the window if it is as wide. -/
theorem agrees_iff_of_not_upscales (hup : ¬ upscales resol crop = true)
    (hfit : PlanesFit Y (resol.width.toNat * resol.height.toNat))
    (hcrop : PlanesFit Y (crop.width.toNat * crop.height.toNat)) :
    SourceAgrees resol crop Y resol.width resol.height ↔
      resol.width.toNat < crop.width.toNat ∨ crop.height.toNat = resol.height.toNat := by
  have hstride : sourceStride resol crop = resol.width := by rw [sourceStride, if_neg hup]
  obtain ⟨hU, hV⟩ := planes_agree hfit
  rw [upscales_iff] at hup
  by_cases hgt : resol.width.toNat < crop.width.toNat
  · have hwider : crop.width > resol.width := BitVec.lt_def.2 hgt
    refine iff_of_true ⟨?_, ?_, hstride⟩ (.inl hgt)
    · rw [planeU, if_pos hwider, hU]
    · rw [planeV, planeU, if_pos hwider, if_pos hwider, hV]
  · have hwidth : crop.width = resol.width := BitVec.eq_of_toNat_eq (by omega)
    have hwider : ¬ crop.width > resol.width := by rwa [gt_iff_lt, BitVec.lt_def]
    rw [or_iff_right hgt]
    constructor
    · rintro ⟨hagree, -, -⟩
      rw [planeU, if_neg hwider, toNat_add_mul hcrop, hwidth] at hagree
      have hpos : 0 < resol.width.toNat := by cases resol <;> decide
      exact Nat.eq_of_mul_eq_mul_left hpos (Nat.add_left_cancel hagree)
    · intro hheight
      have hheight : crop.height = resol.height := BitVec.eq_of_toNat_eq hheight
      refine ⟨?_, ?_, hstride⟩
      · rw [planeU, if_neg hwider, hwidth, hheight, hU]
      · rw [planeV, planeU, if_neg hwider, if_neg hwider, hwidth, hheight, (half_area resol).2, hV]

end Agree

/-- **The parameters of a planar source** agree, whatever fails and whatever was encoded
before, exactly if the window is not scaled up, and is wider than the picture or as high. -/
theorem planar_source_iff (resol : ImageResol) (crop : Rect) (Y : BitVec 32) (thb : JpegEncThb)
    (hw : 0 < crop.width.toInt)
    (hfit : PlanesFit Y (resol.width.toNat * resol.height.toNat))
    (hcrop : PlanesFit Y (crop.width.toNat * crop.height.toNat)) :
    (∀ env p, DescribesSource Y (jpegEncFromVIN resol crop Y thb env p).log) ↔
      resol.width.toNat ≤ crop.width.toNat ∧ resol.height.toNat ≤ crop.height.toNat ∧
        (resol.width.toNat < crop.width.toNat ∨ crop.height.toNat = resol.height.toNat) := by
  have hup := upscales_iff resol crop
  rw [describes_iff]
  split
  case isTrue h =>
    refine iff_of_false (not_agrees_of_upscales h hw) ?_
    rw [hup] at h
    omega
  case isFalse h =>
    rw [agrees_iff_of_not_upscales h hfit hcrop]
    rw [hup] at h
    omega

/-- A window of 640 x 480 for a VGA picture. -/
theorem planar_source_vga :
    PlanesFit 0x1000000 (640 * 480) ∧
      ∀ env p, DescribesSource 0x1000000
        (jpegEncFromVIN .vga ⟨0, 0, 640, 480⟩ 0x1000000 .none env p).log := by
  have hfit : PlanesFit 0x1000000 (640 * 480) := by
    unfold PlanesFit
    decide
  exact ⟨hfit, (planar_source_iff .vga ⟨0, 0, 640, 480⟩ 0x1000000 .none (by decide) hfit hfit).2
    (by decide)⟩

/-- The window zoomed in to 320 x 240: scaled up, with stride 0. A window of 640 x 600: the
planes are 600 lines apart, the source has 480. -/
theorem planar_source_disagrees :
    (¬ ∀ env p, DescribesSource 0x1000000
      (jpegEncFromVIN .vga ⟨160, 120, 320, 240⟩ 0x1000000 .none env p).log) ∧
    ¬ ∀ env p, DescribesSource 0x1000000
      (jpegEncFromVIN .vga ⟨0, 0, 640, 600⟩ 0x1000000 .none env p).log := by
  rw [describes_iff, describes_iff]
  unfold SourceAgrees
  decide

end N32905.VideoIn
