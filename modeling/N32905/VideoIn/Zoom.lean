import Mathlib.Data.List.Induction
import Mathlib.Data.Nat.Init
import Mathlib.Tactic.Ring

/-!
# The zoom window

`Zooming` of `V4L.c`. The rectangle of a `v4l2_crop` has signed fields, the steps
of a `v4l2_cropcap` are unsigned, so each comparison with a step is unsigned: a
step larger than the window gives a difference near 2^32, and the guard lets it
through.

The two directions are handled alike, with `and` between their guards; `Axis` is
one of them. After `k` more zoom-ins than zoom-outs the window is `k` steps
narrower (`Axis.At`).
-/

namespace N32905.VideoIn

/-! ## The model -/

/-- `struct v4l2_rect`; the fields are `__s32`. -/
structure Rect where
  left : BitVec 32
  top : BitVec 32
  width : BitVec 32
  height : BitVec 32
  deriving DecidableEq

/-- What `Zooming` reads of a `struct v4l2_cropcap`: `denominator` is the step in x
direction, `numerator` the one in y direction. -/
structure V4l2Cropcap where
  defrect : Rect
  numerator : BitVec 32
  denominator : BitVec 32

/-- `struct v4l2_cropcap` as a driver may report it. -/
structure CropCap extends V4l2Cropcap where
  width_pos : 0 < defrect.width.toInt
  height_pos : 0 < defrect.height.toInt
  denominator_pos : 0 < denominator.toNat
  denominator_le : denominator.toNat ≤ defrect.width.toNat
  numerator_pos : 0 < numerator.toNat
  numerator_le : numerator.toNat ≤ defrect.height.toNat

def ERR_V4L_SUCCESS : Int := 0

/-- A call of `Zooming`: `ctrl`, and which of its `ioctl` calls succeed. -/
structure ZoomCall where
  ctrl : BitVec 32
  cropcap : Bool
  gCrop : Bool
  sCrop : Bool

/-- `QueryV4LZoomInfo`: the window the driver has. -/
def queryV4LZoomInfo (crop : Rect) (call : ZoomCall) : Int × Option Rect :=
  if call.cropcap = false then (-1, none)
  else if call.gCrop = false then (-1, none)
  else (ERR_V4L_SUCCESS, some crop)

/-- `Zooming`: its result, and the window the driver has after it. -/
def V4l2Cropcap.zooming (cap : V4l2Cropcap) (crop : Rect) (call : ZoomCall) : Int × Rect :=
  match queryV4LZoomInfo crop call with
  | (_, none) => (-1, crop)
  | (err, some psVideoCrop) =>
    if call.ctrl = 1 then
      if cap.defrect.width.sdiv 8 ≤ psVideoCrop.width - cap.denominator ∧
          cap.defrect.height.sdiv 8 ≤ psVideoCrop.height - cap.numerator then
        let psVideoCrop : Rect :=
          { width := psVideoCrop.width - cap.denominator
            height := psVideoCrop.height - cap.numerator
            left := psVideoCrop.left + cap.denominator / 2
            top := psVideoCrop.top + cap.numerator / 2 }
        if call.sCrop then (err, psVideoCrop) else (-1, crop)
      else (err, crop)
    else
      if psVideoCrop.width + cap.denominator ≤ cap.defrect.width ∧
          psVideoCrop.height + cap.numerator ≤ cap.defrect.height then
        let psVideoCrop : Rect :=
          { width := psVideoCrop.width + cap.denominator
            height := psVideoCrop.height + cap.numerator
            left := psVideoCrop.left - cap.denominator / 2
            top := psVideoCrop.top - cap.numerator / 2 }
        if call.sCrop then (err, psVideoCrop) else (-1, crop)
      else (err, crop)

def zooming (cap : CropCap) (crop : Rect) (call : ZoomCall) : Int × Rect :=
  cap.toV4l2Cropcap.zooming crop call

def windowAfter (cap : CropCap) (calls : List ZoomCall) : Rect :=
  calls.foldl (fun crop call => (zooming cap crop call).2) cap.defrect

/-! ## One direction -/

structure Axis where
  pos : BitVec 32
  size : BitVec 32
  step : BitVec 32
  size_pos : 0 < size.toInt
  step_pos : 0 < step.toNat
  step_le : step.toNat ≤ size.toNat

def CropCap.x (cap : CropCap) : Axis :=
  ⟨cap.defrect.left, cap.defrect.width, cap.denominator, cap.width_pos, cap.denominator_pos,
    cap.denominator_le⟩

def CropCap.y (cap : CropCap) : Axis :=
  ⟨cap.defrect.top, cap.defrect.height, cap.numerator, cap.height_pos, cap.numerator_pos,
    cap.numerator_le⟩

namespace Axis

variable (a : Axis)

/-- Inside the default rectangle, positive, and not below an eighth. -/
def Keeps (pos size : BitVec 32) : Prop :=
  a.pos.toInt ≤ pos.toInt ∧ pos.toInt + size.toInt ≤ a.pos.toInt + a.size.toInt ∧
    0 < size.toInt ∧ a.size.toInt / 8 ≤ size.toInt

def steps : Nat := (a.size.toNat - max 1 (a.size.toNat / 8)) / a.step.toNat

/-- The window after `k` steps. -/
def At (k : Nat) (pos size : BitVec 32) : Prop :=
  size.toNat + k * a.step.toNat = a.size.toNat ∧
    pos = a.pos + BitVec.ofNat 32 (k * (a.step.toNat / 2))

variable {a} {k : Nat} {pos size : BitVec 32}

theorem toInt_size (a : Axis) : a.size.toInt = a.size.toNat := by
  have := a.size_pos
  rw [BitVec.toInt_eq_toNat_cond] at this ⊢
  split
  · rfl
  · have := a.size.isLt
    omega

theorem size_lt (a : Axis) : 0 < a.size.toNat ∧ a.size.toNat < 2 ^ 31 := by
  have h := a.toInt_size
  have hpos := a.size_pos
  rw [BitVec.toInt_eq_toNat_cond] at h hpos
  split at h
  · omega
  · omega

theorem le_steps_iff : k ≤ a.steps ↔ max 1 (a.size.toNat / 8) + k * a.step.toNat ≤ a.size.toNat := by
  have := a.size_lt
  unfold steps
  rw [Nat.le_div_iff_mul_le a.step_pos]
  omega

theorem toNat_eighth (a : Axis) : (a.size.sdiv 8).toNat = a.size.toNat / 8 := by
  have hmsb : a.size.msb = false := by
    rw [BitVec.msb_eq_false_iff_two_mul_lt]
    have := a.size_lt
    omega
  rw [BitVec.sdiv_eq, hmsb]
  exact BitVec.toNat_udiv

theorem in_guard_iff (hle : size.toNat ≤ a.size.toNat) :
    a.size.sdiv 8 ≤ size - a.step ↔
      size.toNat < a.step.toNat ∨ a.size.toNat / 8 + a.step.toNat ≤ size.toNat := by
  have := a.size_lt
  have := a.step_le
  rw [BitVec.le_def, toNat_eighth, BitVec.toNat_sub]
  omega

theorem At.zoom_in (h : a.At k pos size) (hk : k + 1 ≤ a.steps) :
    a.size.sdiv 8 ≤ size - a.step ∧ a.At (k + 1) (pos + a.step / 2) (size - a.step) := by
  obtain ⟨hsize, rfl⟩ := h
  rw [le_steps_iff, Nat.succ_mul] at hk
  have := a.size_lt
  refine ⟨(in_guard_iff (by omega)).2 (.inr (by omega)), ?_, ?_⟩
  · rw [BitVec.toNat_sub, Nat.succ_mul]
    omega
  · rw [BitVec.add_assoc]
    congr 1
    apply BitVec.eq_of_toNat_eq
    rw [BitVec.toNat_add, BitVec.toNat_udiv, BitVec.toNat_ofNat, BitVec.toNat_ofNat, Nat.succ_mul]
    simp

theorem At.zoom_out (h : a.At (k + 1) pos size) :
    size + a.step ≤ a.size ∧ a.At k (pos - a.step / 2) (size + a.step) := by
  obtain ⟨hsize, rfl⟩ := h
  rw [Nat.succ_mul] at hsize
  have := a.size_lt
  have hadd : (size + a.step).toNat = size.toNat + a.step.toNat := by
    rw [BitVec.toNat_add]
    exact Nat.mod_eq_of_lt (by omega)
  refine ⟨by rw [BitVec.le_def]; omega, by omega, ?_⟩
  rw [BitVec.sub_eq_iff_eq_add, BitVec.add_assoc]
  congr 1
  apply BitVec.eq_of_toNat_eq
  rw [BitVec.toNat_add, BitVec.toNat_udiv, BitVec.toNat_ofNat, BitVec.toNat_ofNat, Nat.succ_mul]
  simp

theorem At.not_zoom_out (h : a.At 0 pos size) : ¬ size + a.step ≤ a.size := by
  have := a.size_lt
  have := a.step_le
  have := a.step_pos
  have hsize := h.1
  rw [BitVec.le_def, BitVec.toNat_add]
  omega

/-- Whether the guard stops at the limit: it does if the remainder is below an eighth. -/
theorem At.stops_iff (h : a.At a.steps pos size) :
    ¬ a.size.sdiv 8 ≤ size - a.step ↔ a.size.toNat % a.step.toNat < a.size.toNat / 8 := by
  have hle : size.toNat ≤ a.size.toNat := by
    have := h.1
    omega
  have hlast : ¬ a.steps + 1 ≤ a.steps := by omega
  have hsteps := le_steps_iff.1 (Nat.le_refl a.steps)
  rw [le_steps_iff, Nat.succ_mul] at hlast
  have hsize := h.1
  rw [in_guard_iff hle, not_or, Nat.not_lt, Nat.not_le]
  -- the rest of the division is what is left after some more steps
  have hmod : a.size.toNat % a.step.toNat = size.toNat % a.step.toNat := by
    rw [← hsize, Nat.add_mul_mod_self_right]
  rw [hmod]
  constructor
  · rintro ⟨hstep, hlt⟩
    rw [Nat.mod_eq_sub_mod hstep]
    have := Nat.mod_le (size.toNat - a.step.toNat) a.step.toNat
    omega
  · intro hlt
    rcases Nat.lt_or_ge size.toNat a.step.toNat with hsmall | hge
    · rw [Nat.mod_eq_of_lt hsmall] at hlt
      omega
    · refine ⟨hge, ?_⟩
      omega

theorem At.past (h : a.At a.steps pos size) (hguard : a.size.sdiv 8 ≤ size - a.step) :
    ¬ 0 < (size - a.step).toInt := by
  have hle : size.toNat ≤ a.size.toNat := by
    have := h.1
    omega
  have hlast : ¬ a.steps + 1 ≤ a.steps := by omega
  rw [le_steps_iff, Nat.succ_mul] at hlast
  have hsize := h.1
  have := a.size_lt
  have := a.step_le
  rw [in_guard_iff hle] at hguard
  rw [BitVec.toInt_eq_toNat_cond, BitVec.toNat_sub]
  split <;> omega

theorem At.keeps_iff (h : a.At k pos size) (hk : k ≤ a.steps) :
    a.Keeps pos size ↔ a.pos.toInt + k * (a.step.toNat / 2) < 2 ^ 31 := by
  obtain ⟨hsize, rfl⟩ := h
  rw [le_steps_iff] at hk
  have := a.size_lt
  have hhalf : 2 * (k * (a.step.toNat / 2)) ≤ k * a.step.toNat := by
    rw [Nat.mul_left_comm]
    exact Nat.mul_le_mul_left k (Nat.mul_div_le _ 2)
  have hint : size.toInt = size.toNat := by
    rw [BitVec.toInt_eq_toNat_cond, if_pos (by omega)]
  -- the position moves by less than 2^31, so it is right or wraps to below the default
  have hcast : (k : Int) * ((a.step.toNat : Int) / 2) = (k * (a.step.toNat / 2) : Nat) := by
    push_cast
    rfl
  have hpos : (a.pos + BitVec.ofNat 32 (k * (a.step.toNat / 2))).toInt =
      if a.pos.toInt + (k * (a.step.toNat / 2) : Nat) < 2 ^ 31
      then a.pos.toInt + (k * (a.step.toNat / 2) : Nat)
      else a.pos.toInt + (k * (a.step.toNat / 2) : Nat) - 2 ^ 32 := by
    have := a.pos.isLt
    rw [BitVec.toInt_eq_toNat_cond, BitVec.toInt_eq_toNat_cond, BitVec.toNat_add,
      BitVec.toNat_ofNat]
    omega
  unfold Keeps
  rw [a.toInt_size, hint, hpos, hcast]
  split <;> omega

/-- Both directions have made the steps that the narrower one allows. Its guard lets
another step pass unless it is that one and stops. -/
theorem At.guard_at_min {b : Axis} (h : a.At (min a.steps b.steps) pos size)
    (hstop : ¬ (a.steps ≤ b.steps ∧ a.size.toNat % a.step.toNat < a.size.toNat / 8)) :
    a.size.sdiv 8 ≤ size - a.step := by
  rcases Nat.lt_or_ge b.steps a.steps with hlt | hle
  · exact (h.zoom_in (by omega)).1
  · rw [Nat.min_eq_left hle] at h
    by_contra hguard
    exact hstop ⟨hle, h.stops_iff.1 hguard⟩

end Axis

/-! ## Both directions -/

def Rect.Inside (crop defrect : Rect) : Prop :=
  (defrect.left.toInt ≤ crop.left.toInt ∧
    crop.left.toInt + crop.width.toInt ≤ defrect.left.toInt + defrect.width.toInt) ∧
  defrect.top.toInt ≤ crop.top.toInt ∧
    crop.top.toInt + crop.height.toInt ≤ defrect.top.toInt + defrect.height.toInt

/-- The window is inside the default rectangle, and keeps a positive size of at least an
eighth. -/
def Contained (cap : CropCap) (crop : Rect) : Prop :=
  crop.Inside cap.defrect ∧ 0 < crop.width.toInt ∧ 0 < crop.height.toInt ∧
    cap.defrect.width.toInt / 8 ≤ crop.width.toInt ∧
    cap.defrect.height.toInt / 8 ≤ crop.height.toInt

/-- The direction that allows fewer steps stops at its limit. -/
def CropCap.Stops (cap : CropCap) : Prop :=
  (cap.x.steps ≤ cap.y.steps ∧
    cap.defrect.width.toNat % cap.denominator.toNat < cap.defrect.width.toNat / 8) ∨
  (cap.y.steps ≤ cap.x.steps ∧
    cap.defrect.height.toNat % cap.numerator.toNat < cap.defrect.height.toNat / 8)

/-- The most steps that leave the window wide and high enough. -/
def CropCap.maxZoom (cap : CropCap) : Nat := min cap.x.steps cap.y.steps

/-- The window after `k` steps. -/
def CropCap.Window (cap : CropCap) (k : Nat) (crop : Rect) : Prop :=
  cap.x.At k crop.left crop.width ∧ cap.y.At k crop.top crop.height

section Window
variable {cap : CropCap} {crop : Rect} {k : Nat}

theorem contained_iff : Contained cap crop ↔
    cap.x.Keeps crop.left crop.width ∧ cap.y.Keeps crop.top crop.height := by
  unfold Contained Rect.Inside Axis.Keeps CropCap.x CropCap.y
  constructor
  · rintro ⟨⟨⟨h1, h2⟩, h3, h4⟩, h5, h6, h7, h8⟩
    exact ⟨⟨h1, h2, h5, h7⟩, h3, h4, h6, h8⟩
  · rintro ⟨⟨h1, h2, h5, h7⟩, h3, h4, h6, h8⟩
    exact ⟨⟨⟨h1, h2⟩, h3, h4⟩, h5, h6, h7, h8⟩

theorem zooming_cases (cap : CropCap) (crop : Rect) (call : ZoomCall) :
    (zooming cap crop call).2 = crop ∨
    (cap.x.size.sdiv 8 ≤ crop.width - cap.x.step ∧ cap.y.size.sdiv 8 ≤ crop.height - cap.y.step ∧
      (zooming cap crop call).2 = ⟨crop.left + cap.x.step / 2, crop.top + cap.y.step / 2,
        crop.width - cap.x.step, crop.height - cap.y.step⟩) ∨
    (crop.width + cap.x.step ≤ cap.x.size ∧ crop.height + cap.y.step ≤ cap.y.size ∧
      (zooming cap crop call).2 = ⟨crop.left - cap.x.step / 2, crop.top - cap.y.step / 2,
        crop.width + cap.x.step, crop.height + cap.y.step⟩) := by
  unfold zooming V4l2Cropcap.zooming queryV4LZoomInfo
  obtain ⟨ctrl, cropcap, gCrop, sCrop⟩ := call
  cases cropcap
  · exact .inl rfl
  cases gCrop
  · exact .inl rfl
  simp only [Bool.true_eq_false, if_false]
  by_cases hctrl : ctrl = 1
  · rw [if_pos hctrl]
    split
    case isTrue hguard =>
      cases sCrop
      · exact .inl rfl
      · exact .inr (.inl ⟨hguard.1, hguard.2, rfl⟩)
    case isFalse => exact .inl rfl
  · rw [if_neg hctrl]
    split
    case isTrue hguard =>
      cases sCrop
      · exact .inl rfl
      · exact .inr (.inr ⟨hguard.1, hguard.2, rfl⟩)
    case isFalse => exact .inl rfl

def zoomIn : ZoomCall := ⟨1, true, true, true⟩

theorem V4l2Cropcap.zooming_zoomIn {cap : V4l2Cropcap}
    (hx : cap.defrect.width.sdiv 8 ≤ crop.width - cap.denominator)
    (hy : cap.defrect.height.sdiv 8 ≤ crop.height - cap.numerator) :
    cap.zooming crop zoomIn = (ERR_V4L_SUCCESS, ⟨crop.left + cap.denominator / 2,
      crop.top + cap.numerator / 2, crop.width - cap.denominator,
      crop.height - cap.numerator⟩) := by
  simp only [V4l2Cropcap.zooming, queryV4LZoomInfo, zoomIn, Bool.true_eq_false, if_false, if_true,
    hx, hy, and_self]

theorem zooming_zoomIn (hx : cap.x.size.sdiv 8 ≤ crop.width - cap.x.step)
    (hy : cap.y.size.sdiv 8 ≤ crop.height - cap.y.step) :
    (zooming cap crop zoomIn).2 = ⟨crop.left + cap.x.step / 2, crop.top + cap.y.step / 2,
      crop.width - cap.x.step, crop.height - cap.y.step⟩ :=
  congrArg Prod.snd (V4l2Cropcap.zooming_zoomIn hx hy)

theorem windowAfter_concat (cap : CropCap) (calls : List ZoomCall) (call : ZoomCall) :
    windowAfter cap (calls ++ [call]) = (zooming cap (windowAfter cap calls) call).2 := by
  unfold windowAfter
  rw [List.foldl_append]
  rfl

theorem window_zero (cap : CropCap) : cap.Window 0 cap.defrect := by
  unfold CropCap.Window Axis.At
  simp [CropCap.x, CropCap.y]

/-- **One call**: where the zoom stops, the window stays within the limit. -/
theorem CropCap.Window.zooming (hstop : cap.Stops) (h : cap.Window k crop) (hk : k ≤ cap.maxZoom)
    (call : ZoomCall) : ∃ k' ≤ cap.maxZoom, cap.Window k' (zooming cap crop call).2 := by
  obtain ⟨hx, hy⟩ := h
  rcases zooming_cases cap crop call with heq | ⟨hgx, hgy, heq⟩ | ⟨hgx, hgy, heq⟩
  · exact ⟨k, hk, by rw [heq]; exact ⟨hx, hy⟩⟩
  · rcases Nat.lt_or_ge k cap.maxZoom with hlt | hge
    · unfold maxZoom at hlt
      refine ⟨k + 1, by unfold maxZoom; omega, ?_⟩
      rw [heq]
      exact ⟨(hx.zoom_in (by omega)).2, (hy.zoom_in (by omega)).2⟩
    · -- at the limit one of the guards has refused
      obtain rfl : k = cap.maxZoom := Nat.le_antisymm hk hge
      exfalso
      rcases hstop with ⟨hle, hmod⟩ | ⟨hle, hmod⟩
      · rw [CropCap.maxZoom, Nat.min_eq_left hle] at hx
        exact hx.stops_iff.2 hmod hgx
      · rw [CropCap.maxZoom, Nat.min_eq_right hle] at hy
        exact hy.stops_iff.2 hmod hgy
  · cases k with
    | zero => exact absurd hgx hx.not_zoom_out
    | succ k =>
      refine ⟨k, by omega, ?_⟩
      rw [heq]
      exact ⟨hx.zoom_out.2, hy.zoom_out.2⟩

/-- **Any number of calls.** -/
theorem windowAfter_window (hstop : cap.Stops) (calls : List ZoomCall) :
    ∃ k ≤ cap.maxZoom, cap.Window k (windowAfter cap calls) := by
  induction calls using List.reverseRecOn with
  | nil => exact ⟨0, Nat.zero_le _, window_zero cap⟩
  | append_singleton calls call ih =>
    obtain ⟨k, hk, hw⟩ := ih
    rw [windowAfter_concat]
    exact hw.zooming hstop hk call

theorem windowAfter_zoomIn (hk : k ≤ cap.maxZoom) :
    cap.Window k (windowAfter cap (List.replicate k zoomIn)) := by
  induction k with
  | zero => exact window_zero cap
  | succ k ih =>
    obtain ⟨hx, hy⟩ := ih (by omega)
    unfold CropCap.maxZoom at hk
    have hx' := hx.zoom_in (by omega)
    have hy' := hy.zoom_in (by omega)
    rw [List.replicate_succ', windowAfter_concat, zooming_zoomIn hx'.1 hy'.1]
    exact ⟨hx'.2, hy'.2⟩

theorem not_contained_past (hstop : ¬ cap.Stops) :
    ¬ Contained cap (windowAfter cap (List.replicate (cap.maxZoom + 1) zoomIn)) := by
  obtain ⟨hx, hy⟩ := windowAfter_zoomIn (Nat.le_refl cap.maxZoom)
  unfold CropCap.Stops at hstop
  rw [not_or] at hstop
  unfold CropCap.maxZoom at hx hy ⊢
  have hgx := hx.guard_at_min hstop.1
  have hgy := Axis.At.guard_at_min (b := cap.x) (by rw [Nat.min_comm]; exact hy) hstop.2
  rw [List.replicate_succ', windowAfter_concat, zooming_zoomIn hgx hgy]
  rintro ⟨-, hwidth, hheight, -⟩
  rcases Nat.le_total cap.x.steps cap.y.steps with hle | hle
  · rw [Nat.min_eq_left hle] at hx hgx hwidth
    exact hx.past hgx hwidth
  · rw [Nat.min_eq_right hle] at hy hgy hheight
    exact hy.past hgy hheight

end Window

/-- **The zoom window along every sequence of calls**: it stays inside the default
rectangle, positive and not below an eighth, exactly if the zoom stops at the limit
and the window's corner does not pass 2^31 on the way to it. -/
theorem zoom_contained_iff (cap : CropCap) :
    (∀ calls, Contained cap (windowAfter cap calls)) ↔
      cap.Stops ∧
      cap.defrect.left.toInt + cap.maxZoom * (cap.denominator.toNat / 2) < 2 ^ 31 ∧
      cap.defrect.top.toInt + cap.maxZoom * (cap.numerator.toNat / 2) < 2 ^ 31 := by
  have hx : cap.maxZoom ≤ cap.x.steps := Nat.min_le_left _ _
  have hy : cap.maxZoom ≤ cap.y.steps := Nat.min_le_right _ _
  constructor
  · intro h
    obtain ⟨hwx, hwy⟩ := windowAfter_zoomIn (Nat.le_refl cap.maxZoom)
    have hk := contained_iff.1 (h (List.replicate cap.maxZoom zoomIn))
    refine ⟨?_, (hwx.keeps_iff hx).1 hk.1, (hwy.keeps_iff hy).1 hk.2⟩
    by_contra hstop
    exact not_contained_past hstop (h _)
  · rintro ⟨hstop, hleft, htop⟩ calls
    obtain ⟨k, hk, hwx, hwy⟩ := windowAfter_window hstop calls
    rw [contained_iff]
    -- fewer steps move the corner by less
    have hmono : ∀ d : Nat, (k : Int) * ((d : Int) / 2) ≤ cap.maxZoom * ((d : Int) / 2) := fun d =>
      Int.mul_le_mul_of_nonneg_right (by omega) (by omega)
    refine ⟨(hwx.keeps_iff (Nat.le_trans hk hx)).2 ?_, (hwy.keeps_iff (Nat.le_trans hk hy)).2 ?_⟩
    · exact Int.lt_of_le_of_lt (Int.add_le_add_left (hmono _) _) hleft
    · exact Int.lt_of_le_of_lt (Int.add_le_add_left (hmono _) _) htop

/-- A step of 60 in a window of 100: the second zoom-in asks whether 40 - 60 is at
least 12, and 2^32 - 20 is. -/
def wideStepCap : CropCap where
  defrect := ⟨0, 0, 100, 100⟩
  numerator := 60
  denominator := 60
  width_pos := by decide
  height_pos := by decide
  denominator_pos := by decide
  denominator_le := by decide
  numerator_pos := by decide
  numerator_le := by decide

theorem zoom_in_twice_wraps :
    windowAfter wideStepCap [zoomIn, zoomIn] = ⟨60, 60, -20, -20⟩ ∧
      ¬ Contained wideStepCap (windowAfter wideStepCap [zoomIn, zoomIn]) := by
  refine ⟨by decide, ?_⟩
  rintro ⟨-, hwidth, -⟩
  exact absurd hwidth (by decide)

end N32905.VideoIn
