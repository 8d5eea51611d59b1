import N32905.VideoIn.Zoom

/-!
# Zoom out after zoom in

Both branches of `Zooming` halve the same unsigned step, so whatever a zoom-in did to
the corner a zoom-out takes back, odd steps and wrap-around included. What decides is
the guard of the zoom-out: it compares the window it would set with the default
rectangle, and that window is the one the zoom-in started from.
-/

namespace N32905.VideoIn

namespace V4l2Cropcap

/-- The guard of a zoom-in. -/
def ZoomsIn (cap : V4l2Cropcap) (crop : Rect) : Prop :=
  cap.defrect.width.sdiv 8 ≤ crop.width - cap.denominator ∧
    cap.defrect.height.sdiv 8 ≤ crop.height - cap.numerator

instance (cap : V4l2Cropcap) (crop : Rect) : Decidable (cap.ZoomsIn crop) :=
  inferInstanceAs (Decidable (_ ∧ _))

end V4l2Cropcap

/-- The width and the height are not negative. -/
def Rect.Nonneg (crop : Rect) : Prop := 0 ≤ crop.width.toInt ∧ 0 ≤ crop.height.toInt

/-- Neither is larger than the other rectangle's. -/
def Rect.NoLarger (crop defrect : Rect) : Prop :=
  crop.width.toInt ≤ defrect.width.toInt ∧ crop.height.toInt ≤ defrect.height.toInt

def zoomOut : ZoomCall := ⟨-1, true, true, true⟩

/-- The driver's window after `n` calls. -/
def V4l2Cropcap.windows (cap : V4l2Cropcap) (call : ZoomCall) (crop : Rect) : Nat → Rect
  | 0 => crop
  | n + 1 => (cap.zooming (cap.windows call crop n) call).2

/-! ## One zoom-in and one zoom-out -/

section Undo
variable {cap : V4l2Cropcap} {crop : Rect}

/-- Among sizes that are not negative the unsigned comparison is the signed one. -/
theorem le_of_toInt_le {size limit : BitVec 32} (h0 : 0 ≤ size.toInt)
    (hle : size.toInt ≤ limit.toInt) : size ≤ limit := by
  have := size.isLt
  rw [BitVec.toInt_eq_toNat_cond] at h0 hle
  rw [BitVec.toInt_eq_toNat_cond] at hle
  rw [BitVec.le_def]
  split at hle
  · split at hle
    · omega
    · omega
  · omega

/-- A zoom-out that leads to a window no larger than the default one is carried out. -/
theorem zooming_zoomOut (hx : crop.width + cap.denominator ≤ cap.defrect.width)
    (hy : crop.height + cap.numerator ≤ cap.defrect.height) :
    cap.zooming crop zoomOut = (ERR_V4L_SUCCESS, ⟨crop.left - cap.denominator / 2,
      crop.top - cap.numerator / 2, crop.width + cap.denominator,
      crop.height + cap.numerator⟩) := by
  have hctrl : ¬ (-1 : BitVec 32) = 1 := by decide
  simp only [V4l2Cropcap.zooming, queryV4LZoomInfo, zoomOut, Bool.true_eq_false, if_false, if_true,
    hctrl, hx, hy, and_self]

/-- **One zoom-in** that takes effect is undone by the next zoom-out. -/
theorem zooming_undo (hin : cap.ZoomsIn crop) (h0 : crop.Nonneg) (hle : crop.NoLarger cap.defrect) :
    cap.zooming (cap.zooming crop zoomIn).2 zoomOut = (ERR_V4L_SUCCESS, crop) := by
  rw [V4l2Cropcap.zooming_zoomIn hin.1 hin.2]
  have hwidth : crop.width - cap.denominator + cap.denominator = crop.width :=
    BitVec.sub_add_cancel _ _
  have hheight : crop.height - cap.numerator + cap.numerator = crop.height :=
    BitVec.sub_add_cancel _ _
  rw [zooming_zoomOut]
  · simp only [hwidth, hheight, BitVec.add_sub_cancel]
  · rw [hwidth]
    exact le_of_toInt_le h0.1 hle.1
  · rw [hheight]
    exact le_of_toInt_le h0.2 hle.2

/-! ## Any number of them -/

theorem windows_succ (cap : V4l2Cropcap) (call : ZoomCall) (crop : Rect) (n : Nat) :
    cap.windows call crop (n + 1) = cap.windows call (cap.zooming crop call).2 n := by
  induction n with
  | zero => rfl
  | succ n ih =>
    rw [V4l2Cropcap.windows, ih]
    rfl

theorem windows_undo {n : Nat} (hin : ∀ k < n, cap.ZoomsIn (cap.windows zoomIn crop k))
    (hsize : ∀ k < n, (cap.windows zoomIn crop k).Nonneg ∧
      (cap.windows zoomIn crop k).NoLarger cap.defrect) :
    cap.windows zoomOut (cap.windows zoomIn crop n) n = crop := by
  induction n generalizing crop with
  | zero => rfl
  | succ n ih =>
    have hinner : cap.windows zoomOut (cap.windows zoomIn (cap.zooming crop zoomIn).2 n) n =
        (cap.zooming crop zoomIn).2 := by
      apply ih
      · intro k hk
        rw [← windows_succ]
        exact hin (k + 1) (by omega)
      · intro k hk
        rw [← windows_succ]
        exact hsize (k + 1) (by omega)
    obtain ⟨h0, hle⟩ := hsize 0 (by omega)
    rw [V4l2Cropcap.windows, windows_succ, hinner]
    exact congrArg Prod.snd (zooming_undo (hin 0 (by omega)) h0 hle)

end Undo

/-- **Zoom out undoes zoom in**, for every default rectangle and every step: once, and any
number of times as long as the windows that the zoom-ins start from keep sizes that are
not negative and no larger than the default ones. -/
theorem zoom_out_undoes_zoom_in (cap : V4l2Cropcap) (crop : Rect) (h0 : crop.Nonneg)
    (hle : crop.NoLarger cap.defrect) :
    (cap.ZoomsIn crop →
      cap.zooming (cap.zooming crop zoomIn).2 zoomOut = (ERR_V4L_SUCCESS, crop)) ∧
    ∀ n, (∀ k < n, cap.ZoomsIn (cap.windows zoomIn crop k)) →
      (∀ k < n, (cap.windows zoomIn crop k).Nonneg ∧
        (cap.windows zoomIn crop k).NoLarger cap.defrect) →
      cap.windows zoomOut (cap.windows zoomIn crop n) n = crop :=
  ⟨fun hin => zooming_undo hin h0 hle, fun _ hin hsize => windows_undo hin hsize⟩

/-- Odd steps, twice. -/
theorem zoom_out_undoes_odd_steps :
    V4l2Cropcap.windows ⟨⟨0, 0, 640, 480⟩, 7, 9⟩ zoomOut
      (V4l2Cropcap.windows ⟨⟨0, 0, 640, 480⟩, 7, 9⟩ zoomIn ⟨0, 0, 640, 480⟩ 2) 2 =
        ⟨0, 0, 640, 480⟩ := by
  apply (zoom_out_undoes_zoom_in ⟨⟨0, 0, 640, 480⟩, 7, 9⟩ ⟨0, 0, 640, 480⟩
    ⟨by decide, by decide⟩ ⟨by decide, by decide⟩).2
  · decide
  · unfold Rect.Nonneg Rect.NoLarger
    decide

def hugeStepCap : V4l2Cropcap := ⟨⟨0, 0, 100, 100⟩, -100, -100⟩

/-- A step of -100 widens the window at each zoom-in: 10, 110, 210. The sizes are not negative,
and the zoom-out refuses to go back to 110, since the default is 100. -/
theorem wide_windows_not_undone :
    (Rect.Nonneg ⟨0, 0, 10, 10⟩ ∧ Rect.NoLarger ⟨0, 0, 10, 10⟩ hugeStepCap.defrect) ∧
    (∀ k < 2, hugeStepCap.ZoomsIn (hugeStepCap.windows zoomIn ⟨0, 0, 10, 10⟩ k)) ∧
    (∀ k < 3, (hugeStepCap.windows zoomIn ⟨0, 0, 10, 10⟩ k).Nonneg) ∧
    (hugeStepCap.windows zoomOut (hugeStepCap.windows zoomIn ⟨0, 0, 10, 10⟩ 2) 2).width = 210 ∧
    hugeStepCap.windows zoomOut (hugeStepCap.windows zoomIn ⟨0, 0, 10, 10⟩ 2) 2 ≠
      ⟨0, 0, 10, 10⟩ := by
  unfold Rect.Nonneg Rect.NoLarger
  decide

end N32905.VideoIn
