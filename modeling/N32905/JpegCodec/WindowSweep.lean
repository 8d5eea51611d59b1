import N32905.Lib.Loop
import Mathlib.Tactic.Ring

/-!
# The sweep of the decode window

`jpegWindowCodec` decodes a window of the image as large as the panel, moves it along
the diagonal until it would leave the image, and back. A pass programs the window,
moves it in the current direction and, if it is outside now, takes the move back and
turns. The pass that finds the window at the edge on the way back is the last one;
it moves the window once more, below zero.

`windowSweep` says which windows are programmed, with the driver's calls succeeding.
-/

namespace N32905.JpegCodec

open N32905.Lib

/-! ## The model -/

structure McuWindow where
  windec_mcux_start : BitVec 32
  windec_mcux_end : BitVec 32
  windec_mcuy_start : BitVec 32
  windec_mcuy_end : BitVec 32
  deriving DecidableEq

namespace McuWindow

def inc (w : McuWindow) : McuWindow :=
  ⟨w.windec_mcux_start + 1, w.windec_mcux_end + 1, w.windec_mcuy_start + 1, w.windec_mcuy_end + 1⟩

def dec (w : McuWindow) : McuWindow :=
  ⟨w.windec_mcux_start - 1, w.windec_mcux_end - 1, w.windec_mcuy_start - 1, w.windec_mcuy_end - 1⟩

/-- The window `s` steps down the diagonal. -/
def moved (w : McuWindow) (s : Nat) : McuWindow :=
  ⟨w.windec_mcux_start + BitVec.ofNat 32 s, w.windec_mcux_end + BitVec.ofNat 32 s,
    w.windec_mcuy_start + BitVec.ofNat 32 s, w.windec_mcuy_end + BitVec.ofNat 32 s⟩

/-- The window lies in a grid of `cols` by `rows` MCUs. -/
structure InGrid (cols rows : Nat) (w : McuWindow) : Prop where
  x : w.windec_mcux_start.toNat ≤ w.windec_mcux_end.toNat
  y : w.windec_mcuy_start.toNat ≤ w.windec_mcuy_end.toNat
  cols : w.windec_mcux_end.toNat < cols
  rows : w.windec_mcuy_end.toNat < rows

def size (w : McuWindow) : Nat × Nat :=
  (w.windec_mcux_end.toNat - w.windec_mcux_start.toNat + 1,
    w.windec_mcuy_end.toNat - w.windec_mcuy_start.toNat + 1)

end McuWindow

/-- `u32WindowX` and `u32WindowY`: the quotient of an `int`, compared as unsigned. -/
def windowLimit (length : BitVec 32) : BitVec 32 := length.sdiv 16 - 1

def firstWindow (xres yres : BitVec 32) : McuWindow := ⟨0, xres / 16 - 1, 0, yres / 16 - 1⟩

/-- The window, the direction and the windows programmed so far. -/
structure SweepSt where
  win : McuWindow
  direction : Bool
  programmed : List McuWindow

def sweepBody (u32WindowX u32WindowY : BitVec 32) (st : SweepSt) : Step SweepSt (List McuWindow) :=
  let programmed := st.programmed ++ [st.win]
  let loop := !((st.win.windec_mcux_start = 0 || st.win.windec_mcuy_start = 0) && st.direction)
  let win := if st.direction then st.win.dec else st.win.inc
  let st' : SweepSt :=
    if u32WindowX < win.windec_mcux_end ∨ u32WindowY < win.windec_mcuy_end then
      ⟨win.dec, true, programmed⟩
    else ⟨win, st.direction, programmed⟩
  if loop then .next st' else .done programmed

/-- The sweep over an image of `width` by `height` on a panel of `xres` by `yres`
programs these windows and ends. -/
def Sweeps (width height xres yres : BitVec 32) (programmed : List McuWindow) : Prop :=
  Ends (sweepBody (windowLimit width) (windowLimit height))
    ⟨firstWindow xres yres, false, []⟩ programmed

/-! ## One pass -/

section Pass
variable {w : McuWindow}

theorem moved_zero (w : McuWindow) : w.moved 0 = w := by simp [McuWindow.moved]

theorem inc_moved (w : McuWindow) (s : Nat) : (w.moved s).inc = w.moved (s + 1) := by
  simp only [McuWindow.moved, McuWindow.inc, BitVec.ofNat_add, BitVec.add_assoc]
  rfl

theorem dec_inc (w : McuWindow) : w.inc.dec = w := by
  simp only [McuWindow.inc, McuWindow.dec, BitVec.add_sub_cancel]

theorem dec_moved (w : McuWindow) (s : Nat) : (w.moved (s + 1)).dec = w.moved s := by
  rw [← inc_moved, dec_inc]

variable {LX LY : BitVec 32} {s : Nat} {log : List McuWindow}

def Over (LX LY : BitVec 32) (w : McuWindow) : Prop :=
  LX < w.windec_mcux_end ∨ LY < w.windec_mcuy_end

theorem sweepBody_forth (h : ¬ Over LX LY (w.moved (s + 1))) :
    sweepBody LX LY ⟨w.moved s, false, log⟩ =
      .next ⟨w.moved (s + 1), false, log ++ [w.moved s]⟩ := by
  unfold Over at h
  simp only [sweepBody, Bool.and_false, Bool.not_false, if_true, Bool.false_eq_true, if_false,
    inc_moved, h]

theorem sweepBody_turn (h : Over LX LY (w.moved (s + 1))) :
    sweepBody LX LY ⟨w.moved s, false, log⟩ = .next ⟨w.moved s, true, log ++ [w.moved s]⟩ := by
  unfold Over at h
  simp only [sweepBody, Bool.and_false, Bool.not_false, if_true, Bool.false_eq_true, if_false,
    inc_moved, dec_moved, h]

theorem sweepBody_back (hx : (w.moved (s + 1)).windec_mcux_start ≠ 0)
    (hy : (w.moved (s + 1)).windec_mcuy_start ≠ 0) (h : ¬ Over LX LY (w.moved s)) :
    sweepBody LX LY ⟨w.moved (s + 1), true, log⟩ =
      .next ⟨w.moved s, true, log ++ [w.moved (s + 1)]⟩ := by
  unfold Over at h
  simp only [sweepBody, hx, hy, decide_false, Bool.or_self, Bool.false_and, Bool.not_false, if_true,
    dec_moved, h, if_false]

theorem sweepBody_last (hx : w.windec_mcux_start = 0) :
    sweepBody LX LY ⟨w, true, log⟩ = .done (log ++ [w]) := by
  simp only [sweepBody, hx, decide_true, Bool.true_or, Bool.true_and, Bool.not_true,
    Bool.false_eq_true, if_false]

end Pass

/-! ## The whole sweep -/

section Sweep
variable {LX LY : BitVec 32} {w : McuWindow} {K : Nat}

/-- The window starts at the corner, and `K` steps fit in the grid. -/
structure Fits (LX LY : BitVec 32) (w : McuWindow) (K : Nat) : Prop where
  x : w.windec_mcux_start = 0
  y : w.windec_mcuy_start = 0
  bound : K < 2 ^ 32
  inside : ∀ s ≤ K, ¬ Over LX LY (w.moved s)
  leaves : Over LX LY (w.moved (K + 1))

theorem Fits.back (h : Fits LX LY w K) {s : Nat} (hs : s ≤ K) (log : List McuWindow) :
    Ends (sweepBody LX LY) ⟨w.moved s, true, log⟩
      (log ++ ((List.range (s + 1)).reverse).map w.moved) := by
  induction s generalizing log with
  | zero =>
    have hx : (w.moved 0).windec_mcux_start = 0 := by rw [moved_zero, h.x]
    exact (ends_done (sweepBody_last hx)).2 rfl
  | succ s ih =>
    have hne : ∀ b : BitVec 32, b = 0 → b + BitVec.ofNat 32 (s + 1) ≠ 0 := by
      rintro b rfl h0
      have := congrArg BitVec.toNat h0
      have hK := h.bound
      have hzero : (0 : BitVec 32).toNat = 0 := rfl
      rw [BitVec.toNat_add, BitVec.toNat_ofNat, hzero] at this
      omega
    have hbody : sweepBody LX LY ⟨w.moved (s + 1), true, log⟩ =
        .next ⟨w.moved s, true, log ++ [w.moved (s + 1)]⟩ :=
      sweepBody_back (hne _ h.x) (hne _ h.y) (h.inside s (by omega))
    rw [ends_next hbody, List.range_succ, List.reverse_append, List.map_append, ← List.append_assoc]
    exact ih (by omega) (log ++ [w.moved (s + 1)])

theorem Fits.forth (h : Fits LX LY w K) (d : Nat) {s : Nat} (hs : s + d = K)
    (log : List McuWindow) :
    Ends (sweepBody LX LY) ⟨w.moved s, false, log⟩
      (log ++ (List.range' s (d + 1)).map w.moved ++
        ((List.range (K + 1)).reverse).map w.moved) := by
  induction d generalizing s log with
  | zero =>
    obtain rfl : s = K := hs
    rw [ends_next (sweepBody_turn h.leaves)]
    exact h.back (Nat.le_refl _) (log ++ [w.moved s])
  | succ d ih =>
    rw [ends_next (sweepBody_forth (h.inside (s + 1) (by omega)))]
    have hrec := ih (by omega : s + 1 + d = K) (log ++ [w.moved s])
    rwa [List.append_assoc log] at hrec

/-- **The sweep**: the positions 0 to `K`, and back from `K` to 0. -/
theorem Fits.sweep (h : Fits LX LY w K) :
    Ends (sweepBody LX LY) ⟨w, false, []⟩
      ((List.range (K + 1) ++ (List.range (K + 1)).reverse).map w.moved) := by
  have hforth := h.forth K (Nat.zero_add K) []
  rw [moved_zero, List.nil_append, ← List.range_eq_range', ← List.map_append] at hforth
  exact hforth

theorem sweep_of_over (hx : w.windec_mcux_start = 0) (h : Over LX LY (w.moved 1)) :
    Ends (sweepBody LX LY) ⟨w, false, []⟩ [w, w] := by
  have hturn : sweepBody LX LY ⟨w.moved 0, false, []⟩ = .next ⟨w.moved 0, true, [w.moved 0]⟩ :=
    sweepBody_turn h
  rw [moved_zero] at hturn
  rw [ends_next hturn]
  exact (ends_done (sweepBody_last hx)).2 rfl

end Sweep

/-! ## Images and panels -/

section Sizes
variable {width height xres yres : BitVec 32}

theorem windowLimit_toNat (h : 16 ≤ width.toInt) :
    (windowLimit width).toNat = width.toNat / 16 - 1 ∧ 16 ≤ width.toNat ∧ width.toNat < 2 ^ 31 := by
  have hlt := width.isLt
  rw [BitVec.toInt_eq_toNat_cond] at h
  have hsmall : 2 * width.toNat < 2 ^ 32 := by
    rw [← Nat.not_le]
    intro hge
    rw [if_neg (by omega)] at h
    omega
  rw [if_pos hsmall] at h
  have hmsb : width.msb = false := BitVec.msb_eq_false_iff_two_mul_lt.2 hsmall
  have h16 : (16 : BitVec 32).toNat = 16 := rfl
  have h1 : (1 : BitVec 32).toNat = 1 := rfl
  have hdiv : width.sdiv 16 = width / 16 := by
    rw [BitVec.sdiv_eq, hmsb]
    rfl
  refine ⟨?_, by omega, by omega⟩
  rw [windowLimit, hdiv, BitVec.toNat_sub, BitVec.toNat_udiv, h16, h1]
  omega

theorem panel_toNat (h : 16 ≤ xres.toNat) : (xres / 16 - 1).toNat = xres.toNat / 16 - 1 := by
  have hlt := xres.isLt
  have h16 : (16 : BitVec 32).toNat = 16 := rfl
  have h1 : (1 : BitVec 32).toNat = 1 := rfl
  rw [BitVec.toNat_sub, BitVec.toNat_udiv, h16, h1]
  omega

theorem moved_end_toNat {e : BitVec 32} {s : Nat} (h : e.toNat + s < 2 ^ 32) :
    (e + BitVec.ofNat 32 s).toNat = e.toNat + s := by
  rw [BitVec.toNat_add, BitVec.toNat_ofNat]
  omega

section Grid
variable (hw : 16 ≤ width.toInt) (hh : 16 ≤ height.toInt) (hx : 16 ≤ xres.toNat)
  (hy : 16 ≤ yres.toNat) {s : Nat} (hs : s < 2 ^ 31)
include hx hy hs

theorem firstWindow_moved :
    ((firstWindow xres yres).moved s).windec_mcux_start.toNat = s ∧
      ((firstWindow xres yres).moved s).windec_mcux_end.toNat + 1 = xres.toNat / 16 + s ∧
      ((firstWindow xres yres).moved s).windec_mcuy_start.toNat = s ∧
      ((firstWindow xres yres).moved s).windec_mcuy_end.toNat + 1 = yres.toNat / 16 + s := by
  have hzero : (0 : BitVec 32).toNat = 0 := rfl
  have hxlt := xres.isLt
  have hylt := yres.isLt
  have hstart : ((0 : BitVec 32) + BitVec.ofNat 32 s).toNat = s := by
    rw [moved_end_toNat (by rw [hzero]; omega), hzero, Nat.zero_add]
  refine ⟨hstart, ?_, hstart, ?_⟩
  · change (xres / 16 - 1 + BitVec.ofNat 32 s).toNat + 1 = _
    rw [moved_end_toNat (by rw [panel_toNat hx]; omega), panel_toNat hx]
    omega
  · change (yres / 16 - 1 + BitVec.ofNat 32 s).toNat + 1 = _
    rw [moved_end_toNat (by rw [panel_toNat hy]; omega), panel_toNat hy]
    omega

include hw hh in
theorem over_moved_iff :
    Over (windowLimit width) (windowLimit height) ((firstWindow xres yres).moved s) ↔
      width.toNat / 16 < xres.toNat / 16 + s ∨ height.toNat / 16 < yres.toNat / 16 + s := by
  obtain ⟨hLX, hw16, -⟩ := windowLimit_toNat hw
  obtain ⟨hLY, hh16, -⟩ := windowLimit_toNat hh
  obtain ⟨-, hex, -, hey⟩ := firstWindow_moved hx hy hs
  rw [Over, BitVec.lt_def, BitVec.lt_def, hLX, hLY]
  omega

theorem moved_inGrid_iff (cols rows : Nat) :
    ((firstWindow xres yres).moved s).InGrid cols rows ↔
      xres.toNat / 16 + s ≤ cols ∧ yres.toNat / 16 + s ≤ rows := by
  obtain ⟨hsx, hex, hsy, hey⟩ := firstWindow_moved hx hy hs
  constructor
  · intro h
    have := h.cols
    have := h.rows
    omega
  · rintro ⟨hc, hr⟩
    exact ⟨by omega, by omega, by omega, by omega⟩

theorem moved_size :
    ((firstWindow xres yres).moved s).size = (xres.toNat / 16, yres.toNat / 16) := by
  obtain ⟨hsx, hex, hsy, hey⟩ := firstWindow_moved hx hy hs
  rw [McuWindow.size, Prod.mk.injEq]
  omega

end Grid

section Fitting
variable (hx : 16 ≤ xres.toNat) (hy : 16 ≤ yres.toNat) {cols rows K : Nat}
include hx hy

theorem inGrid_iff_le (hcols : xres.toNat / 16 ≤ cols) (hrows : yres.toNat / 16 ≤ rows) {s : Nat}
    (hs : s < 2 ^ 31) : ((firstWindow xres yres).moved s).InGrid cols rows ↔
      s ≤ min (cols - xres.toNat / 16) (rows - yres.toNat / 16) := by
  rw [moved_inGrid_iff hx hy hs]
  omega

theorem firstWindow_fits (hw : 16 ≤ width.toInt) (hh : 16 ≤ height.toInt)
    (hcols : xres.toNat / 16 ≤ width.toNat / 16) (hrows : yres.toNat / 16 ≤ height.toNat / 16)
    (hK : K = min (width.toNat / 16 - xres.toNat / 16) (height.toNat / 16 - yres.toNat / 16)) :
    Fits (windowLimit width) (windowLimit height) (firstWindow xres yres) K := by
  have hwlt := width.isLt
  refine ⟨rfl, rfl, by omega, fun s hs => ?_, ?_⟩
  · rw [over_moved_iff hw hh hx hy (by omega)]
    omega
  · rw [over_moved_iff hw hh hx hy (by omega)]
    omega

theorem sweep_windows (hK : K < 2 ^ 31)
    (hgrid : ∀ s ≤ K, ((firstWindow xres yres).moved s).InGrid cols rows) :
    ∀ w ∈ (List.range (K + 1) ++ (List.range (K + 1)).reverse).map (firstWindow xres yres).moved,
      w.InGrid cols rows ∧ w.size = (firstWindow xres yres).size := by
  intro w hmem
  obtain ⟨s, hs, rfl⟩ := List.mem_map.1 hmem
  have hsK : s ≤ K := by
    simp only [List.mem_append, List.mem_reverse, List.mem_range, or_self] at hs
    omega
  refine ⟨hgrid s hsK, ?_⟩
  rw [moved_size hx hy (by omega), ← moved_size hx hy (s := 0) (by decide), moved_zero]

end Fitting

end Sizes

/-- **The sweep of the decode window**, for an image and a panel of at least one MCU
each way. It ends. If the first window lies in the image's grid, the windows are
the positions 0 to `K` of the diagonal and back, `K` being the largest shift that
fits, all in the grid and of one size; else the first window is programmed twice. -/
theorem windowSweep (width height xres yres : BitVec 32) (hw : 16 ≤ width.toInt)
    (hh : 16 ≤ height.toInt) (hx : 16 ≤ xres.toNat) (hy : 16 ≤ yres.toNat) :
    let first := firstWindow xres yres
    let cols := width.toNat / 16
    let rows := height.toNat / 16
    let K := min (cols - xres.toNat / 16) (rows - yres.toNat / 16)
    ∃ programmed, Sweeps width height xres yres programmed ∧
      (first.InGrid cols rows →
        programmed = (List.range (K + 1) ++ (List.range (K + 1)).reverse).map first.moved ∧
        programmed.length = 2 * K + 2 ∧
        (∀ w ∈ programmed, w.InGrid cols rows ∧ w.size = first.size) ∧
        ∀ s < 2 ^ 31, (first.moved s).InGrid cols rows ↔ s ≤ K) ∧
      (¬ first.InGrid cols rows → programmed = [first, first]) := by
  intro first cols rows K
  obtain ⟨hLX, hw16, hwlt⟩ := windowLimit_toNat hw
  obtain ⟨hLY, hh16, hhlt⟩ := windowLimit_toNat hh
  have hfirst := moved_inGrid_iff hx hy (s := 0) (by decide) cols rows
  rw [moved_zero] at hfirst
  by_cases hin : first.InGrid cols rows
  · obtain ⟨hcols, hrows⟩ := hfirst.1 hin
    have hgrid : ∀ s < 2 ^ 31, (first.moved s).InGrid cols rows ↔ s ≤ K :=
      fun s hs => inGrid_iff_le hx hy hcols hrows hs
    have hsweep := (firstWindow_fits hx hy hw hh hcols hrows rfl).sweep
    refine ⟨_, hsweep, fun _ => ⟨rfl, ?_, ?_, hgrid⟩, fun h => absurd hin h⟩
    · rw [List.length_map, List.length_append, List.length_reverse, List.length_range]
      omega
    · exact sweep_windows hx hy (by omega) fun s hs => (hgrid s (by omega)).2 hs
  · refine ⟨[first, first], sweep_of_over rfl ?_, fun h => absurd h hin, fun _ => rfl⟩
    have hnot := mt hfirst.2 hin
    rw [over_moved_iff hw hh hx hy (by decide)]
    omega

/-- An image of 64 x 48 on a panel of 32 x 32: the positions 0, 1, 1, 0. -/
theorem windowSweep_small : Sweeps 64 48 32 32
    ([0, 1, 1, 0].map (firstWindow 32 32).moved) := by
  obtain ⟨programmed, hends, hin, -⟩ :=
    windowSweep 64 48 32 32 (by decide) (by decide) (by decide) (by decide)
  rw [(hin ⟨by decide, by decide, by decide, by decide⟩).1] at hends
  exact hends

end N32905.JpegCodec
