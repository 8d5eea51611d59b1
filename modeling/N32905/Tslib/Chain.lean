import Mathlib.Data.Fin.VecNotation
import N32905.Tslib.Dejitter
import N32905.Tslib.Pthres
import N32905.Tslib.Variance

/-!
# The filter chain

`ts.conf` puts `pthres`, `variance`, `dejitter` and `linear` on top of the device, and
`ts_read` reads the last of them. Each reads the one below in portions of its own.
-/

namespace N32905.Tslib

open N32905.Lib

/-! ## Calibration -/

/-- `struct tslib_linear` and the resolution of `struct tsdev`. A division by zero would end
the program. -/
structure Linear where
  swap_xy : Bool
  p_offset : BitVec 32
  p_mult : BitVec 32
  p_div : BitVec 32
  a : Fin 7 → BitVec 32
  cal_res_x : BitVec 32
  cal_res_y : BitVec 32
  res_x : BitVec 32
  res_y : BitVec 32
  p_div_ne : p_div ≠ 0
  a6_ne : a 6 ≠ 0

/-- `linear_mod_init` without a calibration file, on a device of the resolution given. What
`malloc` left in the resolution of the calibration is not used unless the device has one. -/
def linearModInit (cal_res_x cal_res_y res_x res_y : BitVec 32) : Linear where
  swap_xy := false
  p_offset := 0
  p_mult := 1
  p_div := 1
  a := ![1, 0, 0, 0, 1, 0, 1]
  cal_res_x := cal_res_x
  cal_res_y := cal_res_y
  res_x := res_x
  res_y := res_y
  p_div_ne := by decide
  a6_ne := by decide

/-- The pass of the loop of `linear_read`. The first division is one of `int`, the others are not. -/
def Linear.sample (lin : Linear) (s : Sample) : Sample :=
  let x := (lin.a 2 + lin.a 0 * s.x + lin.a 1 * s.y).sdiv (lin.a 6)
  let y := (lin.a 5 + lin.a 3 * s.x + lin.a 4 * s.y).sdiv (lin.a 6)
  let x := if lin.res_x ≠ 0 ∧ lin.cal_res_x ≠ 0 then x * lin.res_x / lin.cal_res_x else x
  let y := if lin.res_y ≠ 0 ∧ lin.cal_res_y ≠ 0 then y * lin.res_y / lin.cal_res_y else y
  let pressure := (s.pressure + lin.p_offset) * lin.p_mult / lin.p_div
  if lin.swap_xy then ⟨y, x, pressure, s.tv⟩ else ⟨x, y, pressure, s.tv⟩

def linearRead {ρ : Type*} (lin : Linear) (next : Reader ρ Sample) : Reader ρ Sample := fun r nr =>
  match next r nr with
  | (r', none) => (r', none)
  | (r', some samp) => (r', some (samp.map lin.sample))

def linearStep (lin : Linear) (_ : Unit) (s : Sample) : Unit × List Sample := ((), [lin.sample s])

theorem feed_linear (lin : Linear) (xs : List Sample) :
    feed (linearStep lin) () xs = ((), xs.map lin.sample) := by
  induction xs with
  | nil => rfl
  | cons x xs ih => rw [feed_cons, List.map_cons, linearStep, ih, List.singleton_append]

theorem linear_drives {ρ : Type*} (lin : Linear) (next : Reader ρ Sample) :
    Drives passOn (linearRead lin next) next (linearStep lin) (fun r => r) fun _ => ((), []) := by
  intro r nr
  refine ⟨[nr], rfl, ?_⟩
  rw [pulled_cons, pulled_nil, linearRead]
  rcases next r nr with ⟨r', _ | samp⟩
  · exact ⟨rfl, rfl, rfl⟩
  · exact ⟨rfl, rfl, by simp [feed_linear]⟩

/-- The default parameters leave the pressure alone. -/
def Linear.KeepsPressure (lin : Linear) : Prop := lin.p_offset = 0 ∧ lin.p_mult = 1 ∧ lin.p_div = 1

theorem Linear.KeepsPressure.pressure {lin : Linear} (h : lin.KeepsPressure) (s : Sample) :
    (lin.sample s).pressure = s.pressure := by
  obtain ⟨h1, h2, h3⟩ := h
  have hsame : (lin.sample s).pressure = (s.pressure + lin.p_offset) * lin.p_mult / lin.p_div := by
    unfold Linear.sample
    cases lin.swap_xy <;> rfl
  rw [hsame, h1, h2, h3]
  simp

def Linear.stroke {lin : Linear} (h : lin.KeepsPressure) (st : Stroke) : Stroke where
  presses := st.presses.map lin.sample
  release := lin.sample st.release
  presses_ne := by simpa using st.presses_ne
  pressed := by
    simp only [List.mem_map]
    rintro s ⟨t, ht, rfl⟩
    rw [Sample.Pressed, h.pressure]
    exact st.pressed t ht
  released := by
    rw [Sample.Pressed, h.pressure]
    exact st.released

def Linear.strokes {lin : Linear} (h : lin.KeepsPressure) (ss : Strokes) : Strokes where
  done := ss.done.map (Linear.stroke h)
  current := ss.current.map lin.sample
  pressed := by
    simp only [List.mem_map]
    rintro s ⟨t, ht, rfl⟩
    rw [Sample.Pressed, h.pressure]
    exact ss.pressed t ht

theorem Linear.samples_strokes {lin : Linear} (h : lin.KeepsPressure) (ss : Strokes) :
    (Linear.strokes h ss).samples = ss.samples.map lin.sample := by
  simp [Linear.strokes, Linear.stroke, Strokes.samples, Stroke.samples, List.map_flatMap,
    List.flatMap_map]

/-! ## The chain -/

section Chain
variable {ρ : Type*} (raw : Reader ρ Sample) (p : Pthres) (lin : Linear)

def chainRead : Reader (Dejitter × VarianceState × PthresVars × ρ) Sample :=
  linearRead lin (dejitterRead (varianceRead (pthresRead p raw)))

/-- What the upper two layers make of the sample queued in `variance`. -/
def chainHeld (lin : Linear) (t : Dejitter × VarianceState × PthresVars × ρ) :
    (Dejitter × Unit) × List Sample :=
  feed (pipe dejitterSample (linearStep lin)) (t.1, ()) (flushVariance t.2.1.1).2

/-- The chain reads the device sample by sample and is its filters one after the other. -/
theorem chain_drives (hraw : Honest raw) : Drives oneByOne (chainRead raw p lin) raw
    (pipe (pthresSample p) (pipe varianceStep (pipe dejitterSample (linearStep lin))))
    (fun t => t.2.2.2)
    fun t => ((t.2.2.1, (flushVariance t.2.1.1).1, (chainHeld lin t).1), (chainHeld lin t).2) := by
  have h := (((linear_drives lin _).trans (dejitter_drives _)).trans
    (variance_drives (pthres_honest p raw hraw))).trans (pthres_drives p raw)
  intro t n
  obtain ⟨ns, hasks, hbelow, hstate, hout⟩ := h t n
  refine ⟨ns, ?_, hbelow, hstate, ?_⟩
  · obtain ⟨ls, mss, -, hmss, rfl⟩ := ask_of_passOn_right hasks
    exact flatten_oneByOne hmss
  simp only [flushBoth, chainHeld, feed_nil, List.append_nil, List.nil_append] at hout ⊢
  exact hout

theorem length_chainHeld_le (t : Dejitter × VarianceState × PthresVars × ρ) :
    (chainHeld lin t).2.length ≤ 1 := by
  refine Nat.le_trans (length_feed_le (fun s x => ?_) _) (length_flushVariance_le _)
  have hone : ∃ y, (dejitterSample s.1 x).2 = [y] := by
    unfold dejitterSample
    split <;> exact ⟨_, rfl⟩
  obtain ⟨y, hy⟩ := hone
  rw [pipe, hy]
  exact Nat.le_refl 1

/-- The filters, from the states a stroke starts in. -/
structure ChainIdle (t : Dejitter × VarianceState × PthresVars × ρ) : Prop where
  dejitter : t.1.Keeps []
  variance : t.2.1.1.Idle
  pthres : t.2.2.1.press = false

/-- `ts_read` gives as many samples as it is asked for, if the pressure filter has them. -/
theorem chain_persistent (hraw : Honest raw) :
    Persistent (chainRead raw p lin) (pthresRead p raw) fun t => t.2.2 := by
  rintro ⟨djt, t⟩ n
  have hone : ∀ (djt : Dejitter) (s : Sample), (dejitterSample djt s).2.length = 1 := by
    intro djt s
    unfold dejitterSample
    split <;> rfl
  have hlen : ((chainRead raw p lin (djt, t) n).2.getD []).length =
      ((varianceRead (pthresRead p raw) t n).2.getD []).length := by
    change ((feed dejitterSample djt _).2.map lin.sample).length = _
    rw [List.length_map, length_feed_eq hone]
    rfl
  rw [hlen]
  exact variance_persistent (pthres_honest p raw hraw) t n

/-- A stroke of the pen and what `ts_read` gives for it: thinned, smoothed and calibrated. So each
point is the calibration of one between the points of the stroke. -/
structure Touch (lin : Linear) (d d' : BitVec 32) (st st' : Stroke) : Prop where
  release : st'.release = lin.sample st.release
  presses : st'.presses = (smoothing d' [] (thin d st.presses)).map lin.sample
  between : ∀ s ∈ st'.presses, ∃ q, Between st.presses q ∧ s = lin.sample q
  enough : st.presses.length ≤ 2 * st'.presses.length

theorem sane_of_lifted {st : Stroke} (h : LiftedInPlace st) (hsane : ∀ s ∈ st.presses, s.Sane) :
    ∀ s ∈ st.samples, s.Sane := by
  intro s hs
  rcases List.mem_append.1 hs with hs | hs
  · exact hsane s hs
  · obtain ⟨last, hlast, hx, hy⟩ := h
    have hlast := hsane last (List.mem_of_getLast? hlast)
    rw [List.mem_singleton.1 hs]
    refine ⟨?_, ?_, ?_⟩
    · rw [hx]
      exact hlast.x
    · rw [hy]
      exact hlast.y
    · rw [Decidable.not_not.1 st.released]
      exact Nat.two_pow_pos 28

section Steps
variable {lin : Linear} {d d' : BitVec 32}

theorem SmoothedFrom.between_of_mem {ps qs qs' : List Sample} (h : SmoothedFrom d' qs qs')
    (hqs : ∀ q ∈ qs, q ∈ ps) {q : Sample} (hq : q ∈ qs') : Between ps q := by
  obtain ⟨i, hi⟩ := List.getElem?_of_mem hq
  refine (h.between i q hi).mono fun r hr => hqs r ?_
  exact List.mem_of_mem_take (List.mem_reverse.1 (List.mem_of_mem_take hr))

theorem touch_of_steps {st st' st'' : Stroke} (hthin : Thinned d st st')
    (hsmooth : Smoothed d' st' st'') (h : lin.KeepsPressure) :
    Touch lin d d' st (Linear.stroke h st'') := by
  refine ⟨?_, ?_, fun s hs => ?_, ?_⟩
  · change lin.sample st''.release = _
    rw [hsmooth.1, hthin.release]
  · change st''.presses.map lin.sample = _
    rw [hsmooth.2.eq, hthin.presses]
  · obtain ⟨q, hq, rfl⟩ := List.mem_map.1 hs
    exact ⟨q, hsmooth.2.between_of_mem (fun r hr => mem_of_sublist_twice hthin.order hr) hq, rfl⟩
  · have hlen := congrArg List.length hsmooth.2.tv
    rw [List.length_map, List.length_map] at hlen
    change _ ≤ 2 * (st''.presses.map lin.sample).length
    rw [List.length_map, hlen]
    exact hthin.enough

theorem thinned_subset {sts sts' : List Stroke} (h : List.Forall₂ (Thinned d) sts sts') :
    ∀ s ∈ sts'.flatMap Stroke.samples, s ∈ sts.flatMap Stroke.samples := by
  induction h with
  | nil => exact fun s hs => hs
  | @cons st st' sts sts' ht _ ih =>
    intro s hs
    rw [List.flatMap_cons] at hs ⊢
    rcases List.mem_append.1 hs with hs | hs
    · refine List.mem_append_left _ ?_
      rcases List.mem_append.1 hs with hs | hs
      · exact List.mem_append_left _ (mem_of_sublist_twice ht.order hs)
      · rw [ht.release] at hs
        exact List.mem_append_right _ hs
    · exact List.mem_append_right _ (ih s hs)

theorem forall₂_touch {sts sts' sts'' : List Stroke} (h : lin.KeepsPressure)
    (hthin : List.Forall₂ (Thinned d) sts sts') (hsmooth : List.Forall₂ (Smoothed d') sts' sts'') :
    List.Forall₂ (Touch lin d d') sts (sts''.map (Linear.stroke h)) := by
  induction hthin generalizing sts'' with
  | nil =>
    cases hsmooth
    exact .nil
  | cons ht _ ih =>
    cases hsmooth with
    | cons hs hrest => exact .cons (touch_of_steps ht hs h) (ih hrest)

/-- What comes out so far of a stroke still going on. -/
structure Touching (lin : Linear) (d d' : BitVec 32) (ps ps' : List Sample) : Prop where
  presses : ps' = (smoothing d' [] (thin d ps).dropLast).map lin.sample
  between : ∀ s ∈ ps', ∃ q, Between ps q ∧ s = lin.sample q

theorem feed_chain {var : Variance} {djt : Dejitter} (hvar : var.Idle) (hdjt : djt.Keeps [])
    (h : lin.KeepsPressure) (ss : Strokes) (hsane : ∀ s ∈ ss.samples, s.Sane) :
    ∃ out : Strokes, (feed (pipe varianceStep (pipe dejitterSample (linearStep lin)))
        (var, djt, ()) ss.samples).2 = out.samples ∧
      List.Forall₂ (Touch lin var.delta djt.delta) ss.done out.done ∧
      Touching lin var.delta djt.delta ss.current out.current := by
  obtain ⟨ss', hfeed', hdone', hcur'⟩ := feed_strokes hvar ss
  have hmem : ∀ s ∈ ss'.current, s ∈ ss.current := by
    rw [hcur']
    exact fun s hs => mem_of_mem_thin ((List.dropLast_sublist _).subset hs)
  obtain ⟨ss'', hfeed'', hdone'', hcur''⟩ := feed_dejitter_strokes hdjt ss' fun s hs => by
    rcases List.mem_append.1 hs with hs | hs
    · exact hsane s (List.mem_append_left _ (thinned_subset hdone' s hs))
    · exact hsane s (List.mem_append_right _ (hmem s hs))
  refine ⟨Linear.strokes h ss'', ?_, forall₂_touch h hdone' hdone'', ?_, fun s hs => ?_⟩
  · simp only [feed_pipe, hfeed', hfeed'', feed_linear, Linear.samples_strokes]
  · change ss''.current.map lin.sample = _
    rw [hcur''.eq, hcur']
  · obtain ⟨q, hq, rfl⟩ := List.mem_map.1 hs
    exact ⟨q, hcur''.between_of_mem hmem hq, rfl⟩

end Steps

theorem sane_strokes {ss : Strokes} {xs : List Sample} (hxs : ∀ s ∈ xs, p.InBounds s → s.Sane)
    (hpresses : ss.samples.filter (fun s => decide s.Pressed) =
      xs.filter (fun s => decide (p.InBounds s)))
    (hlifted : ∀ st ∈ ss.done, LiftedInPlace st) : ∀ s ∈ ss.samples, s.Sane := by
  have hpressed : ∀ s ∈ ss.samples, s.Pressed → s.Sane := by
    intro s hs hdown
    have hmem : s ∈ ss.samples.filter (fun s => decide s.Pressed) :=
      List.mem_filter.2 ⟨hs, decide_eq_true hdown⟩
    rw [hpresses] at hmem
    obtain ⟨hmem, hin⟩ := List.mem_filter.1 hmem
    exact hxs s hmem (of_decide_eq_true hin)
  intro s hs
  rcases List.mem_append.1 hs with hdone | hcur
  · obtain ⟨st, hst, hmem⟩ := List.mem_flatMap.1 hdone
    refine sane_of_lifted (hlifted st hst) (fun q hq => ?_) s hmem
    refine hpressed q (List.mem_append_left _ (List.mem_flatMap.2 ⟨st, hst, ?_⟩)) (st.pressed q hq)
    exact List.mem_append_left _ hq
  · exact hpressed s hs (ss.pressed s hcur)

/-- **What an application reads**: the device is read sample by sample, and `ts_read` stops short
only where the pressure filter has nothing. The samples in bounds make strokes of the pen, each
of these comes out as one stroke, and at most one sample is held back. -/
theorem chain_reports_touches (hraw : Honest raw) (hpmin : p.pmin ≠ 0) (h : lin.KeepsPressure)
    (t : Dejitter × VarianceState × PthresVars × ρ) (ht : ChainIdle t) (ns : List Nat) :
    Persistent (chainRead raw p lin) (pthresRead p raw) (fun t => t.2.2) ∧
    ∃ ms, (∀ m ∈ ms, m = 1) ∧
      (pulled (chainRead raw p lin) t ns).1.2.2.2 = (pulled raw t.2.2.2 ms).1 ∧
      ((∀ s ∈ (pulled raw t.2.2.2 ms).2, p.InBounds s → s.Sane) →
        ∃ (pen out : Strokes) (held : List Sample),
          (pulled (chainRead raw p lin) t ns).2 ++ held = out.samples ∧ held.length ≤ 1 ∧
          MakesStrokes p (pulled raw t.2.2.2 ms).2 pen ∧
          List.Forall₂ (Touch lin t.2.1.1.delta t.1.delta) pen.done out.done ∧
          Touching lin t.2.1.1.delta t.1.delta pen.current out.current) := by
  obtain ⟨mss, hasks, hbelow, hrun⟩ := (chain_drives raw p lin hraw).run t ns
  refine ⟨chain_persistent raw p lin hraw, mss.flatten, flatten_oneByOne hasks, hbelow,
    fun hsane => ?_⟩
  obtain ⟨pen, hpen, hof⟩ := strokes_of_feed hpmin ht.pthres (pulled raw t.2.2.2 mss.flatten).2
  have hpensane := sane_strokes p hsane hof.presses hof.made.lifted
  obtain ⟨out, hfeed, hdone, hcur⟩ := feed_chain ht.variance ht.dejitter h pen hpensane
  refine ⟨pen, out, (chainHeld lin (pulled (chainRead raw p lin) t ns).1).2, ?_,
    length_chainHeld_le lin _, hof.made, hdone, hcur⟩
  have hheld : chainHeld lin t = ((t.1, ()), []) := by
    rw [chainHeld, flush_empty ht.variance.submitnoise, feed_nil]
  have hvar : (flushVariance t.2.1.1).1 = t.2.1.1 := by
    rw [flush_empty ht.variance.submitnoise]
  have hout := hrun.out
  simp only [hheld, hvar, List.nil_append] at hout
  rw [feed_pipe, hpen, hfeed] at hout
  exact hout

/-- The shipped `ts.conf`, and a tap read in two calls. -/
theorem chain_reports_touches_tap :
    let lin := linearModInit 0 0 0 0
    let p : Pthres := ⟨1, 0x7fffffff⟩
    let t := (dejitterModInit 100, restingVariance, (⟨false, 0, 0⟩ : PthresVars), tap.samples)
    (pulled (chainRead queued p lin) t [1, 5]).2 =
      [⟨100, 50, 40, ⟨0, 0⟩⟩, ⟨101, 50, 52, ⟨0, 10⟩⟩, ⟨101, 50, 53, ⟨0, 20⟩⟩, ⟨102, 50, 0, ⟨0, 30⟩⟩] ∧
    ∃ (pen out : Strokes) (held : List Sample),
      (pulled (chainRead queued p lin) t [1, 5]).2 ++ held = out.samples ∧ held.length ≤ 1 ∧
      MakesStrokes p tap.samples pen ∧ List.Forall₂ (Touch lin 900 10000) pen.done out.done ∧
      Touching lin 900 10000 pen.current out.current := by
  obtain ⟨-, ms, -, hbelow, hall⟩ := chain_reports_touches queued ⟨1, 0x7fffffff⟩
    (linearModInit 0 0 0 0) honest_queued (by decide) ⟨rfl, rfl, rfl⟩
    (dejitterModInit 100, restingVariance, ⟨false, 0, 0⟩, tap.samples)
    ⟨dejitterModInit_keeps 100, restingVariance_idle, rfl⟩ [1, 5]
  have hempty : (pulled queued tap.samples ms).1 = [] := by
    rw [← hbelow]
    decide +kernel
  have hread : (pulled queued tap.samples ms).2 = tap.samples := by
    have hboth := pulled_queued tap.samples ms
    rwa [hempty, List.append_nil] at hboth
  rw [hread] at hall
  exact ⟨by decide +kernel, hall fun s hs _ => tap_sane s hs⟩

end Chain

end N32905.Tslib
