import Mathlib.Data.BitVec
import Mathlib.Data.Fin.Basic
import N32905.Lib.Stream
import N32905.Tslib.Sample
import N32905.Tslib.Variance

/-!
# The smoothing filter

`dejitter.c` keeps the last four presses in a ring and puts out their weighted average;
a release or a press too far from the one before it empties the ring.
-/

namespace N32905.Tslib

open N32905.Lib

/-! ## The model -/

structure Hist where
  x : BitVec 32
  y : BitVec 32
  p : BitVec 32

/-- `weight`. The last element of a row is the logarithm of the sum of the others. -/
def weight : List (List Nat) := [[5, 3, 0, 0, 3], [8, 5, 3, 0, 4], [6, 4, 3, 3, 4]]

/-- `struct tslib_dejitter`. `delta` is squared already; the ring has `NR_SAMPHISTLEN`
places, and its indices are taken modulo that. -/
structure Dejitter where
  delta : BitVec 32
  nr : Nat
  head : Fin 4
  hist : Fin 4 → Hist

/-- `dejitter_mod_init`, with the `delta` of `ts.conf`. -/
def dejitterModInit (delta : BitVec 32) : Dejitter :=
  { delta := sqr delta, nr := 0, head := 0, hist := fun _ => ⟨0, 0, 0⟩ }

/-- The loop of `average`: the passes to make, `i`, `sn` and the sums. -/
def averageLoop (hist : Fin 4 → Hist) (w : List Nat) : Nat → Nat → Fin 4 → Hist → Hist
  | 0, _, _, sum => sum
  | k + 1, i, sn, sum => averageLoop hist w k (i + 1) (sn - 1)
      { x := sum.x + (hist sn).x * BitVec.ofNat 32 (w.getD i 0)
        y := sum.y + (hist sn).y * BitVec.ofNat 32 (w.getD i 0)
        p := sum.p + (hist sn).p * BitVec.ofNat 32 (w.getD i 0) }

/-- `average`, and the time stamp of the sample. -/
def average (djt : Dejitter) (s : Sample) : Sample :=
  let w := weight.getD (djt.nr - 2) []
  let sum := averageLoop djt.hist w djt.nr 0 djt.head ⟨0, 0, 0⟩
  { x := sum.x.sshiftRight (w.getD 4 0)
    y := sum.y.sshiftRight (w.getD 4 0)
    pressure := sum.p >>> w.getD 4 0
    tv := s.tv }

def resetBacklog (djt : Dejitter) (s : Sample) : Dejitter :=
  if djt.nr ≠ 0 then
    let prev := djt.head - 1
    if djt.delta.slt (sqr (s.x - (djt.hist prev).x) + sqr (s.y - (djt.hist prev).y)) then
      { djt with nr := 0 }
    else djt
  else djt

def pushHist (djt : Dejitter) (s : Sample) : Dejitter :=
  { djt with
    hist := Function.update djt.hist djt.head ⟨s.x, s.y, s.pressure⟩
    nr := if djt.nr < 4 then djt.nr + 1 else djt.nr }

/-- One sample: a pass of the loop of `dejitter_read`. -/
def dejitterSample (djt : Dejitter) (s : Sample) : Dejitter × List Sample :=
  if s.pressure = 0 then ({ djt with nr := 0 }, [s])
  else
    let djt := pushHist (resetBacklog djt s) s
    let out := if djt.nr = 1 then s else average djt s
    ({ djt with head := djt.head + 1 }, [out])

section Read
variable {ρ : Type*} (next : Reader ρ Sample)

/-- `dejitter_read`. `count` and `s` move together, so that every sample is replaced by what
becomes of it; a failed read counts as no sample. -/
def dejitterRead : Reader (Dejitter × ρ) Sample := fun (djt, r) nr =>
  match next r nr with
  | (r', none) => ((djt, r'), some [])
  | (r', some samp) =>
    (((feed dejitterSample djt samp).1, r'), some (feed dejitterSample djt samp).2)

theorem dejitter_drives :
    Drives passOn (dejitterRead next) next dejitterSample Prod.snd fun t => (t.1, []) := by
  rintro ⟨djt, r⟩ nr
  refine ⟨[nr], rfl, ?_⟩
  rw [pulled_cons, pulled_nil, dejitterRead]
  rcases next r nr with ⟨r', _ | samp⟩
  · exact ⟨rfl, rfl, rfl⟩
  · exact ⟨rfl, by simp, by simp⟩

end Read

/-! ## The window -/

/-- The weighted sum of the samples, as the machine adds it up. -/
def wsum (w : List Nat) (vs : List (BitVec 32)) : BitVec 32 :=
  (List.zipWith (fun w v => v * BitVec.ofNat 32 w) w vs).sum

def smoothed (window : List Sample) (s : Sample) : Sample :=
  if window.length = 1 then s
  else
    let w := weight.getD (window.length - 2) []
    { x := (wsum w (window.map Sample.x)).sshiftRight (w.getD 4 0)
      y := (wsum w (window.map Sample.y)).sshiftRight (w.getD 4 0)
      pressure := (wsum w (window.map Sample.pressure)) >>> w.getD 4 0
      tv := s.tv }

/-- What is left of the window if the next press is too far away, or not. -/
def backlog (d : BitVec 32) : List Sample → Sample → List Sample
  | [], _ => []
  | p :: ps, s => if d.slt (dist p s) then [] else p :: ps

def slide (d : BitVec 32) (window : List Sample) (s : Sample) : List Sample :=
  s :: (backlog d window s).take 3

/-- The ring read backwards from `sn` is the window. -/
def HistoryAt (hist : Fin 4 → Hist) : Fin 4 → List Sample → Prop
  | _, [] => True
  | sn, s :: ss => hist sn = ⟨s.x, s.y, s.pressure⟩ ∧ HistoryAt hist (sn - 1) ss

/-- What the filter keeps is the window. -/
structure Dejitter.Keeps (djt : Dejitter) (window : List Sample) : Prop where
  nr : djt.nr = window.length
  nr_le : window.length ≤ 4
  history : HistoryAt djt.hist (djt.head - 1) window

theorem dejitterModInit_keeps (delta : BitVec 32) : (dejitterModInit delta).Keeps [] :=
  ⟨rfl, Nat.zero_le 4, trivial⟩

section Window
variable {djt : Dejitter} {hist : Fin 4 → Hist} {sn : Fin 4} {window : List Sample} {s : Sample}

theorem HistoryAt.take (h : HistoryAt hist sn window) (n : Nat) :
    HistoryAt hist sn (window.take n) := by
  induction window generalizing sn n with
  | nil => simpa using h
  | cons p ps ih =>
    cases n with
    | zero => trivial
    | succ n => exact ⟨h.1, ih h.2 n⟩

theorem HistoryAt.store (h : HistoryAt hist (sn - 1) window) (hle : window.length ≤ 3) (v : Hist) :
    HistoryAt (Function.update hist sn v) (sn - 1) window := by
  have hne : ∀ n : Fin 4, n - 1 ≠ n ∧ n - 1 - 1 ≠ n ∧ n - 1 - 1 - 1 ≠ n := by decide
  obtain ⟨hne1, hne2, hne3⟩ := hne sn
  rcases window with _ | ⟨a, _ | ⟨b, _ | ⟨c, _ | ⟨d, ps⟩⟩⟩⟩
  · trivial
  · simpa [HistoryAt, hne1] using h
  · simpa [HistoryAt, hne1, hne2] using h
  · simpa [HistoryAt, hne1, hne2, hne3] using h
  · simp only [List.length_cons] at hle
    omega

theorem averageLoop_eq (w : List Nat) (h : HistoryAt hist sn window) (i : Nat) (sum : Hist)
    (hw : i + window.length ≤ w.length) : averageLoop hist w window.length i sn sum =
      ⟨sum.x + wsum (w.drop i) (window.map Sample.x), sum.y + wsum (w.drop i) (window.map Sample.y),
        sum.p + wsum (w.drop i) (window.map Sample.pressure)⟩ := by
  induction window generalizing sn i sum with
  | nil => simp [averageLoop, wsum]
  | cons p ps ih =>
    rw [List.length_cons] at hw
    have hget : w.drop i = w.getD i 0 :: w.drop (i + 1) := by
      rw [List.drop_eq_getElem_cons (by omega), List.getD_eq_getElem?_getD,
        List.getElem?_eq_getElem (by omega), Option.getD_some]
    have hcons : ∀ f : Sample → BitVec 32, wsum (w.drop i) ((p :: ps).map f) =
        f p * BitVec.ofNat 32 (w.getD i 0) + wsum (w.drop (i + 1)) (ps.map f) := by
      intro f
      rw [hget, wsum, List.map_cons, List.zipWith_cons_cons, List.sum_cons, wsum]
    rw [List.length_cons, averageLoop, ih h.2 (i + 1) _ (by omega), hcons, hcons, hcons, h.1]
    simp only [BitVec.add_assoc]

theorem length_weight {n : Nat} (h2 : 2 ≤ n) (h4 : n ≤ 4) : (weight.getD (n - 2) []).length = 5 := by
  have : n = 2 ∨ n = 3 ∨ n = 4 := by omega
  rcases this with rfl | rfl | rfl <;> rfl

theorem average_eq (hnr : djt.nr = window.length) (h2 : 2 ≤ window.length) (h4 : window.length ≤ 4)
    (h : HistoryAt djt.hist djt.head window) (s : Sample) : average djt s = smoothed window s := by
  have hw := length_weight h2 h4
  rw [smoothed, if_neg (by omega), average, hnr, averageLoop_eq _ h 0 _ (by omega)]
  simp

theorem length_slide_le (d : BitVec 32) (window : List Sample) (s : Sample) :
    (slide d window s).length ≤ 4 := by
  rw [slide, List.length_cons, List.length_take]
  omega

theorem resetBacklog_keeps (h : djt.Keeps window) (s : Sample) :
    (resetBacklog djt s).Keeps (backlog djt.delta window s) ∧
      (resetBacklog djt s).delta = djt.delta ∧ (resetBacklog djt s).head = djt.head := by
  rcases window with _ | ⟨p, ps⟩
  · rw [resetBacklog, if_neg (by rw [h.nr]; simp)]
    exact ⟨h, rfl, rfl⟩
  · have hreset : resetBacklog djt s =
        if djt.delta.slt (dist p s) then { djt with nr := 0 } else djt := by
      rw [resetBacklog, if_pos (by rw [h.nr]; simp)]
      simp only [h.history.1]
      rfl
    rw [hreset, backlog]
    cases djt.delta.slt (dist p s)
    · exact ⟨h, rfl, rfl⟩
    · exact ⟨⟨rfl, by simp, trivial⟩, rfl, rfl⟩

theorem pushHist_keeps (h : djt.Keeps window) (s : Sample) :
    (pushHist djt s).nr = (s :: window.take 3).length ∧
      HistoryAt (pushHist djt s).hist (pushHist djt s).head (s :: window.take 3) := by
  refine ⟨?_, Function.update_self .., (h.history.take 3).store ?_ _⟩
  · have := h.nr_le
    change (if djt.nr < 4 then djt.nr + 1 else djt.nr) = _
    rw [List.length_cons, List.length_take, h.nr]
    split <;> omega
  · rw [List.length_take]
    omega

/-- **A press** slides the window and puts out its average. -/
theorem dejitterSample_press (h : djt.Keeps window) (hs : s.Pressed) :
    ∃ djt' : Dejitter, dejitterSample djt s = (djt', [smoothed (slide djt.delta window s) s]) ∧
      djt'.Keeps (slide djt.delta window s) ∧ djt'.delta = djt.delta := by
  obtain ⟨hkept, hdelta, -⟩ := resetBacklog_keeps h s
  obtain ⟨hnr, hhist⟩ := pushHist_keeps hkept s
  rw [← slide] at hnr hhist
  have hlen := length_slide_le djt.delta window s
  rw [dejitterSample, if_neg hs]
  refine ⟨_, Prod.ext rfl (congrArg (fun x => [x]) ?_), ⟨hnr, hlen, ?_⟩, hdelta⟩
  · rw [hnr]
    by_cases hone : (slide djt.delta window s).length = 1
    · have hsame : smoothed (slide djt.delta window s) s = s := by rw [smoothed, if_pos hone]
      rw [hsame, if_pos hone]
    · have h2 : 2 ≤ (slide djt.delta window s).length := by
        have : 0 < (slide djt.delta window s).length := Nat.succ_pos _
        omega
      rw [← average_eq hnr h2 hlen hhist s]
      exact if_neg hone
  · have hback : ∀ n : Fin 4, n + 1 - 1 = n := by decide
    change HistoryAt _ ((pushHist (resetBacklog djt s) s).head + 1 - 1) _
    rw [hback]
    exact hhist

theorem dejitterSample_release (djt : Dejitter) (hs : ¬ s.Pressed) :
    dejitterSample djt s = ({ djt with nr := 0 }, [s]) ∧ Dejitter.Keeps { djt with nr := 0 } [] := by
  refine ⟨?_, rfl, Nat.zero_le 4, trivial⟩
  rw [dejitterSample, if_pos (Decidable.not_not.1 hs)]

end Window

/-! ## Bounds -/

section Bounds

/-- Coordinates and pressures whose weighted sums fit. The weights add up to at most 16. -/
structure Sample.Sane (s : Sample) : Prop where
  x : -2 ^ 27 ≤ s.x.toInt ∧ s.x.toInt < 2 ^ 27
  y : -2 ^ 27 ≤ s.y.toInt ∧ s.y.toInt < 2 ^ 27
  pressure : s.pressure.toNat < 2 ^ 28

def isum (w : List Nat) (vs : List Int) : Int :=
  (List.zipWith (fun (w : Nat) v => v * (w : Int)) w vs).sum

theorem isum_cons (w : Nat) (ws : List Nat) (v : Int) (vs : List Int) :
    isum (w :: ws) (v :: vs) = v * w + isum ws vs := by
  rw [isum, List.zipWith_cons_cons, List.sum_cons, isum]

/-- A weighted sum lies between the sums of the least and of the greatest value. -/
theorem isum_bounds (lo hi : Int) {w : List Nat} {vs : List Int} (hlen : vs.length ≤ w.length)
    (hvs : ∀ v ∈ vs, lo ≤ v ∧ v ≤ hi) :
    lo * (w.take vs.length).sum ≤ isum w vs ∧ isum w vs ≤ hi * (w.take vs.length).sum := by
  induction vs generalizing w with
  | nil => simp [isum]
  | cons v vs ih =>
    rcases w with _ | ⟨a, w⟩
    · simp at hlen
    obtain ⟨hlo, hhi⟩ := ih (by simpa using hlen) fun u hu => hvs u (by simp [hu])
    obtain ⟨hvlo, hvhi⟩ := hvs v (by simp)
    have hle := Int.mul_le_mul_of_nonneg_right hvlo (Int.natCast_nonneg a)
    have hge := Int.mul_le_mul_of_nonneg_right hvhi (Int.natCast_nonneg a)
    rw [isum_cons, List.length_cons, List.take_succ_cons, List.sum_cons, Int.natCast_add,
      Int.mul_add, Int.mul_add]
    omega

theorem wsum_eq_ofInt {f : BitVec 32 → Int} (hf : ∀ v, BitVec.ofInt 32 (f v) = v) (w : List Nat)
    (vs : List (BitVec 32)) : wsum w vs = BitVec.ofInt 32 (isum w (vs.map f)) := by
  induction vs generalizing w with
  | nil => simp [wsum, isum]
  | cons v vs ih =>
    rcases w with _ | ⟨a, w⟩
    · simp [wsum, isum]
    · rw [List.map_cons, isum_cons, BitVec.ofInt_add, BitVec.ofInt_mul, hf, ← ih, BitVec.ofInt_natCast]
      rw [wsum, List.zipWith_cons_cons, List.sum_cons, wsum]

/-- The rows of the table: as many weights as samples, and their sum is the power of two that the
sum of the samples is shifted by. -/
theorem weight_row {n : Nat} (h2 : 2 ≤ n) (h4 : n ≤ 4) :
    n ≤ (weight.getD (n - 2) []).length ∧
      ((weight.getD (n - 2) []).take n).sum = 2 ^ (weight.getD (n - 2) []).getD 4 0 ∧
      (weight.getD (n - 2) []).getD 4 0 ≤ 4 := by
  have : n = 2 ∨ n = 3 ∨ n = 4 := by omega
  rcases this with rfl | rfl | rfl <;> decide

theorem floor_bounds (lo hi : Int) {w : List Nat} {vs : List Int} {k : Nat}
    (hlen : vs.length ≤ w.length) (hw : (w.take vs.length).sum = 2 ^ k)
    (hvs : ∀ v ∈ vs, lo ≤ v ∧ v ≤ hi) : lo ≤ isum w vs / 2 ^ k ∧ isum w vs / 2 ^ k ≤ hi := by
  obtain ⟨hlo, hhi⟩ := isum_bounds lo hi hlen hvs
  have hpos : (0 : Int) < 2 ^ k := Int.pow_pos (by decide)
  rw [hw, Int.natCast_pow] at hlo hhi
  refine ⟨Int.le_ediv_of_mul_le hpos hlo, ?_⟩
  refine Int.le_of_mul_le_mul_right (Int.le_trans (Int.ediv_mul_le _ (Int.ne_of_gt hpos)) hhi) hpos

variable {window : List Sample} {s : Sample}

theorem toInt_average {f : Sample → BitVec 32} {lo hi : Int}
    (hrange : ∀ p ∈ window, -2 ^ 27 ≤ (f p).toInt ∧ (f p).toInt < 2 ^ 27)
    (hbounds : ∀ p ∈ window, lo ≤ (f p).toInt ∧ (f p).toInt ≤ hi) (h2 : 2 ≤ window.length)
    (h4 : window.length ≤ 4) :
    lo ≤ ((wsum (weight.getD (window.length - 2) []) (window.map f)).sshiftRight
        ((weight.getD (window.length - 2) []).getD 4 0)).toInt ∧
      ((wsum (weight.getD (window.length - 2) []) (window.map f)).sshiftRight
        ((weight.getD (window.length - 2) []).getD 4 0)).toInt ≤ hi := by
  obtain ⟨hlen, hsum, hk⟩ := weight_row h2 h4
  generalize weight.getD (window.length - 2) [] = w at hlen hsum hk
  generalize w.getD 4 0 = k at hsum hk
  have hlen' : ((window.map f).map BitVec.toInt).length ≤ w.length := by simpa using hlen
  have hsum' : (w.take ((window.map f).map BitVec.toInt).length).sum = 2 ^ k := by simpa using hsum
  have hpow : (2 : Int) ^ k ≤ 16 := by
    have := Nat.pow_le_pow_right (by decide : 0 < 2) hk
    exact_mod_cast this
  have hpos : (0 : Int) < 2 ^ k := Int.pow_pos (by decide)
  have hfloor := floor_bounds lo hi hlen' hsum' (by simpa using hbounds)
  obtain ⟨hlo, hhi⟩ := isum_bounds (-2 ^ 27) (2 ^ 27 - 1) hlen' (by
    simp only [List.map_map, List.mem_map, Function.comp_apply]
    rintro v ⟨p, hp, rfl⟩
    have := hrange p hp
    omega)
  rw [hsum', Int.natCast_pow] at hlo hhi
  change _ * (2 : Int) ^ k ≤ _ at hlo
  change _ ≤ _ * (2 : Int) ^ k at hhi
  have heq : (wsum w (window.map f)).toInt = isum w ((window.map f).map BitVec.toInt) := by
    rw [wsum_eq_ofInt (f := BitVec.toInt) (fun v => BitVec.ofInt_toInt) w]
    exact BitVec.toInt_ofInt_eq_self (by decide) (by omega) (by omega)
  rw [BitVec.toInt_sshiftRight, heq, Int.shiftRight_eq_div_pow]
  exact_mod_cast hfloor

theorem toNat_average (hpos : ∀ p ∈ window, p.Pressed) (hrange : ∀ p ∈ window, p.pressure.toNat < 2 ^ 28)
    (h2 : 2 ≤ window.length) (h4 : window.length ≤ 4) :
    1 ≤ ((wsum (weight.getD (window.length - 2) []) (window.map Sample.pressure)) >>>
        ((weight.getD (window.length - 2) []).getD 4 0)).toNat := by
  obtain ⟨hlen, hsum, hk⟩ := weight_row h2 h4
  generalize weight.getD (window.length - 2) [] = w at hlen hsum hk
  generalize w.getD 4 0 = k at hsum hk
  have hlen' : ((window.map Sample.pressure).map fun v => (v.toNat : Int)).length ≤ w.length := by
    simpa using hlen
  have hsum' : (w.take ((window.map Sample.pressure).map fun v => (v.toNat : Int)).length).sum =
      2 ^ k := by simpa using hsum
  have hpow : (2 : Int) ^ k ≤ 16 := by
    have := Nat.pow_le_pow_right (by decide : 0 < 2) hk
    exact_mod_cast this
  have hk0 : (0 : Int) < 2 ^ k := Int.pow_pos (by decide)
  have hmem : ∀ v ∈ (window.map Sample.pressure).map fun v => (v.toNat : Int),
      1 ≤ v ∧ v ≤ 2 ^ 28 - 1 := by
    simp only [List.map_map, List.mem_map, Function.comp_apply]
    rintro v ⟨p, hp, rfl⟩
    have := hrange p hp
    have hne : p.pressure.toNat ≠ 0 := fun h0 => hpos p hp (BitVec.eq_of_toNat_eq h0)
    omega
  have hfloor := floor_bounds 1 (2 ^ 28 - 1) hlen' hsum' hmem
  obtain ⟨hlo, hhi⟩ := isum_bounds 1 (2 ^ 28 - 1) hlen' hmem
  rw [hsum', Int.natCast_pow] at hlo hhi
  change _ * (2 : Int) ^ k ≤ _ at hlo
  change _ ≤ _ * (2 : Int) ^ k at hhi
  have heq : ((wsum w (window.map Sample.pressure)).toNat : Int) =
      isum w ((window.map Sample.pressure).map fun v => (v.toNat : Int)) := by
    rw [wsum_eq_ofInt (f := fun v => (v.toNat : Int)) (fun v => by simp) w, BitVec.toNat_ofInt]
    omega
  rw [BitVec.toNat_ushiftRight, Nat.shiftRight_eq_div_pow]
  have := hfloor.1
  rw [← heq] at this
  exact_mod_cast this

structure Between (l : List Sample) (s : Sample) : Prop where
  x_ge : ∃ a ∈ l, a.x.toInt ≤ s.x.toInt
  x_le : ∃ a ∈ l, s.x.toInt ≤ a.x.toInt
  y_ge : ∃ a ∈ l, a.y.toInt ≤ s.y.toInt
  y_le : ∃ a ∈ l, s.y.toInt ≤ a.y.toInt

theorem Between.mono {l l' : List Sample} (h : Between l s) (hsub : l ⊆ l') : Between l' s := by
  obtain ⟨⟨a, ha, h1⟩, ⟨b, hb, h2⟩, ⟨c, hc, h3⟩, ⟨e, he, h4⟩⟩ := h
  exact ⟨⟨a, hsub ha, h1⟩, ⟨b, hsub hb, h2⟩, ⟨c, hsub hc, h3⟩, ⟨e, hsub he, h4⟩⟩

/-- An average of coordinates is not below all of them and not above all of them. -/
theorem average_between {f : Sample → BitVec 32}
    (hrange : ∀ p ∈ window, -2 ^ 27 ≤ (f p).toInt ∧ (f p).toInt < 2 ^ 27) (h2 : 2 ≤ window.length)
    (h4 : window.length ≤ 4) {v : BitVec 32}
    (hv : v = (wsum (weight.getD (window.length - 2) []) (window.map f)).sshiftRight
      ((weight.getD (window.length - 2) []).getD 4 0)) :
    (∃ a ∈ window, (f a).toInt ≤ v.toInt) ∧ ∃ a ∈ window, v.toInt ≤ (f a).toInt := by
  constructor
  · by_contra hnone
    have hall : ∀ p ∈ window, v.toInt + 1 ≤ (f p).toInt ∧ (f p).toInt ≤ 2 ^ 27 := by
      intro p hp
      have := hrange p hp
      have : ¬ (f p).toInt ≤ v.toInt := fun hle => hnone ⟨p, hp, hle⟩
      omega
    have := (toInt_average hrange hall h2 h4).1
    rw [← hv] at this
    omega
  · by_contra hnone
    have hall : ∀ p ∈ window, -2 ^ 27 ≤ (f p).toInt ∧ (f p).toInt ≤ v.toInt - 1 := by
      intro p hp
      have := hrange p hp
      have : ¬ v.toInt ≤ (f p).toInt := fun hle => hnone ⟨p, hp, hle⟩
      omega
    have := (toInt_average hrange hall h2 h4).2
    rw [← hv] at this
    omega

/-- **The average of a window** lies between its samples. -/
theorem smoothed_between (hs : s ∈ window) (hsane : ∀ p ∈ window, p.Sane)
    (hpressed : ∀ p ∈ window, p.Pressed) (h4 : window.length ≤ 4) :
    Between window (smoothed window s) ∧ (smoothed window s).Pressed := by
  by_cases hone : window.length = 1
  · rw [smoothed, if_pos hone]
    exact ⟨⟨⟨s, hs, Int.le_refl _⟩, ⟨s, hs, Int.le_refl _⟩, ⟨s, hs, Int.le_refl _⟩,
      ⟨s, hs, Int.le_refl _⟩⟩, hpressed s hs⟩
  · have h2 : 2 ≤ window.length := by
      have := List.length_pos_of_mem hs
      omega
    have heq : smoothed window s = _ := if_neg hone
    obtain ⟨hx, hx'⟩ := average_between (f := Sample.x) (fun p hp => (hsane p hp).x) h2 h4
      (congrArg Sample.x heq)
    obtain ⟨hy, hy'⟩ := average_between (f := Sample.y) (fun p hp => (hsane p hp).y) h2 h4
      (congrArg Sample.y heq)
    refine ⟨⟨hx, hx', hy, hy'⟩, fun h0 => ?_⟩
    have hp := toNat_average hpressed (fun p hp => (hsane p hp).pressure) h2 h4
    have hzero : (wsum (weight.getD (window.length - 2) []) (window.map Sample.pressure)) >>>
        ((weight.getD (window.length - 2) []).getD 4 0) = 0 :=
      (congrArg Sample.pressure heq).symm.trans h0
    rw [hzero] at hp
    exact absurd hp (by decide)

end Bounds

/-! ## Strokes -/

section Strokes
variable {djt : Dejitter} {d : BitVec 32} {window ps done : List Sample}

def smoothing (d : BitVec 32) : List Sample → List Sample → List Sample
  | _, [] => []
  | window, p :: ps => smoothed (slide d window p) p :: smoothing d (slide d window p) ps

theorem feed_dejitter_presses (h : djt.Keeps window) (hps : ∀ s ∈ ps, s.Pressed) :
    (feed dejitterSample djt ps).2 = smoothing djt.delta window ps ∧
      (feed dejitterSample djt ps).1.delta = djt.delta := by
  induction ps generalizing djt window with
  | nil => exact ⟨rfl, rfl⟩
  | cons p ps ih =>
    obtain ⟨djt', heq, hkeeps, hdelta⟩ := dejitterSample_press h (hps p (by simp))
    obtain ⟨hout, hdelta'⟩ := ih hkeeps fun s hs => hps s (by simp [hs])
    rw [feed_cons, heq, hout, hdelta, smoothing]
    exact ⟨rfl, hdelta'.trans hdelta⟩

/-- The presses `ps'` put out for `ps`: one for each, at its time, in the averages of the
window, between the last four. -/
structure SmoothedFrom (d : BitVec 32) (ps ps' : List Sample) : Prop where
  eq : ps' = smoothing d [] ps
  tv : ps'.map Sample.tv = ps.map Sample.tv
  between : ∀ i s, ps'[i]? = some s → Between ((ps.take (i + 1)).reverse.take 4) s

theorem smoothing_tv (d : BitVec 32) (window ps : List Sample) :
    (smoothing d window ps).map Sample.tv = ps.map Sample.tv := by
  induction ps generalizing window with
  | nil => rfl
  | cons p ps ih =>
    rw [smoothing, List.map_cons, List.map_cons, ih, smoothed]
    split <;> rfl

theorem slide_prefix (h : window <+: done.reverse) (p : Sample) :
    slide d window p <+: (done ++ [p]).reverse := by
  have hback : backlog d window p <+: done.reverse := by
    rcases window with _ | ⟨q, qs⟩
    · exact h
    · rw [backlog]
      split
      · exact List.nil_prefix
      · exact h
  rw [slide, List.reverse_append, List.reverse_singleton, List.singleton_append,
    List.prefix_cons_inj]
  exact (List.take_prefix _ _).trans hback

theorem smoothing_between (h : window <+: done.reverse) (hsane : ∀ s ∈ done ++ ps, s.Sane)
    (hpressed : ∀ s ∈ done ++ ps, s.Pressed) : ∀ i s, (smoothing d window ps)[i]? = some s →
      Between ((done ++ ps.take (i + 1)).reverse.take 4) s ∧ s.Pressed := by
  induction ps generalizing window done with
  | nil =>
    intro i s hi
    cases hi
  | cons p ps ih =>
    have hslide := slide_prefix (d := d) h p
    intro i s hi
    rw [smoothing] at hi
    cases i with
    | zero =>
      cases hi
      have hmem : ∀ q ∈ slide d window p, q ∈ done ++ p :: ps := by
        intro q hq
        have := hslide.subset hq
        simp only [List.mem_reverse, List.mem_append, List.mem_singleton] at this
        simp only [List.mem_append, List.mem_cons]
        tauto
      have hlen := length_slide_le d window p
      obtain ⟨hbetween, hdown⟩ := smoothed_between (List.mem_cons_self ..)
        (fun q hq => hsane q (hmem q hq)) (fun q hq => hpressed q (hmem q hq)) hlen
      refine ⟨hbetween.mono ?_, hdown⟩
      have htake := List.prefix_take_iff.2 ⟨hslide, hlen⟩
      exact htake.subset
    | succ i =>
      rw [List.getElem?_cons_succ] at hi
      have := ih hslide (by simpa using hsane) (by simpa using hpressed) i s hi
      simpa using this

theorem smoothedFrom_of_sane (hsane : ∀ s ∈ ps, s.Sane) (hpressed : ∀ s ∈ ps, s.Pressed) :
    SmoothedFrom d ps (smoothing d [] ps) ∧ ∀ s ∈ smoothing d [] ps, s.Pressed := by
  have h := @smoothing_between d [] ps [] List.nil_prefix (by simpa using hsane)
    (by simpa using hpressed)
  refine ⟨⟨rfl, smoothing_tv d [] ps, fun i s hi => by simpa using (h i s hi).1⟩, fun s hs => ?_⟩
  obtain ⟨i, hi⟩ := List.getElem?_of_mem hs
  exact (h i s hi).2

/-- A stroke and what becomes of it. -/
def Smoothed (d : BitVec 32) (st st' : Stroke) : Prop :=
  st'.release = st.release ∧ SmoothedFrom d st.presses st'.presses

theorem feed_dejitter_stroke (h : djt.Keeps [] ∧ djt.delta = d) (st : Stroke)
    (hsane : ∀ s ∈ st.presses, s.Sane) : ∃ st' : Stroke,
      (feed dejitterSample djt st.samples).2 = st'.samples ∧ Smoothed d st st' ∧
        (feed dejitterSample djt st.samples).1.Keeps [] ∧
        (feed dejitterSample djt st.samples).1.delta = d := by
  obtain ⟨hout, hdelta⟩ := feed_dejitter_presses h.1 st.pressed
  obtain ⟨hfrom, hpressed⟩ := smoothedFrom_of_sane (d := d) hsane st.pressed
  obtain ⟨hrelease, hempty⟩ := dejitterSample_release
    (feed dejitterSample djt st.presses).1 st.released
  have hne : smoothing d [] st.presses ≠ [] := by
    intro hnil
    have hlen := congrArg List.length hfrom.tv
    rw [hnil] at hlen
    exact st.presses_ne (List.eq_nil_of_length_eq_zero (by simpa using hlen.symm))
  refine ⟨⟨_, st.release, hne, hpressed, st.released⟩, ?_, ⟨rfl, hfrom⟩, ?_⟩
  · rw [Stroke.samples, feed_append, feed_cons, feed_nil, hrelease, hout, h.2, Stroke.samples]
    rfl
  · rw [Stroke.samples, feed_append, feed_cons, feed_nil, hrelease]
    exact ⟨hempty, hdelta.trans h.2⟩

theorem feed_dejitter_strokes (h : djt.Keeps []) (ss : Strokes) (hsane : ∀ s ∈ ss.samples, s.Sane) :
    ∃ ss' : Strokes, (feed dejitterSample djt ss.samples).2 = ss'.samples ∧
      List.Forall₂ (Smoothed djt.delta) ss.done ss'.done ∧
      SmoothedFrom djt.delta ss.current ss'.current := by
  have hdone : ∀ st ∈ ss.done, ∀ s ∈ st.presses, s.Sane := by
    intro st hst s hs
    refine hsane s (List.mem_append_left _ (List.mem_flatMap.2 ⟨st, hst, ?_⟩))
    exact List.mem_append_left _ hs
  obtain ⟨done, hout, hall, hkeeps, hdelta⟩ := feed_segments
    (fun djt st hdjt hst => feed_dejitter_stroke hdjt st hst) ⟨h, rfl⟩ ss.done hdone
  obtain ⟨hcur, -⟩ := feed_dejitter_presses hkeeps ss.pressed
  obtain ⟨hfrom, hpressed⟩ := smoothedFrom_of_sane (d := djt.delta)
    (fun s hs => hsane s (List.mem_append_right _ hs)) ss.pressed
  refine ⟨⟨done, _, hpressed⟩, ?_, hall, hfrom⟩
  rw [Strokes.samples, feed_append, hout, hcur, hdelta, Strokes.samples]

end Strokes

theorem tap_sane : ∀ s ∈ tap.samples, s.Sane := by
  simp only [tap, Stroke.samples, List.cons_append, List.nil_append, List.mem_cons, List.not_mem_nil,
    or_false]
  rintro s (rfl | rfl | rfl | rfl) <;> exact ⟨by decide, by decide, by decide⟩

end N32905.Tslib
