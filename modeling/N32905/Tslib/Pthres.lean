import Mathlib.Data.List.Induction
import N32905.Lib.Loop
import N32905.Lib.Stream
import N32905.Tslib.Sample

/-!
# The pressure filter

`pthres.c` drops samples whose pressure is out of bounds, in the caller's array, and
makes one release of the first sample below the lower bound. What it keeps between
calls is static, so that the cut of the stream into calls does not show.
-/

namespace N32905.Tslib

open N32905.Lib

/-! ## The model -/

/-- `pmin` and `pmax` of `struct tslib_pthres`. -/
structure Pthres where
  pmin : BitVec 32
  pmax : BitVec 32

/-- The static variables of `pthres_read`. -/
structure PthresVars where
  press : Bool
  xsave : BitVec 32
  ysave : BitVec 32

/-- `memmove` between elements of an array; `none` is an access outside of it. -/
def memmove (samp : List Sample) (dst src n : Nat) : Option (List Sample) :=
  if src + n ≤ samp.length ∧ dst + n ≤ samp.length then
    some (samp.take dst ++ (samp.drop src).take n ++ samp.drop (dst + n))
  else none

/-- The array, the element looked at and the number of samples kept. -/
structure PthresLoop where
  samp : List Sample
  s : Nat
  nr : Nat

section Model
variable (p : Pthres)

/-- A sample out of bounds: the rest of the array moves over it, and `s` stays where it is. -/
def dropSample (ret : Nat) (v : PthresVars) (l : PthresLoop) :
    Option (Step (PthresVars × PthresLoop) (PthresVars × PthresLoop)) :=
  if 0 < (ret : Int) - l.nr - 1 then
    (memmove l.samp l.s (l.s + 1) (ret - l.nr - 1)).map fun samp => .next (v, ⟨samp, l.s, l.nr⟩)
  else some (.done (v, l))

def pthresPass (ret : Nat) (v : PthresVars) (l : PthresLoop) :
    Option (Step (PthresVars × PthresLoop) (PthresVars × PthresLoop)) := do
  let s ← l.samp[l.s]?
  if s.pressure < p.pmin then
    if v.press then
      let s := { s with pressure := 0, x := v.xsave, y := v.ysave }
      some (.next ({ v with press := false }, ⟨l.samp.set l.s s, l.s + 1, l.nr + 1⟩))
    else dropSample ret v l
  else if p.pmax < s.pressure then dropSample ret v l
  else some (.next (⟨true, s.x, s.y⟩, ⟨l.samp, l.s + 1, l.nr + 1⟩))

def pthresPasses (ret : Nat) : Nat → PthresVars × PthresLoop → Option (PthresVars × PthresLoop)
  | 0, st => some st
  | k + 1, st => (pthresPass p ret st.1 st.2).bind fun
    | .next st => pthresPasses ret k st
    | .done st => some st

variable {ρ : Type*} (next : Reader ρ Sample)

/-- `pthres_read`. A failed read is passed on. -/
def pthresRead : Reader (PthresVars × ρ) Sample := fun (v, r) nr =>
  match next r nr with
  | (r', none) => ((v, r'), none)
  | (r', some samp) =>
    match pthresPasses p samp.length samp.length (v, ⟨samp, 0, 0⟩) with
    | none => ((v, r'), none)
    | some (v', l) => ((v', r'), some (l.samp.take l.nr))

def pthresSample (v : PthresVars) (s : Sample) : PthresVars × List Sample :=
  if s.pressure < p.pmin then
    if v.press then
      ({ v with press := false }, [{ s with pressure := 0, x := v.xsave, y := v.ysave }])
    else (v, [])
  else if p.pmax < s.pressure then (v, [])
  else (⟨true, s.x, s.y⟩, [s])

end Model

/-! ## The loop -/

section Passes
variable {p : Pthres} {v : PthresVars} {samp out rest : List Sample} {x : Sample} {ret k : Nat}

/-- What the loop has to do with the samples kept so far, `out`, and those still to come. -/
def PassesTo (p : Pthres) (v : PthresVars) (out rest : List Sample)
    (res : Option (PthresVars × PthresLoop)) : Prop :=
  ∃ l, res = some ((feed (pthresSample p) v rest).1, l) ∧
    l.samp.take l.nr = out ++ (feed (pthresSample p) v rest).2

/-- The array in the middle of the loop: the samples kept, those to come and what the moves
left behind. -/
theorem memmove_drop (out rest tail : List Sample) (x : Sample) :
    ∃ tail', memmove (out ++ x :: rest ++ tail) out.length (out.length + 1)
        (rest.length + tail.length) = some (out ++ rest ++ tail') ∧
      tail'.length = tail.length + 1 := by
  have hlen : (out ++ x :: rest ++ tail).length = out.length + 1 + (rest.length + tail.length) := by
    simp
    omega
  have hsrc : (out ++ x :: rest ++ tail).drop (out.length + 1) = rest ++ tail := by
    rw [List.append_assoc, List.drop_append]
    simp
  refine ⟨tail ++ (out ++ x :: rest ++ tail).drop (out.length + (rest.length + tail.length)),
    ?_, ?_⟩
  · rw [memmove, if_pos (by omega), hsrc, List.append_assoc out, List.take_left' rfl,
      List.take_of_length_le (by simp)]
    simp
  · rw [List.length_append, List.length_drop, hlen]
    omega

/-- The loop's state with `out` kept and `rest` to come. -/
abbrev midLoop (out rest tail : List Sample) : PthresLoop :=
  ⟨out ++ rest ++ tail, out.length, out.length⟩

theorem pass_keep {v' : PthresVars} {y : Sample} (tail : List Sample)
    (h : pthresSample p v x = (v', [y])) :
    pthresPass p ret v (midLoop out (x :: rest) tail) =
      some (.next (v', midLoop (out ++ [y]) rest tail)) := by
  have hget : (out ++ x :: rest ++ tail)[out.length]? = some x := by simp
  rw [pthresPass, hget, Option.bind_eq_bind, Option.bind_some]
  rw [pthresSample] at h
  split at h
  case isTrue hlow =>
    split at h
    case isTrue hpress =>
      cases h
      rw [if_pos hlow, if_pos hpress]
      simp [midLoop]
    case isFalse => cases h
  case isFalse hlow =>
    split at h
    case isTrue => cases h
    case isFalse hin =>
      cases h
      rw [if_neg hlow, if_neg hin]
      simp [midLoop]

/-- A pass that drops one moves the rest, or ends the loop at the array's end. -/
theorem pass_drop (tail : List Sample) (hret : ret = out.length + 1 + rest.length + tail.length)
    (h : pthresSample p v x = (v, [])) :
    (∃ tail', tail'.length = tail.length + 1 ∧
      pthresPass p ret v (midLoop out (x :: rest) tail) =
        some (.next (v, midLoop out rest tail'))) ∨
    (rest = [] ∧ pthresPass p ret v (midLoop out (x :: rest) tail) =
      some (.done (v, midLoop out (x :: rest) tail))) := by
  have hget : (out ++ x :: rest ++ tail)[out.length]? = some x := by simp
  have hpass : pthresPass p ret v (midLoop out (x :: rest) tail) =
      dropSample ret v (midLoop out (x :: rest) tail) := by
    rw [pthresPass, hget, Option.bind_eq_bind, Option.bind_some]
    rw [pthresSample] at h
    split at h
    case isTrue hlow =>
      split at h
      case isTrue => simp at h
      case isFalse hup => rw [if_pos hlow, if_neg hup]
    case isFalse hlow =>
      split at h
      case isTrue hhigh => rw [if_neg hlow, if_pos hhigh]
      case isFalse => simp at h
  obtain ⟨tail', hmove, hlen⟩ := memmove_drop out rest tail x
  rw [hpass, dropSample]
  split
  case isTrue =>
    refine .inl ⟨tail', hlen, ?_⟩
    rw [show ret - (midLoop out (x :: rest) tail).nr - 1 = rest.length + tail.length by
      change ret - out.length - 1 = _
      omega, hmove]
    rfl
  case isFalse hleft =>
    refine .inr ⟨List.eq_nil_of_length_eq_zero ?_, rfl⟩
    change ¬ 0 < (ret : Int) - out.length - 1 at hleft
    omega

/-- A sample is kept, changed or not, or it is dropped and leaves no trace. -/
theorem pthresSample_cases (p : Pthres) (v : PthresVars) (x : Sample) :
    (∃ v' y, pthresSample p v x = (v', [y])) ∨ pthresSample p v x = (v, []) := by
  unfold pthresSample
  split <;> split <;> simp

/-- **The loop** filters what is still to come. -/
theorem passes_eq (rest tail : List Sample) (hret : ret = out.length + rest.length + tail.length) :
    PassesTo p v out rest (pthresPasses p ret rest.length (v, midLoop out rest tail)) := by
  induction rest generalizing v out tail with
  | nil => exact ⟨_, rfl, by simp⟩
  | cons x rest ih =>
    rw [List.length_cons] at hret ⊢
    rw [pthresPasses]
    rcases pthresSample_cases p v x with ⟨v', y, hy⟩ | hx
    · rw [pass_keep tail hy, Option.bind_some]
      have hret' : ret = (out ++ [y]).length + rest.length + tail.length := by
        rw [List.length_append, List.length_singleton]
        omega
      obtain ⟨l, hl, htake⟩ := ih (v := v') tail hret'
      refine ⟨l, ?_, ?_⟩
      · rw [feed_cons, hy]
        exact hl
      · rw [feed_cons, hy, htake, List.append_assoc]
    · have hfeed : feed (pthresSample p) v (x :: rest) = feed (pthresSample p) v rest := by
        rw [feed_cons, hx, List.nil_append]
      rw [PassesTo, hfeed]
      have hret' : ret = out.length + 1 + rest.length + tail.length := by omega
      rcases pass_drop tail hret' hx with ⟨tail', hlen, hpass⟩ | ⟨rfl, hpass⟩
      · rw [hpass, Option.bind_some]
        exact ih tail' (by omega)
      · rw [hpass, Option.bind_some]
        refine ⟨_, rfl, ?_⟩
        rw [feed_nil, List.append_nil, midLoop, List.append_assoc]
        exact List.take_left' rfl

/-- **One call** stays inside the array and filters what it read. -/
theorem pthresPasses_eq (p : Pthres) (v : PthresVars) (samp : List Sample) :
    PassesTo p v [] samp (pthresPasses p samp.length samp.length (v, ⟨samp, 0, 0⟩)) := by
  have h := @passes_eq p v [] samp.length samp [] (by simp)
  rwa [midLoop, List.append_nil] at h

end Passes

section Read
variable {ρ : Type*} (p : Pthres) (next : Reader ρ Sample)

theorem pthresRead_eq (v : PthresVars) (r : ρ) (nr : Nat) : pthresRead p next (v, r) nr =
    match next r nr with
    | (r', none) => ((v, r'), none)
    | (r', some samp) => (((feed (pthresSample p) v samp).1, r'),
        some (feed (pthresSample p) v samp).2) := by
  rw [pthresRead]
  rcases next r nr with ⟨r', _ | samp⟩
  · rfl
  · obtain ⟨l, hl, htake⟩ := pthresPasses_eq p v samp
    simp only [hl, htake, List.nil_append]

/-- `pthres_read` is the filter `pthresSample` on what the layer below reads. -/
theorem pthres_drives :
    Drives passOn (pthresRead p next) next (pthresSample p) Prod.snd fun t => (t.1, []) := by
  rintro ⟨v, r⟩ nr
  refine ⟨[nr], rfl, ?_⟩
  rw [pulled_cons, pulled_nil, pthresRead_eq]
  rcases next r nr with ⟨r', _ | samp⟩
  · exact ⟨rfl, rfl, by simp⟩
  · exact ⟨rfl, by simp, by simp⟩

theorem pthres_honest (h : Honest next) : Honest (pthresRead p next) := by
  rintro ⟨v, r⟩ nr xs hxs
  have hnext := h r nr
  rw [pthresRead_eq] at hxs
  rcases hread : next r nr with ⟨r', _ | samp⟩
  · rw [hread] at hxs
    cases hxs
  · rw [hread] at hxs hnext
    cases hxs
    refine Nat.le_trans (length_feed_le (fun v x => ?_) samp) (hnext samp rfl)
    rcases pthresSample_cases p v x with ⟨v', y, hy⟩ | hx
    · rw [hy]
      exact Nat.le_refl 1
    · rw [hx]
      exact Nat.zero_le 1

end Read

/-! ## Strokes -/

section Strokes
variable {p : Pthres} {v : PthresVars}

/-- Whether a sample counts as a press. -/
def Pthres.InBounds (p : Pthres) (s : Sample) : Prop := ¬ s.pressure < p.pmin ∧ ¬ p.pmax < s.pressure

instance (p : Pthres) (s : Sample) : Decidable (p.InBounds s) := inferInstanceAs (Decidable (_ ∧ _))

theorem Pthres.InBounds.pressed {s : Sample} (h : p.InBounds s) (hpmin : p.pmin ≠ 0) : s.Pressed := by
  intro h0
  have := h.1
  rw [h0, BitVec.lt_def] at this
  have hpos : p.pmin.toNat ≠ 0 := fun h => hpmin (BitVec.eq_of_toNat_eq h)
  simp at this
  omega

def LiftedInPlace (st : Stroke) : Prop :=
  ∃ last ∈ st.presses.getLast?, st.release.x = last.x ∧ st.release.y = last.y

/-- The samples `xs` have the pen in the air, then down for the presses `ps`. -/
def Makes (p : Pthres) (xs ps : List Sample) : Prop :=
  ∃ air down, xs = air ++ down ∧ (∀ s ∈ air, ¬ p.InBounds s) ∧ (∀ s ∈ down, ¬ s.pressure < p.pmin) ∧
    ps = down.filter fun s => decide (p.InBounds s)

/-- The samples `xs` make the stroke: the first one below the lower bound ends it, at the place
of the last press. -/
def MakesStroke (p : Pthres) (xs : List Sample) (st : Stroke) : Prop :=
  ∃ before low last, xs = before ++ [low] ∧ low.pressure < p.pmin ∧ Makes p before st.presses ∧
    last ∈ st.presses.getLast? ∧ st.release = { low with pressure := 0, x := last.x, y := last.y }

/-- The samples `xs`, cut where the strokes end. -/
def MakesStrokes (p : Pthres) (xs : List Sample) (ss : Strokes) : Prop :=
  ∃ cuts rest, xs = cuts.flatten ++ rest ∧ List.Forall₂ (MakesStroke p) cuts ss.done ∧
    Makes p rest ss.current

section Makes
variable {xs ps : List Sample} {ss : Strokes} {x : Sample}

theorem Makes.out (h : Makes p xs []) (hx : ¬ p.InBounds x) : Makes p (xs ++ [x]) [] := by
  obtain ⟨air, down, rfl, hair, -, hnone⟩ := h
  have hdown := List.filter_eq_nil_iff.1 hnone.symm
  refine ⟨air ++ down ++ [x], [], (List.append_nil _).symm, ?_, by simp, rfl⟩
  intro s hs
  rcases List.mem_append.1 hs with hs | hs
  · rcases List.mem_append.1 hs with hs | hs
    · exact hair s hs
    · simpa using hdown s hs
  · rwa [List.mem_singleton.1 hs]

theorem Makes.down (h : Makes p xs ps) (hx : ¬ x.pressure < p.pmin) :
    Makes p (xs ++ [x]) (ps ++ [x].filter fun s => decide (p.InBounds s)) := by
  obtain ⟨air, down, rfl, hair, hdown, rfl⟩ := h
  refine ⟨air, down ++ [x], List.append_assoc .., hair, ?_, (List.filter_append ..).symm⟩
  intro s hs
  rcases List.mem_append.1 hs with hs | hs
  · exact hdown s hs
  · rwa [List.mem_singleton.1 hs]

theorem MakesStroke.lifted {st : Stroke} (h : MakesStroke p xs st) : LiftedInPlace st := by
  obtain ⟨before, low, last, -, -, -, hlast, hrelease⟩ := h
  exact ⟨last, hlast, by rw [hrelease], by rw [hrelease]⟩

theorem MakesStrokes.lifted (h : MakesStrokes p xs ss) : ∀ st ∈ ss.done, LiftedInPlace st := by
  obtain ⟨cuts, rest, -, hall, -⟩ := h
  intro st hst
  obtain ⟨i, hi⟩ := List.getElem?_of_mem hst
  obtain ⟨hlt, hget⟩ := List.getElem?_eq_some_iff.1 hi
  have hcut := (List.forall₂_iff_get.1 hall).2 i (by rw [hall.length_eq]; exact hlt) hlt
  rw [← hget]
  exact hcut.lifted

end Makes

/-- What `pthres_read` keeps is what the strokes put out for the samples `xs` say. -/
structure StrokesOf (p : Pthres) (xs : List Sample) (v : PthresVars) (ss : Strokes) : Prop where
  press : v.press = decide (ss.current ≠ [])
  save : ∀ s ∈ ss.current.getLast?, v.xsave = s.x ∧ v.ysave = s.y
  presses : ss.samples.filter (fun s => decide s.Pressed) = xs.filter (fun s => decide (p.InBounds s))
  made : MakesStrokes p xs ss

theorem StrokesOf.next {xs : List Sample} {ss : Strokes} (h : StrokesOf p xs v ss)
    (hpmin : p.pmin ≠ 0) (x : Sample) : ∃ ss' : Strokes,
      StrokesOf p (xs ++ [x]) (pthresSample p v x).1 ss' ∧
      ss'.samples = ss.samples ++ (pthresSample p v x).2 := by
  obtain ⟨cuts, rest, hxs, hall, hrest⟩ := h.made
  have hmore : xs ++ [x] = cuts.flatten ++ (rest ++ [x]) := by rw [hxs, List.append_assoc]
  have hdrop (hout : ¬ p.InBounds x) (hmade : Makes p (rest ++ [x]) ss.current) :
      StrokesOf p (xs ++ [x]) v ss :=
    ⟨h.press, h.save, by simp [h.presses, hout], cuts, _, hmore, hall, hmade⟩
  unfold pthresSample
  split
  case isTrue hlow =>
    have hout : ¬ p.InBounds x := fun hin => hin.1 hlow
    split
    case isTrue hpress =>
      have hne : ss.current ≠ [] := by simpa [h.press] using hpress
      obtain ⟨last, hlast⟩ := List.getLast?_isSome.2 hne |> Option.isSome_iff_exists.1
      obtain ⟨hx, hy⟩ := h.save last hlast
      refine ⟨ss.lift { x with pressure := 0, x := v.xsave, y := v.ysave } (by simp [Sample.Pressed])
        hne, ⟨?_, ?_, ?_, cuts ++ [rest ++ [x]], [], ?_, ?_, [], [], rfl, ?_, ?_, rfl⟩, by simp⟩
      · simp [Strokes.lift]
      · simp [Strokes.lift]
      · rw [Strokes.samples_lift, List.filter_append, List.filter_append, h.presses]
        simp [hout, Sample.Pressed]
      · rw [hmore, List.flatten_concat, List.append_nil]
      · refine List.rel_append hall (.cons ?_ .nil)
        exact ⟨rest, x, last, rfl, hlow, hrest, hlast, by rw [hx, hy]⟩
      · simp
      · simp
    case isFalse hpress =>
      have hnone : ss.current = [] := by simpa [h.press] using hpress
      refine ⟨ss, hdrop hout ?_, by simp⟩
      rw [hnone] at hrest ⊢
      exact hrest.out hout
  case isFalse hlow =>
    have hdown := hrest.down hlow
    split
    case isTrue hhigh =>
      have hout : ¬ p.InBounds x := fun hin => hin.2 hhigh
      refine ⟨ss, hdrop hout ?_, by simp⟩
      simpa [hout] using hdown
    case isFalse hhigh =>
      have hin : p.InBounds x := ⟨hlow, hhigh⟩
      refine ⟨ss.press x (hin.pressed hpmin), ⟨?_, ?_, ?_, cuts, _, hmore, hall, ?_⟩, by simp⟩
      · simp [Strokes.press]
      · simp [Strokes.press]
      · simp [h.presses, hin, hin.pressed hpmin]
      · change Makes p (rest ++ [x]) (ss.current ++ [x])
        simpa [hin] using hdown

theorem strokes_of_feed (hpmin : p.pmin ≠ 0) (hup : v.press = false) (xs : List Sample) :
    ∃ ss : Strokes, (feed (pthresSample p) v xs).2 = ss.samples ∧
      StrokesOf p xs (feed (pthresSample p) v xs).1 ss := by
  induction xs using List.reverseRecOn with
  | nil =>
    refine ⟨.start, rfl, by simp [Strokes.start, hup], by simp [Strokes.start], by simp, [], [], rfl,
      .nil, [], [], rfl, by simp, by simp, rfl⟩
  | append_singleton xs x ih =>
    obtain ⟨ss, hout, hss⟩ := ih
    obtain ⟨ss', hss', hsamples⟩ := hss.next hpmin x
    refine ⟨ss', ?_, ?_⟩
    · simp [feed_append, hout, hsamples]
    · simpa [feed_append] using hss'

end Strokes

/-- **The pressure filter**: each call of `pthres_read` makes one of the layer below, and from all
that these read it makes the strokes: the presses are exactly the samples in bounds, and the
first sample below the lower bound ends a stroke, where the pen was last seen. -/
theorem pthres_makes_strokes {ρ : Type*} (p : Pthres) (hpmin : p.pmin ≠ 0) (next : Reader ρ Sample)
    (v : PthresVars) (hup : v.press = false) (r : ρ) (ns : List Nat) :
    (pulled (pthresRead p next) (v, r) ns).1.2 = (pulled next r ns).1 ∧
      ∃ ss : Strokes, (pulled (pthresRead p next) (v, r) ns).2 = ss.samples ∧
        MakesStrokes p (pulled next r ns).2 ss ∧
        ss.samples.filter (fun s => decide s.Pressed) =
          (pulled next r ns).2.filter (fun s => decide (p.InBounds s)) := by
  obtain ⟨mss, hasks, hbelow, hrun⟩ := (pthres_drives p next).run (v, r) ns
  rw [flatten_passOn hasks] at hbelow hrun
  obtain ⟨ss, hfeed, hss⟩ := strokes_of_feed hpmin hup (pulled next r ns).2
  have hout := hrun.out
  simp only [List.append_nil, List.nil_append] at hout
  exact ⟨hbelow, ss, hout.trans hfeed, hss.made, hss.presses⟩

/-- The shipped bounds, and a tap read in two calls: a stroke with three presses. -/
theorem pthres_makes_strokes_tap :
    ∃ ss : Strokes, ss.done.length = 1 ∧ ss.current = [] ∧
      ss.samples = [⟨100, 50, 40, ⟨0, 0⟩⟩, ⟨102, 51, 60, ⟨0, 10⟩⟩, ⟨102, 50, 55, ⟨0, 20⟩⟩,
        ⟨102, 50, 0, ⟨0, 30⟩⟩] ∧
      (pulled (pthresRead ⟨1, 0x7fffffff⟩ queued) (⟨false, 0, 0⟩, tap.samples) [1, 4]).2 = ss.samples ∧
      MakesStrokes ⟨1, 0x7fffffff⟩ tap.samples ss := by
  obtain ⟨-, ss, hout, hmade, -⟩ := pthres_makes_strokes ⟨1, 0x7fffffff⟩ (by decide) queued
    ⟨false, 0, 0⟩ rfl tap.samples [1, 4]
  have hsamples : ss.samples = [⟨100, 50, 40, ⟨0, 0⟩⟩, ⟨102, 51, 60, ⟨0, 10⟩⟩, ⟨102, 50, 55, ⟨0, 20⟩⟩,
      ⟨102, 50, 0, ⟨0, 30⟩⟩] := hout.symm.trans (by decide)
  refine ⟨ss, ?_, ?_, hsamples, hout, hmade⟩
  · rw [Strokes.length_done, hsamples]
    decide
  · exact Strokes.current_of_getLast? (by rw [hsamples]; rfl) (by decide)

end N32905.Tslib
