import N32905.Lib.Stream
import N32905.Tslib.Sample

/-!
# The variance filter

`variance.c` delays every sample by one. A sample too far from the last one is held as
noise until the next one shows whether the pen moved. Samples are read one by one from
the layer below; the sample that ends a stroke is queued and goes out on the next pass.
-/

namespace N32905.Tslib

open N32905.Lib

/-! ## The model -/

/-- `struct tslib_variance`, its `flags` one by one. `delta` is squared already. -/
structure Variance where
  delta : BitVec 32
  last : Sample
  noise : Sample
  pendown : Bool
  lastvalid : Bool
  noisevalid : Bool
  submitnoise : Bool

def sqr (x : BitVec 32) : BitVec 32 := x * x

/-- `variance_mod_init`, with the `delta` of `ts.conf`. The two samples are what `malloc` left. -/
def varianceModInit (delta : BitVec 32) (last noise : Sample) : Variance :=
  { delta := sqr delta, last := last, noise := noise, pendown := false, lastvalid := false,
    noisevalid := false, submitnoise := false }

def dist (last cur : Sample) : BitVec 32 := sqr (cur.x - last.x) + sqr (cur.y - last.y)

/-- `dist > var->delta`. -/
def Variance.tooFar (var : Variance) (cur : Sample) : Bool := var.delta.slt (dist var.last cur)

/-- From the label `acceptsample` on. -/
def acceptsample (var : Variance) (cur : Sample) : Variance × List Sample :=
  ({ var with last := cur }, [var.last])

/-- A pass of the loop once it has `cur`: what it stores in the caller's array. -/
def varianceSample (var : Variance) (cur : Sample) : Variance × List Sample :=
  if cur.pressure = 0 then
    let var := if var.pendown then { var with submitnoise := true, noise := cur } else var
    acceptsample { var with pendown := false, noisevalid := false, lastvalid := false } cur
  else
    let var := { var with pendown := true }
    if !var.lastvalid then ({ var with last := cur, lastvalid := true }, [])
    else if var.pendown then
      if var.tooFar cur then
        if var.noisevalid then
          -- two in a row: the pen moved
          ({ var with last := var.noise, noisevalid := false, submitnoise := true, noise := cur },
            [var.noise])
        else ({ var with noisevalid := true, noise := cur }, [])
      else acceptsample { var with noisevalid := false } cur
    else acceptsample var cur

section Pass
variable {var : Variance} {cur : Sample}

/-- The pen is up: out goes the last sample, and `cur` is queued if this ends a stroke. -/
theorem varianceSample_up (h : cur.pressure = 0) : varianceSample var cur =
    ({ var with
        last := cur
        noise := if var.pendown then cur else var.noise
        pendown := false
        lastvalid := false
        noisevalid := false
        submitnoise := var.pendown || var.submitnoise }, [var.last]) := by
  rw [varianceSample, if_pos h]
  cases hdown : var.pendown
  · simp [acceptsample]
  · simp [acceptsample]

theorem varianceSample_first (h : cur.pressure ≠ 0) (hlast : var.lastvalid = false) :
    varianceSample var cur = ({ var with pendown := true, last := cur, lastvalid := true }, []) := by
  rw [varianceSample, if_neg h]
  simp [hlast]

theorem varianceSample_near (h : cur.pressure ≠ 0) (hlast : var.lastvalid = true)
    (hnear : var.tooFar cur = false) : varianceSample var cur =
      ({ var with pendown := true, noisevalid := false, last := cur }, [var.last]) := by
  rw [varianceSample, if_neg h]
  simp only [Variance.tooFar] at hnear
  simp [hlast, hnear, Variance.tooFar, acceptsample]

theorem varianceSample_far (h : cur.pressure ≠ 0) (hlast : var.lastvalid = true)
    (hfar : var.tooFar cur = true) (hnoise : var.noisevalid = false) : varianceSample var cur =
      ({ var with pendown := true, noisevalid := true, noise := cur }, []) := by
  rw [varianceSample, if_neg h]
  simp only [Variance.tooFar] at hfar
  simp [hlast, hfar, Variance.tooFar, hnoise]

/-- Two too far in a row: the held one takes the place of the last one. -/
theorem varianceSample_moved (h : cur.pressure ≠ 0) (hlast : var.lastvalid = true)
    (hfar : var.tooFar cur = true) (hnoise : var.noisevalid = true) : varianceSample var cur =
      ({ var with
          pendown := true
          last := var.noise
          noisevalid := false
          submitnoise := true
          noise := cur }, [var.noise]) := by
  rw [varianceSample, if_neg h]
  simp only [Variance.tooFar] at hfar
  simp [hlast, hfar, Variance.tooFar, hnoise]

end Pass

def Variance.rank (var : Variance) : Nat :=
  if var.lastvalid then if var.noisevalid then 2 else 1 else 0

theorem rank_le (var : Variance) : var.rank ≤ 2 := by
  unfold Variance.rank
  split
  · split <;> omega
  · omega

theorem varianceSample_gets_on (var : Variance) (cur : Sample) :
    (∃ y, (varianceSample var cur).2 = [y]) ∨
      (varianceSample var cur).2 = [] ∧ var.rank < (varianceSample var cur).1.rank := by
  by_cases hup : cur.pressure = 0
  · exact .inl ⟨_, by rw [varianceSample_up hup]⟩
  cases hlast : var.lastvalid
  · rw [varianceSample_first hup hlast]
    refine .inr ⟨rfl, ?_⟩
    simp only [Variance.rank, hlast, Bool.false_eq_true, if_false, if_true]
    split <;> omega
  cases hfar : var.tooFar cur
  · exact .inl ⟨_, by rw [varianceSample_near hup hlast hfar]⟩
  cases hnoise : var.noisevalid
  · rw [varianceSample_far hup hlast hfar hnoise]
    exact .inr ⟨rfl, by simp [Variance.rank, hlast, hnoise]⟩
  · exact .inl ⟨_, by rw [varianceSample_moved hup hlast hfar hnoise]⟩

theorem passes_lt {nr : Nat} {var : Variance} {cur : Sample} {out : List Sample}
    (h : out.length < nr) :
    3 * (nr - (out ++ (varianceSample var cur).2).length) - (varianceSample var cur).1.rank <
      3 * (nr - out.length) - var.rank := by
  have hle := rank_le var
  have hle' := rank_le (varianceSample var cur).1
  rcases varianceSample_gets_on var cur with ⟨y, hy⟩ | ⟨hnil, hlt⟩
  · rw [hy, List.length_append, List.length_singleton]
    omega
  · rw [hnil, List.append_nil]
    omega

section Read
variable {ρ : Type*} (next : Reader ρ Sample)

def Variance.unqueue (var : Variance) : Variance := { var with submitnoise := false }

/-- The loop of `variance_read`; `out` is what it has stored in `samp`. -/
def varianceLoop (nr : Nat) (var : Variance) (r : ρ) (out : List Sample) :
    (Variance × ρ) × List Sample :=
  if out.length < nr then
    if var.submitnoise then
      varianceLoop nr (varianceSample var.unqueue var.noise).1 r
        (out ++ (varianceSample var.unqueue var.noise).2)
    else match next r 1 with
      | (r, some (cur :: _)) =>
        varianceLoop nr (varianceSample var cur).1 r (out ++ (varianceSample var cur).2)
      | (r, _) => ((var, r), out)
  else ((var, r), out)
termination_by 3 * (nr - out.length) - var.rank
decreasing_by
  · exact @passes_lt _ var.unqueue _ _ ‹_›
  · exact passes_lt ‹_›

end Read

/-! ## The queue -/

def Variance.Queued (var : Variance) : Prop :=
  var.submitnoise = true → (varianceSample var.unqueue var.noise).1.submitnoise = false

theorem submit_once {var : Variance} {cur : Sample} (h : cur.pressure ≠ 0)
    (hlast : var.lastvalid = true) (hnoise : var.noisevalid = false)
    (hsub : var.submitnoise = false) : (varianceSample var cur).1.submitnoise = false := by
  cases hfar : var.tooFar cur
  · rw [varianceSample_near h hlast hfar]
    exact hsub
  · rw [varianceSample_far h hlast hfar hnoise]
    exact hsub

theorem queued_varianceSample {var : Variance} (h : var.submitnoise = false) (cur : Sample) :
    (varianceSample var cur).1.Queued := by
  intro hqueued
  by_cases hup : cur.pressure = 0
  · rw [varianceSample_up hup] at hqueued ⊢
    have hdown : var.pendown = true := by simpa [h] using hqueued
    simp only [hdown, if_true]
    rw [varianceSample_up hup]
    rfl
  cases hlast : var.lastvalid
  · rw [varianceSample_first hup hlast] at hqueued
    exact absurd hqueued (by simp [h])
  cases hfar : var.tooFar cur
  · rw [varianceSample_near hup hlast hfar] at hqueued
    exact absurd hqueued (by simp [h])
  cases hnoise : var.noisevalid
  · rw [varianceSample_far hup hlast hfar hnoise] at hqueued
    exact absurd hqueued (by simp [h])
  · rw [varianceSample_moved hup hlast hfar hnoise]
    exact submit_once hup hlast rfl rfl

def VarianceState := { var : Variance // var.Queued }

def flushVariance (var : Variance) : Variance × List Sample :=
  if var.submitnoise then varianceSample var.unqueue var.noise else (var, [])

theorem flush_empty {var : Variance} (h : var.submitnoise = false) :
    flushVariance var = (var, []) := by
  rw [flushVariance, h]
  rfl

def varianceStep (var : Variance) (cur : Sample) : Variance × List Sample :=
  ((flushVariance (varianceSample var cur).1).1,
    (varianceSample var cur).2 ++ (flushVariance (varianceSample var cur).1).2)

section Read
variable {ρ : Type*} {next : Reader ρ Sample}

theorem varianceLoop_queued (nr : Nat) {var : Variance} (hq : var.Queued) (r : ρ)
    (out : List Sample) : (varianceLoop next nr var r out).1.1.Queued := by
  fun_induction varianceLoop next nr var r out with
  | case1 var r out hlt hsub ih => exact ih (queued_varianceSample rfl var.noise)
  | case2 var r out hlt hsub r' cur rest hread ih =>
    exact ih (queued_varianceSample (Bool.eq_false_iff.2 hsub) cur)
  | case3 => exact hq
  | case4 => exact hq

/-- What the loop has to do with the samples that it reads one by one: it filters them by
`varianceStep`, and it ends with `nr` samples stored or when there is none to read. -/
structure LoopReads (next : Reader ρ Sample) (nr : Nat) (var : Variance) (r : ρ) (out : List Sample)
    (ns : List Nat) (o : List Sample) : Prop where
  asks : ∀ n ∈ ns, n = 1
  stored : (varianceLoop next nr var r out).2 = out ++ o
  below : (varianceLoop next nr var r out).1.2 = (pulled next r ns).1
  filtered : Filtered varianceStep flushVariance var (varianceLoop next nr var r out).1.1
    (pulled next r ns).2 o
  ends : (out ++ o).length = nr ∨ ∃ ns', ns = ns' ++ [1] ∧
    (next (pulled next r ns').1 1).2.getD [] = []

/-- A pass that has asked for `ms`. -/
theorem LoopReads.pass {nr : Nat} {var var' : Variance} {r : ρ} {out ys o : List Sample}
    {ms ns : List Nat} (hms : ∀ m ∈ ms, m = 1)
    (hloop : varianceLoop next nr var r out =
      varianceLoop next nr var' (pulled next r ms).1 (out ++ ys))
    (hpass : Filtered varianceStep flushVariance var var' (pulled next r ms).2 ys)
    (h : LoopReads next nr var' (pulled next r ms).1 (out ++ ys) ns o) :
    LoopReads next nr var r out (ms ++ ns) (ys ++ o) := by
  refine ⟨List.forall_mem_append.2 ⟨hms, h.asks⟩, ?_, ?_, ?_, ?_⟩
  · rw [hloop, h.stored, List.append_assoc]
  · rw [hloop, h.below, pulled_append]
  · rw [hloop, pulled_append]
    exact hpass.trans h.filtered
  · rw [← List.append_assoc]
    refine h.ends.imp_right ?_
    rintro ⟨ns', rfl, hdry⟩
    refine ⟨ms ++ ns', (List.append_assoc ..).symm, ?_⟩
    rw [pulled_append]
    exact hdry

/-- The end of the loop, after it has asked for `ms` and got nothing. -/
theorem LoopReads.last {nr : Nat} {var : Variance} {r : ρ} {out : List Sample} {ms : List Nat}
    (hms : ∀ m ∈ ms, m = 1)
    (hloop : varianceLoop next nr var r out = ((var, (pulled next r ms).1), out))
    (hnone : (pulled next r ms).2 = []) (hends : out.length = nr ∨ ms = [1]) :
    LoopReads next nr var r out ms [] := by
  refine ⟨hms, ?_, ?_, ?_, ?_⟩
  · rw [hloop, List.append_nil]
  · rw [hloop]
  · rw [hloop, hnone]
    exact .refl
  · rw [List.append_nil]
    refine hends.imp_right ?_
    rintro rfl
    refine ⟨[], rfl, ?_⟩
    rwa [pulled_cons, pulled_nil, List.append_nil] at hnone

theorem varianceLoop_reads (hnext : Honest next) (nr : Nat) {var : Variance} (hq : var.Queued)
    (r : ρ) (out : List Sample) (hle : out.length ≤ nr) :
    ∃ ns o, LoopReads next nr var r out ns o := by
  have hone : ∀ {v : Variance} {cur : Sample} {out : List Sample}, out.length < nr →
      (out ++ (varianceSample v cur).2).length ≤ nr := by
    intro v cur out hlt
    rw [List.length_append]
    rcases varianceSample_gets_on v cur with ⟨y, hy⟩ | ⟨hnil, -⟩
    · rw [hy, List.length_singleton]
      exact hlt
    · rw [hnil]
      exact Nat.le_of_lt hlt
  fun_induction varianceLoop next nr var r out with
  | case1 var r out hlt hsub ih =>
    have hloop : varianceLoop next nr var r out = varianceLoop next nr
        (varianceSample var.unqueue var.noise).1 r
        (out ++ (varianceSample var.unqueue var.noise).2) := by
      rw [varianceLoop, if_pos hlt, if_pos hsub]
    have hpass : Filtered varianceStep flushVariance var
        (varianceSample var.unqueue var.noise).1 [] (varianceSample var.unqueue var.noise).2 := by
      have hflush : flushVariance var = varianceSample var.unqueue var.noise := by
        rw [flushVariance, if_pos hsub]
      refine ⟨?_, ?_⟩
      · rw [flush_empty (hq hsub), hflush]
        rfl
      · rw [flush_empty (hq hsub), hflush]
        rfl
    obtain ⟨ns, o, h⟩ := ih (queued_varianceSample rfl var.noise) (hone hlt)
    exact ⟨_, _, .pass (List.forall_mem_nil _) hloop hpass h⟩
  | case2 var r out hlt hsub r' cur rest hread ih =>
    have hloop : varianceLoop next nr var r out = varianceLoop next nr (varianceSample var cur).1 r'
        (out ++ (varianceSample var cur).2) := by
      rw [varianceLoop, if_pos hlt, if_neg hsub, hread]
    have hsub : var.submitnoise = false := Bool.eq_false_iff.2 hsub
    have hrest : rest = [] := by
      have := hnext r 1 (cur :: rest) (by rw [hread])
      exact List.eq_nil_of_length_eq_zero (by simpa using this)
    subst hrest
    have hpulled : pulled next r [1] = (r', [cur]) := by
      rw [pulled_cons, pulled_nil, hread]
      rfl
    have hpass : Filtered varianceStep flushVariance var (varianceSample var cur).1 [cur]
        (varianceSample var cur).2 := by
      refine ⟨?_, ?_⟩
      · rw [flush_empty hsub]
        rfl
      · rw [flush_empty hsub, feed_cons, feed_nil, varianceStep, List.nil_append, List.append_nil]
    have hasks : ∀ m ∈ [1], m = 1 := fun m hm => List.mem_singleton.1 hm
    obtain ⟨ns, o, h⟩ := ih (queued_varianceSample hsub cur) (hone hlt)
    exact ⟨_, _, .pass hasks (by rw [hpulled, hloop]) (by rwa [hpulled]) (by rwa [hpulled])⟩
  | case3 var r out hlt hsub r' got hgot hread =>
    have hnone : got.getD [] = [] := by
      rcases got with _ | _ | ⟨cur, rest⟩
      · rfl
      · rfl
      · exact absurd rfl (hgot cur rest)
    have hpulled : pulled next r [1] = (r', []) := by
      rw [pulled_cons, pulled_nil, hread, hnone]
      rfl
    have hloop : varianceLoop next nr var r out = ((var, r'), out) := by
      rw [varianceLoop, if_pos hlt, if_neg hsub, hread]
      rcases got with _ | _ | ⟨cur, rest⟩
      · rfl
      · rfl
      · exact absurd rfl (hgot cur rest)
    exact ⟨[1], _, .last (by simp) (by rw [hpulled, hloop]) (by rw [hpulled]) (.inr rfl)⟩
  | case4 var r out hge =>
    have hloop : varianceLoop next nr var r out = ((var, r), out) := by
      rw [varianceLoop, if_neg hge]
    exact ⟨[], _, .last (List.forall_mem_nil _) hloop rfl (.inl (Nat.le_antisymm hle (Nat.le_of_not_lt hge)))⟩

def varianceRead (next : Reader ρ Sample) : Reader (VarianceState × ρ) Sample := fun (var, r) nr =>
  ((⟨(varianceLoop next nr var.1 r []).1.1, varianceLoop_queued nr var.2 r []⟩,
    (varianceLoop next nr var.1 r []).1.2), some (varianceLoop next nr var.1 r []).2)

/-- `variance_read` is the filter `varianceStep`, but for the sample queued. -/
theorem variance_drives (hnext : Honest next) :
    Drives oneByOne (varianceRead next) next varianceStep Prod.snd fun t => flushVariance t.1.1 := by
  rintro ⟨var, r⟩ nr
  obtain ⟨ns, o, h⟩ := varianceLoop_reads hnext nr var.2 r [] (Nat.zero_le nr)
  refine ⟨ns, h.asks, h.below, ?_⟩
  have hout := h.stored
  rw [List.nil_append] at hout
  simp only [varianceRead, Option.getD_some, hout]
  exact ⟨h.filtered.state, h.filtered.out⟩

theorem variance_persistent (hnext : Honest next) :
    Persistent (varianceRead next) next Prod.snd := by
  rintro ⟨var, r⟩ nr
  obtain ⟨ns, o, h⟩ := varianceLoop_reads hnext nr var.2 r [] (Nat.zero_le nr)
  have hout : ((varianceRead next (var, r) nr).2.getD []) = [] ++ o := h.stored
  rw [hout]
  refine h.ends.imp_right ?_
  rintro ⟨ns', rfl, hdry⟩
  refine ⟨ns', fun n hn => h.asks n (List.mem_append_left _ hn), hdry, ?_⟩
  have hbelow := h.below
  rw [pulled_append] at hbelow
  exact hbelow

end Read

/-! ## One stroke -/

section Steps
variable {var : Variance} {cur : Sample}

/-- Between strokes. -/
structure Variance.Idle (var : Variance) : Prop where
  pendown : var.pendown = false
  lastvalid : var.lastvalid = false
  noisevalid : var.noisevalid = false
  submitnoise : var.submitnoise = false

structure Variance.Down (var : Variance) : Prop where
  pendown : var.pendown = true
  lastvalid : var.lastvalid = true
  submitnoise : var.submitnoise = false

theorem varianceModInit_idle (delta : BitVec 32) (last noise : Sample) :
    (varianceModInit delta last noise).Idle := ⟨rfl, rfl, rfl, rfl⟩

def restingVariance : VarianceState :=
  ⟨varianceModInit 30 ⟨0, 0, 0, ⟨0, 0⟩⟩ ⟨0, 0, 0, ⟨0, 0⟩⟩, fun h => by cases h⟩

theorem restingVariance_idle : restingVariance.1.Idle := varianceModInit_idle _ _ _

theorem varianceStep_eq {var' : Variance} {out : List Sample}
    (h : varianceSample var cur = (var', out)) (hsub : var'.submitnoise = false) :
    varianceStep var cur = (var', out) := by
  rw [varianceStep, h, flush_empty hsub, List.append_nil]

theorem Variance.Idle.first (h : var.Idle) (hcur : cur.Pressed) : varianceStep var cur =
    ({ var with pendown := true, last := cur, lastvalid := true }, []) :=
  varianceStep_eq (varianceSample_first hcur h.lastvalid) h.submitnoise

theorem Variance.Down.near (h : var.Down) (hcur : cur.Pressed) (hnear : var.tooFar cur = false) :
    varianceStep var cur =
      ({ var with pendown := true, noisevalid := false, last := cur }, [var.last]) :=
  varianceStep_eq (varianceSample_near hcur h.lastvalid hnear) h.submitnoise

theorem Variance.Down.far (h : var.Down) (hcur : cur.Pressed) (hfar : var.tooFar cur = true)
    (hnoise : var.noisevalid = false) : varianceStep var cur =
      ({ var with pendown := true, noisevalid := true, noise := cur }, []) :=
  varianceStep_eq (varianceSample_far hcur h.lastvalid hfar hnoise) h.submitnoise

/-- The state in which the sample after a held one is looked at again. -/
def Variance.moved (var : Variance) (cur : Sample) : Variance :=
  { var with pendown := true, last := var.noise, noisevalid := false, noise := cur }

/-- The held sample goes out, and then the one after it is a sample like any other. -/
theorem Variance.Down.moved_eq (h : var.Down) (hcur : cur.Pressed) (hfar : var.tooFar cur = true)
    (hnoise : var.noisevalid = true) : varianceStep var cur =
      ((varianceSample (var.moved cur) cur).1,
        var.noise :: (varianceSample (var.moved cur) cur).2) := by
  rw [varianceStep, varianceSample_moved hcur h.lastvalid hfar hnoise]
  have hunqueue : Variance.unqueue { var with
      pendown := true
      last := var.noise
      noisevalid := false
      submitnoise := true
      noise := cur } = (var.moved cur) := by
    rw [Variance.unqueue, Variance.moved, h.submitnoise]
  rw [flushVariance, if_pos rfl, hunqueue]
  rfl

theorem Variance.Down.up (h : var.Down) (hcur : ¬ cur.Pressed) : ∃ idle : Variance,
    idle.Idle ∧ idle.delta = var.delta ∧ varianceStep var cur = (idle, [var.last, cur]) := by
  have hup : cur.pressure = 0 := Decidable.not_not.1 hcur
  rw [varianceStep, varianceSample_up hup, h.pendown, h.submitnoise, flushVariance,
    if_pos (Bool.or_false true)]
  simp only [if_true, Variance.unqueue]
  rw [varianceSample_up hup]
  refine ⟨_, ?_, ?_, rfl⟩
  · exact ⟨rfl, rfl, rfl, rfl⟩
  · rfl

end Steps

/-! ### The presses -/

/-- What comes out for the press `p` and the presses behind it. One too far from `p` is dropped
if the next one is not, and else takes the place of `p`. -/
def thinFrom (d : BitVec 32) : Sample → List Sample → List Sample
  | p, [] => [p]
  | p, [n] => if d.slt (dist p n) then [p] else [p, n]
  | p, n :: q :: xs =>
    if d.slt (dist p n) then
      if d.slt (dist p q) then n :: thinFrom d n (q :: xs) else p :: thinFrom d q xs
    else p :: thinFrom d n (q :: xs)

/-- What comes out for the presses of a stroke. -/
def thin (d : BitVec 32) : List Sample → List Sample
  | [] => []
  | p :: xs => thinFrom d p xs

def twice (xs : List Sample) : List Sample := xs.flatMap fun x => [x, x]

section Thin
variable {d : BitVec 32} {p q n s : Sample} {ps xs : List Sample}

theorem thinFrom_near (h : d.slt (dist p q) = false) :
    thinFrom d p (q :: xs) = p :: thinFrom d q xs := by
  cases xs with
  | nil => simp [thinFrom, h]
  | cons r xs => simp [thinFrom, h]

theorem thinFrom_spike (hfar : d.slt (dist p n) = true) (hnear : d.slt (dist p q) = false) :
    thinFrom d p (n :: q :: xs) = p :: thinFrom d q xs := by
  simp [thinFrom, hfar, hnear]

theorem thinFrom_moved (hfar : d.slt (dist p n) = true) (hfar' : d.slt (dist p q) = true) :
    thinFrom d p (n :: q :: xs) = n :: thinFrom d n (q :: xs) := by
  simp [thinFrom, hfar, hfar']

theorem thinFrom_sublist (d : BitVec 32) (p : Sample) (xs : List Sample) :
    (thinFrom d p xs).Sublist (p :: twice xs) := by
  fun_induction thinFrom d p xs with
  | case1 p => exact .refl _
  | case2 p n hfar => exact (List.nil_sublist _).cons_cons p
  | case3 p n hnear => exact ((List.nil_sublist [n]).cons_cons n).cons_cons p
  | case4 p n q xs hfar hfar' ih => exact .cons p (ih.cons_cons n)
  | case5 p n q xs hfar hnear ih => exact (((ih.cons q).cons n).cons n).cons_cons p
  | case6 p n q xs hnear ih => exact (ih.cons n).cons_cons p

theorem length_le_thinFrom (d : BitVec 32) (p : Sample) (xs : List Sample) :
    xs.length + 1 ≤ 2 * (thinFrom d p xs).length := by
  fun_induction thinFrom d p xs with
  | case1 => simp
  | case2 => simp
  | case3 => simp
  | case4 p n q xs hfar hfar' ih =>
    simp only [List.length_cons] at ih ⊢
    omega
  | case5 p n q xs hfar hnear ih =>
    simp only [List.length_cons] at ih ⊢
    omega
  | case6 p n q xs hnear ih =>
    simp only [List.length_cons] at ih ⊢
    omega

theorem thin_sublist (d : BitVec 32) (ps : List Sample) : (thin d ps).Sublist (twice ps) := by
  cases ps with
  | nil => exact .refl _
  | cons p xs => exact (thinFrom_sublist d p xs).cons p

theorem length_le_thin (d : BitVec 32) (ps : List Sample) :
    ps.length ≤ 2 * (thin d ps).length := by
  cases ps with
  | nil => exact Nat.zero_le _
  | cons p xs => exact length_le_thinFrom d p xs

theorem mem_of_sublist_twice {xs ys : List Sample} (h : xs.Sublist (twice ys)) (hs : s ∈ xs) :
    s ∈ ys := by
  have := h.subset hs
  simpa [twice] using this

theorem mem_of_mem_thin (hs : s ∈ thin d ps) : s ∈ ps := mem_of_sublist_twice (thin_sublist d ps) hs

end Thin

section OneStroke
variable {var : Variance} {d : BitVec 32} {held : Bool} {p q r : Sample} {ps xs : List Sample}

/-- In a stroke, with the last sample and whether one is held. -/
structure Variance.DownAt (var : Variance) (d : BitVec 32) (p : Sample) (held : Bool) : Prop where
  down : var.Down
  delta : var.delta = d
  last : var.last = p
  noisevalid : var.noisevalid = held

theorem Variance.DownAt.tooFar (h : var.DownAt d p held) : var.tooFar q = d.slt (dist p q) := by
  rw [Variance.tooFar, h.delta, h.last]

theorem Variance.DownAt.near (h : var.DownAt d p held) (hq : q.Pressed)
    (hnear : d.slt (dist p q) = false) :
    ∃ var' : Variance, varianceStep var q = (var', [p]) ∧ var'.DownAt d q false := by
  rw [h.down.near hq (h.tooFar.trans hnear), h.last]
  exact ⟨_, rfl, ⟨rfl, h.down.lastvalid, h.down.submitnoise⟩, h.delta, rfl, rfl⟩

theorem Variance.DownAt.far (h : var.DownAt d p false) (hq : q.Pressed)
    (hfar : d.slt (dist p q) = true) : ∃ var' : Variance,
      varianceStep var q = (var', []) ∧ var'.DownAt d p true ∧ var'.noise = q := by
  rw [h.down.far hq (h.tooFar.trans hfar) h.noisevalid]
  exact ⟨_, rfl, ⟨⟨rfl, h.down.lastvalid, h.down.submitnoise⟩, h.delta, h.last, rfl⟩, rfl⟩

/-- The held sample goes out, and then the one after it comes like any other. -/
theorem Variance.DownAt.moved (h : var.DownAt d p true) (hq : q.Pressed)
    (hfar : d.slt (dist p q) = true) : ∃ var' : Variance, var'.DownAt d var.noise false ∧
      varianceStep var q = ((varianceStep var' q).1, var.noise :: (varianceStep var' q).2) := by
  have hat : (var.moved q).DownAt d var.noise false :=
    ⟨⟨rfl, h.down.lastvalid, h.down.submitnoise⟩, h.delta, rfl, rfl⟩
  have hstep : varianceStep (var.moved q) q = varianceSample (var.moved q) q :=
    varianceStep_eq rfl (submit_once hq hat.down.lastvalid rfl hat.down.submitnoise)
  refine ⟨var.moved q, hat, ?_⟩
  rw [h.down.moved_eq hq (h.tooFar.trans hfar) h.noisevalid, hstep]

theorem Variance.DownAt.up (h : var.DownAt d p held) (hr : ¬ r.Pressed) : ∃ idle : Variance,
    (idle.Idle ∧ idle.delta = d) ∧ varianceStep var r = (idle, [p, r]) := by
  obtain ⟨idle, hidle, hdelta, hup⟩ := h.down.up hr
  rw [h.last] at hup
  exact ⟨idle, ⟨hidle, hdelta.trans h.delta⟩, hup⟩

theorem feed_presses (h : var.DownAt d p false) (hxs : ∀ s ∈ xs, s.Pressed) :
    ∃ (l : Sample) (held : Bool), (feed varianceStep var xs).1.DownAt d l held ∧
      (feed varianceStep var xs).2 ++ [l] = thinFrom d p xs := by
  induction hn : xs.length using Nat.strong_induction_on generalizing var p xs with
  | _ m ih =>
    subst hn
    rcases xs with _ | ⟨n, xs⟩
    · exact ⟨p, false, h, rfl⟩
    obtain ⟨hn, hxs⟩ := List.forall_mem_cons.1 hxs
    cases hfar : d.slt (dist p n)
    · -- near: `p` goes out
      obtain ⟨var', hstep, h'⟩ := h.near hn hfar
      obtain ⟨l, held, hdown, hout⟩ := ih _ (Nat.lt_succ_self _) h' hxs rfl
      rw [feed_cons, hstep, thinFrom_near hfar, ← hout]
      exact ⟨l, held, hdown, List.append_assoc ..⟩
    · -- too far: the next one decides
      obtain ⟨var', hstep, h', hnoise⟩ := h.far hn hfar
      rcases xs with _ | ⟨q, xs⟩
      · rw [feed_cons, hstep, feed_nil, thinFrom, if_pos hfar]
        exact ⟨p, true, h', rfl⟩
      obtain ⟨hq, hrest⟩ := List.forall_mem_cons.1 hxs
      rw [feed_cons, hstep, List.nil_append]
      cases hfar' : d.slt (dist p q)
      · obtain ⟨var'', hstep', h''⟩ := h'.near hq hfar'
        have hlt : xs.length < (n :: q :: xs).length := by
          rw [List.length_cons, List.length_cons]
          omega
        obtain ⟨l, held, hdown, hout⟩ := ih _ hlt h'' hrest rfl
        rw [feed_cons, hstep', thinFrom_spike hfar hfar', ← hout]
        exact ⟨l, held, hdown, List.append_assoc ..⟩
      · obtain ⟨var'', h'', hstep'⟩ := h'.moved hq hfar'
        rw [hnoise] at h'' hstep'
        obtain ⟨l, held, hdown, hout⟩ := ih _ (Nat.lt_succ_self _) h'' hxs rfl
        rw [feed_cons] at hdown hout
        rw [feed_cons, hstep', thinFrom_moved hfar hfar', ← hout]
        exact ⟨l, held, hdown, rfl⟩

theorem feed_down (h : var.Idle ∧ var.delta = d) (hps : ∀ s ∈ ps, s.Pressed) (hne : ps ≠ []) :
    ∃ (l : Sample) (held : Bool), (feed varianceStep var ps).1.DownAt d l held ∧
      (feed varianceStep var ps).2 ++ [l] = thin d ps := by
  rcases ps with _ | ⟨p, xs⟩
  · exact absurd rfl hne
  obtain ⟨hp, hxs⟩ := List.forall_mem_cons.1 hps
  have hstart : Variance.DownAt { var with pendown := true, last := p, lastvalid := true } d p false :=
    ⟨⟨rfl, rfl, h.1.submitnoise⟩, h.2, rfl, h.1.noisevalid⟩
  obtain ⟨l, held, hdown, hout⟩ := feed_presses hstart hxs
  rw [feed_cons, h.1.first hp]
  exact ⟨l, held, hdown, hout⟩

/-- A stroke and what comes out for it: presses in their order, none more than twice, and at
least half as many. -/
structure Thinned (d : BitVec 32) (st st' : Stroke) : Prop where
  release : st'.release = st.release
  presses : st'.presses = thin d st.presses
  order : st'.presses.Sublist (twice st.presses)
  enough : st.presses.length ≤ 2 * st'.presses.length

/-- **A whole stroke.** -/
theorem feed_stroke (h : var.Idle ∧ var.delta = d) (st : Stroke) : ∃ st' : Stroke,
    (feed varianceStep var st.samples).2 = st'.samples ∧ Thinned d st st' ∧
      ((feed varianceStep var st.samples).1.Idle ∧
        (feed varianceStep var st.samples).1.delta = d) := by
  obtain ⟨l, held, hdown, hout⟩ := feed_down h st.pressed st.presses_ne
  obtain ⟨idle, hidle, hup⟩ := hdown.up st.released
  have hne : thin d st.presses ≠ [] := by
    rw [← hout]
    simp
  refine ⟨⟨thin d st.presses, st.release, hne, fun s hs => st.pressed s (mem_of_mem_thin hs),
    st.released⟩, ?_, ⟨rfl, rfl, thin_sublist d _, length_le_thin d _⟩, ?_⟩
  · rw [Stroke.samples, feed_append, feed_cons, feed_nil, hup]
    change _ ++ [l, st.release] = thin d st.presses ++ [st.release]
    rw [← hout, List.append_assoc]
    rfl
  · rw [Stroke.samples, feed_append, feed_cons, feed_nil, hup]
    exact hidle

theorem feed_current (h : var.Idle ∧ var.delta = d) (hps : ∀ s ∈ ps, s.Pressed) :
    (feed varianceStep var ps).2 = (thin d ps).dropLast := by
  by_cases hne : ps = []
  · rw [hne]
    rfl
  · obtain ⟨l, held, -, hout⟩ := feed_down h hps hne
    rw [← hout, List.dropLast_concat]

theorem feed_strokes (h : var.Idle) (ss : Strokes) : ∃ ss' : Strokes,
    (feed varianceStep var ss.samples).2 = ss'.samples ∧
      List.Forall₂ (Thinned var.delta) ss.done ss'.done ∧
      ss'.current = (thin var.delta ss.current).dropLast := by
  obtain ⟨done, hout, hall, hidle⟩ := feed_segments
    (I := fun v : Variance => v.Idle ∧ v.delta = var.delta)
    (fun v st hv (_ : True) => feed_stroke hv st) ⟨h, rfl⟩ ss.done fun _ _ => trivial
  have hcur := feed_current hidle ss.pressed
  refine ⟨⟨done, _, fun s hs => ss.pressed s (mem_of_mem_thin ((List.dropLast_sublist _).subset hs))⟩,
    ?_, hall, rfl⟩
  rw [Strokes.samples, feed_append, hout, Strokes.samples, hcur]

end OneStroke

/-! ## Spikes -/

section Spikes
variable {d : BitVec 32} {p : Sample} {ps xs : List Sample} {noisy clean st : Stroke}

end Spikes

/-! ## Any requests -/

section Requests
variable {ρ : Type*} {next : Reader ρ Sample}

theorem length_flushVariance_le (var : Variance) : (flushVariance var).2.length ≤ 1 := by
  unfold flushVariance
  split
  case isTrue =>
    rcases varianceSample_gets_on var.unqueue var.noise with ⟨y, hy⟩ | ⟨hnil, -⟩
    · rw [hy]
      exact Nat.le_refl 1
    · rw [hnil]
      exact Nat.zero_le 1
  case isFalse => exact Nat.zero_le 1

end Requests

/-! ### A tap with a spike -/

end N32905.Tslib
