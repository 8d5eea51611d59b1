import N32905.Motion.Thread

/-!
# Threshold crossings

What `motion_slow_detect` and `motion_collision_detect` report at an `EV_SYN`, against the
axis values at it and at the `EV_SYN` before. Both detectors take a sample with a time of
0 for an unused entry of the history. The time is the difference to the time stamp before,
in milliseconds, so it is 0 as well for the second of two samples of one millisecond, and
nothing is reported at the sample after that one.
-/

namespace N32905.Motion

open N32905.Lib

/-! ## Two samples of a stream -/

section Samples
variable {Fn : Type*}

def stampStep (stamp : BitVec 32) : Input Fn → BitVec 32
  | .syn time => time.ms
  | _ => stamp

/-- The last time stamp of a stream, 0 before the first. -/
def stampAfter (es : List (Input Fn)) : BitVec 32 := es.foldl stampStep 0

def startAxis (data : Option (BitVec 32 × BitVec 32 × BitVec 32)) (a : Axis) : BitVec 32 :=
  match data with
  | some (x, y, z) => (MotionAcc.mk x y z 1).get a + GRAVITY_2G
  | none => 0

/-- An `EV_SYN` of the stream `es` after the first: the events up to the `EV_SYN` before, and
those between. -/
structure SynPair (es : List (Input Fn)) where
  pre : List (Input Fn)
  time : TimeVal
  mid : List (Input Fn)
  time' : TimeVal
  between : ∀ e ∈ mid, ∀ s, e ≠ .syn s
  occurs : pre ++ .syn time :: mid ++ [.syn time'] <+: es

namespace SynPair

variable {es : List (Input Fn)} (p : SynPair es)
  (data : Option (BitVec 32 × BitVec 32 × BitVec 32))

/-- The events before the `EV_SYN`. -/
def upTo : List (Input Fn) := p.pre ++ .syn p.time :: p.mid

/-- The values at the `EV_SYN` before. -/
def prev (a : Axis) : Int := (axisAfter a (startAxis data a) p.pre).toInt

def cur (a : Axis) : Int := (axisAfter a (startAxis data a) p.upTo).toInt

end SynPair

/-- What should be reported for the values `prev` and `cur`. -/
structure ReportsCrossings (prev cur : Axis → Int) (callback : Table Fn) (d : Detected Fn) :
    Prop where
  slowUp : d.slow.1 = .slowUp ↔ cur .x - prev .x > 7845240
  slowDown : d.slow.1 = .slowDown ↔ prev .x - cur .x > 7845240
  collision : d.collision.1 = .collision ↔ ∃ a, (cur a - prev a).natAbs > 17651790
  actions : d.slow.1 ∈ [.null, .slowUp, .slowDown] ∧ d.collision.1 ∈ [.null, .collision]
  calls : CallsFor callback d.slow ∧ CallsFor callback d.collision

/-- One of the thresholds is crossed. -/
def Crossed (prev cur : Axis → Int) : Prop :=
  (cur .x - prev .x).natAbs > 7845240 ∨ ∃ a, (cur a - prev a).natAbs > 17651790

/-- The motion thread reports the crossings at the `EV_SYN`. -/
def SynPair.Reports {es : List (Input Fn)} (p : SynPair es)
    (data : Option (BitVec 32 × BitVec 32 × BitVec 32)) (callback : Table Fn) : Prop :=
  ∃ d, (threadStep (threadAfter (threadStart data callback) p.upTo) (.syn p.time')).2 = some d ∧
    ReportsCrossings (p.prev data) (p.cur data) (tableAfter callback p.upTo) d

end Samples

/-! ## Values in range -/

section Range

/-- An axis value with its offset of 2 g. -/
def InRange (v : BitVec 32) : Prop := 0 ≤ v.toInt ∧ v.toInt ≤ 39226200

def SensorRange (v : BitVec 32) : Prop := -19613100 ≤ v.toInt ∧ v.toInt ≤ 19613100

def Input.InRange {Fn : Type*} : Input Fn → Prop
  | .abs (some _) value => SensorRange value
  | _ => True

def DataInRange (data : Option (BitVec 32 × BitVec 32 × BitVec 32)) : Prop :=
  ∀ x y z, data = some (x, y, z) → SensorRange x ∧ SensorRange y ∧ SensorRange z

theorem SensorRange.offset {v : BitVec 32} (h : SensorRange v) : InRange (v + GRAVITY_2G) := by
  obtain ⟨h1, h2⟩ := h
  have hg : GRAVITY_2G.toInt = 19613100 := by decide
  have hadd : (v + GRAVITY_2G).toInt = v.toInt + 19613100 := by
    rw [BitVec.toInt_add, hg, Int.bmod_eq_of_le (by omega) (by omega)]
  unfold InRange
  omega

theorem toInt_sub {a b : BitVec 32} (ha : InRange a) (hb : InRange b) :
    (a - b).toInt = a.toInt - b.toInt := by
  obtain ⟨ha1, ha2⟩ := ha
  obtain ⟨hb1, hb2⟩ := hb
  rw [BitVec.toInt_sub, Int.bmod_eq_of_le (by omega) (by omega)]

theorem startAxis_inRange {data : Option (BitVec 32 × BitVec 32 × BitVec 32)}
    (h : DataInRange data) (a : Axis) : InRange (startAxis data a) := by
  match data with
  | none =>
    have hzero : startAxis none a = 0 := rfl
    rw [hzero]
    exact ⟨by decide, by decide⟩
  | some (x, y, z) =>
    obtain ⟨hx, hy, hz⟩ := h x y z rfl
    cases a with
    | x => exact hx.offset
    | y => exact hy.offset
    | z => exact hz.offset

theorem axisAfter_inRange {Fn : Type*} {a : Axis} {es : List (Input Fn)} {v : BitVec 32}
    (hv : InRange v) (hes : ∀ e ∈ es, e.InRange) : InRange (axisAfter a v es) := by
  induction es generalizing v with
  | nil => exact hv
  | cons e es ih =>
    refine ih ?_ fun e' he' => hes e' (List.mem_cons_of_mem _ he')
    have he := hes e List.mem_cons_self
    unfold axisStep
    split
    · rename_i b value
      split
      · exact SensorRange.offset he
      · exact hv
    · exact hv

end Range

/-! ## The detectors -/

section Detectors
variable {h : History}

theorem motionSlowDetect_spec (hcur : InRange h.last.x) (hprev : InRange h.prev.x)
    (htime : h.prev.time ≠ 0) :
    (motionSlowDetect h = .slowUp ↔ h.last.x.toInt - h.prev.x.toInt > 7845240) ∧
      (motionSlowDetect h = .slowDown ↔ h.prev.x.toInt - h.last.x.toInt > 7845240) := by
  unfold motionSlowDetect MOTION_SLOW_THRESHOLD
  rw [if_neg htime, toInt_sub hcur hprev, toInt_sub hprev hcur]
  split
  · split
    · simp only [true_iff, reduceCtorEq, false_iff]
      omega
    · simp only [reduceCtorEq, false_iff]
      omega
  · split
    · simp only [true_iff, reduceCtorEq, false_iff]
      omega
    · simp only [reduceCtorEq, false_iff]
      omega

theorem motionSlowDetect_mem (h : History) :
    motionSlowDetect h ∈ [.null, .slowUp, .slowDown] := by
  unfold motionSlowDetect
  split
  · simp
  · split <;> split <;> simp

theorem axisDiff_abs {a : Axis} (hcur : InRange (h.last.get a)) (hprev : InRange (h.prev.get a)) :
    (axisDiff h a).abs.toInt = ((h.last.get a).toInt - (h.prev.get a).toInt).natAbs := by
  have hpos : ∀ v : BitVec 32, 0 ≤ v.toInt → v.abs.toInt = v.toInt := by
    intro v hv
    rw [BitVec.abs, if_neg]
    rw [BitVec.msb_eq_toInt, decide_eq_true_eq]
    omega
  unfold axisDiff
  split
  · rw [hpos] <;> rw [toInt_sub hcur hprev] <;> omega
  · rw [hpos] <;> rw [toInt_sub hprev hcur] <;> omega

theorem motionCollisionDetect_spec (hcur : ∀ a, InRange (h.last.get a))
    (hprev : ∀ a, InRange (h.prev.get a)) (htime : h.prev.time ≠ 0) :
    motionCollisionDetect h = .collision ↔
      ∃ a, ((h.last.get a).toInt - (h.prev.get a).toInt).natAbs > 17651790 := by
  have hdiff : ∀ a, (axisDiff h a).abs.toInt > MOTION_COLLISION_THRESHOLD ↔
      ((h.last.get a).toInt - (h.prev.get a).toInt).natAbs > 17651790 := by
    intro a
    rw [axisDiff_abs (hcur a) (hprev a), MOTION_COLLISION_THRESHOLD]
    omega
  simp only [← hdiff]
  unfold motionCollisionDetect
  rw [if_neg htime]
  split
  case isTrue hx => exact iff_of_true rfl ⟨_, hx⟩
  split
  case isTrue hy => exact iff_of_true rfl ⟨_, hy⟩
  split
  case isTrue hz => exact iff_of_true rfl ⟨_, hz⟩
  case isFalse hx hy hz =>
    refine iff_of_false (by decide) ?_
    rintro ⟨a, ha⟩
    cases a with
    | x => exact hx ha
    | y => exact hy ha
    | z => exact hz ha

theorem motionCollisionDetect_mem (h : History) :
    motionCollisionDetect h ∈ [.null, .collision] := by
  unfold motionCollisionDetect
  split
  · simp
  · split
    · simp
    · split
      · simp
      · split <;> simp

theorem reportsCrossings_iff_of_null {Fn : Type*} {callback : Table Fn} {d : Detected Fn}
    {prev cur : Axis → Int} (hslow : d.slow.1 = .null) (hcollision : d.collision.1 = .null)
    (hcalls : CallsFor callback d.slow ∧ CallsFor callback d.collision) :
    ReportsCrossings prev cur callback d ↔ ¬ Crossed prev cur := by
  constructor
  · rintro hr (hx | ha)
    · have hup := mt hr.slowUp.2 (by rw [hslow]; decide)
      have hdown := mt hr.slowDown.2 (by rw [hslow]; decide)
      omega
    · have := hr.collision.2 ha
      rw [hcollision] at this
      cases this
  · intro hno
    unfold Crossed at hno
    rw [not_or] at hno
    refine ⟨?_, ?_, ?_, ?_, hcalls⟩
    · rw [hslow]
      exact iff_of_false (by decide) (by omega)
    · rw [hslow]
      exact iff_of_false (by decide) (by omega)
    · rw [hcollision]
      exact iff_of_false (by decide) hno.2
    · rw [hslow, hcollision]
      exact ⟨List.mem_cons_self, List.mem_cons_self⟩

/-- What the detectors make of a history: right, unless a crossing meets a time of 0. -/
theorem reportsCrossings_iff {Fn : Type*} {callback : Table Fn} {d : Detected Fn}
    (prev cur : Axis → Int) (hslow : d.slow.1 = motionSlowDetect h)
    (hcollision : d.collision.1 = motionCollisionDetect h)
    (hcalls : CallsFor callback d.slow ∧ CallsFor callback d.collision)
    (hcur : ∀ a, InRange (h.last.get a)) (hprev : ∀ a, InRange (h.prev.get a))
    (hcurEq : ∀ a, (h.last.get a).toInt = cur a) (hprevEq : ∀ a, (h.prev.get a).toInt = prev a) :
    ReportsCrossings prev cur callback d ↔ (Crossed prev cur → h.prev.time ≠ 0) := by
  by_cases htime : h.prev.time = 0
  · have hslow' : motionSlowDetect h = .null := if_pos htime
    have hcollision' : motionCollisionDetect h = .null := if_pos htime
    rw [reportsCrossings_iff_of_null (hslow.trans hslow') (hcollision.trans hcollision') hcalls]
    exact imp_congr_right fun _ => (iff_false_intro (not_not.2 htime)).symm
  · have hmem := And.intro (hslow ▸ motionSlowDetect_mem h)
      (hcollision ▸ motionCollisionDetect_mem h)
    obtain ⟨hup, hdown⟩ := motionSlowDetect_spec (hcur .x) (hprev .x) htime
    have hcoll := motionCollisionDetect_spec hcur hprev htime
    have hx := hcurEq .x
    have hx' := hprevEq .x
    simp only [MotionAcc.get] at hx hx'
    simp only [hcurEq, hprevEq] at hcoll
    rw [hx, hx', ← hslow] at hup hdown
    rw [← hcollision] at hcoll
    exact iff_of_true ⟨hup, hdown, hcoll, hmem, hcalls⟩ fun _ => htime

end Detectors

/-! ## The thread at a sample -/

section Thread
variable {Fn : Type*} {t : MotionThread Fn} {es : List (Input Fn)}

theorem stamp_step (e : Input Fn) : (threadStep t e).1.time_pre = stampStep t.time_pre e := by
  cases e with
  | abs code value => cases code <;> rfl
  | syn | other | table => rfl

theorem stamp_after : (threadAfter t es).time_pre = es.foldl stampStep t.time_pre :=
  (List.foldl_hom MotionThread.time_pre fun _ e => (stamp_step e).symm).symm

theorem history_between (h : ∀ e ∈ es, ∀ s, e ≠ .syn s) :
    (threadAfter t es).g_acc_history = t.g_acc_history := by
  induction es generalizing t with
  | nil => rfl
  | cons e es ih =>
    refine (ih fun e' he' => h e' (List.mem_cons_of_mem _ he')).trans ?_
    cases e with
    | abs code value => cases code <;> rfl
    | syn time => exact absurd rfl (h _ List.mem_cons_self time)
    | other | table => rfl

theorem startAxis_eq (data : Option (BitVec 32 × BitVec 32 × BitVec 32)) (callback : Table Fn)
    (a : Axis) : (threadStart data callback).g_acc.get a = startAxis data a := by
  match data with
  | none => cases a <;> rfl
  | some (x, y, z) => cases a <;> rfl

namespace SynPair

variable (p : SynPair es) (data : Option (BitVec 32 × BitVec 32 × BitVec 32))
  (callback : Table Fn)

/-- The newest entry of the history: the sample of the `EV_SYN` before. -/
theorem last_sample :
    let last := (threadAfter (threadStart data callback) p.upTo).g_acc_history.last
    (∀ a, last.get a = axisAfter a (startAxis data a) p.pre) ∧
      last.time = p.time.ms - stampAfter p.pre := by
  have hupTo : (threadAfter (threadStart data callback) p.upTo).g_acc_history =
      (threadStep (threadAfter (threadStart data callback) p.pre) (.syn p.time)).1.g_acc_history := by
    rw [upTo, threadAfter, List.foldl_append]
    exact history_between p.between
  have htime : (threadAfter (threadStart data callback) p.pre).time_pre = stampAfter p.pre :=
    stamp_after
  intro last
  have hlast : last = { (threadAfter (threadStart data callback) p.pre).g_acc with
      time := p.time.ms - stampAfter p.pre } := by
    rw [← htime]
    exact congrArg History.last hupTo
  refine ⟨fun a => ?_, congrArg MotionAcc.time hlast⟩
  rw [hlast, ← startAxis_eq data callback, ← axis_after]
  cases a <;> rfl

/-- **At one sample** the crossings are reported exactly if there are none or the sample
before has a time of its own. -/
theorem reports_iff (hdata : DataInRange data) (hes : ∀ e ∈ es, e.InRange) :
    p.Reports data callback ↔
      (Crossed (p.prev data) (p.cur data) → p.time.ms ≠ stampAfter p.pre) := by
  let t := threadAfter (threadStart data callback) p.upTo
  let t' := { t with g_acc := { t.g_acc with time := p.time'.ms - t.time_pre }
                     time_pre := p.time'.ms }
  let h := t.g_acc_history.shift t'.g_acc
  obtain ⟨hprev, htime⟩ := p.last_sample data callback
  have hcur : ∀ a, h.last.get a = axisAfter a (startAxis data a) p.upTo := by
    intro a
    rw [← startAxis_eq data callback, ← axis_after]
    cases a <;> rfl
  have hprev : ∀ a, h.prev.get a = axisAfter a (startAxis data a) p.pre := hprev
  have htime : h.prev.time ≠ 0 ↔ p.time.ms ≠ stampAfter p.pre := by
    have : h.prev.time = p.time.ms - stampAfter p.pre := htime
    rw [this, ne_eq, ne_eq, BitVec.sub_eq_iff_eq_add]
    simp
  have hmem : ∀ e ∈ p.upTo, e.InRange := by
    intro e he
    exact hes e (p.occurs.subset (List.mem_append_left _ he))
  have hmem' : ∀ e ∈ p.pre, e.InRange := fun e he => hmem e (List.mem_append_left _ he)
  have hstart := startAxis_inRange hdata
  have hcalls : CallsFor (tableAfter callback p.upTo) (detect t').2.slow ∧
      CallsFor (tableAfter callback p.upTo) (detect t').2.collision := by
    have htable : t'.callback = tableAfter callback p.upTo := table_after
    rw [← htable]
    exact ⟨callsFor_dispatch _ _, callsFor_dispatch _ _⟩
  have hiff := reportsCrossings_iff (h := h) (d := (detect t').2) (p.prev data) (p.cur data) rfl rfl hcalls
    (fun a => hcur a ▸ axisAfter_inRange (hstart a) hmem)
    (fun a => hprev a ▸ axisAfter_inRange (hstart a) hmem')
    (fun a => congrArg BitVec.toInt (hcur a)) (fun a => congrArg BitVec.toInt (hprev a))
  rw [← htime, ← hiff]
  constructor
  · rintro ⟨d, hd, hr⟩
    cases hd
    exact hr
  · intro hr
    exact ⟨_, rfl, hr⟩

end SynPair

end Thread

/-- **Motion detection** reports exactly the threshold crossings along a stream if and only
if no crossing follows a sample with the time stamp, in milliseconds, of the one before
it (or of 0, for the first). -/
theorem motion_crossings_iff {Fn : Type*} (data : Option (BitVec 32 × BitVec 32 × BitVec 32))
    (callback : Table Fn) (es : List (Input Fn)) (hdata : DataInRange data)
    (hes : ∀ e ∈ es, e.InRange) :
    (∀ p : SynPair es, p.Reports data callback) ↔
      ∀ p : SynPair es, Crossed (p.prev data) (p.cur data) → p.time.ms ≠ stampAfter p.pre :=
  forall_congr' fun p => p.reports_iff data callback hdata hes

def slowUpTable : Table Unit :=
  fun i => if i.val = 0 then ⟨.slowUp, some ()⟩ else ⟨.null, none⟩

/-- A jump of the x value between two samples. -/
def jumpStream : List (Input Unit) :=
  [.syn ⟨1, 0⟩, .abs (some .x) 10000000, .syn ⟨1, 50000⟩]

theorem sensorRange_zero : DataInRange (some (0, 0, 0)) := by
  rintro x y z ⟨⟩
  exact ⟨⟨by decide, by decide⟩, ⟨by decide, by decide⟩, ⟨by decide, by decide⟩⟩

theorem jumpStream_inRange : ∀ e ∈ jumpStream, e.InRange := by
  unfold jumpStream
  simp only [List.forall_mem_cons]
  exact ⟨trivial, ⟨by decide, by decide⟩, trivial, (fun _ h => nomatch h)⟩

theorem jumpStream_reported :
    (∀ e ∈ jumpStream, e.InRange) ∧
      ∀ p : SynPair jumpStream, p.Reports (some (0, 0, 0)) slowUpTable := by
  refine ⟨jumpStream_inRange, (motion_crossings_iff (some (0, 0, 0)) slowUpTable jumpStream
    sensorRange_zero jumpStream_inRange).2 ?_⟩
  rintro ⟨pre, time, mid, time', -, tail, htail⟩ -
  -- only the first of the two can have another behind it
  match pre, htail with
  | [], htail =>
    injection htail with hsyn
    injection hsyn with htime
    dsimp only
    rw [htime]
    decide
  | [_], htail => simp [jumpStream] at htail
  | _ :: _ :: _, htail =>
    have := congrArg List.length htail
    simp [jumpStream] at this
    omega

def sameMsStream : List (Input Unit) :=
  [.syn ⟨1, 0⟩, .syn ⟨1, 400⟩, .abs (some .x) 10000000, .syn ⟨1, 50000⟩]

def sameMsPair : SynPair sameMsStream where
  pre := [.syn ⟨1, 0⟩]
  time := ⟨1, 400⟩
  mid := [.abs (some .x) 10000000]
  time' := ⟨1, 50000⟩
  between := by
    rintro e he s rfl
    cases List.mem_singleton.1 he
  occurs := List.prefix_refl _

/-- A jump behind two samples of the same millisecond is not reported. -/
theorem sameMs_not_reported :
    sameMsPair.cur (some (0, 0, 0)) .x - sameMsPair.prev (some (0, 0, 0)) .x = 10000000 ∧
      ¬ sameMsPair.Reports (some (0, 0, 0)) slowUpTable := by
  have hjump : sameMsPair.cur (some (0, 0, 0)) .x - sameMsPair.prev (some (0, 0, 0)) .x =
      10000000 := by decide
  refine ⟨hjump, ?_⟩
  rintro ⟨d, hd, hr⟩
  cases hd
  exact absurd (hr.slowUp.2 (by rw [hjump]; omega)) (by decide)

end N32905.Motion
