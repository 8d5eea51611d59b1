import N32905.Motion.Register
import Mathlib.Data.List.Chain

/-!
# The motion thread

`motion_thread` reads input events. `EV_ABS` sets one axis of the current sample,
`EV_SYN` ends it: the sample is shifted into a history of five, three detectors look at
the last entries, and each action found is passed to the callbacks registered for it.
The thread holds the mutex from an event to the end of its callbacks, so the table
changes between events only.

The thresholds are products of doubles and exact; `unsigned long` has 32 bits.
-/

namespace N32905.Motion

open N32905.Lib

/-! ## The model -/

def MOTION_HISTORY_DEPTH : Nat := 5

def GRAVITY_2G : BitVec 32 := 19613100

/-- `GRAVITY_EARTH*0.8`. -/
def MOTION_SLOW_THRESHOLD : Int := 7845240

/-- `GRAVITY_EARTH*1.8`. -/
def MOTION_COLLISION_THRESHOLD : Int := 17651790

/-- `GRAVITY_2G+GRAVITY_EARTH*0.8`. -/
def MOTION_GZ0_THRESHOLD : Int := 27458340

/-- `GRAVITY_2G-GRAVITY_EARTH*0.8`. -/
def MOTION_GZ180_THRESHOLD : Int := 11767860

inductive Axis where
  | x | y | z
  deriving DecidableEq

structure MotionAcc where
  x : BitVec 32
  y : BitVec 32
  z : BitVec 32
  time : BitVec 32
  deriving DecidableEq

namespace MotionAcc

def get (acc : MotionAcc) : Axis → BitVec 32
  | .x => acc.x
  | .y => acc.y
  | .z => acc.z

def set (acc : MotionAcc) (a : Axis) (v : BitVec 32) : MotionAcc :=
  match a with
  | .x => { acc with x := v }
  | .y => { acc with y := v }
  | .z => { acc with z := v }

end MotionAcc

abbrev History := Fin MOTION_HISTORY_DEPTH → MotionAcc

/-- `g_acc_history[MOTION_HISTORY_DEPTH-1]`. -/
def History.last (h : History) : MotionAcc := h ⟨MOTION_HISTORY_DEPTH - 1, by decide⟩

/-- `g_acc_history[MOTION_HISTORY_DEPTH-2]`. -/
def History.prev (h : History) : MotionAcc := h ⟨MOTION_HISTORY_DEPTH - 2, by decide⟩

def History.shift (h : History) (g_acc : MotionAcc) : History :=
  fun i => if hi : i.val + 1 < MOTION_HISTORY_DEPTH then h ⟨i.val + 1, hi⟩ else g_acc

structure TimeVal where
  tv_sec : BitVec 32
  tv_usec : BitVec 32
  deriving DecidableEq

/-- `time_cur`, in milliseconds. -/
def TimeVal.ms (t : TimeVal) : BitVec 32 := t.tv_sec * 1000 + t.tv_usec.sdiv 1000

abbrev Table (Fn : Type*) := Fin MAX_CALLBACK_NUM → MotionCallback Fn

/-- What the thread reads (`none` is a code other than `ABS_X`, `ABS_Y` and `ABS_Z`), and a
change of the table by another thread. -/
inductive Input (Fn : Type*) where
  | abs (code : Option Axis) (value : BitVec 32)
  | syn (time : TimeVal)
  | other
  | table (callback : Table Fn)

structure Call (Fn : Type*) where
  slot : Fin MAX_CALLBACK_NUM
  fn : Fn
  action : MotionAction

/-- What an `EV_SYN` leads to: the result of each detector, and the calls for it. -/
structure Detected (Fn : Type*) where
  slow : MotionAction × List (Call Fn)
  collision : MotionAction × List (Call Fn)
  angle : MotionAction × List (Call Fn)

/-- The globals of `motion.c` and `time_pre`. -/
structure MotionThread (Fn : Type*) where
  g_acc : MotionAcc
  g_acc_history : History
  time_pre : BitVec 32
  g_action : MotionAction
  g_action_pre : MotionAction
  g_angle : MotionAction
  callback : Table Fn

section Detectors
variable (g_acc_history : History)

def motionSlowDetect : MotionAction :=
  if g_acc_history.prev.time = 0 then .null
  else if g_acc_history.last.x.toInt > g_acc_history.prev.x.toInt then
    if (g_acc_history.last.x - g_acc_history.prev.x).toInt > MOTION_SLOW_THRESHOLD then .slowUp
    else .null
  else if (g_acc_history.prev.x - g_acc_history.last.x).toInt > MOTION_SLOW_THRESHOLD then .slowDown
  else .null

def axisDiff (a : Axis) : BitVec 32 :=
  if (g_acc_history.last.get a).toInt > (g_acc_history.prev.get a).toInt then
    g_acc_history.last.get a - g_acc_history.prev.get a
  else g_acc_history.prev.get a - g_acc_history.last.get a

def motionCollisionDetect : MotionAction :=
  if g_acc_history.prev.time = 0 then .null
  else if (axisDiff g_acc_history .x).abs.toInt > MOTION_COLLISION_THRESHOLD then .collision
  else if (axisDiff g_acc_history .y).abs.toInt > MOTION_COLLISION_THRESHOLD then .collision
  else if (axisDiff g_acc_history .z).abs.toInt > MOTION_COLLISION_THRESHOLD then .collision
  else .null

/-- The result, `g_action` and `g_action_pre`. -/
def motionAngleDetect (g_action g_action_pre : MotionAction) :
    MotionAction × MotionAction × MotionAction :=
  if g_acc_history.last.time = 0 then (.null, g_action, g_action_pre)
  else
    let z := g_acc_history.last.z.toInt
    let g_action := if z > MOTION_GZ0_THRESHOLD then .gz0 else g_action
    if z > MOTION_GZ0_THRESHOLD ∧ g_action ≠ g_action_pre then (g_action, g_action, g_action)
    else
      let g_action := if z < MOTION_GZ180_THRESHOLD then .gz180 else g_action
      if z < MOTION_GZ180_THRESHOLD ∧ g_action ≠ g_action_pre then (g_action, g_action, g_action)
      else (.null, g_action, g_action_pre)

end Detectors

section Thread
variable {Fn : Type*}

def dispatch (callback : Table Fn) (g_action : MotionAction) : List (Call Fn) :=
  (List.finRange MAX_CALLBACK_NUM).filterMap fun i =>
    match (callback i).pfnCallBack with
    | some fn => if (callback i).action = g_action then some ⟨i, fn, g_action⟩ else none
    | none => none

/-- From the end of a sample on. The third loop tests `g_action`. -/
def detect (t : MotionThread Fn) : MotionThread Fn × Detected Fn :=
  let history := t.g_acc_history.shift t.g_acc
  let g_slow := motionSlowDetect history
  let g_collision := motionCollisionDetect history
  let (g_angle, g_action, g_action_pre) := motionAngleDetect history g_collision t.g_action_pre
  ({ t with g_acc_history := history, g_action := g_action, g_action_pre := g_action_pre
            g_angle := g_angle },
   { slow := (g_slow, if g_slow ≠ .null then dispatch t.callback g_slow else [])
     collision := (g_collision, if g_collision ≠ .null then dispatch t.callback g_collision else [])
     angle := (g_angle, if g_angle ≠ .null then dispatch t.callback g_action else []) })

def threadStep (t : MotionThread Fn) : Input Fn → MotionThread Fn × Option (Detected Fn)
  | .abs (some a) value => ({ t with g_acc := t.g_acc.set a (value + GRAVITY_2G) }, none)
  | .abs none _ | .other => (t, none)
  | .syn time =>
    let t := { t with g_acc := { t.g_acc with time := time.ms - t.time_pre }, time_pre := time.ms }
    ((detect t).1, some (detect t).2)
  | .table callback => ({ t with callback := callback }, none)

/-- The thread before its loop; `data` is what `bma220_get_data` delivers. -/
def threadStart (data : Option (BitVec 32 × BitVec 32 × BitVec 32)) (callback : Table Fn) :
    MotionThread Fn where
  g_acc :=
    match data with
    | some (x, y, z) => ⟨x + GRAVITY_2G, y + GRAVITY_2G, z + GRAVITY_2G, 1⟩
    | none => ⟨0, 0, 0, 0⟩
  g_acc_history _ := ⟨0, 0, 0, 0⟩
  time_pre := 0
  g_action := .null
  g_action_pre := .null
  g_angle := .null
  callback := callback

def threadAfter (t : MotionThread Fn) (es : List (Input Fn)) : MotionThread Fn :=
  es.foldl (fun t e => (threadStep t e).1) t

/-- What the samples of `es` lead to. -/
def outputs (t : MotionThread Fn) : List (Input Fn) → List (Detected Fn)
  | [] => []
  | e :: es => (threadStep t e).2.toList ++ outputs (threadStep t e).1 es

end Thread

/-! ## Calls -/

section Calls
variable {Fn : Type*} {callback : Table Fn} {action : MotionAction} {calls : List (Call Fn)}

/-- The callbacks registered for `action` are called with it, each once and in the order of
the slots, and no others. -/
def CallsExactly (callback : Table Fn) (action : MotionAction) (calls : List (Call Fn)) : Prop :=
  calls.Pairwise (fun c c' => c.slot < c'.slot) ∧
    ∀ c, c ∈ calls ↔ (callback c.slot).action = action ∧
      (callback c.slot).pfnCallBack = some c.fn ∧ c.action = action

theorem mem_dispatch {c : Call Fn} : c ∈ dispatch callback action ↔
    (callback c.slot).action = action ∧ (callback c.slot).pfnCallBack = some c.fn ∧
      c.action = action := by
  unfold dispatch
  rw [List.mem_filterMap]
  constructor
  · rintro ⟨i, -, hi⟩
    split at hi
    · rename_i fn hfn
      split at hi
      · rename_i haction
        cases hi
        exact ⟨haction, hfn, rfl⟩
      · cases hi
    · cases hi
  · rintro ⟨haction, hfn, hc⟩
    refine ⟨c.slot, List.mem_finRange _, ?_⟩
    rw [hfn]
    dsimp only
    rw [if_pos haction, ← hc]

theorem dispatch_exactly (callback : Table Fn) (action : MotionAction) :
    CallsExactly callback action (dispatch callback action) := by
  refine ⟨List.Pairwise.filterMap _ ?_ (List.pairwise_lt_finRange _), fun c => mem_dispatch⟩
  intro i j hij c hc c' hc'
  have hslot : ∀ {i : Fin MAX_CALLBACK_NUM} {c : Call Fn},
      (match (callback i).pfnCallBack with
        | some fn => if (callback i).action = action then some ⟨i, fn, action⟩ else none
        | none => none) = some c → c.slot = i := by
    intro i c h
    split at h
    · split at h <;> cases h
      rfl
    · cases h
  rw [hslot hc, hslot hc']
  exact hij

def CallsFor (callback : Table Fn) (r : MotionAction × List (Call Fn)) : Prop :=
  if r.1 ≠ .null then CallsExactly callback r.1 r.2 else r.2 = []

theorem callsFor_dispatch (callback : Table Fn) (action : MotionAction) :
    CallsFor callback (action, if action ≠ .null then dispatch callback action else []) := by
  unfold CallsFor
  dsimp only
  split
  · exact dispatch_exactly callback action
  · rfl

end Calls

/-! ## The state after a stream -/

section Stream
variable {Fn : Type*} {t : MotionThread Fn} {es : List (Input Fn)}

def axisStep (a : Axis) (v : BitVec 32) : Input Fn → BitVec 32
  | .abs (some b) value => if b = a then value + GRAVITY_2G else v
  | _ => v

/-- The last value of an axis, with the offset of 2 g; `init` before the first. -/
def axisAfter (a : Axis) (init : BitVec 32) (es : List (Input Fn)) : BitVec 32 :=
  es.foldl (axisStep a) init

def tableStep (callback : Table Fn) : Input Fn → Table Fn
  | .table callback => callback
  | _ => callback

def tableAfter (init : Table Fn) (es : List (Input Fn)) : Table Fn := es.foldl tableStep init

theorem get_set (acc : MotionAcc) (a b : Axis) (v : BitVec 32) :
    (acc.set b v).get a = if b = a then v else acc.get a := by
  cases a <;> cases b <;> rfl

theorem axis_step (a : Axis) (e : Input Fn) :
    (threadStep t e).1.g_acc.get a = axisStep a (t.g_acc.get a) e := by
  cases e with
  | abs code value =>
    cases code with
    | none => rfl
    | some b => exact get_set t.g_acc a b _
  | syn time => cases a <;> rfl
  | other | table => rfl

theorem axis_after (a : Axis) :
    (threadAfter t es).g_acc.get a = axisAfter a (t.g_acc.get a) es :=
  (List.foldl_hom (fun t : MotionThread Fn => t.g_acc.get a) fun _ e => (axis_step a e).symm).symm

theorem table_step (e : Input Fn) : (threadStep t e).1.callback = tableStep t.callback e := by
  cases e with
  | abs code value => cases code <;> rfl
  | syn | other | table => rfl

theorem table_after : (threadAfter t es).callback = tableAfter t.callback es :=
  (List.foldl_hom MotionThread.callback fun _ e => (table_step e).symm).symm

end Stream

/-! ## Orientation -/

section Angle
variable {Fn : Type*} {t : MotionThread Fn} {es : List (Input Fn)}

/-- The two orientations, at a sample with this `z`. -/
def AngleAt (z : Int) (action : MotionAction) : Prop :=
  (action = .gz0 ∧ z > MOTION_GZ0_THRESHOLD) ∨ (action = .gz180 ∧ z < MOTION_GZ180_THRESHOLD)

theorem AngleAt.ne_null {z : Int} {action : MotionAction} (h : AngleAt z action) :
    action ≠ .null := by
  rcases h with ⟨rfl, -⟩ | ⟨rfl, -⟩
  · exact MotionAction.noConfusion
  · exact MotionAction.noConfusion

/-- **The angle detector** reports nothing and leaves `g_action_pre`, or it reports what
`g_action_pre` was not, in all three variables. -/
theorem motionAngleDetect_cases (h : History) (g_action g_action_pre : MotionAction) :
    (∃ g_action', motionAngleDetect h g_action g_action_pre = (.null, g_action', g_action_pre)) ∨
      ∃ a, motionAngleDetect h g_action g_action_pre = (a, a, a) ∧ a ≠ g_action_pre ∧
        AngleAt h.last.z.toInt a := by
  unfold motionAngleDetect
  by_cases htime : h.last.time = 0
  · rw [if_pos htime]
    exact .inl ⟨_, rfl⟩
  · rw [if_neg htime]
    dsimp only
    by_cases hgz0 : h.last.z.toInt > MOTION_GZ0_THRESHOLD ∧ .gz0 ≠ g_action_pre
    · rw [if_pos hgz0.1, if_pos hgz0]
      exact .inr ⟨_, rfl, hgz0.2, .inl ⟨rfl, hgz0.1⟩⟩
    · have hgz0' : ¬ (h.last.z.toInt > MOTION_GZ0_THRESHOLD ∧
          (if h.last.z.toInt > MOTION_GZ0_THRESHOLD then .gz0 else g_action) ≠ g_action_pre) := by
        rintro ⟨hz, hne⟩
        rw [if_pos hz] at hne
        exact hgz0 ⟨hz, hne⟩
      rw [if_neg hgz0']
      by_cases hz : h.last.z.toInt < MOTION_GZ180_THRESHOLD
      · rw [if_pos hz]
        by_cases hne : .gz180 ≠ g_action_pre
        · rw [if_pos ⟨hz, hne⟩]
          exact .inr ⟨_, rfl, hne, .inr ⟨rfl, hz⟩⟩
        · rw [if_neg fun hand => hne hand.2]
          exact .inl ⟨_, rfl⟩
      · rw [if_neg fun hand => hz hand.1]
        exact .inl ⟨_, rfl⟩

/-- One pass. A report is made at the axis values of the sample, and to the callbacks of the
action reported. -/
theorem threadStep_angle {e : Input Fn} {d : Detected Fn} (h : (threadStep t e).2 = some d) :
    (d.angle = (.null, []) ∧ (threadStep t e).1.g_action_pre = t.g_action_pre) ∨
      (d.angle.2 = dispatch t.callback d.angle.1 ∧ d.angle.1 ≠ t.g_action_pre ∧
        (threadStep t e).1.g_action_pre = d.angle.1 ∧ AngleAt t.g_acc.z.toInt d.angle.1) := by
  cases e with
  | abs code value => cases code <;> cases h
  | other | table => cases h
  | syn time =>
    cases h
    let acc := { t.g_acc with time := time.ms - t.time_pre }
    have hcases := motionAngleDetect_cases (t.g_acc_history.shift acc)
      (motionCollisionDetect (t.g_acc_history.shift acc)) t.g_action_pre
    simp only [threadStep, detect]
    rcases hcases with ⟨g_action, heq⟩ | ⟨a, heq, hne, hat⟩
    · rw [heq]
      exact .inl ⟨rfl, rfl⟩
    · rw [heq]
      exact .inr ⟨if_pos hat.ne_null, hne, rfl, hat⟩

theorem threadStep_quiet {e : Input Fn} (h : (threadStep t e).2 = none) :
    (threadStep t e).1.g_action_pre = t.g_action_pre := by
  cases e with
  | abs code value => cases code <;> rfl
  | other | table => rfl
  | syn time => cases h

/-- The results of `motion_angle_detect` that are not `NULL`. -/
def angleReports (t : MotionThread Fn) (es : List (Input Fn)) : List MotionAction :=
  ((outputs t es).map fun d => d.angle.1).filter (· ≠ .null)

theorem angleReports_chain (t : MotionThread Fn) (es : List (Input Fn)) :
    (t.g_action_pre :: angleReports t es).IsChain (· ≠ ·) := by
  induction es generalizing t with
  | nil => exact List.isChain_singleton _
  | cons e es ih =>
    have hrest := ih (threadStep t e).1
    unfold angleReports at hrest ⊢
    rw [outputs, List.map_append, List.filter_append]
    cases hd : (threadStep t e).2 with
    | none =>
      rw [threadStep_quiet hd] at hrest
      exact hrest
    | some d =>
      rcases threadStep_angle hd with ⟨hnull, hpre⟩ | ⟨-, hne, hpre, hat⟩
      · rw [hpre] at hrest
        simpa [hnull] using hrest
      · rw [hpre] at hrest
        simp only [Option.toList_some, List.map_cons, List.map_nil, ne_eq, hat.ne_null,
          not_false_eq_true, decide_true, List.filter_cons_of_pos, List.filter_nil,
          List.singleton_append, List.isChain_cons_cons]
        exact ⟨Ne.symm hne, hrest⟩

end Angle

/-- **Orientation reports alternate**, on every stream: none is made twice in a row, each is
made at a sample beyond its threshold, and exactly the callbacks registered for it are
called. -/
theorem angle_reports_alternate {Fn : Type*}
    (data : Option (BitVec 32 × BitVec 32 × BitVec 32)) (callback : Table Fn)
    (es : List (Input Fn)) :
    (angleReports (threadStart data callback) es).IsChain (· ≠ ·) ∧
    ∀ pre e d, pre ++ [e] <+: es →
      (threadStep (threadAfter (threadStart data callback) pre) e).2 = some d →
      let z := (axisAfter .z (threadStart data callback).g_acc.z pre).toInt
      (d.angle.1 = .null ∨ d.angle.1 = .gz0 ∧ z > 27458340 ∨ d.angle.1 = .gz180 ∧ z < 11767860) ∧
        CallsFor (tableAfter callback pre) d.angle := by
  refine ⟨(angleReports_chain (threadStart data callback) es).tail, ?_⟩
  intro pre e d _ hd z
  have hz : (threadAfter (threadStart data callback) pre).g_acc.z.toInt = z :=
    congrArg BitVec.toInt (axis_after .z)
  have htable : (threadAfter (threadStart data callback) pre).callback = tableAfter callback pre :=
    table_after
  rcases threadStep_angle hd with ⟨hnull, -⟩ | ⟨hcalls, -, -, hat⟩
  · rw [hnull]
    exact ⟨.inl rfl, rfl⟩
  · rw [hz] at hat
    rw [htable] at hcalls
    refine ⟨.inr hat, ?_⟩
    unfold CallsFor
    rw [if_pos hat.ne_null, hcalls]
    exact dispatch_exactly _ _

end N32905.Motion
