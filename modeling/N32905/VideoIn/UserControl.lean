import Mathlib.Algebra.Ring.Nat
import Mathlib.Data.Nat.Find
import N32905.Lib.Loop

/-!
# The table of private controls

`QueryV4LUserControl` of `V4L.c` asks the driver for its controls and keeps the
enabled private ones in `PrivateUserCtrl`. The index into the table is `static`: it
goes on where the last call has left it. It is compared with the size of the table
by `>`, so the control that finds the table full is stored behind its end.
-/

namespace N32905.VideoIn

open N32905.Lib

/-! ## The model -/

def MAX_USER_CTRL : Nat := 16

/-- What is kept of a `struct v4l2_queryctrl`. -/
structure V4l2Queryctrl where
  id : BitVec 32
  name : List (BitVec 8)
  minimum : Int
  maximum : Int
  step : Int
  deriving DecidableEq

/-- An answer to `VIDIOC_QUERYCTRL`. -/
inductive QueryAnswer
  | enabled (queryctrl : V4l2Queryctrl)
  | disabled
  | einval
  | other
  deriving DecidableEq

def QueryAnswer.isEnabled : QueryAnswer → Bool
  | .enabled _ => true
  | _ => false

inductive QueryErr
  | success | vidQueryUid
  deriving DecidableEq

/-- The driver during one call: its answers to the standard ids, and to the private ones from
`V4L2_CID_PRIVATE_BASE` on. -/
structure CtrlDriver where
  standard : List QueryAnswer
  priv : Nat → QueryAnswer
  einval_again : ∃ k, priv k = .einval

/-- What outlives a call: `ctrl_id`, and the stores to `PrivateUserCtrl` with their indexes. -/
structure CtrlTable where
  ctrl_id : BitVec 32
  stores : List (Nat × V4l2Queryctrl)

/-- `asked` counts the private ids so far. -/
structure QuerySt where
  asked : Nat
  err : QueryErr
  table : CtrlTable

structure QueryEnd where
  err : QueryErr
  table : CtrlTable

/-- The loop over the standard ids sets `err` only. -/
def queryStandard (answers : List QueryAnswer) : QueryErr :=
  answers.foldl (fun err a =>
    match a with
    | .enabled _ | .disabled | .einval => err
    | .other => .vidQueryUid) .success

/-- The `memcpy` and `ctrl_id = ctrl_id + 1`. -/
def CtrlTable.keep (t : CtrlTable) (queryctrl : V4l2Queryctrl) : CtrlTable where
  ctrl_id := t.ctrl_id + 1
  stores := t.stores ++ [(t.ctrl_id.toNat, queryctrl)]

def queryPrivate (d : CtrlDriver) (st : QuerySt) : Step QuerySt QueryEnd :=
  match d.priv st.asked with
  | .disabled => .next { st with asked := st.asked + 1 }
  | .enabled queryctrl =>
    if MAX_USER_CTRL < st.table.ctrl_id.toNat then
      .done { err := .vidQueryUid, table := st.table }
    else .next { st with asked := st.asked + 1, table := st.table.keep queryctrl }
  | .einval => .done { err := st.err, table := st.table }
  | .other => .next { st with asked := st.asked + 1, err := .vidQueryUid }

/-- `QueryV4LUserControl`, with at most `fuel` private ids. -/
def queryV4LUserControl (d : CtrlDriver) (table : CtrlTable) (fuel : Nat) : Option QueryEnd :=
  iterate (queryPrivate d) fuel { asked := 0, err := queryStandard d.standard, table := table }

def CtrlTable.initial : CtrlTable := { ctrl_id := 0, stores := [] }

/-- The calls return `rs`, one after the other. -/
def Calls : CtrlTable → List CtrlDriver → List QueryEnd → Prop
  | _, [], [] => True
  | table, d :: ds, r :: rs =>
    (∃ fuel, queryV4LUserControl d table fuel = some r) ∧ Calls r.table ds rs
  | _, _, _ => False

/-! ## The specification -/

/-- The private ids of a call up to the one that is invalid. -/
def privateIds (d : CtrlDriver) : Nat := Nat.find d.einval_again

def enabledCount (d : CtrlDriver) : Nat :=
  (List.range' 0 (privateIds d)).countP fun k => (d.priv k).isEnabled

/-- Every store is in the table, and a call with more enabled controls than the table has room for
returns an error. -/
def KeepsTable : CtrlTable → List CtrlDriver → List QueryEnd → Prop
  | table, d :: ds, r :: rs =>
    (∀ s ∈ r.table.stores, s.1 < MAX_USER_CTRL) ∧
      (MAX_USER_CTRL < table.stores.length + enabledCount d → r.err ≠ .success) ∧
      KeepsTable r.table ds rs
  | _, _, _ => True

/-! ## One call -/

/-- The stores have gone to the indexes from 0 on. One of them may be behind the table. -/
structure TableInv (t : CtrlTable) : Prop where
  ctrl_id_eq : t.ctrl_id.toNat = t.stores.length
  indexes : t.stores.map Prod.fst = List.range t.stores.length
  length_le : t.stores.length ≤ MAX_USER_CTRL + 1

theorem tableInv_initial : TableInv .initial := by
  constructor <;> decide

theorem TableInv.keep {t : CtrlTable} (h : TableInv t) (hroom : t.ctrl_id.toNat ≤ MAX_USER_CTRL)
    (queryctrl : V4l2Queryctrl) : TableInv (t.keep queryctrl) := by
  have hid := h.ctrl_id_eq
  have hlen : (t.keep queryctrl).stores.length = t.stores.length + 1 := by simp [CtrlTable.keep]
  have hmax : MAX_USER_CTRL = 16 := rfl
  constructor
  case ctrl_id_eq =>
    rw [hlen, CtrlTable.keep, BitVec.toNat_add]
    simp
    omega
  case indexes =>
    rw [hlen, List.range_succ, ← h.indexes, ← hid]
    simp [CtrlTable.keep]
  case length_le =>
    rw [hlen]
    omega

theorem TableInv.inside_iff {t : CtrlTable} (h : TableInv t) :
    (∀ s ∈ t.stores, s.1 < MAX_USER_CTRL) ↔ t.stores.length ≤ MAX_USER_CTRL := by
  have hmem : (∀ s ∈ t.stores, s.1 < MAX_USER_CTRL) ↔
      ∀ i ∈ t.stores.map Prod.fst, i < MAX_USER_CTRL := by
    simp
  rw [hmem, h.indexes]
  refine ⟨fun hall => ?_, fun hle i hi => Nat.lt_of_lt_of_le (List.mem_range.1 hi) hle⟩
  by_contra hlt
  have := hall MAX_USER_CTRL (List.mem_range.2 (Nat.lt_of_not_le hlt))
  omega

section Call
variable {d : CtrlDriver} {st : QuerySt}

/-- With `n` ids to go, the table gets what is enabled among them, until it has 17. -/
theorem queryPrivate_ends (st : QuerySt) {n : Nat} (h : TableInv st.table)
    (hlast : d.priv (st.asked + n) = .einval) (hbefore : ∀ j < n, d.priv (st.asked + j) ≠ .einval) :
    ∃ r, Ends (queryPrivate d) st r ∧ TableInv r.table ∧ r.table.stores.length =
      min (st.table.stores.length +
        (List.range' st.asked n).countP fun k => (d.priv k).isEnabled) (MAX_USER_CTRL + 1) := by
  induction n generalizing st with
  | zero =>
    refine ⟨_, (ends_done (by rw [queryPrivate, ← Nat.add_zero st.asked, hlast])).2 rfl, h, ?_⟩
    exact (Nat.min_eq_left h.length_le).symm
  | succ n ih =>
    have hfirst := hbefore 0 (Nat.succ_pos n)
    rw [Nat.add_zero] at hfirst
    have hlast' : d.priv (st.asked + 1 + n) = .einval := by
      rw [Nat.add_right_comm]
      exact hlast
    have hbefore' : ∀ j < n, d.priv (st.asked + 1 + j) ≠ .einval := by
      intro j hj
      rw [Nat.add_right_comm]
      exact hbefore (j + 1) (Nat.succ_lt_succ hj)
    rw [List.range'_succ, List.countP_cons]
    cases ha : d.priv st.asked with
    | einval => exact absurd ha hfirst
    | disabled =>
      obtain ⟨r, hr, hinv, hlen⟩ := ih { st with asked := st.asked + 1 } h hlast' hbefore'
      exact ⟨r, (ends_next (by rw [queryPrivate, ha])).2 hr, hinv, hlen⟩
    | other =>
      obtain ⟨r, hr, hinv, hlen⟩ :=
        ih { st with asked := st.asked + 1, err := .vidQueryUid } h hlast' hbefore'
      exact ⟨r, (ends_next (by rw [queryPrivate, ha])).2 hr, hinv, hlen⟩
    | enabled queryctrl =>
      have hone : (QueryAnswer.enabled queryctrl).isEnabled = true := rfl
      have hid := h.ctrl_id_eq
      have hle := h.length_le
      rw [if_pos hone]
      by_cases hfull : MAX_USER_CTRL < st.table.ctrl_id.toNat
      · refine ⟨_, (ends_done (by simp only [queryPrivate, ha, if_pos hfull]; rfl)).2 rfl, h, ?_⟩
        simp only
        omega
      · obtain ⟨r, hr, hinv, hlen⟩ :=
          ih { st with asked := st.asked + 1, table := st.table.keep queryctrl }
            (h.keep (Nat.le_of_not_lt hfull) queryctrl) hlast' hbefore'
        refine ⟨r, (ends_next (by simp only [queryPrivate, ha, if_neg hfull])).2 hr, hinv, ?_⟩
        simp only [CtrlTable.keep, List.length_append, List.length_singleton] at hlen
        omega

/-- **One call** ends, and the table has grown by its enabled controls. -/
theorem queryV4LUserControl_ends {table : CtrlTable} (d : CtrlDriver) (h : TableInv table) :
    ∃ r, (∃ fuel, queryV4LUserControl d table fuel = some r) ∧ TableInv r.table ∧
      r.table.stores.length =
        min (table.stores.length + enabledCount d) (MAX_USER_CTRL + 1) := by
  have hlast := Nat.find_spec d.einval_again
  refine queryPrivate_ends (d := d)
    { asked := 0, err := queryStandard d.standard, table := table } (n := privateIds d) h
    (by rw [Nat.zero_add]; exact hlast) fun j hj => ?_
  rw [Nat.zero_add]
  exact Nat.find_min d.einval_again hj

end Call

/-! ## Any number of calls -/

/-- From a table that is not overfull, exactly the calls keep it whose controls fit. -/
theorem calls_keep_iff {table : CtrlTable} (h : TableInv table)
    (ds : List CtrlDriver) :
    ∃ rs, Calls table ds rs ∧ (table.stores.length ≤ MAX_USER_CTRL →
      (KeepsTable table ds rs ↔
        table.stores.length + (ds.map enabledCount).sum ≤ MAX_USER_CTRL)) := by
  induction ds generalizing table with
  | nil => exact ⟨[], trivial, fun hle => by simp [KeepsTable, hle]⟩
  | cons d ds ih =>
    obtain ⟨r, hr, hinv, hlen⟩ := queryV4LUserControl_ends d h
    obtain ⟨rs, hrs, hiff⟩ := ih hinv
    refine ⟨r :: rs, ⟨hr, hrs⟩, fun hle => ?_⟩
    rw [KeepsTable, hinv.inside_iff, List.map_cons, List.sum_cons]
    constructor
    · rintro ⟨hinside, -, hrest⟩
      have := (hiff hinside).1 hrest
      omega
    · intro hfit
      have hinside : r.table.stores.length ≤ MAX_USER_CTRL := by omega
      exact ⟨hinside, fun hmany => by omega, (hiff hinside).2 (by omega)⟩

/-- **The table of private controls**: every number of calls ends. All stores are inside, with an
error for every control without room, exactly if the enabled controls of all calls are no more
than 16. -/
theorem private_controls (ds : List CtrlDriver) :
    ∃ rs, Calls .initial ds rs ∧
      (KeepsTable .initial ds rs ↔ (ds.map enabledCount).sum ≤ MAX_USER_CTRL) := by
  obtain ⟨rs, hrs, hiff⟩ := calls_keep_iff tableInv_initial ds
  refine ⟨rs, hrs, (hiff (Nat.zero_le _)).trans ?_⟩
  rw [show CtrlTable.initial.stores.length = 0 from rfl, Nat.zero_add]

/-- A driver with 17 private controls. -/
def seventeen : CtrlDriver where
  standard := []
  priv k := if k < 17 then .enabled ⟨0x08000000 + BitVec.ofNat 32 k, [], 0, 1, 1⟩ else .einval
  einval_again := ⟨17, rfl⟩

/-- The last is stored behind the table, without an error. -/
theorem seventeen_stored :
    (queryV4LUserControl seventeen .initial 18).map
        (fun r => (r.err, r.table.stores.map Prod.fst)) = some (.success, List.range 17) ∧
      ∃ rs, Calls .initial [seventeen] rs ∧ ¬ KeepsTable .initial [seventeen] rs := by
  refine ⟨by decide, ?_⟩
  obtain ⟨r, hr⟩ : ∃ r, queryV4LUserControl seventeen .initial 18 = some r :=
    Option.isSome_iff_exists.1 (by decide)
  have hstored : r.table.stores.map Prod.fst = List.range 17 := by
    have hall : (queryV4LUserControl seventeen .initial 18).map
        (fun r => r.table.stores.map Prod.fst) = some (List.range 17) := by decide
    rw [hr] at hall
    exact Option.some.inj hall
  refine ⟨[r], ⟨⟨18, hr⟩, trivial⟩, fun h => ?_⟩
  have hmem : 16 ∈ r.table.stores.map Prod.fst := by
    rw [hstored]
    decide
  obtain ⟨s, hs, hs16⟩ := List.mem_map.1 hmem
  have := h.1 s hs
  rw [hs16] at this
  exact Nat.lt_irrefl _ this

end N32905.VideoIn
