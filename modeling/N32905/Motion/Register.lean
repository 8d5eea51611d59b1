import N32905.Lib.Run
import Mathlib.Data.Fintype.Basic
import Mathlib.Tactic.Common

/-!
# Registration of motion callbacks

`motion_register_action` looks for a free slot before it takes the mutex, so a
call is two steps, `scan` and `store`; `motion_unregister_action` is one. A run is
any interleaving of the steps of any number of callers.

`Inv` is kept by every step but one: a scan that picks the slot another call has
picked and not stored yet.
-/

namespace N32905.Motion

open N32905.Lib

/-! ## The model -/

inductive MotionAction
  | null | slowUp | slowDown | collision | gz0 | gz180 | total
  deriving DecidableEq

def MAX_CALLBACK_NUM : Nat := 5

/-- `MOTION_CALLBACK`; `none` is the pointer `NULL`. -/
structure MotionCallback (Fn : Type*) where
  action : MotionAction
  pfnCallBack : Option Fn
  deriving DecidableEq

/-- A call of `motion_register_action`: its arguments, and the slot it has picked. -/
structure Registration (Fn : Type*) where
  index : Fin MAX_CALLBACK_NUM
  entry : MotionCallback Fn
  deriving DecidableEq

/-- The table, the calls between scan and store, and the registrations whose
handle has been returned and not given back. -/
structure Service (Fn : Type*) where
  callback : Fin MAX_CALLBACK_NUM → MotionCallback Fn
  pending : List (Registration Fn)
  live : List (Registration Fn)

/-- A step of one of the callers. Calls are named by their place in `pending` and
`live`; only owners unregister. -/
inductive Event (Fn : Type*)
  | scan (entry : MotionCallback Fn) (h : entry.action ≠ .null)
  | store (call : Nat)
  | unregister (handle : Nat)

section Model
variable {Fn : Type*}

def pickSlot (callback : Fin MAX_CALLBACK_NUM → MotionCallback Fn) :
    Option (Fin MAX_CALLBACK_NUM) :=
  (List.finRange MAX_CALLBACK_NUM).find? fun i => (callback i).action = .null

/-- `motion_register_action` before the mutex. Without a free slot it returns -1. -/
def Service.registerScan (m : Service Fn) (entry : MotionCallback Fn) : Service Fn :=
  match pickSlot m.callback with
  | some index => { m with pending := m.pending ++ [⟨index, entry⟩] }
  | none => m

/-- `motion_register_action` under the mutex; it returns `index`. -/
def Service.registerStore (m : Service Fn) (call : Nat) : Option (Service Fn) := do
  let r ← m.pending[call]?
  return { callback := Function.update m.callback r.index r.entry
           pending := m.pending.eraseIdx call
           live := m.live ++ [r] }

/-- `motion_unregister_action` on a handle of `live`. -/
def Service.unregisterAction (m : Service Fn) (handle : Nat) : Option (Service Fn) := do
  let r ← m.live[handle]?
  return { m with callback := Function.update m.callback r.index ⟨.null, none⟩
                  live := m.live.eraseIdx handle }

def step (m : Service Fn) : Event Fn → Option (Service Fn)
  | .scan entry _ => some (m.registerScan entry)
  | .store call => m.registerStore call
  | .unregister handle => m.unregisterAction handle

def motionInit : Service Fn where
  callback _ := ⟨.null, none⟩
  pending := []
  live := []

/-! ## What is promised -/

/-- Handles are distinct, and every live registration is in its slot. -/
def NothingLost (m : Service Fn) : Prop :=
  (m.live.map Registration.index).Nodup ∧ ∀ r ∈ m.live, m.callback r.index = r.entry

/-- A scan does not pick a slot that a pending call has picked. -/
def Safe (m : Service Fn) : Event Fn → Prop
  | .scan _ _ => ∀ i ∈ pickSlot m.callback, ∀ r ∈ m.pending, r.index ≠ i
  | .store _ => True
  | .unregister _ => True

/-- The live slots hold their registrations, and each pending call has a free slot
of its own. -/
structure Inv (m : Service Fn) : Prop where
  handles : (m.live.map Registration.index).Nodup
  stored : ∀ r ∈ m.live, m.callback r.index = r.entry
  action : ∀ r ∈ m.pending ++ m.live, r.entry.action ≠ .null
  slots : (m.pending.map Registration.index).Nodup
  free : ∀ r ∈ m.pending, (m.callback r.index).action = .null

/-! ## Steps -/

variable {m m' : Service Fn} {r r' : Registration Fn}

theorem pickSlot_free {i : Fin MAX_CALLBACK_NUM} (h : pickSlot m.callback = some i) :
    (m.callback i).action = .null := by
  simpa using List.find?_some h

theorem index_ne_of_mem_eraseIdx {l : List (Registration Fn)} {n : Nat}
    (hnd : (l.map Registration.index).Nodup) (hr : l[n]? = some r) (hr' : r' ∈ l.eraseIdx n) :
    r'.index ≠ r.index := by
  obtain ⟨k, hk, hget⟩ := List.mem_eraseIdx_iff_getElem?.1 hr'
  intro heq
  have hk' : (l.map Registration.index)[k]? = some r'.index := by
    rw [List.getElem?_map, hget]
    rfl
  have hn : (l.map Registration.index)[n]? = some r'.index := by
    rw [List.getElem?_map, hr, heq]
    rfl
  exact hk ((List.getElem?_inj (List.getElem?_eq_some_iff.1 hk').1 hnd).1 (hk'.trans hn.symm))

theorem nodup_map_eraseIdx {l : List (Registration Fn)} (n : Nat)
    (hnd : (l.map Registration.index).Nodup) : ((l.eraseIdx n).map Registration.index).Nodup :=
  hnd.sublist ((List.eraseIdx_sublist l n).map _)

theorem Inv.live_ne_free (h : Inv m) (hr : r ∈ m.live) {i : Fin MAX_CALLBACK_NUM}
    (hi : (m.callback i).action = .null) : r.index ≠ i := by
  rintro rfl
  rw [h.stored r hr] at hi
  exact h.action r (List.mem_append_right _ hr) hi

theorem Inv.nothingLost (h : Inv m) : NothingLost m := ⟨h.handles, h.stored⟩

theorem inv_motionInit : Inv (motionInit : Service Fn) where
  handles := List.nodup_nil
  stored _ h := nomatch h
  action _ h := nomatch h
  slots := List.nodup_nil
  free _ h := nomatch h

theorem registerScan_inv {entry : MotionCallback Fn} (h : Inv m) (hentry : entry.action ≠ .null) :
    Inv (m.registerScan entry) ↔ ∀ i ∈ pickSlot m.callback, ∀ r ∈ m.pending, r.index ≠ i := by
  unfold Service.registerScan
  cases hpick : pickSlot m.callback with
  | none => exact iff_of_true h fun _ hi => nomatch hi
  | some i =>
    simp only [Option.mem_some, forall_eq']
    constructor
    · intro h' r hr heq
      have hnd := h'.slots
      rw [List.map_append, List.nodup_append'] at hnd
      exact hnd.2.2 (List.mem_map_of_mem hr) (by simp [heq])
    · intro hsafe
      refine ⟨h.handles, h.stored, ?_, ?_, ?_⟩
      · intro r hr
        simp only [List.append_assoc, List.mem_append, List.mem_singleton] at hr
        rcases hr with hr | rfl | hr
        · exact h.action r (List.mem_append_left _ hr)
        · exact hentry
        · exact h.action r (List.mem_append_right _ hr)
      · rw [List.map_append, List.nodup_append']
        refine ⟨h.slots, List.nodup_singleton _, ?_⟩
        intro j hj hj'
        obtain ⟨r, hr, rfl⟩ := List.mem_map.1 hj
        exact hsafe r hr (by simpa using hj')
      · intro r hr
        rcases List.mem_append.1 hr with hr | hr
        · exact h.free r hr
        · rw [List.mem_singleton.1 hr]
          exact pickSlot_free hpick

theorem registerStore_inv {call : Nat} (h : Inv m) (hs : m.registerStore call = some m') :
    Inv m' := by
  obtain ⟨r, hr, hm'⟩ := Option.bind_eq_some_iff.1 hs
  cases hm'
  have hmem : r ∈ m.pending := List.mem_of_getElem? hr
  have hlive : ∀ r' ∈ m.live, r'.index ≠ r.index := fun r' hr' =>
    h.live_ne_free hr' (h.free r hmem)
  refine ⟨?_, ?_, ?_, nodup_map_eraseIdx call h.slots, ?_⟩
  · rw [List.map_append, List.nodup_append']
    refine ⟨h.handles, List.nodup_singleton _, ?_⟩
    intro j hj hj'
    obtain ⟨r', hr', rfl⟩ := List.mem_map.1 hj
    exact hlive r' hr' (by simpa using hj')
  · intro r' hr'
    dsimp only
    rcases List.mem_append.1 hr' with hr' | hr'
    · rw [Function.update_of_ne (hlive r' hr'), h.stored r' hr']
    · rw [List.mem_singleton.1 hr', Function.update_self]
  · intro r' hr'
    rcases List.mem_append.1 hr' with hr' | hr'
    · exact h.action r' (List.mem_append_left _ ((List.eraseIdx_sublist _ _).subset hr'))
    · rcases List.mem_append.1 hr' with hr' | hr'
      · exact h.action r' (List.mem_append_right _ hr')
      · rw [List.mem_singleton.1 hr']
        exact h.action r (List.mem_append_left _ hmem)
  · intro r' hr'
    dsimp only
    rw [Function.update_of_ne (index_ne_of_mem_eraseIdx h.slots hr hr')]
    exact h.free r' ((List.eraseIdx_sublist _ _).subset hr')

theorem unregisterAction_inv {handle : Nat} (h : Inv m) (hs : m.unregisterAction handle = some m') :
    Inv m' := by
  obtain ⟨r, hr, hm'⟩ := Option.bind_eq_some_iff.1 hs
  cases hm'
  refine ⟨nodup_map_eraseIdx handle h.handles, ?_, ?_, h.slots, ?_⟩
  · intro r' hr'
    dsimp only
    rw [Function.update_of_ne (index_ne_of_mem_eraseIdx h.handles hr hr')]
    exact h.stored r' ((List.eraseIdx_sublist _ _).subset hr')
  · intro r' hr'
    rcases List.mem_append.1 hr' with hr' | hr'
    · exact h.action r' (List.mem_append_left _ hr')
    · exact h.action r' (List.mem_append_right _ ((List.eraseIdx_sublist _ _).subset hr'))
  · intro r' hr'
    dsimp only
    by_cases hi : r'.index = r.index
    · rw [hi, Function.update_self]
    · rw [Function.update_of_ne hi]
      exact h.free r' hr'

/-- **One step** keeps the invariant exactly if it is safe. -/
theorem step_inv (h : Inv m) (e : Event Fn) :
    (∀ m', step m e = some m' → Inv m') ↔ Safe m e := by
  cases e with
  | scan entry hentry =>
    simp only [step, Option.some.injEq, forall_eq']
    exact registerScan_inv h hentry
  | store call => exact iff_of_true (fun _ hs => registerStore_inv h hs) trivial
  | unregister handle => exact iff_of_true (fun _ hs => unregisterAction_inv h hs) trivial

theorem registerStore_of_pending {call : Nat} (hr : m.pending[call]? = some r) :
    ∃ m', m.registerStore call = some m' ∧ m'.pending = m.pending.eraseIdx call ∧
      m'.live = m.live ++ [r] := by
  unfold Service.registerStore
  rw [hr]
  exact ⟨_, rfl, rfl, rfl⟩

theorem store_two {i : Fin MAX_CALLBACK_NUM} {entry : MotionCallback Fn}
    (hm : m'.pending = m.pending ++ [⟨i, entry⟩]) (hr : r ∈ m.pending) (hi : r.index = i) :
    ∃ es m'', run step m' es = some m'' ∧ ¬ NothingLost m'' := by
  obtain ⟨n, hn⟩ := List.mem_iff_getElem?.1 hr
  have hlt : n < m.pending.length := (List.getElem?_eq_some_iff.1 hn).1
  have hearlier : m'.pending[n]? = some r := by
    rw [hm, List.getElem?_append_left hlt, hn]
  obtain ⟨m₁, h₁, hp₁, hl₁⟩ := registerStore_of_pending hearlier
  -- the later call has moved up by one
  have hlater : m₁.pending[m.pending.length - 1]? = some ⟨i, entry⟩ := by
    rw [hp₁, hm, List.getElem?_eraseIdx_of_ge (by omega), Nat.sub_add_cancel (by omega)]
    simp
  obtain ⟨m₂, h₂, -, hl₂⟩ := registerStore_of_pending hlater
  refine ⟨[.store n, .store (m.pending.length - 1)], m₂, ?_, ?_⟩
  · unfold run
    rw [List.foldlM_cons, step, h₁, Option.bind_eq_bind, Option.bind_some, List.foldlM_cons, step,
      h₂]
    rfl
  · rintro ⟨hnd, -⟩
    rw [hl₂, hl₁] at hnd
    simp [hi, List.nodup_append'] at hnd

end Model

/-- **Concurrent registration.** Where no scan picks a slot that a pending call has
picked, no registration is lost. A scan that does can be followed by stores that
lose one. -/
theorem concurrent_registration {Fn : Type*} (es : List (Event Fn)) :
    ((∀ pre e m, pre ++ [e] <+: es → run step motionInit pre = some m → Safe m e) →
      ∀ pre m, pre <+: es → run step motionInit pre = some m → NothingLost m) ∧
    ∀ m e, run step motionInit es = some m → ¬ Safe m e →
      ∃ es' m', run step motionInit (es ++ e :: es') = some m' ∧ ¬ NothingLost m' := by
  constructor
  · intro hsafe pre m hpre hr
    exact ((inv_along_iff (fun _ e _ h => step_inv h e) inv_motionInit).2 hsafe pre m hpre
      hr).nothingLost
  · intro m e hr hunsafe
    cases e with
    | scan entry hentry =>
      unfold Safe at hunsafe
      push Not at hunsafe
      obtain ⟨i, hpick, r, hmem, hi⟩ := hunsafe
      have hscan : (m.registerScan entry).pending = m.pending ++ [⟨i, entry⟩] := by
        unfold Service.registerScan
        rw [Option.mem_def.1 hpick]
      obtain ⟨es', m', hes', hlost⟩ := store_two hscan hmem hi
      refine ⟨es', m', ?_, hlost⟩
      rw [run_append, hr, Option.bind_some]
      exact hes'
    | store call => exact absurd trivial hunsafe
    | unregister handle => exact absurd trivial hunsafe

def scanFor (action : MotionAction) (fn : Nat) (h : action ≠ .null) : Event Nat :=
  .scan ⟨action, some fn⟩ h

/-- Two registrations one after the other. -/
def sequentialCalls : List (Event Nat) :=
  [scanFor .gz0 1 (by decide), .store 0, scanFor .gz180 2 (by decide), .store 0]

theorem sequential_registration :
    ∃ m, run step motionInit sequentialCalls = some m ∧ m.live.length = 2 ∧ NothingLost m := by
  refine ⟨_, rfl, rfl, ?_⟩
  refine (concurrent_registration sequentialCalls).1 ?_ _ _ (List.prefix_refl _) rfl
  -- nothing is pending at a scan
  rintro pre e m ⟨rest, hrest⟩ hr
  match pre with
  | [] =>
    cases hrest
    cases hr
    exact fun _ _ _ hr => nomatch hr
  | [_] =>
    cases hrest
    exact trivial
  | [_, _] =>
    cases hrest
    cases hr
    exact fun _ _ _ hr => nomatch hr
  | [_, _, _] =>
    cases hrest
    exact trivial
  | _ :: _ :: _ :: _ :: pre => simp [sequentialCalls] at hrest

/-- Two scans before the first store: both calls return 0, and the table keeps the
second one. -/
theorem overlapping_registration :
    ∃ m, run step motionInit
        [scanFor .gz0 1 (by decide), scanFor .gz180 2 (by decide), .store 0, .store 0] = some m ∧
      m.live.map (fun r => r.index.val) = [0, 0] ∧
      m.live.map (fun r => r.entry.action) = [.gz0, .gz180] ∧
      (∀ i, (m.callback i).action ≠ .gz0) ∧ ¬ NothingLost m := by
  refine ⟨_, rfl, rfl, rfl, by decide, ?_⟩
  rintro ⟨hnd, -⟩
  exact absurd hnd (by decide)

end N32905.Motion
