import N32905.Motion.Register

/-!
# The callback table, one call after the other

Without concurrency `motion_register_action` and `motion_unregister_action` are two
operations on the table. `motion_unregister_action` compares its handle with
`MAX_CALLBACK_NUM` only: a negative one is an index in front of the table.
-/

namespace N32905.Motion

open N32905.Lib

/-! ## The model -/

/-- The table, and the indexes of the stores that went elsewhere. -/
structure CallbackTable (Fn : Type*) where
  callback : Fin MAX_CALLBACK_NUM → MotionCallback Fn
  outside : List Int

/-- A call: `motion_register_action` for an action, or `motion_unregister_action` with any `int`. -/
inductive TableCall (Fn : Type*)
  | register (entry : MotionCallback Fn) (h : entry.action ≠ .null)
  | unregister (index : Int)

section Model
variable {Fn : Type*}

/-- The store of `entry` to `callback[index]`. -/
def CallbackTable.put (t : CallbackTable Fn) (index : Int) (entry : MotionCallback Fn) :
    CallbackTable Fn :=
  if h : 0 ≤ index ∧ index.toNat < MAX_CALLBACK_NUM then
    { t with callback := Function.update t.callback ⟨index.toNat, h.2⟩ entry }
  else { t with outside := t.outside ++ [index] }

/-- `motion_register_action`: what it returns, and the table. -/
def CallbackTable.registerAction (t : CallbackTable Fn) (entry : MotionCallback Fn) :
    Int × CallbackTable Fn :=
  match pickSlot t.callback with
  | some index => (index.val, t.put index.val entry)
  | none => (-1, t)

def CallbackTable.unregisterAction (t : CallbackTable Fn) (index : Int) : Int × CallbackTable Fn :=
  if MAX_CALLBACK_NUM ≤ index then (-1, t) else (1, t.put index ⟨.null, none⟩)

def CallbackTable.call (t : CallbackTable Fn) : TableCall Fn → Int × CallbackTable Fn
  | .register entry _ => t.registerAction entry
  | .unregister index => t.unregisterAction index

def tableInit : CallbackTable Fn where
  callback _ := ⟨.null, none⟩
  outside := []

/-! ## What is promised -/

/-- `i` is the lowest free slot. -/
def Lowest (callback : Fin MAX_CALLBACK_NUM → MotionCallback Fn) (i : Fin MAX_CALLBACK_NUM) : Prop :=
  (callback i).action = .null ∧ ∀ j < i, (callback j).action ≠ .null

def Taken (callback : Fin MAX_CALLBACK_NUM → MotionCallback Fn) : Prop :=
  ∀ i, (callback i).action ≠ .null

def CallOk (t : CallbackTable Fn) (r : Int × CallbackTable Fn) : TableCall Fn → Prop
  | .register entry _ => (r = (-1, t) ↔ Taken t.callback) ∧
      (¬ Taken t.callback → ∃ i, Lowest t.callback i ∧ r.1 = i.val ∧
        r.2 = { t with callback := Function.update t.callback i entry })
  | .unregister index =>
      (∀ i : Fin MAX_CALLBACK_NUM, index = i.val →
        r.2 = { t with callback := Function.update t.callback i ⟨.null, none⟩ }) ∧
      (index < 0 ∨ MAX_CALLBACK_NUM ≤ index → r = (-1, t))

/-- Every call of a run does what is promised. -/
def RunOk : CallbackTable Fn → List (TableCall Fn) → Prop
  | _, [] => True
  | t, c :: cs => CallOk t (t.call c) c ∧ RunOk (t.call c).2 cs

/-- The handle of an unregistration is not negative. -/
def TableCall.nonneg : TableCall Fn → Prop
  | .register _ _ => True
  | .unregister index => 0 ≤ index

/-! ## Calls -/

variable {t : CallbackTable Fn} {callback : Fin MAX_CALLBACK_NUM → MotionCallback Fn}
  {i : Fin MAX_CALLBACK_NUM}

theorem put_slot (i : Fin MAX_CALLBACK_NUM) (entry : MotionCallback Fn) :
    t.put i.val entry = { t with callback := Function.update t.callback i entry } := by
  unfold CallbackTable.put
  rw [dif_pos ⟨Int.natCast_nonneg _, by rw [Int.toNat_natCast]; exact i.isLt⟩]
  congr

theorem pickSlot_eq_some (h : pickSlot callback = some i) : Lowest callback i := by
  obtain ⟨hfree, k, hk, hget, hlower⟩ := List.find?_eq_some_iff_getElem.1 h
  refine ⟨by simpa using hfree, fun j hj => ?_⟩
  have hik : i.val = k := by rw [← hget, List.getElem_finRange]; rfl
  simpa using hlower j.val (by omega)

theorem pickSlot_eq_none : pickSlot callback = none ↔ Taken callback := by
  simp [pickSlot, Taken]

/-- **Registration** is always right. -/
theorem register_ok (entry : MotionCallback Fn) (h : entry.action ≠ .null) :
    CallOk t (t.registerAction entry) (.register entry h) := by
  unfold CallbackTable.registerAction
  cases hpick : pickSlot t.callback with
  | none =>
    have htaken := pickSlot_eq_none.1 hpick
    exact ⟨iff_of_true rfl htaken, fun hfree => absurd htaken hfree⟩
  | some i =>
    have hlow := pickSlot_eq_some hpick
    have hfree : ¬ Taken t.callback := fun htaken => htaken i hlow.1
    refine ⟨iff_of_false ?_ hfree, fun _ => ⟨i, hlow, rfl, put_slot i entry⟩⟩
    intro heq
    have := congrArg Prod.fst heq
    simp only at this
    omega

/-- **Unregistration** is right for the handles that are not negative. -/
theorem unregister_ok (index : Int) :
    CallOk t (t.unregisterAction index) (.unregister index) ↔ 0 ≤ index := by
  constructor
  · rintro ⟨-, helse⟩
    by_contra hneg
    have hret := congrArg Prod.fst (helse (.inl (Int.not_le.1 hneg)))
    rw [CallbackTable.unregisterAction, if_neg (by omega)] at hret
    cases hret
  · intro hpos
    constructor
    · rintro i rfl
      have hlt := i.isLt
      rw [CallbackTable.unregisterAction, if_neg (by omega)]
      exact put_slot i _
    · rintro (hneg | hge)
      · omega
      · rw [CallbackTable.unregisterAction, if_pos hge]

theorem call_ok (c : TableCall Fn) : CallOk t (t.call c) c ↔ c.nonneg := by
  cases c with
  | register entry h => exact iff_of_true (register_ok entry h) trivial
  | unregister index => exact unregister_ok index

/-- A scan with the store right behind it is the registration of this model. -/
theorem registerAction_eq_scan_store {m : Service Fn} {entry : MotionCallback Fn}
    (hm : m.pending = []) (hfree : ¬ Taken m.callback) :
    ∃ m', (m.registerScan entry).registerStore 0 = some m' ∧
      m'.callback = ((CallbackTable.mk m.callback []).registerAction entry).2.callback := by
  cases hpick : pickSlot m.callback with
  | none => exact absurd (pickSlot_eq_none.1 hpick) hfree
  | some i =>
    have hscan : (m.registerScan entry).pending = [⟨i, entry⟩] := by
      simp [Service.registerScan, hpick, hm]
    refine ⟨_, by simp [Service.registerStore, hscan]; rfl, ?_⟩
    simp [CallbackTable.registerAction, Service.registerScan, hpick, put_slot]

end Model

/-- **The callback table**: every call of a run does what it should exactly if no handle of it is
negative. -/
theorem table_calls {Fn : Type*} (cs : List (TableCall Fn)) :
    RunOk tableInit cs ↔ ∀ c ∈ cs, c.nonneg := by
  generalize tableInit = t
  induction cs generalizing t with
  | nil => simp [RunOk]
  | cons c cs ih => rw [RunOk, call_ok, ih, List.forall_mem_cons]

/-- The handle of a registration that failed is stored to, in front of the table. -/
theorem unregister_failed :
    (CallbackTable.unregisterAction (tableInit : CallbackTable Nat) (-1)).1 = 1 ∧
      (CallbackTable.unregisterAction (tableInit : CallbackTable Nat) (-1)).2.outside = [-1] ∧
      ¬ RunOk (tableInit : CallbackTable Nat) [.unregister (-1)] := by
  refine ⟨rfl, rfl, fun h => ?_⟩
  have hneg := (unregister_ok _).1 h.1
  revert hneg
  decide

end N32905.Motion
