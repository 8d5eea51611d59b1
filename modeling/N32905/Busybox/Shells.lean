import N32905.Busybox.Arith

/-!
# The variables of the shells

The hooks of hush are `get_local_var_value` and `arith_set_local_var`, those of ash are
`lookupvar` and `setvar`. A read-only variable keeps its value in hush, while ash raises an error.
In ash a variable can have a function that is called with every new value, and `RANDOM` is
another number each time it is looked up. `Shell` is what both keep to.
-/

namespace N32905.Busybox

open N32905.Lib

/-! ## What holds of a shell -/

/-- The hooks of a shell, and the values its variables have. -/
structure Shell (σ : Type) extends MathHooks σ where
  value : σ → Name → Option (List Char)
  /-- anything can be assigned to the variable, and it stays as it is until then -/
  Plain : σ → Name → Prop
  lookupvar_value : ∀ s x, value (lookupvar x s).2 x = (lookupvar x s).1
  lookupvar_ne : ∀ s x y, y ≠ x → value (lookupvar x s).2 y = value s y
  /-- a value that has changed is a number -/
  lookupvar_text : ∀ s x,
    (lookupvar x s).1 = value s x ∨ ∃ v, (lookupvar x s).1 = some (arithTFmt v)
  setvar_value : ∀ {s s' x p}, setvar x p s = some s' → value s' x = some p ∨ value s' x = value s x
  setvar_ne : ∀ {s s' x y p}, setvar x p s = some s' → y ≠ x → value s' y = value s y
  plain_lookupvar : ∀ {s x}, Plain s x → (lookupvar x s).2 = s
  plain_setvar : ∀ {s x}, Plain s x → ∀ p, ∃ s', setvar x p s = some s' ∧ value s' x = some p
  plain_lookedup : ∀ {s x} y, Plain s x → Plain (lookupvar y s).2 x
  plain_set : ∀ {s s' x y p}, setvar y p s = some s' → Plain s x → Plain s' x

section Shell
variable {σ : Type} (sh : Shell σ) {s s' : σ} {x y : Name} {p : List Char}

theorem Shell.value_setvar {v : ArithT} (h : sh.setvar x (arithTFmt v) s = some s')
    (hy : sh.value s' y = some p) : sh.value s y = some p ∨ ∃ v, p = arithTFmt v := by
  by_cases hne : y = x
  · subst hne
    rcases sh.setvar_value h with hnew | hold
    · rw [hnew] at hy
      cases hy
      exact .inr ⟨v, rfl⟩
    · exact .inl (hold ▸ hy)
  · exact .inl (sh.setvar_ne h hne ▸ hy)

theorem Shell.value_lookupvar (hy : sh.value (sh.lookupvar x s).2 y = some p) :
    sh.value s y = some p ∨ ∃ v, p = arithTFmt v := by
  by_cases hne : y = x
  · subst hne
    rw [sh.lookupvar_value] at hy
    rcases sh.lookupvar_text s y with hold | ⟨v, hnew⟩
    · exact .inl (hold ▸ hy)
    · rw [hnew] at hy
      cases hy
      exact .inr ⟨v, rfl⟩
  · exact .inl (sh.lookupvar_ne s x y hne ▸ hy)

end Shell

/-! ## hush -/

/-- `struct variable`. -/
structure HushVar where
  name : Name
  value : List Char
  flg_read_only : Bool
  deriving DecidableEq

def getLocalVar (name : Name) : List HushVar → Option HushVar
  | [] => none
  | cur :: next => if cur.name = name then some cur else getLocalVar name next

def getLocalVarValue (name : Name) (top_var : List HushVar) : Option (List Char) :=
  (getLocalVar name top_var).map HushVar.value

/-- `set_local_var`, with flags and level 0. A new variable is the last one. -/
def setLocalVar (name : Name) (value : List Char) : List HushVar → List HushVar
  | [] => [⟨name, value, false⟩]
  | cur :: next =>
    if cur.name = name then
      (if cur.flg_read_only then cur else { cur with value := value }) :: next
    else cur :: setLocalVar name value next

section Hush
variable {x y : Name} {vars : List HushVar}

theorem getLocalVar_ne (p : List Char) (h : y ≠ x) :
    getLocalVar y (setLocalVar x p vars) = getLocalVar y vars := by
  induction vars with
  | nil => simp [setLocalVar, getLocalVar, h.symm]
  | cons cur vars ih =>
    rw [setLocalVar]
    by_cases hcur : cur.name = x
    · have hy : cur.name ≠ y := fun hy => h (hy.symm.trans hcur)
      cases hro : cur.flg_read_only <;> simp [getLocalVar, hcur, h.symm]
    · rw [if_neg hcur, getLocalVar, getLocalVar, ih]

theorem getLocalVar_setLocalVar (x : Name) (p : List Char) (vars : List HushVar) :
    getLocalVar x (setLocalVar x p vars) = some ((getLocalVar x vars).elim ⟨x, p, false⟩ fun cur =>
      if cur.flg_read_only then cur else { cur with value := p }) := by
  induction vars with
  | nil => simp [setLocalVar, getLocalVar]
  | cons cur vars ih =>
    rw [setLocalVar]
    by_cases hcur : cur.name = x
    · cases hro : cur.flg_read_only <;> simp [getLocalVar, hcur, hro]
    · rw [if_neg hcur, getLocalVar, getLocalVar, if_neg hcur, if_neg hcur, ih]

theorem mem_of_getLocalVar {cur : HushVar} (h : getLocalVar x vars = some cur) :
    cur ∈ vars ∧ cur.name = x := by
  induction vars with
  | nil => cases h
  | cons head vars ih =>
    rw [getLocalVar] at h
    split at h
    · rename_i hname
      cases h
      exact ⟨List.mem_cons_self, hname⟩
    · exact (ih h).imp_left (List.mem_cons_of_mem _)

end Hush

/-- The hooks of hush. A variable is plain unless it is read-only. -/
def hush : Shell (List HushVar) where
  lookupvar name top_var := (getLocalVarValue name top_var, top_var)
  setvar name val top_var := some (setLocalVar name val top_var)
  value top_var name := getLocalVarValue name top_var
  Plain top_var name := ∀ cur ∈ getLocalVar name top_var, cur.flg_read_only = false
  lookupvar_value _ _ := rfl
  lookupvar_ne _ _ _ _ := rfl
  lookupvar_text _ _ := .inl rfl
  setvar_value := by
    intro vars _ x p h
    cases h
    rw [getLocalVarValue, getLocalVarValue, getLocalVar_setLocalVar]
    cases getLocalVar x vars with
    | none => exact .inl rfl
    | some cur => cases hro : cur.flg_read_only <;> simp [hro]
  setvar_ne := by
    intro vars _ x y p h hy
    cases h
    rw [getLocalVarValue, getLocalVarValue, getLocalVar_ne p hy]
  plain_lookupvar _ := rfl
  plain_setvar := by
    intro vars x hplain p
    refine ⟨_, rfl, ?_⟩
    rw [getLocalVarValue, getLocalVar_setLocalVar]
    cases hcur : getLocalVar x vars with
    | none => rfl
    | some cur => simp [hplain cur hcur]
  plain_lookedup _ h := h
  plain_set := by
    intro vars _ x y p h hplain
    cases h
    by_cases hy : x = y
    · subst hy
      rw [getLocalVar_setLocalVar]
      intro cur hcur
      cases hcur
      cases hcur : getLocalVar x vars with
      | none => rfl
      | some cur => simp [hplain cur hcur]
    · rwa [getLocalVar_ne p hy]

/-! ## ash -/

inductive VarFunc
  | changepath
  | getoptsreset
  | changeRandom
  | changeLcAll
  | changeLcCtype
  deriving DecidableEq

/-- `struct var`, without a value if it is unset. -/
structure AshVar where
  name : Name
  value : Option (List Char)
  readonly : Bool
  dynamic : Bool
  func : Option VarFunc
  deriving DecidableEq

structure AshSt where
  vartab : List AshVar
  random_galois_LFSR : BitVec 32
  random_LCG : BitVec 32
  deriving DecidableEq

def findvar (name : Name) : List AshVar → Option AshVar
  | [] => none
  | vp :: next => if vp.name = name then some vp else findvar name next

def isNumber (s : List Char) : Bool := !s.isEmpty && s.all Char.isDigit

/-- `strtoul` in base 10, into a word of 32 bits. -/
def strtoul (s : List Char) : BitVec 32 :=
  let s := s.dropWhile fun c => c == ' ' || (9 ≤ c.toNat && c.toNat ≤ 13)
  let digits := if s.head? = some '-' ∨ s.head? = some '+' then s.tail else s
  let v := horner 10 digit (digits.takeWhile Char.isDigit)
  if 2 ^ 32 ≤ v then BitVec.allOnes 32
  else if s.head? = some '-' then -BitVec.ofNat 32 v else BitVec.ofNat 32 v

/-- No function changes a variable. `getoptsreset` raises an error if the value is no number. -/
def VarFunc.call (value : List Char) (st : AshSt) : VarFunc → Option AshSt
  | .changepath | .changeLcAll | .changeLcCtype => some st
  | .getoptsreset => if isNumber value then some st else none
  | .changeRandom =>
    some { st with random_galois_LFSR := strtoul value, random_LCG := strtoul value }

/-- `vp->text = s`, of the variable that is found. -/
def setText (name : Name) (value : List Char) : List AshVar → List AshVar
  | [] => []
  | vp :: next =>
    if vp.name = name then { vp with value := some value } :: next
    else vp :: setText name value next

/-- `setvareq`. With the flag `VNOFUNC` the function is not called. -/
def setvareq (name : Name) (value : List Char) (nofunc : Bool) (st : AshSt) : Option AshSt :=
  match findvar name st.vartab with
  | some vp =>
    if vp.readonly && !vp.dynamic then none
    else
      (if nofunc then some st else vp.func.elim (some st) (VarFunc.call value st)).map fun st =>
        { st with vartab := setText name value st.vartab }
  | none => some { st with vartab := ⟨name, some value, false, false, none⟩ :: st.vartab }

/-- `setvar`, which raises an error as well if the name is not one. -/
def ashSetvar (name : Name) (val : List Char) (st : AshSt) : Option AshSt :=
  if (endofname name).1 = [] ∨ (endofname name).2 ≠ [] then none else setvareq name val false st

/-- `change_random` without a value: the next number. -/
def nextRandom (name : Name) (st : AshSt) : AshSt :=
  let lcg := 1664525 * st.random_LCG + 1013904223
  let t := st.random_galois_LFSR <<< 1
  let t := if st.random_galois_LFSR.msb then t ^^^ 0x8000000b else t
  let st := { st with random_galois_LFSR := t, random_LCG := lcg }
  (setvareq name (decimal ((t - lcg) &&& 0x7fff).toNat) true st).getD st

/-- `lookupvar`. Of the variables only `vrandom` is dynamic. -/
def ashLookupvar (name : Name) (st : AshSt) : Option (List Char) × AshSt :=
  match findvar name st.vartab with
  | none => (none, st)
  | some v =>
    let st := if v.dynamic then nextRandom name st else st
    ((findvar name st.vartab).bind AshVar.value, st)

section Ash
variable {x y : Name} {st st' : AshSt} {p : List Char}

theorem findvar_setText_ne {vartab : List AshVar} (h : y ≠ x) :
    findvar y (setText x p vartab) = findvar y vartab := by
  induction vartab with
  | nil => rfl
  | cons vp vartab ih =>
    rw [setText]
    by_cases hvp : vp.name = x
    · simp [findvar, hvp, h.symm]
    · rw [if_neg hvp, findvar, findvar, ih]

theorem findvar_setText (x : Name) (p : List Char) (vartab : List AshVar) :
    findvar x (setText x p vartab) =
      (findvar x vartab).map fun vp => { vp with value := some p } := by
  induction vartab with
  | nil => rfl
  | cons vp vartab ih =>
    rw [setText]
    by_cases hvp : vp.name = x
    · simp [findvar, hvp]
    · rw [if_neg hvp, findvar, findvar, if_neg hvp, if_neg hvp, ih]

theorem VarFunc.vartab_call {f : VarFunc} (h : f.call p st = some st') : st'.vartab = st.vartab := by
  cases f with
  | getoptsreset =>
    rw [VarFunc.call] at h
    split at h
    · cases h
      rfl
    · cases h
  | changepath | changeRandom | changeLcAll | changeLcCtype =>
    cases h
    rfl

theorem findvar_setvareq {nofunc : Bool} (h : setvareq x p nofunc st = some st') :
    findvar x st'.vartab = some ((findvar x st.vartab).elim ⟨x, some p, false, false, none⟩
      fun vp => { vp with value := some p }) ∧
      ∀ y, y ≠ x → findvar y st'.vartab = findvar y st.vartab := by
  unfold setvareq at h
  split at h
  · rename_i vp hvp
    split at h
    · cases h
    · obtain ⟨u, hu, rfl⟩ := Option.map_eq_some_iff.1 h
      have hvartab : u.vartab = st.vartab := by
        cases nofunc with
        | true =>
          cases hu
          rfl
        | false =>
          cases hfunc : vp.func with
          | none =>
            rw [hfunc] at hu
            cases hu
            rfl
          | some f =>
            rw [hfunc] at hu
            exact VarFunc.vartab_call hu
      dsimp only
      rw [hvartab]
      exact ⟨by rw [findvar_setText, hvp]; rfl, fun y hy => findvar_setText_ne hy⟩
  · rename_i hvp
    cases h
    exact ⟨by rw [findvar, if_pos rfl, hvp]; rfl, fun y hy => by rw [findvar, if_neg hy.symm]⟩

theorem setvareq_of_ashSetvar (h : ashSetvar x p st = some st') : setvareq x p false st = some st' := by
  unfold ashSetvar at h
  split at h
  · cases h
  · exact h

/-- `vrandom` is another number, and the other variables are as they were. -/
theorem findvar_nextRandom {v : AshVar} (hv : findvar x st.vartab = some v) (hdyn : v.dynamic = true) :
    (∃ n < 2 ^ 32, findvar x (nextRandom x st).vartab = some { v with value := some (decimal n) }) ∧
      ∀ y, y ≠ x → findvar y (nextRandom x st).vartab = findvar y st.vartab := by
  unfold nextRandom
  dsimp only
  generalize (if st.random_galois_LFSR.msb then _ else _ : BitVec 32) = t
  generalize 1664525 * st.random_LCG + 1013904223 = lcg
  generalize hn : ((t - lcg) &&& 0x7fff).toNat = n
  have hlt : n < 2 ^ 32 := hn ▸ BitVec.isLt _
  have hset : setvareq x (decimal n) true ⟨st.vartab, t, lcg⟩ =
      some ⟨setText x (decimal n) st.vartab, t, lcg⟩ := by
    rw [setvareq, hv]
    simp [hdyn]
  obtain ⟨hself, hother⟩ := findvar_setvareq hset
  rw [hset, Option.getD_some]
  exact ⟨⟨n, hlt, by rw [hself, hv]; rfl⟩, hother⟩

theorem arithTFmt_ofNat {n : Nat} (hn : n < 2 ^ 32) : arithTFmt (BitVec.ofNat 64 n) = decimal n := by
  have hint : (BitVec.ofNat 64 n).toInt = n := by
    have hnat : (BitVec.ofNat 64 n).toNat = n := by
      rw [BitVec.toNat_ofNat, Nat.mod_eq_of_lt (by omega)]
    rw [BitVec.toInt_eq_toNat_of_lt (by omega), hnat]
  rw [arithTFmt, hint, if_neg (by omega), Int.natAbs_natCast]

end Ash

/-- The hooks of ash. A variable is plain if it is neither read-only nor dynamic nor has a
function. -/
def ash : Shell AshSt where
  lookupvar := ashLookupvar
  setvar := ashSetvar
  value st name := (findvar name st.vartab).bind AshVar.value
  Plain st name := endofname name = (name, []) ∧ name ≠ [] ∧ ∀ vp ∈ findvar name st.vartab,
    vp.readonly = false ∧ vp.dynamic = false ∧ vp.func = none
  lookupvar_value := by
    intro st x
    unfold ashLookupvar
    split
    · rename_i hx
      rw [hx]
      rfl
    · rfl
  lookupvar_ne := by
    intro st x y hy
    unfold ashLookupvar
    split
    · rfl
    · rename_i v hv
      dsimp only
      split
      · rename_i hdyn
        rw [(findvar_nextRandom hv hdyn).2 y hy]
      · rfl
  lookupvar_text := by
    intro st x
    unfold ashLookupvar
    split
    · rename_i hx
      rw [hx]
      exact .inl rfl
    · rename_i v hv
      dsimp only
      split
      · rename_i hdyn
        obtain ⟨⟨n, hn, hfind⟩, -⟩ := findvar_nextRandom hv hdyn
        rw [hfind, ← arithTFmt_ofNat hn]
        exact .inr ⟨_, rfl⟩
      · exact .inl rfl
  setvar_value := by
    intro st st' x p h
    rw [(findvar_setvareq (setvareq_of_ashSetvar h)).1]
    cases findvar x st.vartab <;> exact .inl rfl
  setvar_ne := by
    intro st st' x y p h hy
    rw [(findvar_setvareq (setvareq_of_ashSetvar h)).2 y hy]
  plain_lookupvar := by
    intro st x hplain
    unfold ashLookupvar
    split
    · rfl
    · rename_i v hv
      rw [(hplain.2.2 v hv).2.1]
      rfl
  plain_setvar := by
    intro st x hplain p
    have hname : ¬ ((endofname x).1 = [] ∨ (endofname x).2 ≠ []) := by
      rw [hplain.1]
      simp [hplain.2.1]
    have hset : ∃ st', ashSetvar x p st = some st' := by
      rw [ashSetvar, if_neg hname, setvareq]
      split
      · rename_i vp hvp
        obtain ⟨hro, -, hfunc⟩ := hplain.2.2 vp hvp
        rw [hro, hfunc]
        exact ⟨_, rfl⟩
      · exact ⟨_, rfl⟩
    obtain ⟨st', hset⟩ := hset
    refine ⟨st', hset, ?_⟩
    rw [(findvar_setvareq (setvareq_of_ashSetvar hset)).1]
    cases findvar x st.vartab <;> rfl
  plain_lookedup := by
    intro st x y hplain
    refine ⟨hplain.1, hplain.2.1, ?_⟩
    unfold ashLookupvar
    split
    · exact hplain.2.2
    · rename_i v hv
      dsimp only
      split
      · rename_i hdyn
        have hne : x ≠ y := by
          rintro rfl
          rw [(hplain.2.2 v hv).2.1] at hdyn
          cases hdyn
        rw [(findvar_nextRandom hv hdyn).2 x hne]
        exact hplain.2.2
      · exact hplain.2.2
  plain_set := by
    intro st st' x y p h hplain
    refine ⟨hplain.1, hplain.2.1, ?_⟩
    obtain ⟨hself, hother⟩ := findvar_setvareq (setvareq_of_ashSetvar h)
    by_cases hy : x = y
    · subst hy
      rw [hself]
      intro vp hvp
      cases hvp
      cases hfind : findvar x st.vartab with
      | none => exact ⟨rfl, rfl, rfl⟩
      | some vp => exact hplain.2.2 vp hfind
    · rw [hother x hy]
      exact hplain.2.2

end N32905.Busybox
