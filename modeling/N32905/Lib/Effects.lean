import Mathlib.Tactic.Common

/-!
# Computations with a state and errors

Two computations of `ExceptT ε (StateM σ)` are `Related` if from every state they end in the
same state, with the same error or with related values. `Keeps` is an invariant of the state
together with what holds of the values and of the errors.
-/

namespace N32905.Lib

variable {ε σ α β γ δ : Type}

theorem run_bind_eq (x : ExceptT ε (StateM σ) α) (f : α → ExceptT ε (StateM σ) β) (s : σ) :
    (x >>= f).run.run s = match x.run.run s with
      | (.ok a, s') => (f a).run.run s'
      | (.error e, s') => (.error e, s') := by
  change (match x s with | (r, s') => ExceptT.bindCont f r s') = match x s with
      | (.ok a, s') => (f a).run.run s'
      | (.error e, s') => (.error e, s')
  rcases x s with ⟨_ | _, _⟩ <;> rfl

/-! ## The same end -/

/-- The same state, and the same error or related values. -/
inductive SameEnd (R : α → β → Prop) : Except ε α × σ → Except ε β × σ → Prop
  | ok {a : α} {b : β} {s : σ} (h : R a b) : SameEnd R (.ok a, s) (.ok b, s)
  | error {e : ε} {s : σ} : SameEnd R (.error e, s) (.error e, s)

def Related (R : α → β → Prop) (x : ExceptT ε (StateM σ) α) (y : ExceptT ε (StateM σ) β) : Prop :=
  ∀ s, SameEnd R (x.run.run s) (y.run.run s)

section Related
variable {R : α → β → Prop} {S : γ → δ → Prop} {x : ExceptT ε (StateM σ) α}
  {y : ExceptT ε (StateM σ) β} {f : α → ExceptT ε (StateM σ) γ} {g : β → ExceptT ε (StateM σ) δ}

theorem related_pure {a : α} {b : β} (h : R a b) :
    Related R (pure a : ExceptT ε (StateM σ) α) (pure b) := fun _ => .ok h

theorem related_throw (e : ε) : Related R (throw e : ExceptT ε (StateM σ) α) (throw e) :=
  fun _ => .error

theorem Related.bind (h : Related R x y) (hf : ∀ a b, R a b → Related S (f a) (g b)) :
    Related S (x >>= f) (y >>= g) := by
  intro s
  rw [run_bind_eq, run_bind_eq]
  have hs := h s
  revert hs
  generalize x.run.run s = u
  generalize y.run.run s = v
  intro hs
  cases hs with
  | ok hab => exact hf _ _ hab _
  | error => exact .error

theorem Related.mono {R' : α → β → Prop} (h : Related R x y) (hR : ∀ a b, R a b → R' a b) :
    Related R' x y := by
  intro s
  have hs := h s
  revert hs
  generalize x.run.run s = u
  generalize y.run.run s = v
  intro hs
  cases hs with
  | ok hab => exact .ok (hR _ _ hab)
  | error => exact .error

theorem related_refl (x : ExceptT ε (StateM σ) α) : Related (fun a b => a = b) x x := by
  intro s
  generalize x.run.run s = u
  rcases u with ⟨_ | _, _⟩
  · exact .error
  · exact .ok rfl

theorem Related.trans {T : β → γ → Prop} {z : ExceptT ε (StateM σ) γ} (h : Related R x y)
    (h' : Related T y z) : Related (fun a c => ∃ b, R a b ∧ T b c) x z := by
  intro s
  have hs := h s
  have hs' := h' s
  revert hs hs'
  generalize x.run.run s = u
  generalize y.run.run s = v
  generalize z.run.run s = w
  intro hs hs'
  cases hs with
  | ok hab =>
    cases hs' with
    | ok hbc => exact .ok ⟨_, hab, hbc⟩
  | error =>
    cases hs' with
    | error => exact .error

theorem Related.eq {x y : ExceptT ε (StateM σ) α} (h : Related (fun a b => a = b) x y) : x = y := by
  funext s
  have hs := h s
  change SameEnd _ (x s) (y s) at hs
  generalize x s = u at hs ⊢
  generalize y s = v at hs ⊢
  cases hs with
  | ok hab => rw [hab]
  | error => rfl

end Related

/-! ## Invariants -/

/-- From a state with `I` the computation ends in one, with a value that has `Q` or an error that
has `E`. -/
def Keeps (I : σ → Prop) (Q : α → Prop) (E : ε → Prop) (x : ExceptT ε (StateM σ) α) : Prop :=
  ∀ s, I s → I (x.run.run s).2 ∧ match (x.run.run s).1 with
    | .ok a => Q a
    | .error e => E e

section Keeps
variable {I : σ → Prop} {Q : α → Prop} {Q' : β → Prop} {E : ε → Prop}
  {x : ExceptT ε (StateM σ) α} {f : α → ExceptT ε (StateM σ) β}

theorem keeps_pure {a : α} (h : Q a) : Keeps I Q E (pure a : ExceptT ε (StateM σ) α) :=
  fun _ hs => ⟨hs, h⟩

theorem keeps_throw {e : ε} (h : E e) : Keeps I Q E (throw e : ExceptT ε (StateM σ) α) :=
  fun _ hs => ⟨hs, h⟩

theorem keeps_true : Keeps (fun _ => True) (fun _ => True) (fun _ => True) x := by
  refine fun s _ => ⟨trivial, ?_⟩
  split <;> trivial

theorem Keeps.bind (h : Keeps I Q E x) (hf : ∀ a, Q a → Keeps I Q' E (f a)) :
    Keeps I Q' E (x >>= f) := by
  intro s hs
  rw [run_bind_eq]
  have hx := h s hs
  revert hx
  generalize x.run.run s = u
  intro hx
  rcases u with ⟨_ | a, s'⟩
  · exact hx
  · exact hf a hx.2 s' hx.1

theorem Keeps.mono {P : α → Prop} (h : Keeps I Q E x) (hQ : ∀ a, Q a → P a) : Keeps I P E x := by
  intro s hs
  obtain ⟨hI, hx⟩ := h s hs
  refine ⟨hI, ?_⟩
  revert hx
  generalize (x.run.run s).1 = r
  intro hx
  cases r with
  | ok a => exact hQ a hx
  | error e => exact hx

theorem keeps_map {g : α → β} (h : Keeps I Q E x) (hg : ∀ a, Q a → Q' (g a)) :
    Keeps I Q' E (do let a ← x; pure (g a)) := h.bind fun a ha => keeps_pure (hg a ha)

/-- Two computations that begin with the same one, from a state with `I`. -/
theorem Keeps.run_congr {g : α → ExceptT ε (StateM σ) β} (h : Keeps I Q E x)
    (hf : ∀ a s, I s → (f a).run.run s = (g a).run.run s) {s : σ} (hs : I s) :
    (x >>= f).run.run s = (x >>= g).run.run s := by
  rw [run_bind_eq, run_bind_eq]
  have hx := h s hs
  revert hx
  generalize x.run.run s = u
  intro hx
  rcases u with ⟨_ | a, s'⟩
  · rfl
  · exact hf a s' hx.1

/-- Two computations that begin with the same one. -/
theorem Keeps.related {R : β → γ → Prop} {g : α → ExceptT ε (StateM σ) γ}
    (h : Keeps (fun _ => True) Q (fun _ => True) x) (hf : ∀ a, Q a → Related R (f a) (g a)) :
    Related R (x >>= f) (x >>= g) := by
  intro s
  rw [run_bind_eq, run_bind_eq]
  have hx := (h s trivial).2
  revert hx
  generalize x.run.run s = u
  intro hx
  rcases u with ⟨_ | a, s'⟩
  · exact .error
  · exact hf a hx s'

end Keeps

end N32905.Lib
