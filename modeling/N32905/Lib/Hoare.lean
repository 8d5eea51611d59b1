import Mathlib.Tactic.Common

/-!
# Pre- and postconditions of computations with a state

`Triple P x Q`: from a state with `P`, the computation `x` ends in one with `Q`, for the value it
returns. The rules follow the way the computation is put together.
-/

namespace N32905.Lib

variable {σ α β : Type} {P P' : σ → Prop} {Q Q' : α → σ → Prop} {R : β → σ → Prop}
  {x : StateM σ α} {f : α → StateM σ β}

def Triple (P : σ → Prop) (x : StateM σ α) (Q : α → σ → Prop) : Prop :=
  ∀ s, P s → Q (x.run s).1 (x.run s).2

theorem triple_pure {a : α} (h : ∀ s, P s → Q a s) : Triple P (pure a : StateM σ α) Q := h

theorem Triple.bind (hx : Triple P x Q) (hf : ∀ a, Triple (Q a) (f a) R) : Triple P (x >>= f) R :=
  fun s hs => hf _ _ (hx s hs)

theorem Triple.mono (hx : Triple P x Q) (hP : ∀ s, P' s → P s) (hQ : ∀ a s, Q a s → Q' a s) :
    Triple P' x Q' := fun s hs => hQ _ _ (hx s (hP s hs))

theorem triple_get_bind {f : σ → StateM σ β} (h : ∀ s, P s → Triple (· = s) (f s) R) :
    Triple P (get >>= f) R := fun s hs => h s hs s rfl

/-- What is known of no state is known throughout. -/
theorem Triple.intro {p : Prop} (h : p → Triple P x Q) : Triple (fun s => p ∧ P s) x Q :=
  fun s hs => h hs.1 s hs.2

end N32905.Lib
