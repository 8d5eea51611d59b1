import Mathlib.Data.List.Induction

/-!
# Runs of a state machine

`run step s es` is the state after the events `es`, `none` if a step did not
return. `inv_along_iff` turns what one step does to an invariant into a
statement about every state of a run.
-/

namespace N32905.Lib

variable {σ ε : Type*} {step : σ → ε → Option σ} {s s' : σ} {es es' : List ε}

def run (step : σ → ε → Option σ) (s : σ) (es : List ε) : Option σ := es.foldlM step s

theorem run_append : run step s (es ++ es') = (run step s es).bind fun s' => run step s' es' :=
  List.foldlM_append

theorem run_concat {e : ε} : run step s (es ++ [e]) = (run step s es).bind fun s' => step s' e := by
  rw [run_append]
  congr 1
  funext s'
  exact bind_pure (step s' e)

theorem run_concat_eq_some {e : ε} : run step s (es ++ [e]) = some s' ↔
    ∃ t, run step s es = some t ∧ step t e = some s' := by
  rw [run_concat, Option.bind_eq_some_iff]

/-- **An invariant along a run**: where a step keeps `Inv` exactly if it is `Safe`,
`Inv` holds in every state of a run exactly if every step of it is `Safe`. -/
theorem inv_along_iff {Inv : σ → Prop} {Safe : σ → ε → Prop}
    (hstep : ∀ s, ∀ e ∈ es, Inv s → ((∀ s', step s e = some s' → Inv s') ↔ Safe s e)) (h : Inv s) :
    (∀ pre s', pre <+: es → run step s pre = some s' → Inv s') ↔
      ∀ pre e s', pre ++ [e] <+: es → run step s pre = some s' → Safe s' e := by
  have hmem : ∀ {pre e}, pre ++ [e] <+: es → e ∈ es := fun hpre => hpre.subset (by simp)
  constructor
  · intro hinv pre e s' hpre hr
    have hs' := hinv pre s' ((List.prefix_append pre [e]).trans hpre) hr
    refine (hstep s' e (hmem hpre) hs').1 fun s'' hs => hinv (pre ++ [e]) s'' hpre ?_
    exact run_concat_eq_some.2 ⟨s', hr, hs⟩
  · intro hsafe pre
    induction pre using List.reverseRecOn with
    | nil =>
      intro s' _ hr
      cases hr
      exact h
    | append_singleton pre e ih =>
      intro s' hpre hr
      obtain ⟨t, ht, hs⟩ := run_concat_eq_some.1 hr
      have hinv := ih t ((List.prefix_append pre [e]).trans hpre) ht
      exact (hstep t e (hmem hpre) hinv).2 (hsafe pre e t hpre ht) s' hs

end N32905.Lib
