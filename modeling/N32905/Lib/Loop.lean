import Mathlib.Data.Nat.Init
import Mathlib.Tactic.Common

/-!
# Loops

A loop is a body that says, from a state, where to go on or what to return.
`iterate` runs it with fuel. `Ends` forgets the fuel: it composes step by step,
and under a measure that every pass lowers it says what `iterate` returns. `leads_wait`
gets past a poll that succeeds sooner or later.
-/

namespace N32905.Lib

/-- What one pass of a loop body does. -/
inductive Step (σ ρ : Type*) where
  | next (s : σ)
  | done (r : ρ)

variable {σ ρ : Type*} {body : σ → Step σ ρ} {s s' : σ} {r r' : ρ} {n : Nat}

/-- Run a loop for at most `n` passes. -/
def iterate (body : σ → Step σ ρ) : Nat → σ → Option ρ
  | 0, _ => none
  | n + 1, s =>
    match body s with
    | .next s' => iterate body n s'
    | .done r => some r

/-- The loop returns `r` from `s`. -/
def Ends (body : σ → Step σ ρ) (s : σ) (r : ρ) : Prop := ∃ n, iterate body n s = some r

/-- The state after `n` passes, if the loop has not ended. -/
def after (body : σ → Step σ ρ) (s : σ) : Nat → Option σ
  | 0 => some s
  | n + 1 => (after body s n).bind fun s' =>
    match body s' with
    | .next s'' => some s''
    | .done _ => none

theorem iterate_done (h : body s = .done r) : iterate body (n + 1) s = some r := by
  simp only [iterate, h]

theorem iterate_next (h : body s = .next s') : iterate body (n + 1) s = iterate body n s' := by
  simp only [iterate, h]

theorem iterate_mono {m : Nat} (h : iterate body n s = some r) (hm : n ≤ m) :
    iterate body m s = some r := by
  induction n generalizing m s with
  | zero => cases h
  | succ n ih =>
    obtain ⟨m, rfl⟩ : ∃ k, m = k + 1 := ⟨m - 1, by omega⟩
    cases hb : body s with
    | done r' =>
      rw [iterate_done hb] at h ⊢
      exact h
    | next s' =>
      rw [iterate_next hb] at h ⊢
      exact ih h (by omega)

theorem Ends.unique (h : Ends body s r) (h' : Ends body s r') : r = r' := by
  obtain ⟨n, hn⟩ := h
  obtain ⟨m, hm⟩ := h'
  have h1 := iterate_mono hn (Nat.le_max_left n m)
  rw [iterate_mono hm (Nat.le_max_right n m)] at h1
  exact (Option.some.inj h1).symm

theorem ends_done (h : body s = .done r') : Ends body s r ↔ r = r' := by
  constructor
  · intro hr
    exact hr.unique ⟨1, iterate_done h⟩
  · rintro rfl
    exact ⟨1, iterate_done h⟩

theorem ends_next (h : body s = .next s') : Ends body s r ↔ Ends body s' r := by
  constructor
  · rintro ⟨n, hn⟩
    exact ⟨n, (iterate_next h).symm.trans (iterate_mono hn (Nat.le_succ n))⟩
  · rintro ⟨n, hn⟩
    exact ⟨n + 1, (iterate_next h).trans hn⟩

section Measure
variable {μ : σ → Nat} (hμ : ∀ s s', body s = .next s' → μ s' < μ s)
include hμ

/-- **Enough fuel**: more than the measure of the state. -/
theorem iterate_isSome (h : μ s < n) : (iterate body n s).isSome := by
  induction n generalizing s with
  | zero => omega
  | succ n ih =>
    cases hb : body s with
    | done r => rw [iterate_done hb]; rfl
    | next s' =>
      have := hμ s s' hb
      rw [iterate_next hb]
      exact ih (by omega)

theorem Ends.iterate (he : Ends body s r) (h : μ s < n) : iterate body n s = some r := by
  obtain ⟨r', hr'⟩ := Option.isSome_iff_exists.1 (iterate_isSome hμ h)
  rw [hr', Ends.unique ⟨n, hr'⟩ he]

end Measure

/-- A loop ends if every pass lowers a rank, in the states it can be in. -/
theorem ends_of_rank {P : σ → Prop} {μ : σ → Nat}
    (hnext : ∀ s s', P s → body s = .next s' → P s' ∧ μ s' < μ s) (hs : P s) :
    ∃ r, Ends body s r := by
  obtain ⟨n, hn⟩ : ∃ n, μ s < n := ⟨_, Nat.lt_succ_self _⟩
  induction n generalizing s with
  | zero => omega
  | succ n ih =>
    cases hb : body s with
    | done r => exact ⟨r, (ends_done hb).2 rfl⟩
    | next s' =>
      obtain ⟨hs', hlt⟩ := hnext s s' hs hb
      obtain ⟨r, hr⟩ := ih hs' (by omega)
      exact ⟨r, (ends_next hb).2 hr⟩

/-- What every pass keeps holds in the state where the loop ends. -/
theorem Ends.rule {P : σ → Prop} (hnext : ∀ s s', P s → body s = .next s' → P s') (hs : P s)
    (h : Ends body s r) : ∃ s', P s' ∧ body s' = .done r := by
  obtain ⟨n, hn⟩ := h
  induction n generalizing s with
  | zero => cases hn
  | succ n ih =>
    cases hb : body s with
    | done r' =>
      rw [iterate_done hb] at hn
      cases hn
      exact ⟨s, hs, hb⟩
    | next s' =>
      rw [iterate_next hb] at hn
      exact ih (hnext s s' hs hb) hn

section After
variable {k : Nat} {t : σ}

theorem after_succ :
    after body s (k + 1) = some t ↔ ∃ s', after body s k = some s' ∧ body s' = .next t := by
  rw [after, Option.bind_eq_some_iff]
  refine exists_congr fun s' => and_congr_right fun _ => ?_
  cases body s' <;> simp

/-- What every pass keeps holds in every state reached. -/
theorem after_rule {P : σ → Prop} (hnext : ∀ s s', P s → body s = .next s' → P s') (hs : P s)
    (h : after body s k = some s') : P s' := by
  induction k generalizing s' with
  | zero =>
    cases h
    exact hs
  | succ k ih =>
    obtain ⟨t, ht, hb⟩ := after_succ.1 h
    exact hnext t s' (ih ht) hb

/-- Loops whose states correspond go on together. -/
theorem after_map {σ' ρ' : Type*} {body' : σ' → Step σ' ρ'} {f : σ → σ'}
    (hnext : ∀ s s', body s = .next s' → body' (f s) = .next (f s'))
    (h : after body s k = some s') : after body' (f s) k = some (f s') := by
  induction k generalizing s' with
  | zero =>
    cases h
    rfl
  | succ k ih =>
    obtain ⟨t, ht, hb⟩ := after_succ.1 h
    exact after_succ.2 ⟨f t, ih ht, hnext t s' hb⟩

theorem after_ends (h : after body s k = some s') : Ends body s r ↔ Ends body s' r := by
  induction k generalizing s' with
  | zero =>
    cases h
    rfl
  | succ k ih =>
    obtain ⟨t, ht, hb⟩ := after_succ.1 h
    exact (ih ht).trans (ends_next hb)

end After

/-! ## Waiting -/

/-- The loop ends from `s` as it ends from `s'`. -/
def Leads (body : σ → Step σ ρ) (s s' : σ) : Prop := ∀ r, Ends body s r ↔ Ends body s' r

theorem Leads.trans {t : σ} (h : Leads body s s') (h' : Leads body s' t) : Leads body s t :=
  fun r => (h r).trans (h' r)

theorem leads_next (h : body s = .next s') : Leads body s s' := fun _ => ends_next h

/-- **A wait**: in the states `wait k` the loop looks whether `ok k`. If that is the case again and
again, the loop comes to `out`. -/
theorem leads_wait (body : σ → Step σ ρ) (wait : Nat → σ → Prop) (ok : Nat → Prop) (out : σ → Prop)
    {k : Nat}
    (hwait : ∀ k s, wait k s → ¬ ok k → ∃ s', wait (k + 1) s' ∧ Leads body s s')
    (hgo : ∀ k s, wait k s → ok k → ∃ s', out s' ∧ Leads body s s')
    (hagain : ∃ j, k ≤ j ∧ ok j) (hs : wait k s) : ∃ s', out s' ∧ Leads body s s' := by
  obtain ⟨j, hj, hok⟩ := hagain
  induction hj using Nat.decreasingInduction generalizing s with
  | self => exact hgo j s hs hok
  | of_succ k _ ih =>
    by_cases hk : ok k
    · exact hgo k s hs hk
    · obtain ⟨s', hs', hleads⟩ := hwait k s hs hk
      obtain ⟨t, ht, hleads'⟩ := ih hs'
      exact ⟨t, ht, hleads.trans hleads'⟩

/-- A body that does the same in every state on the way to `r`. -/
theorem Ends.congr_body {body' : σ → Step σ ρ} (hbody : ∀ s, Ends body s r → body' s = body s)
    (h : Ends body s r) : Ends body' s r := by
  obtain ⟨n, hn⟩ := h
  induction n generalizing s with
  | zero => cases hn
  | succ n ih =>
    have hsame := hbody s ⟨_, hn⟩
    cases hb : body s with
    | done r' =>
      rw [iterate_done hb] at hn
      rw [ends_done (hsame.trans hb)]
      exact (Option.some.inj hn).symm
    | next s' =>
      rw [iterate_next hb] at hn
      rw [ends_next (hsame.trans hb)]
      exact ih hn

end N32905.Lib
