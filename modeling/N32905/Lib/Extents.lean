import Mathlib.Algebra.Ring.Nat
import Mathlib.Data.List.Pairwise
import Mathlib.Tactic.Common

/-!
# Consecutive extents

Items stored one after the other in units of equal size: an item of `n` bytes
takes the units `next .. next + span n`, and the following item starts at the
unit after. `place` is the resulting layout in unbounded arithmetic; a program
that keeps unit numbers in machine words is compared with it.
-/

namespace N32905.Lib

/-- `len` bytes kept in the units `first .. last`. -/
structure Extent where
  first : Nat
  last : Nat
  len : Nat

/-- The layout of items of the given lengths from unit `next` on. -/
def place (span : Nat → Nat) : Nat → List Nat → List Extent
  | _, [] => []
  | next, n :: ns => ⟨next, next + span n, n⟩ :: place span (next + span n + 1) ns

variable {span : Nat → Nat} {next : Nat} {ns : List Nat}

@[simp] theorem length_place : (place span next ns).length = ns.length := by
  induction ns generalizing next with
  | nil => rfl
  | cons n ns ih => simp [place, ih]

theorem place_first_ge {e : Extent} (h : e ∈ place span next ns) : next ≤ e.first := by
  induction ns generalizing next with
  | nil => cases h
  | cons n ns ih =>
    rcases List.mem_cons.1 h with rfl | h
    · exact Nat.le_refl _
    · have := ih h; omega

theorem place_last {e : Extent} (h : e ∈ place span next ns) : e.last = e.first + span e.len := by
  induction ns generalizing next with
  | nil => cases h
  | cons n ns ih =>
    rcases List.mem_cons.1 h with rfl | h
    · rfl
    · exact ih h

theorem place_len {i : Nat} {e : Extent} (h : (place span next ns)[i]? = some e) :
    ns[i]? = some e.len := by
  induction ns generalizing next i with
  | nil => simp [place] at h
  | cons n ns ih =>
    cases i with
    | zero =>
      simp only [place, List.getElem?_cons_zero, Option.some.injEq] at h ⊢
      rw [← h]
    | succ i =>
      rw [place, List.getElem?_cons_succ] at h
      rw [List.getElem?_cons_succ]
      exact ih h

/-- Every item starts behind the units of the items before it. -/
theorem place_getElem? (j : Nat) : (place span next ns)[j]? = ns[j]?.map fun n =>
    let first := next + ((ns.take j).map fun m => span m + 1).sum
    ⟨first, first + span n, n⟩ := by
  induction ns generalizing next j with
  | nil => simp [place]
  | cons n ns ih =>
    cases j with
    | zero => simp [place]
    | succ j =>
      rw [place, List.getElem?_cons_succ, List.getElem?_cons_succ, ih, List.take_succ_cons,
        List.map_cons, List.sum_cons]
      simp only [Nat.add_assoc]

/-- Every item starts at the unit after its predecessor's last one. -/
theorem place_succ {i : Nat} {a b : Extent} (ha : (place span next ns)[i]? = some a)
    (hb : (place span next ns)[i + 1]? = some b) : b.first = a.last + 1 := by
  induction ns generalizing next i with
  | nil => simp [place] at ha
  | cons n ns ih =>
    rw [place, List.getElem?_cons_succ] at hb
    cases i with
    | zero =>
      simp only [place, List.getElem?_cons_zero, Option.some.injEq] at ha
      cases ns with
      | nil => simp [place] at hb
      | cons m ns =>
        simp only [place, List.getElem?_cons_zero, Option.some.injEq] at hb
        subst ha hb
        rfl
    | succ i =>
      rw [place, List.getElem?_cons_succ] at ha
      exact ih ha hb

theorem place_pairwise : (place span next ns).Pairwise (fun a b => a.last < b.first) := by
  induction ns generalizing next with
  | nil => exact List.Pairwise.nil
  | cons n ns ih =>
    refine List.Pairwise.cons (fun e he => ?_) ih
    have := place_first_ge he
    simp only
    omega

theorem place_lt {i j : Nat} {a b : Extent} (hij : i < j) (ha : (place span next ns)[i]? = some a)
    (hb : (place span next ns)[j]? = some b) : a.last < b.first := by
  obtain ⟨hi, rfl⟩ := List.getElem?_eq_some_iff.1 ha
  obtain ⟨hj, rfl⟩ := List.getElem?_eq_some_iff.1 hb
  exact List.pairwise_iff_getElem.1 place_pairwise i j hi hj hij

/-- The byte ranges of two items in different units are disjoint: an item that
fits its units ends before a later unit begins. -/
theorem extent_bytes_le {base u : Nat} {a b : Extent} (hlt : a.last < b.first)
    (hfit : a.len ≤ (a.last + 1 - a.first) * u) (hb : base ≤ a.first) (hl : a.first ≤ a.last) :
    (a.first - base) * u + a.len ≤ (b.first - base) * u := by
  have h : (a.first - base) + (a.last + 1 - a.first) ≤ b.first - base := by omega
  calc (a.first - base) * u + a.len ≤ (a.first - base) * u + (a.last + 1 - a.first) * u := by omega
    _ = ((a.first - base) + (a.last + 1 - a.first)) * u := (Nat.add_mul ..).symm
    _ ≤ (b.first - base) * u := Nat.mul_le_mul_right u h

end N32905.Lib
