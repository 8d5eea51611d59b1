import Mathlib.Data.Nat.Digits.Defs
import Mathlib.Tactic.Ring

/-!
# Numerals

`horner b f l` reads the places of `l` from the left, each with the value `f` gives
it, in base `b` and in any commutative semiring: modulo a power of two as well as
exactly. A sum of places times powers, in the order of the places, is the same.
-/

namespace N32905.Lib

variable {R α : Type*} [CommSemiring R] {b : R} {f : α → R} {l l' : List α}

/-- `acc := b * acc + f a`, from the left. -/
def horner (b : R) (f : α → R) (l : List α) : R := l.foldl (fun acc a => b * acc + f a) 0

/-- What has been read counts for more with every place. -/
theorem foldl_horner (acc : R) :
    l.foldl (fun acc a => b * acc + f a) acc = b ^ l.length * acc + horner b f l := by
  induction l generalizing acc with
  | nil =>
    rw [List.foldl_nil, List.length_nil, pow_zero, one_mul, horner, List.foldl_nil, add_zero]
  | cons a l ih =>
    rw [horner, List.foldl_cons, List.foldl_cons, ih, ih (b * 0 + f a), List.length_cons]
    ring

theorem horner_cons (a : α) : horner b f (a :: l) = b ^ l.length * f a + horner b f l := by
  rw [horner, List.foldl_cons, foldl_horner, mul_zero, zero_add]

/-- Places without a value in front do not count. -/
theorem horner_append_of_zero (h : ∀ a ∈ l, f a = 0) : horner b f (l ++ l') = horner b f l' := by
  induction l with
  | nil => rfl
  | cons a l ih =>
    rw [List.cons_append, horner_cons, h a List.mem_cons_self, mul_zero, zero_add]
    exact ih fun a ha => h a (List.mem_cons_of_mem _ ha)

/-- **Each place with its own power**: place `i` of `n` counts `b ^ (n - 1 - i)` times. -/
theorem foldl_places {n k : Nat} (hn : k + l.length = n) (acc : R) :
    (l.zipIdx k).foldl (fun acc p => acc + b ^ (n - 1 - p.2) * f p.1) acc =
      acc + horner b f l := by
  induction l generalizing k acc with
  | nil => exact (add_zero acc).symm
  | cons a l ih =>
    rw [List.length_cons] at hn
    have hplace : n - 1 - k = l.length := by omega
    rw [List.zipIdx_cons, List.foldl_cons, ih (by omega), horner_cons, hplace, add_assoc]

theorem horner_digits {B v : Nat} (h : l.map f = (Nat.digits B v).reverse.map Nat.cast) :
    horner (B : R) f l = (v : R) := by
  have hfold : horner (B : R) f l = (l.map f).foldl (fun acc d => (B : R) * acc + d) 0 := by
    rw [List.foldl_map]
    rfl
  rw [hfold, h, List.foldl_map, List.foldl_reverse]
  conv_rhs => rw [← Nat.ofDigits_digits B v]
  induction Nat.digits B v with
  | nil => exact (Nat.cast_zero).symm
  | cons d ds ih =>
    rw [List.foldr_cons, ih, Nat.ofDigits_cons, Nat.cast_add, Nat.cast_mul, add_comm]

end N32905.Lib
