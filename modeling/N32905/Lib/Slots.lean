import Mathlib.Data.List.Perm.Subperm

/-!
# Tables with blank slots

A table is a list of slots, a key of which may be blank. It is `Distinct` if no two slots share a
key that is not blank. What a program does to such a table changes one slot, or the slots by
themselves.
-/

namespace N32905.Lib

variable {α β κ : Type*} {key : α → κ} {blank : κ} {t : List α} {f : α → α} {a b : α} {i j : Nat}

/-- Slots with the same key have none. -/
def Distinct (key : α → κ) (blank : κ) (t : List α) : Prop :=
  t.Pairwise fun a b => key a = key b → key a = blank

theorem distinct_iff : Distinct key blank t ↔ ∀ (i j : Nat) (a b : α), t[i]? = some a → t[j]? = some b → i ≠ j →
    key a = key b → key a = blank := by
  rw [Distinct, List.pairwise_iff_getElem]
  constructor
  · intro h i j a b ha hb hne hkey
    obtain ⟨hi, rfl⟩ := List.getElem?_eq_some_iff.1 ha
    obtain ⟨hj, rfl⟩ := List.getElem?_eq_some_iff.1 hb
    rcases Nat.lt_or_gt_of_ne hne with hlt | hlt
    · exact h i j hi hj hlt hkey
    · rw [hkey]
      exact h j i hj hi hlt hkey.symm
  · intro h i j hi hj hlt hkey
    exact h i j _ _ (List.getElem?_eq_getElem hi) (List.getElem?_eq_getElem hj) (by omega) hkey

theorem Distinct.eq_of_key_eq (h : Distinct key blank t) (ha : t[i]? = some a) (hb : t[j]? = some b)
    (hkey : key a = key b) (hne : key a ≠ blank) : i = j := by
  by_contra hij
  exact hne (distinct_iff.1 h i j a b ha hb hij hkey)

theorem Distinct.eq_of_mem (h : Distinct key blank t) (ha : a ∈ t) (hb : b ∈ t)
    (hkey : key a = key b) (hne : key a ≠ blank) : a = b := by
  obtain ⟨i, hi⟩ := List.mem_iff_getElem?.1 ha
  obtain ⟨j, hj⟩ := List.mem_iff_getElem?.1 hb
  have hij := h.eq_of_key_eq hi hj hkey hne
  rw [hij, hj] at hi
  exact (Option.some.inj hi).symm

theorem distinct_replicate {n : Nat} (h : key a = blank) :
    Distinct key blank (List.replicate n a) :=
  List.pairwise_replicate.2 (.inr fun _ => h)

theorem Distinct.filter (h : Distinct key blank t) (p : α → Bool) :
    Distinct key blank (t.filter p) :=
  List.Pairwise.filter p h

theorem Distinct.map {key' : β → κ} {f : α → β} (h : Distinct key blank t)
    (hf : ∀ a ∈ t, key' (f a) = key a ∨ key' (f a) = blank) : Distinct key' blank (t.map f) := by
  refine distinct_iff.2 fun i j a b ha hb hij hkey => ?_
  rw [List.getElem?_map, Option.map_eq_some_iff] at ha hb
  obtain ⟨a, ha, rfl⟩ := ha
  obtain ⟨b, hb, rfl⟩ := hb
  rcases hf a (List.mem_of_getElem? ha) with ha' | ha'
  · rcases hf b (List.mem_of_getElem? hb) with hb' | hb'
    · rw [ha', hb'] at hkey
      rw [ha']
      exact distinct_iff.1 h i j a b ha hb hij hkey
    · rw [hkey, hb']
  · exact ha'

theorem getElem?_modify_eq_some : (t.modify i f)[j]? = some b ↔
    ∃ a, t[j]? = some a ∧ (if i = j then f a else a) = b := by
  rw [List.getElem?_modify, Option.map_eq_map, Option.map_eq_some_iff]

theorem getElem?_modify_self (h : t[i]? = some a) : (t.modify i f)[i]? = some (f a) :=
  getElem?_modify_eq_some.2 ⟨a, h, if_pos rfl⟩

theorem Distinct.modify (h : Distinct key blank t)
    (hf : ∀ a, t[i]? = some a → key (f a) = blank ∨
      ∀ j b, t[j]? = some b → j ≠ i → key b ≠ key (f a)) :
    Distinct key blank (t.modify i f) := by
  refine distinct_iff.2 fun j k a b ha hb hjk hkey => ?_
  obtain ⟨a, hai, rfl⟩ := getElem?_modify_eq_some.1 ha
  obtain ⟨b, hbj, rfl⟩ := getElem?_modify_eq_some.1 hb
  by_cases hj : i = j
  · subst hj
    rw [if_neg hjk, if_pos rfl] at hkey
    rw [if_pos rfl]
    rcases hf a hai with hblank | hfree
    · exact hblank
    · exact absurd hkey.symm (hfree k b hbj (Ne.symm hjk))
  · rw [if_neg hj] at hkey ⊢
    by_cases hk : i = k
    · subst hk
      rw [if_pos rfl] at hkey
      rcases hf b hbj with hblank | hfree
      · rw [hkey]
        exact hblank
      · exact absurd hkey (hfree j a hai (Ne.symm hj))
    · rw [if_neg hk] at hkey
      exact distinct_iff.1 h j k a b hai hbj hjk hkey

/-- What is kept, changed or not, when one slot is changed. -/
theorem mem_modify (h : b ∈ t.modify i f) : b ∈ t ∨ ∃ a, t[i]? = some a ∧ b = f a := by
  obtain ⟨j, hj⟩ := List.mem_iff_getElem?.1 h
  obtain ⟨a, ha, rfl⟩ := getElem?_modify_eq_some.1 hj
  split
  · rename_i hij
    exact .inr ⟨a, hij ▸ ha, rfl⟩
  · exact .inl (List.mem_of_getElem? ha)

/-- The slots that are not the one that is changed. -/
theorem mem_modify_of_ne (h : b ∈ t) (hne : t[i]? ≠ some b) : b ∈ t.modify i f := by
  obtain ⟨j, hj⟩ := List.mem_iff_getElem?.1 h
  have hij : i ≠ j := fun hij => hne (hij ▸ hj)
  exact List.mem_of_getElem? (getElem?_modify_eq_some.2 ⟨b, hj, if_neg hij⟩)

theorem mem_modify_self (h : t[i]? = some a) : f a ∈ t.modify i f :=
  List.mem_of_getElem? (getElem?_modify_self h)

/-- **No room left**: a table without blank slots is no longer than the keys it may hold. -/
theorem Distinct.length_le {keys : List κ} (h : Distinct key blank t)
    (hne : ∀ a ∈ t, key a ≠ blank) (hmem : ∀ a ∈ t, key a ∈ keys) : t.length ≤ keys.length := by
  have hnodup : (t.map key).Nodup := by
    rw [List.Nodup, List.pairwise_map]
    exact List.Pairwise.imp_of_mem (fun ha _ hkey heq => hne _ ha (hkey heq)) h
  have hsub : t.map key ⊆ keys := by
    intro k hk
    obtain ⟨a, ha, rfl⟩ := List.mem_map.1 hk
    exact hmem a ha
  have hle := (List.subperm_of_subset hnodup hsub).length_le
  rwa [List.length_map] at hle

end N32905.Lib
