import N32905.Lib.Codec

/-!
# Byte arrays in memory

Arrays of a program, by name, without their bounds: a store may fall behind an
array, and `stores` remembers where every store fell. A load sees the stores to
its own bytes only.
-/

namespace N32905.Lib

/-- The bytes of the arrays, and the array, offset and length of the stores made. -/
structure Memory (ι : Type*) where
  bytes : ι → Nat → Byte
  stores : List (ι × Nat × Nat)

namespace Memory

variable {ι : Type*} [DecidableEq ι] {m : Memory ι} {a b : ι} {off n k : Nat} {data : List Byte}

def store (m : Memory ι) (a : ι) (off : Nat) (data : List Byte) : Memory ι where
  bytes b i := if b = a ∧ off ≤ i ∧ i < off + data.length then data.getD (i - off) 0 else m.bytes b i
  stores := m.stores ++ [(a, off, data.length)]

omit [DecidableEq ι] in
/-- The `n` bytes at `off`. -/
def load (m : Memory ι) (a : ι) (off n : Nat) : List Byte :=
  (List.range n).map fun i => m.bytes a (off + i)

omit [DecidableEq ι] in
@[simp] theorem length_load (m : Memory ι) (a : ι) (off n : Nat) : (m.load a off n).length = n := by
  simp [load]

theorem load_store_self (h : n = data.length) : (m.store a off data).load a off n = data := by
  subst h
  apply List.ext_getElem
  · simp [load]
  · intro i hi hi'
    simp [load, store, hi']

theorem load_store_of_ne (h : b ≠ a ∨ k + n ≤ off ∨ off + data.length ≤ k) :
    (m.store a off data).load b k n = m.load b k n := by
  unfold load store
  apply List.map_congr_left
  intro i hi
  rw [List.mem_range] at hi
  refine if_neg ?_
  rintro ⟨rfl, h1, h2⟩
  rcases h with h | h | h
  · exact h rfl
  · omega
  · omega

omit [DecidableEq ι] in
theorem load_add (m : Memory ι) (a : ι) (off n k : Nat) :
    m.load a off (n + k) = m.load a off n ++ m.load a (off + n) k := by
  unfold load
  rw [List.range_add, List.map_append, List.map_map]
  congr 1
  apply List.map_congr_left
  intro i _
  exact congrArg (m.bytes a) (Nat.add_assoc off n i).symm

omit [DecidableEq ι] in
theorem take_load (m : Memory ι) (a : ι) (off : Nat) {N : Nat} (h : n ≤ N) :
    (m.load a off N).take n = m.load a off n := by
  obtain ⟨r, rfl⟩ := Nat.exists_eq_add_of_le h
  rw [load_add, List.take_left' (length_load _ _ _ _)]

omit [DecidableEq ι] in
theorem drop_take_load (m : Memory ι) (a : ι) (off : Nat) {N : Nat} (h : k + n ≤ N) :
    ((m.load a off N).drop k).take n = m.load a (off + k) n := by
  obtain ⟨r, rfl⟩ := Nat.exists_eq_add_of_le (Nat.le_trans (Nat.le_add_right k n) h)
  rw [load_add, List.drop_left' (length_load _ _ _ _), take_load _ _ _ (by omega)]

end Memory

end N32905.Lib
