import N32905.Lib.Codec

/-!
# Conversion in place

A loop reads the stretch of `s` bytes at `i * s` in pass `i` and stores `d` bytes at
`i * d` of the same buffer. As long as `d ≤ s` the stores stay behind the reads: the
buffer is what is converted so far in front of what is untouched (`partly`), and the
unread part is the source's (`partly_getElem?`).
-/

namespace N32905.Lib

variable {buf src out data : List Byte} {s d n k i : Nat}

theorem memcpy_append (buf data data' : List Byte) (i : Nat) :
    (memcpy buf i data).bind (fun b => memcpy b (i + data.length) data') =
      memcpy buf i (data ++ data') := by
  have hlen : (data ++ data').length = data.length + data'.length := List.length_append
  rcases Nat.lt_or_ge buf.length (i + data.length) with hlt | hge
  · rw [memcpy, if_neg (by omega), memcpy, if_neg (by omega)]
    rfl
  · have hfirst : memcpy buf i data = some (blit buf i data) := by rw [memcpy, if_pos hge]
    have hkept := length_memcpy hfirst
    rw [hfirst, Option.bind_some]
    unfold memcpy
    rw [hkept, hlen, ← Nat.add_assoc]
    split
    case isFalse => rfl
    case isTrue hfit =>
      have hfront : (buf.take i ++ data).length = i + data.length := by
        rw [List.length_append, List.length_take, Nat.min_eq_left (by omega)]
      have htake : (blit buf i data).take (i + data.length) = buf.take i ++ data := by
        rw [blit, List.take_left' hfront]
      have hdrop : (blit buf i data).drop (i + data.length + data'.length) =
          buf.drop (i + data.length + data'.length) := by
        rw [blit, ← List.drop_drop, List.drop_left' hfront, List.drop_drop]
      rw [blit, htake, hdrop, blit, hlen, List.append_assoc (buf.take i), ← Nat.add_assoc]

/-- `out` stored over the front of `src`. -/
def partly (out src : List Byte) : List Byte := out ++ src.drop out.length

theorem partly_length (h : out.length ≤ src.length) : (partly out src).length = src.length := by
  rw [partly, List.length_append, List.length_drop]
  omega

theorem partly_drop (h : out.length ≤ i) : (partly out src).drop i = src.drop i := by
  rw [partly, List.drop_append, List.drop_of_length_le h, List.drop_drop, List.nil_append]
  congr 1
  omega

theorem partly_getElem? (h : out.length ≤ i) : (partly out src)[i]? = src[i]? := by
  rw [← Nat.add_zero i, ← List.getElem?_drop, partly_drop h, List.getElem?_drop]

theorem memcpy_partly (h : out.length + data.length ≤ src.length) :
    memcpy (partly out src) out.length data = some (partly (out ++ data) src) := by
  rw [memcpy, partly_length (by omega), if_pos h, blit, partly_drop (Nat.le_add_right _ _)]
  simp [partly]

/-- **The rule**: if pass `i` stores `f i` at `i * d` whenever the stretches from `i` on are
still the source's, then `n` passes store `f 0` to `f (n - 1)` and touch nothing else. -/
theorem in_place {pass : List Byte → Nat → Option (List Byte)} {f : Nat → List Byte}
    (hds : d ≤ s) (hsrc : n * s ≤ src.length) (hf : ∀ i, (f i).length = d)
    (hpass : ∀ i < n, ∀ buf, (∀ j, i * s ≤ j → buf[j]? = src[j]?) →
      pass buf i = memcpy buf (i * d) (f i)) (hk : k ≤ n) :
    (List.range k).foldlM pass src = some (partly ((List.range k).flatMap f) src) ∧
      ((List.range k).flatMap f).length = k * d := by
  induction k with
  | zero => exact ⟨by simp [partly], by simp⟩
  | succ k ih =>
    obtain ⟨hrun, hlen⟩ := ih (by omega)
    have hread : k * d ≤ k * s := Nat.mul_le_mul_left k hds
    have hfit : (k + 1) * s ≤ n * s := Nat.mul_le_mul_right s hk
    rw [Nat.succ_mul] at hfit
    have hstep : pass (partly ((List.range k).flatMap f) src) k =
        some (partly ((List.range k).flatMap f ++ f k) src) := by
      rw [hpass k (by omega) _ fun j hj => partly_getElem? (by omega), ← hlen]
      exact memcpy_partly (by rw [hf, hlen]; omega)
    rw [List.range_succ, List.foldlM_append, hrun, List.flatMap_append]
    constructor
    · simpa using hstep
    · rw [List.length_append, hlen, List.flatMap_singleton, hf, Nat.succ_mul]

theorem partly_stretch {f : Nat → List Byte} (hf : ∀ i, (f i).length = d) (hi : i < n) :
    ((partly ((List.range n).flatMap f) src).drop (i * d)).take d = f i := by
  have hlen : ∀ k, ((List.range k).flatMap f).length = k * d := by
    intro k
    induction k with
    | zero => simp
    | succ k ih =>
      rw [List.range_succ, List.flatMap_append, List.length_append, ih, List.flatMap_singleton, hf,
        Nat.succ_mul]
  obtain ⟨m, rfl⟩ := Nat.exists_eq_add_of_lt hi
  rw [partly, Nat.add_assoc, List.range_add, List.flatMap_append, List.range_succ_eq_map,
    List.map_cons, List.flatMap_cons, List.append_assoc, List.drop_left' (hlen i),
    List.append_assoc, Nat.add_zero, List.take_left' (hf i)]

end N32905.Lib
