import N32905.Lib.Codec

/-!
# Programming a flash memory

Programming clears bits, so that what is programmed reads back where the memory is erased
and nothing else is programmed in the same place.
-/

namespace N32905.Lib

/-- `w.2` programmed from address `w.1` on. -/
def programAt (mem : Nat → Byte) (w : Nat × List Byte) : Nat → Byte := fun a =>
  if w.1 ≤ a then mem a &&& (w.2[a - w.1]?).getD 0xFF else mem a

def readBytes (mem : Nat → Byte) (start n : Nat) : List Byte :=
  (List.range n).map fun k => mem (start + k)

/-- The address is none of the bytes of `w`. -/
def Spares (w : Nat × List Byte) (a : Nat) : Prop := a < w.1 ∨ w.1 + w.2.length ≤ a

/-- One of the two ends before the other one begins. -/
def Apart (w v : Nat × List Byte) : Prop := w.1 + w.2.length ≤ v.1 ∨ v.1 + v.2.length ≤ w.1

variable {mem : Nat → Byte} {w v : Nat × List Byte} {ws : List (Nat × List Byte)} {a k : Nat}

@[simp] theorem length_readBytes (mem : Nat → Byte) (start n : Nat) :
    (readBytes mem start n).length = n := by
  rw [readBytes, List.length_map, List.length_range]

theorem getElem_readBytes (mem : Nat → Byte) (start n : Nat) (h : k < (readBytes mem start n).length) :
    (readBytes mem start n)[k] = mem (start + k) := by
  simp only [readBytes, List.getElem_map, List.getElem_range]

theorem programAt_of_spares (h : Spares w a) : programAt mem w a = mem a := by
  rw [programAt]
  split
  · rw [List.getElem?_eq_none (by unfold Spares at h; omega), Option.getD_none]
    exact BitVec.and_allOnes
  · rfl

theorem programAt_of_erased (herased : mem (w.1 + k) = 0xFF) (hk : k < w.2.length) :
    programAt mem w (w.1 + k) = w.2[k] := by
  rw [programAt, if_pos (Nat.le_add_right _ _), herased, Nat.add_sub_cancel_left,
    List.getElem?_eq_getElem hk, Option.getD_some]
  exact BitVec.allOnes_and

theorem foldl_programAt_of_spares (h : ∀ w ∈ ws, Spares w a) : ws.foldl programAt mem a = mem a := by
  induction ws generalizing mem with
  | nil => rfl
  | cons w ws ih =>
    rw [List.foldl_cons, ih fun w hw => h w (List.mem_cons_of_mem _ hw)]
    exact programAt_of_spares (h w List.mem_cons_self)

theorem Apart.spares (h : Apart w v) (hk : k < v.2.length) : Spares w (v.1 + k) := by
  unfold Apart at h
  unfold Spares
  omega

theorem Apart.symm (h : Apart w v) : Apart v w := Or.symm h

/-- **What is programmed apart reads back**, if it was erased. -/
theorem readBytes_foldl_programAt (mem : Nat → Byte) (hapart : ws.Pairwise Apart)
    (herased : ∀ w ∈ ws, ∀ k < w.2.length, mem (w.1 + k) = 0xFF) (hw : w ∈ ws) :
    readBytes (ws.foldl programAt mem) w.1 w.2.length = w.2 := by
  induction ws generalizing mem with
  | nil => cases hw
  | cons v ws ih =>
    obtain ⟨hv, hws⟩ := List.pairwise_cons.1 hapart
    rw [List.foldl_cons]
    rcases List.mem_cons.1 hw with rfl | hw
    · refine List.ext_getElem (length_readBytes _ _ _) fun k hk hk' => ?_
      rw [getElem_readBytes, foldl_programAt_of_spares fun u hu => (hv u hu).symm.spares hk']
      exact programAt_of_erased (herased w List.mem_cons_self k hk') hk'
    · refine ih _ hws (fun u hu k hk => ?_) hw
      rw [programAt_of_spares ((hv u hu).spares hk)]
      exact herased u (List.mem_cons_of_mem _ hu) k hk

end N32905.Lib
