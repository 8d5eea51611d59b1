import N32905.Lib.Codec
import Mathlib.Data.List.TakeWhile
import Mathlib.Tactic.Common

/-!
# C strings

Functions of `<string.h>` and `<stdlib.h>` on byte lists. `text` is the string a
buffer holds, up to its first NUL. `strtok` is one call of the C function with
what it leaves for the next call; `tokens` is what a whole sequence of calls
delivers.
-/

namespace N32905.Lib

def ascii (s : String) : List Byte := s.toList.map fun c => BitVec.ofNat 8 c.toNat

/-- The string at the front of a buffer. -/
def text (l : List Byte) : List Byte := l.takeWhile (· ≠ 0)

theorem zero_not_mem_text (l : List Byte) : 0 ∉ text l := by
  intro h
  have := List.mem_takeWhile_imp h
  simp at this

theorem length_text_le (l : List Byte) : (text l).length ≤ l.length :=
  (List.takeWhile_prefix _).length_le

theorem text_append_zero {s : List Byte} (h : 0 ∉ s) (rest : List Byte) :
    text (s ++ 0 :: rest) = s := by
  have hall : ∀ b ∈ s, (b ≠ 0) := fun b hb h0 => h (h0 ▸ hb)
  unfold text
  rw [List.takeWhile_append_of_pos (by simpa using hall)]
  simp

/-! ## Tokens -/

section Tokens
variable (delim : Byte → Bool)

/-- The next token, and the string behind the delimiter that ends it. -/
def strtok (s : List Byte) : Option (List Byte) × List Byte :=
  let s := s.dropWhile delim
  if s = [] then (none, [])
  else (some (s.takeWhile fun b => !delim b), (s.dropWhile fun b => !delim b).drop 1)

/-- The non-empty pieces between delimiters. -/
def tokens (s : List Byte) : List (List Byte) := (s.splitOnP delim).filter (· ≠ [])

variable {delim}

theorem tokens_dropWhile (s : List Byte) : tokens delim (s.dropWhile delim) = tokens delim s := by
  induction s with
  | nil => rfl
  | cons b s ih =>
    rw [List.dropWhile_cons]
    split
    case isTrue hb =>
      rw [ih]
      unfold tokens
      rw [List.splitOnP_cons_eq_if_modifyHead, if_pos hb, List.filter_cons_of_neg (by simp)]
    case isFalse => rfl

theorem takeWhile_dropWhile_ne_nil {s : List Byte} (hne : s.dropWhile delim ≠ []) :
    (s.dropWhile delim).takeWhile (fun b => !delim b) ≠ [] := by
  have hfirst := List.head?_dropWhile_not delim s
  cases hs : s.dropWhile delim with
  | nil => exact absurd hs hne
  | cons b l =>
    have hb : delim b = false := by
      rw [hs] at hfirst
      simpa using hfirst
    rw [List.takeWhile_cons_of_pos (by simp [hb])]
    exact List.cons_ne_nil _ _

theorem tokens_takeWhile {s : List Byte} (htok : s.takeWhile (fun b => !delim b) ≠ []) :
    tokens delim s =
      s.takeWhile (fun b => !delim b) :: tokens delim ((s.dropWhile fun b => !delim b).drop 1) := by
  have hall : ∀ b ∈ s.takeWhile (fun b => !delim b), delim b = false := by
    intro b hb
    simpa using List.mem_takeWhile_imp hb
  have hsplit := List.takeWhile_append_dropWhile (p := fun b => !delim b) (l := s)
  unfold tokens
  cases hd : s.dropWhile (fun b => !delim b) with
  | nil =>
    rw [hd, List.append_nil] at hsplit
    rw [List.drop_nil, hsplit, List.splitOnP_eq_singleton (by rw [← hsplit]; exact hall),
      List.filter_cons_of_pos (by rw [← hsplit]; simpa using htok), List.splitOnP_nil]
    rfl
  | cons d rest =>
    have hdelim : delim d = true := by
      have := List.head?_dropWhile_not (fun b => !delim b) s
      rw [hd] at this
      simpa using this
    rw [hd] at hsplit
    rw [List.drop_succ_cons, List.drop_zero]
    conv_lhs => rw [← hsplit, List.splitOnP_append_cons_of_forall_mem hall d hdelim,
      List.filter_cons_of_pos (by simpa using htok)]

theorem strtok_tokens (delim : Byte → Bool) (s : List Byte) :
    tokens delim s = match strtok delim s with
      | (none, _) => []
      | (some t, rest) => t :: tokens delim rest := by
  rw [← tokens_dropWhile]
  unfold strtok
  dsimp only
  by_cases hs : s.dropWhile delim = []
  · rw [if_pos hs, hs]
    rfl
  · rw [if_neg hs]
    exact tokens_takeWhile (takeWhile_dropWhile_ne_nil hs)

theorem strtok_two (delim : Byte → Bool) (s : List Byte) : (strtok delim s).1 = (tokens delim s)[0]? ∧
    (strtok delim (strtok delim s).2).1 = (tokens delim s)[1]? := by
  have h1 := strtok_tokens delim s
  have hnil : ∀ s, (strtok delim s).1 = none → (strtok delim s).2 = [] := by
    intro s h
    unfold strtok at h ⊢
    dsimp only at h ⊢
    split at h
    · rw [if_pos ‹_›]
    · cases h
  rcases hs : strtok delim s with ⟨_ | t, rest⟩
  · rw [hs] at h1
    have := hnil s (by rw [hs])
    rw [hs] at this
    obtain rfl : rest = [] := this
    rw [h1]
    exact ⟨rfl, rfl⟩
  · rw [hs] at h1
    have h2 := strtok_tokens delim rest
    dsimp only at h1 ⊢
    rw [h1]
    refine ⟨rfl, ?_⟩
    rw [List.getElem?_cons_succ, h2]
    rcases strtok delim rest with ⟨_ | t', rest'⟩ <;> rfl

end Tokens

/-! ## Numbers -/

def isspace (b : Byte) : Bool := [0x20, 0x09, 0x0A, 0x0B, 0x0C, 0x0D].contains b

def isdigit (b : Byte) : Bool := 0x30 ≤ b.toNat && b.toNat ≤ 0x39

/-- The decimal number a string starts with, cut to the range of an `int`. -/
def atoi (s : List Byte) : BitVec 32 :=
  let s := s.dropWhile isspace
  let number := fun s : List Byte => (s.takeWhile isdigit).foldl (fun n d => 10 * n + (d.toNat - 0x30)) 0
  if s.head? = some 0x2D then BitVec.ofInt 32 (-(min (number (s.drop 1)) (2 ^ 31) : Nat))
  else if s.head? = some 0x2B then BitVec.ofNat 32 (min (number (s.drop 1)) (2 ^ 31 - 1))
  else BitVec.ofNat 32 (min (number s) (2 ^ 31 - 1))

end N32905.Lib
