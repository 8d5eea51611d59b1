import Mathlib.Data.Vector.Basic
import Mathlib.Tactic.Positivity

/-!
# Fixed-size byte codecs and buffers

A `Codec α` writes every value of `α` as the same number of bytes and reads it
back from the front of any byte list (`dec_enc`). `u16` and `u32` are the
little-endian words of a C structure; `seq`, `vec` and `imap` build the codec of
a structure or an array from those of its parts.

`blit buf off data` is `memcpy(buf + off, data, |data|)` on a byte list, and
`memcpy` is the same with the bounds check C leaves to the caller: `none` is a
store outside the buffer.
-/

namespace N32905.Lib

abbrev Byte := BitVec 8

/-! ## Little-endian words -/

/-- The `w` low bytes of `n`, least significant first. -/
def leBytes : Nat → Nat → List Byte
  | 0, _ => []
  | w + 1, n => BitVec.ofNat 8 n :: leBytes w (n / 256)

/-- The number with the given bytes, least significant first. -/
def leVal : List Byte → Nat
  | [] => 0
  | b :: bs => b.toNat + 256 * leVal bs

@[simp] theorem length_leBytes (w n : Nat) : (leBytes w n).length = w := by
  induction w generalizing n with
  | zero => rfl
  | succ w ih => simp [leBytes, ih]

theorem leVal_leBytes (w n : Nat) : leVal (leBytes w n) = n % 2 ^ (8 * w) := by
  induction w generalizing n with
  | zero => simp [leBytes, leVal, Nat.mod_one]
  | succ w ih =>
    have h : 2 ^ (8 * (w + 1)) = 256 * 2 ^ (8 * w) := by
      rw [Nat.mul_succ, Nat.pow_add, Nat.mul_comm]
    rw [leBytes, leVal, ih, BitVec.toNat_ofNat, h, Nat.mod_mul]

theorem leBytes_leVal (l : List Byte) : leBytes l.length (leVal l) = l := by
  induction l with
  | nil => rfl
  | cons b l ih =>
    have hb := b.isLt
    have h1 : BitVec.ofNat 8 (leVal (b :: l)) = b := by
      apply BitVec.eq_of_toNat_eq
      rw [BitVec.toNat_ofNat, leVal]
      omega
    have h2 : leVal (b :: l) / 256 = leVal l := by
      rw [leVal]
      omega
    rw [List.length_cons, leBytes, h1, h2, ih]

theorem leVal_lt (l : List Byte) : leVal l < 2 ^ (8 * l.length) := by
  rw [← leBytes_leVal l, leVal_leBytes, length_leBytes]
  exact Nat.mod_lt _ (by positivity)

/-! ## Codecs -/

/-- A fixed-size byte representation that reads back from the front of any
byte list. -/
structure Codec (α : Type) where
  size : Nat
  enc : α → List Byte
  dec : List Byte → α
  length_enc (a : α) : (enc a).length = size
  dec_enc (a : α) (rest : List Byte) : dec (enc a ++ rest) = a

attribute [simp] Codec.length_enc Codec.dec_enc

namespace Codec

variable {α β : Type}

def word (w : Nat) : Codec (BitVec (8 * w)) where
  size := w
  enc v := leBytes w v.toNat
  dec l := BitVec.ofNat _ (leVal (l.take w))
  length_enc v := length_leBytes w v.toNat
  dec_enc v rest := by
    rw [List.take_left' (length_leBytes w v.toNat), leVal_leBytes]
    apply BitVec.eq_of_toNat_eq
    simp

theorem word_enc_dec (w : Nat) {l : List Byte} (h : w ≤ l.length) :
    (word w).enc ((word w).dec l) = l.take w := by
  have hlen : (l.take w).length = w := by rw [List.length_take, Nat.min_eq_left h]
  have hlt := leVal_lt (l.take w)
  rw [hlen] at hlt
  have := leBytes_leVal (l.take w)
  rw [hlen] at this
  simp only [word, BitVec.toNat_ofNat, Nat.mod_eq_of_lt hlt, this]

def u16 : Codec (BitVec 16) := word 2

def u32 : Codec (BitVec 32) := word 4

def seq (c : Codec α) (d : Codec β) : Codec (α × β) where
  size := c.size + d.size
  enc p := c.enc p.1 ++ d.enc p.2
  dec l := (c.dec l, d.dec (l.drop c.size))
  length_enc p := by simp
  dec_enc p rest := by
    rw [List.append_assoc, c.dec_enc, List.drop_left' (c.length_enc p.1), d.dec_enc]

/-- `n` values one after the other, read from the front of `l`. -/
def decList (c : Codec α) : Nat → List Byte → List α
  | 0, _ => []
  | n + 1, l => c.dec l :: c.decList n (l.drop c.size)

@[simp] theorem length_decList (c : Codec α) (n : Nat) (l : List Byte) :
    (c.decList n l).length = n := by
  induction n generalizing l with
  | zero => rfl
  | succ n ih => simp [decList, ih]

theorem decList_enc (c : Codec α) (as : List α) (rest : List Byte) :
    c.decList as.length (as.flatMap c.enc ++ rest) = as := by
  induction as with
  | nil => rfl
  | cons a as ih =>
    rw [List.length_cons, decList, List.flatMap_cons, List.append_assoc, c.dec_enc,
      List.drop_left' (c.length_enc a), ih]

theorem length_flatMap_enc (c : Codec α) (as : List α) :
    (as.flatMap c.enc).length = c.size * as.length := by
  induction as with
  | nil => simp
  | cons a as ih =>
    rw [List.flatMap_cons, List.length_append, ih, c.length_enc, List.length_cons, Nat.mul_succ,
      Nat.add_comm]

def vec (c : Codec α) (n : Nat) : Codec (List.Vector α n) where
  size := c.size * n
  enc v := v.toList.flatMap c.enc
  dec l := ⟨c.decList n l, c.length_decList n l⟩
  length_enc v := by rw [length_flatMap_enc, v.toList_length]
  dec_enc v rest := by
    apply List.Vector.eq
    have h := c.decList_enc v.toList rest
    rwa [v.toList_length] at h

def byte : Codec Byte where
  size := 1
  enc b := [b]
  dec l := l.headD 0
  length_enc _ := rfl
  dec_enc _ _ := rfl

/-- A structure by its fields: `f` takes it apart and `g` puts it together. -/
def imap (c : Codec α) (f : β → α) (g : α → β) (h : ∀ b, g (f b) = b) : Codec β where
  size := c.size
  enc b := c.enc (f b)
  dec l := g (c.dec l)
  length_enc b := c.length_enc (f b)
  dec_enc b rest := by rw [c.dec_enc, h]

end Codec

/-! ## Buffers -/

/-- `data` stored over the bytes of `buf` from offset `off` on. -/
def blit (buf : List Byte) (off : Nat) (data : List Byte) : List Byte :=
  buf.take off ++ data ++ buf.drop (off + data.length)

/-- `blit` with its bounds check: `none` is a store outside the buffer. -/
def memcpy (buf : List Byte) (off : Nat) (data : List Byte) : Option (List Byte) :=
  if off + data.length ≤ buf.length then some (blit buf off data) else none

theorem length_memcpy {buf buf' data : List Byte} {off : Nat} (h : memcpy buf off data = some buf') :
    buf'.length = buf.length := by
  unfold memcpy at h
  split at h
  · cases h
    simp only [blit, List.length_append, List.length_take, List.length_drop]
    omega
  · cases h

/-- A row of stores gets through when each of them fits the buffer. -/
theorem memcpys_isSome {stores : List (Nat × List Byte)} {buf : List Byte} :
    (stores.foldlM (fun b d => memcpy b d.1 d.2) buf).isSome ↔
      ∀ d ∈ stores, d.1 + d.2.length ≤ buf.length := by
  induction stores generalizing buf with
  | nil => simp
  | cons d stores ih =>
    rw [List.foldlM_cons, List.forall_mem_cons]
    cases h : memcpy buf d.1 d.2 with
    | none =>
      have hd : ¬ d.1 + d.2.length ≤ buf.length := by
        intro hd
        rw [memcpy, if_pos hd] at h
        cases h
      simp [hd]
    | some buf' =>
      have hd : d.1 + d.2.length ≤ buf.length := by
        unfold memcpy at h
        split at h
        · assumption
        · cases h
      rw [Option.bind_eq_bind, Option.bind_some, ih, length_memcpy h]
      exact ⟨fun hall => ⟨hd, hall⟩, fun hall => hall.2⟩

/-- Storing into the untouched tail of a filled buffer. -/
theorem memcpy_fill {done data : List Byte} {b : Byte} {off n : Nat} (hoff : done.length ≤ off)
    (hn : off + data.length ≤ done.length + n) :
    memcpy (done ++ List.replicate n b) off data =
      some (done ++ List.replicate (off - done.length) b ++ data ++
        List.replicate (done.length + n - (off + data.length)) b) := by
  have hlen : (done ++ List.replicate n b).length = done.length + n := by simp
  rw [memcpy, if_pos (by rw [hlen]; exact hn), blit]
  have htake : (done ++ List.replicate n b).take off =
      done ++ List.replicate (off - done.length) b := by
    rw [List.take_append, List.take_of_length_le hoff, List.take_replicate]
    congr 2; omega
  have hdrop : (done ++ List.replicate n b).drop (off + data.length) =
      List.replicate (done.length + n - (off + data.length)) b := by
    rw [List.drop_append, List.drop_of_length_le (by omega), List.drop_replicate, List.nil_append]
    congr 1; omega
  rw [htake, hdrop]

theorem memcpy_next {done data : List Byte} {b : Byte} {off n : Nat} (hoff : off = done.length)
    (hn : data.length ≤ n) :
    memcpy (done ++ List.replicate n b) off data =
      some (done ++ data ++ List.replicate (n - data.length) b) := by
  rw [memcpy_fill (by omega) (by omega), hoff, Nat.sub_self, List.replicate_zero, List.append_nil,
    Nat.add_sub_add_left]

/-! ## Spans -/

/-- The `len` bytes from offset `off` on. -/
structure Span where
  off : Nat
  len : Nat
  deriving DecidableEq

namespace Span

/-- The span lies in a buffer of `n` bytes. -/
def Inside (s : Span) (n : Nat) : Prop := s.off + s.len ≤ n

instance (s : Span) (n : Nat) : Decidable (s.Inside n) := inferInstanceAs (Decidable (_ ≤ _))

/-- No byte is in both spans. -/
def Disjoint (s t : Span) : Prop :=
  ∀ i, s.off ≤ i → i < s.off + s.len → ¬ (t.off ≤ i ∧ i < t.off + t.len)

theorem disjoint_iff {s t : Span} : s.Disjoint t ↔
    s.len = 0 ∨ t.len = 0 ∨ s.off + s.len ≤ t.off ∨ t.off + t.len ≤ s.off := by
  constructor
  · intro h
    have h1 := h s.off
    have h2 := h t.off
    omega
  · intro h i _ _
    omega

end Span

end N32905.Lib
