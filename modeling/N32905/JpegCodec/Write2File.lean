import N32905.Lib.Codec
import N32905.Lib.Loop
import Mathlib.Data.Nat.Find

/-!
# `Write2File`

The loop that writes a buffer with `write`, as `jpeg_demo.c` has it and, word for
word, `cam_lib.c`. Both counters are `unsigned long`: the -1 of a failed call is
2^32 - 1, `wlen < 0` is never true, and the sum goes one back. After a failure of
the first call it is past the end at once, and the function returns 0 with an empty
file; later ones make it write a byte again.
-/

namespace N32905.JpegCodec

open N32905.Lib

/-! ## The model -/

/-- A call of `Write2File`: the buffer, and a length that is not negative and does
not exceed it. -/
structure WriteRequest where
  buffer : List Byte
  len : BitVec 32
  nonneg : 0 ≤ len.toInt
  fits : len.toNat ≤ buffer.length

/-- The results of the successive `write` calls: -1, or a positive count. A count
above what is asked for stands for all of it. -/
abbrev Writes := Nat → Option Nat

/-- How much `write` takes of `n > 0` bytes when it takes any. -/
def taken (c n : Nat) : Nat := min (c + 1) n

/-- `write(fd, data, ..)`: its result, and the file after it. -/
def write (result : Option Nat) (data file : List Byte) : BitVec 32 × List Byte :=
  match result with
  | none => (-1, file)
  | some c => (BitVec.ofNat 32 (taken c data.length), file ++ data.take (taken c data.length))

structure WriteState where
  totalcnt : BitVec 32
  file : List Byte
  calls : Nat

def write2FileBody (q : WriteRequest) (env : Writes) (s : WriteState) :
    Step WriteState (Int × List Byte) :=
  if s.totalcnt < q.len then
    let data := (q.buffer.drop s.totalcnt.toNat).take (q.len - s.totalcnt).toNat
    let (wlen, file) := write (env s.calls) data s.file
    if wlen < 0 then .done (-1, file)
    else .next ⟨s.totalcnt + wlen, file, s.calls + 1⟩
  else .done (0, s.file)

def write2FileStart : WriteState := ⟨0, [], 0⟩

/-- A call of `Write2File` returns `ret` and leaves the file `file`, `none` if it could
not be opened. -/
def write2FileLoop (q : WriteRequest) (opened : Bool) (env : Writes) (ret : Int)
    (file : Option (List Byte)) : Prop :=
  if opened then ∃ f, file = some f ∧ Ends (write2FileBody q env) write2FileStart (ret, f)
  else ret = -1 ∧ file = none

def write2File := write2FileLoop

def camLibWrite2File := write2FileLoop

/-! ## What is promised -/

/-- Some `write` of the call is made and returns -1. -/
def SomeWriteFails (q : WriteRequest) (opened : Bool) (env : Writes) : Prop :=
  opened ∧ ∃ k s, after (write2FileBody q env) write2FileStart k = some s ∧
    s.totalcnt < q.len ∧ env s.calls = none

/-- The function returns 0 only with the whole buffer in the file, and -1 if a `write`
fails. -/
def TellsTruth (returns : Int → Option (List Byte) → Prop) (q : WriteRequest) (opened : Bool)
    (env : Writes) : Prop :=
  (∀ ret file, returns ret file → ret = 0 → file = some (q.buffer.take q.len.toNat)) ∧
    (SomeWriteFails q opened env → ∃ file, returns (-1) file)

def progress (env : Writes) (len : Nat) : Nat → Nat
  | 0 => 0
  | k + 1 =>
    progress env len k +
      match env k with
      | none => 0
      | some c => taken c (len - progress env len k)

/-- No result is -1 before the results make up the length. -/
def NoFailure (env : Writes) (len : Nat) : Prop := ∀ k, progress env len k < len → env k ≠ none

theorem taken_le (c n : Nat) : taken c n ≤ n := Nat.min_le_right _ _

theorem taken_pos (c : Nat) {n : Nat} (h : 0 < n) : 0 < taken c n :=
  Nat.lt_min.2 ⟨Nat.succ_pos c, h⟩

theorem progress_le (env : Writes) (len k : Nat) : progress env len k ≤ len := by
  induction k with
  | zero => exact Nat.zero_le _
  | succ k ih =>
    rw [progress]
    cases env k with
    | none => exact ih
    | some c =>
      have := taken_le c (len - progress env len k)
      dsimp only
      omega

theorem progress_mono (env : Writes) (len : Nat) {j k : Nat} (h : j ≤ k) :
    progress env len j ≤ progress env len k := by
  induction h with
  | refl => exact Nat.le_refl _
  | step _ ih => exact Nat.le_trans ih (Nat.le_add_right _ _)

/-! ## The loop without failures -/

section Loop
variable {q : WriteRequest} {env : Writes} {s s' : WriteState} {k : Nat}

/-- After `k` successful calls. -/
structure Sound (q : WriteRequest) (env : Writes) (k : Nat) (s : WriteState) : Prop where
  totalcnt : s.totalcnt.toNat = progress env q.len.toNat k
  file : s.file = q.buffer.take (progress env q.len.toNat k)
  calls : s.calls = k

theorem not_wlen_lt_zero (wlen : BitVec 32) : ¬ wlen < 0 := BitVec.not_lt_zero

theorem sound_start : Sound q env 0 write2FileStart := ⟨rfl, rfl, rfl⟩

theorem Sound.next (h : Sound q env k s) (hlt : progress env q.len.toNat k < q.len.toNat) {c : Nat}
    (hc : env k = some c) : ∃ s', write2FileBody q env s = .next s' ∧ Sound q env (k + 1) s' := by
  obtain ⟨htotal, hfile, hcalls⟩ := h
  have hfits := q.fits
  have hlen := q.len.isLt
  have hguard : s.totalcnt < q.len := by
    rw [BitVec.lt_def]
    omega
  have hcount : (q.len - s.totalcnt).toNat = q.len.toNat - progress env q.len.toNat k := by
    rw [BitVec.toNat_sub]
    omega
  have hdata : ((q.buffer.drop s.totalcnt.toNat).take (q.len - s.totalcnt).toNat).length =
      q.len.toNat - progress env q.len.toNat k := by
    rw [List.length_take, List.length_drop, hcount]
    omega
  have hprog : progress env q.len.toNat (k + 1) = progress env q.len.toNat k +
      taken c (q.len.toNat - progress env q.len.toNat k) := by
    rw [progress, hc]
  have hle := progress_le env q.len.toNat (k + 1)
  have hbody : write2FileBody q env s = .next
      ⟨s.totalcnt + BitVec.ofNat 32 (taken c (q.len.toNat - progress env q.len.toNat k)),
        s.file ++ ((q.buffer.drop s.totalcnt.toNat).take (q.len - s.totalcnt).toNat).take
          (taken c (q.len.toNat - progress env q.len.toNat k)), s.calls + 1⟩ := by
    rw [← hdata]
    unfold write2FileBody
    rw [if_pos hguard, hcalls, hc]
    exact if_neg (not_wlen_lt_zero _)
  have htaken := taken_le c (q.len.toNat - progress env q.len.toNat k)
  refine ⟨_, hbody, ?_, ?_, ?_⟩
  · rw [BitVec.toNat_add, BitVec.toNat_ofNat, hprog, htotal]
    omega
  · rw [hprog, List.take_add, hfile, htotal, hcount, List.take_take, Nat.min_eq_left htaken]
  · exact congrArg (· + 1) hcalls

theorem Sound.done (h : Sound q env k s) (hge : ¬ progress env q.len.toNat k < q.len.toNat) :
    write2FileBody q env s = .done (0, q.buffer.take q.len.toNat) := by
  have hle := progress_le env q.len.toNat k
  have hguard : ¬ s.totalcnt < q.len := by
    rw [BitVec.lt_def, h.totalcnt]
    exact hge
  unfold write2FileBody
  rw [if_neg hguard, h.file, Nat.le_antisymm hle (Nat.not_lt.1 hge)]

/-- **Without failures** the loop ends with the whole buffer in the file. -/
theorem Sound.ends (hno : NoFailure env q.len.toNat) (h : Sound q env k s) :
    Ends (write2FileBody q env) s (0, q.buffer.take q.len.toNat) := by
  -- on the bytes still to be written
  induction hn : q.len.toNat - progress env q.len.toNat k using Nat.strong_induction_on
    generalizing k s with
  | _ n ih =>
    by_cases hlt : progress env q.len.toNat k < q.len.toNat
    · obtain ⟨c, hc⟩ := Option.ne_none_iff_exists'.1 (hno k hlt)
      obtain ⟨s', hbody, h'⟩ := h.next hlt hc
      have hprog : progress env q.len.toNat k < progress env q.len.toNat (k + 1) := by
        have := taken_pos c (Nat.sub_pos_of_lt hlt)
        rw [progress, hc]
        dsimp only
        omega
      rw [ends_next hbody]
      exact ih _ (by omega) h' rfl
    · rw [ends_done (h.done hlt)]

theorem after_sound (hok : ∀ j < k, progress env q.len.toNat j < q.len.toNat ∧ env j ≠ none) :
    ∃ s, after (write2FileBody q env) write2FileStart k = some s ∧ Sound q env k s := by
  induction k with
  | zero => exact ⟨_, rfl, sound_start⟩
  | succ k ih =>
    obtain ⟨s, hs, h⟩ := ih fun j hj => hok j (by omega)
    obtain ⟨hlt, hne⟩ := hok k (by omega)
    obtain ⟨c, hc⟩ := Option.ne_none_iff_exists'.1 hne
    obtain ⟨s', hbody, h'⟩ := h.next hlt hc
    exact ⟨s', after_succ.2 ⟨s, hs, hbody⟩, h'⟩

theorem lt_of_next (h : write2FileBody q env s = .next s') : s.totalcnt < q.len := by
  by_contra hge
  unfold write2FileBody at h
  rw [if_neg hge] at h
  cases h

theorem sound_of_after (hno : NoFailure env q.len.toNat)
    (h : after (write2FileBody q env) write2FileStart k = some s) : Sound q env k s := by
  induction k generalizing s with
  | zero =>
    cases h
    exact sound_start
  | succ k ih =>
    obtain ⟨t, ht, hb⟩ := after_succ.1 h
    have hsound := ih ht
    have hlt : progress env q.len.toNat k < q.len.toNat := by
      rw [← hsound.totalcnt]
      exact lt_of_next hb
    obtain ⟨c, hc⟩ := Option.ne_none_iff_exists'.1 (hno k hlt)
    obtain ⟨s', hbody, h'⟩ := hsound.next hlt hc
    rw [hbody] at hb
    cases hb
    exact h'

/-- `wlen < 0` is never true: a call whose file was opened never returns -1. -/
theorem ret_eq_zero {out : Int × List Byte} (h : Ends (write2FileBody q env) s out) :
    out.1 = 0 := by
  obtain ⟨s, -, hs⟩ := h.rule (P := fun _ => True) (fun _ _ _ _ => trivial) trivial
  unfold write2FileBody at hs
  split at hs
  · dsimp only at hs
    rw [if_neg (not_wlen_lt_zero _)] at hs
    cases hs
  · cases hs
    rfl

end Loop

section Truth
variable {q : WriteRequest} {env : Writes}

theorem write2FileLoop_file {ret : Int} {file : Option (List Byte)} (hno : NoFailure env q.len.toNat)
    (h : write2FileLoop q true env ret file) : file = some (q.buffer.take q.len.toNat) := by
  obtain ⟨f, rfl, hends⟩ := h
  exact congrArg (fun out : Int × List Byte => some out.2) (hends.unique (sound_start.ends hno))

theorem tellsTruth_of_noFailure (hno : NoFailure env q.len.toNat) :
    TellsTruth (write2FileLoop q true env) q true env := by
  constructor
  · intro ret file h _
    exact write2FileLoop_file hno h
  · rintro ⟨-, k, s, hs, hlt, hnone⟩
    have hsound := sound_of_after hno hs
    rw [hsound.calls] at hnone
    refine absurd hnone (hno k ?_)
    rw [← hsound.totalcnt]
    exact hlt

theorem someWriteFails_of_failure (hno : ¬ NoFailure env q.len.toNat) :
    SomeWriteFails q true env := by
  unfold NoFailure at hno
  push Not at hno
  classical
  have hfirst := Nat.find_spec hno
  have hbefore : ∀ j < Nat.find hno, progress env q.len.toNat j < q.len.toNat ∧ env j ≠ none := by
    intro j hj
    have hmono := progress_mono env q.len.toNat (Nat.le_of_lt hj)
    have hlt : progress env q.len.toNat j < q.len.toNat := by omega
    exact ⟨hlt, fun hnone => Nat.find_min hno hj ⟨hlt, hnone⟩⟩
  obtain ⟨s, hs, hsound⟩ := after_sound hbefore
  refine ⟨rfl, _, s, hs, ?_, ?_⟩
  · rw [BitVec.lt_def, hsound.totalcnt]
    exact hfirst.1
  · rw [hsound.calls]
    exact hfirst.2

theorem tellsTruth_iff (q : WriteRequest) (opened : Bool) (env : Writes) :
    TellsTruth (write2FileLoop q opened env) q opened env ↔
      (opened = true → NoFailure env q.len.toNat) := by
  cases opened with
  | false =>
    refine iff_of_true ⟨?_, fun hfail => absurd hfail.1 Bool.false_ne_true⟩
      (fun h => absurd h Bool.false_ne_true)
    rintro ret file ⟨rfl, -⟩ h0
    exact absurd h0 (by decide)
  | true =>
    simp only [forall_const]
    refine ⟨?_, tellsTruth_of_noFailure⟩
    rintro ⟨-, hfails⟩
    by_contra hno
    obtain ⟨file, f, -, hends⟩ := hfails (someWriteFails_of_failure hno)
    cases ret_eq_zero hends

end Truth

/-- **`Write2File`, both copies**, tells the truth exactly if no `write` that is made
fails. -/
theorem write2File_tells_truth_iff (q : WriteRequest) (opened : Bool) (env : Writes) :
    (TellsTruth (write2File q opened env) q opened env ↔
      (opened = true → NoFailure env q.len.toNat)) ∧
    (TellsTruth (camLibWrite2File q opened env) q opened env ↔
      (opened = true → NoFailure env q.len.toNat)) :=
  ⟨tellsTruth_iff q opened env, tellsTruth_iff q opened env⟩

def threeBytes : WriteRequest := ⟨[1, 2, 3], 3, by decide, by decide⟩

/-- The first `write` fails: both copies return 0 and leave an empty file. If it fails
after two bytes, the second one is written again. -/
theorem write2File_hides_failure :
    write2File threeBytes true (fun _ => none) 0 (some []) ∧
    camLibWrite2File threeBytes true (fun _ => none) 0 (some []) ∧
    write2File threeBytes true (fun k => if k = 1 then none else some 1) 0 (some [1, 2, 2, 3]) ∧
    ¬ TellsTruth (write2File threeBytes true fun _ => none) threeBytes true (fun _ => none) ∧
    ¬ TellsTruth (camLibWrite2File threeBytes true fun _ => none) threeBytes true
      (fun _ => none) := by
  have hempty : Ends (write2FileBody threeBytes fun _ => none) write2FileStart (0, []) := ⟨2, rfl⟩
  have hfalse : ¬ TellsTruth (write2FileLoop threeBytes true fun _ => none) threeBytes true
      (fun _ => none) := by
    intro h
    exact absurd (h.1 0 (some []) ⟨[], rfl, hempty⟩ rfl) (by decide)
  exact ⟨⟨[], rfl, hempty⟩, ⟨[], rfl, hempty⟩, ⟨_, rfl, 4, rfl⟩, hfalse, hfalse⟩

end N32905.JpegCodec
