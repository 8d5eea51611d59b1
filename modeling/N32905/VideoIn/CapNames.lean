import N32905.VideoIn.Dsc

/-!
# The names of capture files

`DSC_NewCapFile` allocates `strlen(folder) + 8 + 3 + 10` bytes for the path of a file
`KRVmmddNNN.jpg`. The search for a free number stops behind 999, but the number it starts
with, the one of the index file plus one, is formatted and taken as it is.

The number is printed with `%03d`: from 2^31 on it is a negative one.
-/

namespace N32905.VideoIn

open N32905.Lib

/-! ## Formatted numbers -/

section Format
variable {i : Int} {n : BitVec 32}

def signChars (i : Int) : List Char := if i < 0 then ['-'] else []

theorem fmtInt_eq (w : Nat) (i : Int) : fmtInt w i = signChars i ++
    List.replicate (w - (signChars i).length - (Nat.toDigits 10 i.natAbs).length) '0' ++
    Nat.toDigits 10 i.natAbs := rfl

theorem fmtInt_length (w : Nat) (i : Int) :
    (fmtInt w i).length = max w ((signChars i).length + (Nat.toDigits 10 i.natAbs).length) := by
  rw [fmtInt_eq]
  simp only [List.length_append, List.length_replicate]
  omega

theorem signChars_length (i : Int) : (signChars i).length = if i < 0 then 1 else 0 := by
  unfold signChars
  split <;> rfl

theorem fmtInt_length_le (i : Int) :
    (fmtInt 3 i).length ≤ 8 ↔ -9999999 ≤ i ∧ i ≤ 99999999 := by
  have h7 := Nat.length_toDigits_le_iff (b := 10) (n := i.natAbs) (k := 7) (by omega) (by omega)
  have h8 := Nat.length_toDigits_le_iff (b := 10) (n := i.natAbs) (k := 8) (by omega) (by omega)
  rw [fmtInt_length, signChars_length]
  split <;> omega

def ThreeDigits (d : List Char) : Prop := d.length = 3 ∧ ∀ c ∈ d, c.isDigit = true

theorem threeDigits_fmtInt_iff (n : BitVec 32) :
    ThreeDigits (fmtInt 3 n.toInt) ↔ n.toNat ≤ 999 := by
  have hn := n.isLt
  have hint := BitVec.toInt_eq_toNat_cond n
  have h3 := Nat.length_toDigits_le_iff (b := 10) (n := n.toInt.natAbs) (k := 3) (by omega)
    (by omega)
  constructor
  · rintro ⟨hlen, hdigits⟩
    rw [fmtInt_length, signChars_length] at hlen
    by_cases hneg : n.toInt < 0
    · -- the sign is no digit
      have hsign : '-' ∈ fmtInt 3 n.toInt := by
        rw [fmtInt_eq, signChars, if_pos hneg]
        simp
      exact absurd (hdigits _ hsign) (by decide)
    · rw [if_neg hneg] at hlen
      split at hint <;> omega
  · intro hle
    have hnat : ¬ n.toInt < 0 ∧ n.toInt.natAbs < 10 ^ 3 := by
      split at hint <;> omega
    refine ⟨?_, ?_⟩
    · rw [fmtInt_length, signChars_length, if_neg hnat.1]
      omega
    · intro c hc
      rw [fmtInt_eq, signChars, if_neg hnat.1, List.nil_append, List.mem_append] at hc
      rcases hc with hc | hc
      · rw [List.eq_of_mem_replicate hc]
        rfl
      · exact Nat.isDigit_of_mem_toDigits (by omega) (by omega) hc

theorem fmtInt_injective {a b : Nat} (h : fmtInt 3 (a : Int) = fmtInt 3 (b : Int)) : a = b := by
  have hvalue : ∀ k : Nat, Nat.ofDigitChars 10 (fmtInt 3 (k : Int)) 0 = k := by
    intro k
    rw [fmtInt_eq, signChars, if_neg (by omega), List.nil_append, Nat.ofDigitChars_append,
      Nat.ofDigitChars_replicate_zero, Nat.mul_zero, Int.natAbs_natCast,
      Nat.ofDigitChars_ten_toDigits]
  rw [← hvalue a, h, hvalue b]

end Format

/-! ## Paths -/

/-- What `localtime` delivers. -/
def Date.Valid (d : Date) : Prop :=
  1 ≤ d.mon.toNat ∧ d.mon.toNat ≤ 12 ∧ 1 ≤ d.mday.toNat ∧ d.mday.toNat ≤ 31

/-- `KRVmmddNNN.jpg` in the folder. -/
def IsCapName (folder : Path) (date : Date) (path : Path) : Prop :=
  ∃ d, ThreeDigits d ∧ path = folder ++ ("/KRV".toList ++ fmtInt 2 date.mon.toInt ++
    fmtInt 2 date.mday.toInt ++ d ++ ".jpg".toList)

section Paths
variable {folder : Path} {date : Date} {n : BitVec 32}

theorem isCapName_capPath_iff : IsCapName folder date (capPath folder date n) ↔ n.toNat ≤ 999 := by
  rw [← threeDigits_fmtInt_iff]
  constructor
  · rintro ⟨d, hd, heq⟩
    have := List.append_cancel_right (List.append_cancel_left heq)
    rw [List.append_cancel_left this]
    exact hd
  · intro h
    exact ⟨_, h, rfl⟩

theorem fmtInt_two_length {x : BitVec 32} (h : x.toNat ≤ 31) : (fmtInt 2 x.toInt).length = 2 := by
  have hint := BitVec.toInt_eq_toNat_cond x
  rw [if_pos (by omega)] at hint
  have h2 := Nat.length_toDigits_le_iff (b := 10) (n := x.toInt.natAbs) (k := 2) (by omega)
    (by omega)
  rw [fmtInt_length, signChars_length, if_neg (by omega)]
  omega

theorem capPath_fits_iff (hdate : date.Valid) :
    (capPath folder date n).length + 1 ≤ folder.length + 21 ↔
      -9999999 ≤ n.toInt ∧ n.toInt ≤ 99999999 := by
  obtain ⟨-, hmon, -, hmday⟩ := hdate
  have h2 := fmtInt_two_length (x := date.mon) (by omega)
  have h3 := fmtInt_two_length (x := date.mday) (by omega)
  have hkrv : "/KRV".toList.length = 4 := rfl
  have hjpg : ".jpg".toList.length = 4 := rfl
  rw [← fmtInt_length_le, capPath]
  simp only [List.length_append]
  omega

theorem toInt_ofNat {k : Nat} (h : k < 2 ^ 31) : (BitVec.ofNat 32 k).toInt = k := by
  rw [BitVec.toInt_eq_toNat_cond, BitVec.toNat_ofNat]
  omega

theorem capPath_injective {a b : Nat} (ha : a < 2 ^ 31) (hb : b < 2 ^ 31)
    (h : capPath folder date (BitVec.ofNat 32 a) = capPath folder date (BitVec.ofNat 32 b)) :
    a = b := by
  have := List.append_cancel_left (List.append_cancel_right (List.append_cancel_left h))
  rw [toInt_ofNat ha, toInt_ofNat hb] at this
  exact fmtInt_injective this

theorem capPath_ne_idxPath : capPath folder date n ≠ idxPath folder := by
  intro h
  have hchars := congrArg (fun l : List Char => l[1]?) (List.append_cancel_left h)
  exact absurd hchars (by simp)

end Paths

/-! ## A call -/

/-- `s_sCurIdxElem` when the number is chosen. -/
def metIdxElem (folder : Path) (env : CapEnv) (s : Dsc) : Option DscIdxElem :=
  match getDSCIndexElem folder env.mallocIdx s.files with
  | .ok elem => some elem
  | .error .openIndexFile => some ⟨env.date.mon, env.date.mday, 0⟩
  | .error _ => none

/-- The number that is formatted first, if both allocations succeed. -/
def firstSeqNo (folder : Path) (env : CapEnv) (s : Dsc) : Option (BitVec 32) :=
  if env.mallocCap then (metIdxElem folder env s).map (startSeqNo env.date) else none

/-- A path is formatted into a buffer of `size` bytes. -/
inductive Formats (folder : Path) (env : CapEnv) (s : Dsc) : (path : Path) → (size : Nat) → Prop
  | index (h : env.mallocIdx = true) :
    Formats folder env s (idxPath folder) (folder.length + ".dsc.idx".length + 10)
  | cap {seqNo k n} (hfirst : firstSeqNo folder env s = some seqNo)
    (hn : after (capStep folder env.date s.files) seqNo k = some n) :
    Formats folder env s (capPath folder env.date n) (folder.length + 8 + 3 + 10)

/-- A file that is created has a name with three digits, and every path fits. -/
structure NamesFit (folder : Path) (env : CapEnv) (s : Dsc) : Prop where
  name : ∀ path n s', newCapFile folder env s = (.opened path n, s') →
    IsCapName folder env.date path
  fits : ∀ path size, Formats folder env s path size → path.length + 1 ≤ size

section Call
variable {folder path : Path} {env : CapEnv} {s s' : Dsc} {seqNo n : BitVec 32}

theorem newCapFile_of_met {elem : DscIdxElem} (h : metIdxElem folder env s = some elem) :
    newCapFile folder env s = newCapFileFrom folder env s.files elem := by
  unfold metIdxElem at h
  unfold newCapFile
  cases hget : getDSCIndexElem folder env.mallocIdx s.files with
  | ok e =>
    rw [hget] at h
    cases h
    rfl
  | error err =>
    rw [hget] at h
    cases err <;> cases h
    rfl

theorem newCapFile_of_not_met (h : metIdxElem folder env s = none) :
    ∃ err, newCapFile folder env s = (.failed err, s) := by
  unfold metIdxElem at h
  unfold newCapFile
  cases hget : getDSCIndexElem folder env.mallocIdx s.files with
  | ok e =>
    rw [hget] at h
    cases h
  | error err =>
    rw [hget] at h
    cases err with
    | openIndexFile => cases h
    | malloc | openCapFile => exact ⟨_, rfl⟩

theorem newCapFile_eq (h : firstSeqNo folder env s = some seqNo) :
    ∃ elem, newCapFile folder env s =
      match freeSeqNo folder env.date s.files seqNo with
      | none => (.failed .openCapFile, ⟨s.files, elem⟩)
      | some n =>
        if env.openCap then
          (.opened (capPath folder env.date n) n,
            ⟨Function.update s.files (capPath folder env.date n) (some []),
              ⟨env.date.mon, env.date.mday, n⟩⟩)
        else (.failed .openCapFile, ⟨s.files, elem⟩) := by
  unfold firstSeqNo at h
  split at h
  case isTrue hmalloc =>
    obtain ⟨elem, helem, rfl⟩ := Option.map_eq_some_iff.1 h
    refine ⟨elem, ?_⟩
    rw [newCapFile_of_met helem]
    exact if_pos hmalloc
  case isFalse => cases h

theorem newCapFile_failed (h : firstSeqNo folder env s = none) :
    ∃ err, (newCapFile folder env s).1 = .failed err := by
  unfold firstSeqNo at h
  cases hmet : metIdxElem folder env s with
  | none =>
    obtain ⟨err, heq⟩ := newCapFile_of_not_met hmet
    exact ⟨err, by rw [heq]⟩
  | some elem =>
    rw [hmet] at h
    split at h
    · cases h
    · rename_i hmalloc
      rw [newCapFile_of_met hmet, newCapFileFrom, if_neg hmalloc]
      exact ⟨_, rfl⟩

theorem opened_spec (h : newCapFile folder env s = (.opened path n, s')) :
    ∃ seqNo, firstSeqNo folder env s = some seqNo ∧
      freeSeqNo folder env.date s.files seqNo = some n ∧ env.openCap = true ∧
      path = capPath folder env.date n := by
  cases hfirst : firstSeqNo folder env s with
  | none =>
    obtain ⟨err, herr⟩ := newCapFile_failed hfirst
    rw [h] at herr
    cases herr
  | some seqNo =>
    obtain ⟨elem, heq⟩ := newCapFile_eq hfirst
    rw [h] at heq
    split at heq
    · cases heq
    · rename_i m hm
      split at heq
      · rename_i hopen
        cases heq
        exact ⟨seqNo, rfl, hm, hopen, rfl⟩
      · cases heq

theorem tried_cases {k : Nat} {files : Folder} {date : Date}
    (h : after (capStep folder date files) seqNo k = some n) : n = seqNo ∨ n.toNat ≤ 999 :=
  after_rule (P := fun m => m = seqNo ∨ m.toNat ≤ 999)
    (fun _ _ _ hb => .inr (capStep_next hb).2.2) (.inl rfl) h

theorem found_cases {files : Folder} {date : Date}
    (h : freeSeqNo folder date files seqNo = some n) : n = seqNo ∨ n.toNat ≤ 999 := by
  have hends : Ends (capStep folder date files) seqNo (some n) := h ▸ ends_freeSeqNo seqNo
  obtain ⟨m, hm, hb⟩ := hends.rule (P := fun m => m = seqNo ∨ m.toNat ≤ 999)
    (fun _ _ _ hb => .inr (capStep_next hb).2.2) (.inl rfl)
  obtain ⟨rfl, -⟩ := capStep_free hb
  exact hm

theorem freeSeqNo_of_free {files : Folder} {date : Date}
    (h : files (capPath folder date seqNo) = none) :
    freeSeqNo folder date files seqNo = some seqNo := by
  have hstep : capStep folder date files seqNo = .done (some seqNo) := by
    unfold capStep
    rw [h]
    rfl
  rw [freeSeqNo, iterate_done hstep]
  rfl

theorem newCapFile_of_free (hfirst : firstSeqNo folder env s = some seqNo)
    (hfree : s.files (capPath folder env.date seqNo) = none) (hopen : env.openCap = true) :
    newCapFile folder env s = (.opened (capPath folder env.date seqNo) seqNo,
      ⟨Function.update s.files (capPath folder env.date seqNo) (some []),
        ⟨env.date.mon, env.date.mday, seqNo⟩⟩) := by
  obtain ⟨elem, heq⟩ := newCapFile_eq hfirst
  rw [freeSeqNo_of_free hfree] at heq
  rw [heq]
  exact if_pos hopen

theorem toInt_fits (h : n.toNat ≤ 999) : -9999999 ≤ n.toInt ∧ n.toInt ≤ 99999999 := by
  have hint := BitVec.toInt_eq_toNat_cond n
  rw [if_pos (by omega)] at hint
  omega

theorem namesFit_iff (hdate : env.date.Valid) :
    NamesFit folder env s ↔ ∀ seqNo, firstSeqNo folder env s = some seqNo →
      seqNo.toNat ≤ 999 ∨ (-9999999 ≤ seqNo.toInt ∧ seqNo.toInt ≤ 99999999) ∧
        ((s.files (capPath folder env.date seqNo)).isSome ∨ env.openCap = false) := by
  constructor
  · intro h seqNo hfirst
    by_cases hle : seqNo.toNat ≤ 999
    · exact .inl hle
    · refine .inr ⟨?_, ?_⟩
      · have := h.fits _ _ (.cap (k := 0) hfirst rfl)
        exact (capPath_fits_iff hdate).1 this
      · by_contra hcon
        rw [not_or, Option.not_isSome_iff_eq_none, Bool.not_eq_false] at hcon
        have hopened := newCapFile_of_free hfirst hcon.1 hcon.2
        exact hle (isCapName_capPath_iff.1 (h.name _ _ _ hopened))
  · intro h
    refine ⟨fun path n s' hopened => ?_, fun path size hformats => ?_⟩
    · obtain ⟨seqNo, hfirst, hfree, hopen, rfl⟩ := opened_spec hopened
      rw [isCapName_capPath_iff]
      rcases found_cases hfree with rfl | hle
      · rcases h n hfirst with hle | ⟨-, hex | hclosed⟩
        · exact hle
        · rw [(freeSeqNo_spec hfree).1] at hex
          cases hex
        · rw [hopen] at hclosed
          cases hclosed
      · exact hle
    · cases hformats with
      | index => simp [idxPath]
      | @cap seqNo k n hfirst hn =>
        refine (capPath_fits_iff hdate).2 ?_
        rcases tried_cases hn with rfl | hle
        · rcases h n hfirst with hle | ⟨hfits, -⟩
          · exact toInt_fits hle
          · exact hfits
        · exact toInt_fits hle

end Call

/-! ## A day of captures -/

/-- `k` captures from an empty folder, each with the index written behind it. -/
def captureDay (folder : Path) (env : CapEnv) : Nat → Dsc
  | 0 => ⟨fun _ => none, ⟨0, 0, 0⟩⟩
  | k + 1 => closeCapFile folder (.wrote 12) (newCapFile folder env (captureDay folder env k)).2

/-- The allocations succeed and the new file can be opened. -/
def CapEnv.Succeeds (env : CapEnv) : Prop :=
  env.mallocIdx = true ∧ env.mallocCap = true ∧ env.openCap = true

section Day
variable {folder : Path} {env : CapEnv} {k : Nat}

/-- After `k` captures the next number is `k + 1`, and no file has that or a higher one. -/
structure DayInv (folder : Path) (env : CapEnv) (k : Nat) (s : Dsc) : Prop where
  first : firstSeqNo folder env s = some (BitVec.ofNat 32 (k + 1))
  free : ∀ m, k < m → m < 2 ^ 31 → s.files (capPath folder env.date (BitVec.ofNat 32 m)) = none

theorem firstSeqNo_of_met {s : Dsc} (henv : env.Succeeds)
    (h : metIdxElem folder env s = some ⟨env.date.mon, env.date.mday, BitVec.ofNat 32 k⟩) :
    firstSeqNo folder env s = some (BitVec.ofNat 32 (k + 1)) := by
  unfold firstSeqNo
  rw [if_pos henv.2.1, h, Option.map_some, startSeqNo]
  simp [BitVec.ofNat_add]

theorem dayInv_start (henv : env.Succeeds) : DayInv folder env 0 (captureDay folder env 0) where
  first := by
    refine firstSeqNo_of_met henv ?_
    unfold metIdxElem
    rw [henv.1]
    rfl
  free _ _ _ := rfl

theorem closeCapFile_index (s : Dsc) : (closeCapFile folder (.wrote 12) s).files (idxPath folder) =
    some (DscIdxElem.codec.enc s.curIdxElem) := by
  refine (Function.update_self _ _ _).trans (congrArg some (List.take_of_length_le ?_))
  exact Nat.le_of_eq (DscIdxElem.codec.length_enc _)

theorem DayInv.next {s : Dsc} (henv : env.Succeeds) (hk : k + 1 < 2 ^ 31)
    (h : DayInv folder env k s) :
    DayInv folder env (k + 1) (closeCapFile folder (.wrote 12) (newCapFile folder env s).2) := by
  rw [newCapFile_of_free h.first (h.free (k + 1) (Nat.lt_succ_self k) hk) henv.2.2]
  constructor
  · refine firstSeqNo_of_met henv ?_
    unfold metIdxElem
    rw [henv.1, getDSCIndexElem_enc (closeCapFile_index _)]
  · intro m hm hlt
    refine (Function.update_of_ne capPath_ne_idxPath _ _).trans ?_
    refine (Function.update_of_ne (fun hpath => ?_) _ _).trans (h.free m (by omega) hlt)
    have := capPath_injective hlt hk hpath
    omega

theorem dayInv (folder : Path) (k : Nat) (henv : env.Succeeds) (hk : k < 2 ^ 31) :
    DayInv folder env k (captureDay folder env k) := by
  induction k with
  | zero => exact dayInv_start henv
  | succ k ih => exact (ih (by omega)).next henv hk

end Day

/-- **The names of capture files** have three digits and fit, for every index and folder,
exactly if the first number is at most 999, or its path still fits and is not the one of
a new file. In a folder that was empty the first 999 captures of a day are those. -/
theorem capNames_fit_iff (folder : Path) (env : CapEnv) (hdate : env.date.Valid) :
    (∀ s, NamesFit folder env s ↔ ∀ seqNo, firstSeqNo folder env s = some seqNo →
      seqNo.toNat ≤ 999 ∨ (-9999999 ≤ seqNo.toInt ∧ seqNo.toInt ≤ 99999999) ∧
        ((s.files (capPath folder env.date seqNo)).isSome ∨ env.openCap = false)) ∧
    (env.Succeeds → ∀ k, (∀ j < k, NamesFit folder env (captureDay folder env j)) ↔ k ≤ 999) := by
  refine ⟨fun s => namesFit_iff hdate, fun henv k => ?_⟩
  have hseq : ∀ j ≤ 999, (BitVec.ofNat 32 (j + 1)).toNat = j + 1 := by
    intro j hj
    rw [BitVec.toNat_ofNat]
    omega
  constructor
  · intro h
    by_contra hk
    -- the capture after 999 of them
    have hinv := dayInv folder 999 henv (by omega)
    have h1000 := (namesFit_iff hdate).1 (h 999 (by omega)) _ hinv.first
    rw [hinv.free (999 + 1) (by omega) (by omega), henv.2.2, hseq 999 (Nat.le_refl _)] at h1000
    simp at h1000
  · intro hk j hj
    have hinv := dayInv folder j henv (by omega)
    refine (namesFit_iff hdate).2 fun seqNo hfirst => .inl ?_
    rw [hinv.first] at hfirst
    cases hfirst
    rw [hseq j (by omega)]
    omega

theorem capNames_fit_demo : NamesFit [] demoEnv (captureDay [] demoEnv 998) :=
  ((capNames_fit_iff [] demoEnv (by unfold Date.Valid; decide)).2 ⟨rfl, rfl, rfl⟩ 999).2
    (Nat.le_refl _) 998 (by omega)

/-- The capture after number 999 gets four digits; with a damaged index the path of the
first number is longer than its buffer. -/
theorem capNames_overflow :
    (newCapFile [] demoEnv (demoFolder [] ⟨1, 1, 999⟩)).1 =
        .opened "/KRV01011000.jpg".toList 1000 ∧
      ¬ NamesFit [] demoEnv (demoFolder [] ⟨1, 1, 999⟩) ∧
      Formats [] demoEnv (demoFolder [] ⟨1, 1, 0x7FFFFFFF⟩) "/KRV0101-2147483648.jpg".toList 21 ∧
      ¬ NamesFit [] demoEnv (demoFolder [] ⟨1, 1, 0x7FFFFFFF⟩) := by
  have hformats : Formats [] demoEnv (demoFolder [] ⟨1, 1, 0x7FFFFFFF⟩)
      (capPath [] ⟨1, 1⟩ 0x80000000) 21 := by
    have hfirst : firstSeqNo [] demoEnv (demoFolder [] ⟨1, 1, 0x7FFFFFFF⟩) = some 0x80000000 := by
      decide
    exact .cap (k := 0) hfirst rfl
  have hopened : (newCapFile [] demoEnv (demoFolder [] ⟨1, 1, 999⟩)).1 =
      .opened (capPath [] ⟨1, 1⟩ 1000) 1000 := by decide
  refine ⟨hopened, fun h => ?_, hformats, fun h => ?_⟩
  · have := isCapName_capPath_iff.1 (h.name _ _ _ (Prod.ext hopened rfl))
    exact absurd this (by decide)
  · exact absurd (h.fits _ _ hformats) (by decide)

end N32905.VideoIn
