import N32905.Lib.Codec
import N32905.Lib.Loop
import Mathlib.Logic.Function.Basic

/-!
# Capture files

`dsc.c` numbers the pictures of a day. The last number is kept in an index file
beside them, in a static copy of it, and in the names of the pictures; any two of
the three may disagree when a write failed, the date changed or somebody removed
a file.

A path is the text `sprintf` makes; `CapNames` says when it fits in its buffer.
`stat` returns 0 exactly for the paths that exist.
-/

namespace N32905.VideoIn

open N32905.Lib

/-! ## The model -/

structure DscIdxElem where
  mon : BitVec 32
  mday : BitVec 32
  seqNo : BitVec 32
  deriving DecidableEq

def DscIdxElem.codec : Codec DscIdxElem :=
  (Codec.u32.seq (Codec.u32.seq Codec.u32)).imap (fun e => (e.mon, e.mday, e.seqNo))
    (fun p => ⟨p.1, p.2.1, p.2.2⟩) (fun _ => rfl)

abbrev Path := List Char

abbrev Folder := Path → Option (List Byte)

/-- `tm_mon + 1` and `tm_mday` of the local time. -/
structure Date where
  mon : BitVec 32
  mday : BitVec 32
  deriving DecidableEq

/-- `%0wd`: the sign, then zeros up to the width `w`. -/
def fmtInt (w : Nat) (n : Int) : List Char :=
  let sign := if n < 0 then ['-'] else []
  let digits := Nat.toDigits 10 n.natAbs
  sign ++ List.replicate (w - sign.length - digits.length) '0' ++ digits

def idxPath (folder : Path) : Path := folder ++ "/.dsc.idx".toList

/-- `"%s/KRV%02d%02d%03d.jpg"`; `%d` takes the number for a signed one. -/
def capPath (folder : Path) (date : Date) (seqNo : BitVec 32) : Path :=
  folder ++ ("/KRV".toList ++ fmtInt 2 date.mon.toInt ++ fmtInt 2 date.mday.toInt ++
    fmtInt 3 seqNo.toInt ++ ".jpg".toList)

/-- The files and `s_sCurIdxElem`. -/
structure Dsc where
  files : Folder
  curIdxElem : DscIdxElem

inductive Err where
  | malloc | openIndexFile | openCapFile
  deriving DecidableEq

/-- What a call of `DSC_NewCapFile` meets: the date, whether the allocations of the
path buffer succeed and whether the new file can be opened. -/
structure CapEnv where
  date : Date
  mallocIdx : Bool
  mallocCap : Bool
  openCap : Bool

/-- The element `GetDSCIndexElem` reads into `s_sCurIdxElem`. -/
def getDSCIndexElem (folder : Path) (malloc : Bool) (files : Folder) : Except Err DscIdxElem :=
  if malloc then
    match files (idxPath folder) with
    | none => .error .openIndexFile
    | some content =>
      if DscIdxElem.codec.size ≤ content.length then .ok (DscIdxElem.codec.dec content)
      else .error .openIndexFile
  else .error .malloc

def startSeqNo (date : Date) (elem : DscIdxElem) : BitVec 32 :=
  if elem.mon ≠ date.mon ∨ elem.mday ≠ date.mday then 0 else elem.seqNo + 1

/-- One pass of the `while(stat(..) == 0)` loop; `none` is the return behind 999. -/
def capStep (folder : Path) (date : Date) (files : Folder) (seqNo : BitVec 32) :
    Step (BitVec 32) (Option (BitVec 32)) :=
  if (files (capPath folder date seqNo)).isSome then
    if seqNo + 1 > 999 then .done none else .next (seqNo + 1)
  else .done (some seqNo)

/-- The number of the new file. The loop makes at most 1002 passes. -/
def freeSeqNo (folder : Path) (date : Date) (files : Folder) (seqNo : BitVec 32) :
    Option (BitVec 32) :=
  (iterate (capStep folder date files) 1002 seqNo).join

inductive CapResult where
  | opened (path : Path) (seqNo : BitVec 32)
  | failed (err : Err)
  deriving DecidableEq

/-- `DSC_NewCapFile` once `s_sCurIdxElem` is set to `elem`. -/
def newCapFileFrom (folder : Path) (env : CapEnv) (files : Folder) (elem : DscIdxElem) :
    CapResult × Dsc :=
  if env.mallocCap then
    match freeSeqNo folder env.date files (startSeqNo env.date elem) with
    | none => (.failed .openCapFile, ⟨files, elem⟩)
    | some seqNo =>
      if env.openCap then
        let path := capPath folder env.date seqNo
        -- O_CREAT | O_TRUNC
        (.opened path seqNo, ⟨Function.update files path (some []),
          ⟨env.date.mon, env.date.mday, seqNo⟩⟩)
      else (.failed .openCapFile, ⟨files, elem⟩)
  else (.failed .malloc, ⟨files, elem⟩)

def newCapFile (folder : Path) (env : CapEnv) (s : Dsc) : CapResult × Dsc :=
  match getDSCIndexElem folder env.mallocIdx s.files with
  | .ok elem => newCapFileFrom folder env s.files elem
  | .error .openIndexFile => newCapFileFrom folder env s.files ⟨env.date.mon, env.date.mday, 0⟩
  | .error err => (.failed err, s)

/-- How `UpdateDSCIndexFile` ends: the index cannot be opened, or the first `n`
bytes reach the truncated file. -/
inductive IndexWrite where
  | openFails
  | wrote (n : Nat)

def updateDSCIndexFile (folder : Path) (w : IndexWrite) (s : Dsc) : Dsc :=
  match w with
  | .openFails => s
  | .wrote n =>
    let content := (DscIdxElem.codec.enc s.curIdxElem).take n
    { s with files := Function.update s.files (idxPath folder) (some content) }

def closeCapFile (folder : Path) (w : IndexWrite) (s : Dsc) : Dsc := updateDSCIndexFile folder w s

/-- A call of the program, or a change of a file by somebody else. -/
inductive Event where
  | newCap (env : CapEnv)
  | closeCap (w : IndexWrite)
  | others (path : Path) (content : Option (List Byte))

def Event.step (folder : Path) (s : Dsc) : Event → Dsc
  | .newCap env => (newCapFile folder env s).2
  | .closeCap w => closeCapFile folder w s
  | .others path content => { s with files := Function.update s.files path content }

def runEvents (folder : Path) (s : Dsc) (es : List Event) : Dsc := es.foldl (Event.step folder) s

/-! ## The search for a free number -/

section Search
variable {folder : Path} {date : Date} {files : Folder} {seqNo n : BitVec 32}

/-- A pass that goes on has met a file, and the next number is at most 999. -/
theorem capStep_next (h : capStep folder date files seqNo = .next n) :
    (files (capPath folder date seqNo)).isSome ∧ n = seqNo + 1 ∧ n.toNat ≤ 999 := by
  unfold capStep at h
  split at h
  case isTrue hs =>
    split at h
    case isTrue => cases h
    case isFalse hle =>
      cases h
      exact ⟨hs, rfl, Nat.le_of_not_lt hle⟩
  case isFalse => cases h

theorem capStep_free (h : capStep folder date files seqNo = .done (some n)) :
    n = seqNo ∧ files (capPath folder date seqNo) = none := by
  unfold capStep at h
  split at h
  · split at h <;> cases h
  · cases h
    exact ⟨rfl, Option.not_isSome_iff_eq_none.1 ‹_›⟩

theorem succ_toNat (x : BitVec 32) :
    (x + 1).toNat = x.toNat + 1 ∨ (x.toNat = 2 ^ 32 - 1 ∧ (x + 1).toNat = 0) := by
  have h1 : (1 : BitVec 32).toNat = 1 := rfl
  have := x.isLt
  rw [BitVec.toNat_add, h1]
  omega

/-- The passes a search may still make. Only the first can start above 999, and
only from the last number does it come back to 0. -/
def passesLeft (seqNo : BitVec 32) : Nat :=
  if seqNo.toNat = 2 ^ 32 - 1 then 1001 else 1000 - seqNo.toNat

theorem passesLeft_next (seqNo n : BitVec 32) (h : capStep folder date files seqNo = .next n) :
    passesLeft n < passesLeft seqNo := by
  obtain ⟨-, rfl, hle⟩ := capStep_next h
  have := succ_toNat seqNo
  unfold passesLeft
  rw [if_neg (by omega)]
  split <;> omega

/-- **The search ends**: with a number, or with the return behind 999. -/
theorem ends_freeSeqNo (seqNo : BitVec 32) :
    Ends (capStep folder date files) seqNo (freeSeqNo folder date files seqNo) := by
  have hlt : passesLeft seqNo < 1002 := by
    unfold passesLeft
    split <;> omega
  have hsome : (iterate (capStep folder date files) 1002 seqNo).isSome :=
    iterate_isSome passesLeft_next hlt
  obtain ⟨r, hr⟩ := Option.isSome_iff_exists.1 hsome
  rw [freeSeqNo, hr]
  exact ⟨1002, hr⟩

/-- **The number found** belongs to no file. It is the first one tried, or the search
has met that one's file and counted up from it. -/
theorem freeSeqNo_spec (h : freeSeqNo folder date files seqNo = some n) :
    files (capPath folder date n) = none ∧
      (n = seqNo ∨ (files (capPath folder date seqNo)).isSome ∧
        (seqNo.toNat < n.toNat ∨ seqNo.toNat = 2 ^ 32 - 1)) := by
  have hends : Ends (capStep folder date files) seqNo (some n) := h ▸ ends_freeSeqNo seqNo
  -- along the loop: at the first number, or behind it and at most 999
  let P : BitVec 32 → Prop := fun m => m = seqNo ∨ (files (capPath folder date seqNo)).isSome ∧
    m.toNat ≤ 999 ∧ (seqNo.toNat < m.toNat ∨ seqNo.toNat = 2 ^ 32 - 1)
  have hnext : ∀ m m', P m → capStep folder date files m = .next m' → P m' := by
    intro m m' hm hb
    obtain ⟨hs, rfl, hle⟩ := capStep_next hb
    have := succ_toNat m
    rcases hm with rfl | ⟨hex, hm, hgt⟩
    · exact .inr ⟨hs, hle, by omega⟩
    · exact .inr ⟨hex, hle, by omega⟩
  obtain ⟨m, hm, hb⟩ := hends.rule hnext (.inl rfl)
  obtain ⟨rfl, hfree⟩ := capStep_free hb
  exact ⟨hfree, hm.imp_right fun h => ⟨h.1, h.2.2⟩⟩

end Search

/-! ## Captures -/

section Captures
variable {folder path : Path} {env : CapEnv} {s s' : Dsc} {n : BitVec 32}

theorem newCapFileFrom_opened {files : Folder} {elem : DscIdxElem}
    (h : newCapFileFrom folder env files elem = (.opened path n, s')) :
    freeSeqNo folder env.date files (startSeqNo env.date elem) = some n ∧
      path = capPath folder env.date n ∧ s'.curIdxElem = ⟨env.date.mon, env.date.mday, n⟩ := by
  unfold newCapFileFrom at h
  split at h
  · split at h
    · cases h
    · split at h
      · cases h
        exact ⟨‹_›, rfl, rfl⟩
      · cases h
  · cases h

theorem newCapFile_opened (h : newCapFile folder env s = (.opened path n, s')) :
    ∃ elem, (∀ e, getDSCIndexElem folder true s.files = .ok e → e = elem) ∧
      freeSeqNo folder env.date s.files (startSeqNo env.date elem) = some n ∧
      path = capPath folder env.date n ∧ s'.curIdxElem = ⟨env.date.mon, env.date.mday, n⟩ := by
  unfold newCapFile at h
  cases hm : env.mallocIdx with
  | false =>
    rw [hm] at h
    cases h
  | true =>
    rw [hm] at h
    cases hg : getDSCIndexElem folder true s.files with
    | ok elem =>
      rw [hg] at h
      refine ⟨elem, ?_, newCapFileFrom_opened h⟩
      rintro _ ⟨⟩
      rfl
    | error err =>
      rw [hg] at h
      cases err with
      | openIndexFile => exact ⟨_, (fun e he => nomatch he), newCapFileFrom_opened h⟩
      | malloc | openCapFile => cases h

/-- A complete index file reads back as the element it was written from. -/
theorem getDSCIndexElem_enc {files : Folder} {elem : DscIdxElem}
    (h : files (idxPath folder) = some (DscIdxElem.codec.enc elem)) :
    getDSCIndexElem folder true files = .ok elem := by
  have hdec := DscIdxElem.codec.dec_enc elem []
  rw [List.append_nil] at hdec
  simp only [getDSCIndexElem, if_true, h, DscIdxElem.codec.length_enc, Nat.le_refl, hdec]

theorem runEvents_others {es : List Event} (h : ∀ e ∈ es, ∃ path content, e = .others path content) :
    (runEvents folder s es).curIdxElem = s.curIdxElem := by
  induction es generalizing s with
  | nil => rfl
  | cons e es ih =>
    obtain ⟨path, content, rfl⟩ := h e List.mem_cons_self
    exact ih fun e he => h e (List.mem_cons_of_mem _ he)

/-- A capture, what others do before its close, and the events up to a second
capture. -/
structure TwoCaptures where
  env₁ : CapEnv
  mid₁ : List Event
  mid₂ : List Event
  env₂ : CapEnv

namespace TwoCaptures

/-- The state after the close of the first capture, with all 12 bytes of the index
written. -/
def closed (c : TwoCaptures) (folder : Path) (s : Dsc) : Dsc :=
  closeCapFile folder (.wrote 12) (runEvents folder (newCapFile folder c.env₁ s).2 c.mid₁)

def met (c : TwoCaptures) (folder : Path) (s : Dsc) : Dsc :=
  runEvents folder (c.closed folder s) c.mid₂

/-- Both captures succeed on one day, with the numbers `n₁` and `n₂`, and the second
meets the index of the first. -/
structure Consecutive (c : TwoCaptures) (folder : Path) (s : Dsc) (n₁ n₂ : BitVec 32) : Prop where
  first : ∃ path, (newCapFile folder c.env₁ s).1 = .opened path n₁
  others : ∀ e ∈ c.mid₁, ∃ path content, e = .others path content
  intact : (c.met folder s).files (idxPath folder) = (c.closed folder s).files (idxPath folder)
  second : ∃ path, (newCapFile folder c.env₂ (c.met folder s)).1 = .opened path n₂
  sameDay : c.env₂.date = c.env₁.date

variable {c : TwoCaptures} {n₁ n₂ : BitVec 32}

theorem Consecutive.startSeqNo (h : c.Consecutive folder s n₁ n₂) :
    freeSeqNo folder c.env₂.date (c.met folder s).files (n₁ + 1) = some n₂ := by
  obtain ⟨path₁, h1⟩ := h.first
  obtain ⟨path₂, h2⟩ := h.second
  obtain ⟨-, -, -, -, hcur⟩ := newCapFile_opened (Prod.ext h1 rfl)
  obtain ⟨elem, helem, hfree, -⟩ := newCapFile_opened (Prod.ext h2 rfl)
  have hidx : (c.met folder s).files (idxPath folder) =
      some (DscIdxElem.codec.enc ⟨c.env₁.date.mon, c.env₁.date.mday, n₁⟩) := by
    rw [h.intact, closed, closeCapFile, updateDSCIndexFile]
    simp only [Function.update_self, runEvents_others h.others, hcur]
    exact congrArg some (List.take_of_length_le (Nat.le_of_eq (DscIdxElem.codec.length_enc _)))
  rw [← helem _ (getDSCIndexElem_enc hidx), ← h.sameDay] at hfree
  simpa [VideoIn.startSeqNo] using hfree

end TwoCaptures

/-- **No capture is overwritten**, in any run: a new file did not exist, and the
numbers of a day grow as long as the index file is kept. The one exception is the
last number, whose file sends the search back to 0. -/
theorem captures_never_overwritten (folder : Path) (s : Dsc) (pre : List Event) :
    (∀ env path n s', newCapFile folder env (runEvents folder s pre) = (.opened path n, s') →
      (runEvents folder s pre).files path = none) ∧
    ∀ (c : TwoCaptures) (n₁ n₂ : BitVec 32), c.Consecutive folder (runEvents folder s pre) n₁ n₂ →
      n₁.toNat < 2 ^ 32 - 1 →
      (n₁.toNat = 2 ^ 32 - 2 → (c.met folder (runEvents folder s pre)).files
        (capPath folder c.env₂.date (n₁ + 1)) = none) →
      n₁.toNat < n₂.toNat := by
  constructor
  · intro env path n s' h
    obtain ⟨elem, -, hfree, rfl, -⟩ := newCapFile_opened h
    exact (freeSeqNo_spec hfree).1
  · intro c n₁ n₂ h hlt hlast
    have hsucc := succ_toNat n₁
    rcases (freeSeqNo_spec h.startSeqNo).2 with rfl | ⟨hex, hgt⟩
    · omega
    · have : n₁.toNat ≠ 2 ^ 32 - 2 := by
        intro heq
        rw [hlast heq] at hex
        cases hex
      omega

end Captures

/-- The first of January, everything succeeding. -/
def demoEnv : CapEnv := ⟨⟨1, 1⟩, true, true, true⟩

/-- A folder where only `paths` exist, with the index `elem`. -/
def demoFolder (paths : List Path) (elem : DscIdxElem) : Dsc :=
  ⟨fun path => if path = idxPath [] then some (DscIdxElem.codec.enc elem)
    else if path ∈ paths then some [] else none, elem⟩

/-- Picture 7 of the day exists already: captures 6 and 8 follow index 5. -/
theorem captures_never_overwritten_demo :
    let s := demoFolder [capPath [] ⟨1, 1⟩ 7] ⟨1, 1, 5⟩
    let c : TwoCaptures := ⟨demoEnv, [], [], demoEnv⟩
    c.Consecutive [] s 6 8 ∧ (6 : BitVec 32).toNat < (8 : BitVec 32).toNat := by
  intro s c
  have hc : c.Consecutive [] s 6 8 :=
    ⟨⟨capPath [] ⟨1, 1⟩ 6, by decide⟩, (fun e he => nomatch he), rfl,
      ⟨capPath [] ⟨1, 1⟩ 8, by decide⟩, rfl⟩
  exact ⟨hc, (captures_never_overwritten [] s []).2 c 6 8 hc (by decide)
    (fun h => absurd h (by decide))⟩

/-- With the file of the last number there, the capture after number `2^32 - 2` gets
number 0. -/
theorem capture_number_wraps :
    let s := demoFolder [capPath [] ⟨1, 1⟩ 0xFFFFFFFF] ⟨1, 1, 0xFFFFFFFD⟩
    let c : TwoCaptures := ⟨demoEnv, [], [], demoEnv⟩
    c.Consecutive [] s 0xFFFFFFFE 0 ∧ (0xFFFFFFFE : BitVec 32).toNat < 2 ^ 32 - 1 ∧
      ¬ (0xFFFFFFFE : BitVec 32).toNat < (0 : BitVec 32).toNat := by
  intro s c
  exact ⟨⟨⟨capPath [] ⟨1, 1⟩ 0xFFFFFFFE, by decide⟩, (fun e he => nomatch he), rfl,
    ⟨capPath [] ⟨1, 1⟩ 0, by decide⟩, rfl⟩, by decide, by decide⟩

end N32905.VideoIn
