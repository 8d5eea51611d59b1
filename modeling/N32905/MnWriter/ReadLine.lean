import N32905.Lib.CString
import N32905.Lib.Loop

/-!
# `readLine`

The reader of both INI files takes bytes from a buffer of 512, drops the CRs and
ends a line at an LF. When the buffer is used up it looks at how full it was: a
buffer that was not full was the last one, and a line without LF is returned. After
a full one it reads on, and a file that ends there loses such a line.
-/

namespace N32905.MnWriter

open N32905.Lib

/-! ## The model -/

def INI_BUF_SIZE : Nat := 512

/-- `iniBuf` as far as the last `fread` has filled it, the two positions in it, and
what is left of the file. -/
structure ReadSt where
  iniBuf : List Byte
  buffer_current : Nat
  buffer_end : Nat
  file : List Byte

/-- What a call returns: `Successful`, the string in `Cmd`, and the new state. -/
structure LineResult where
  successful : Bool
  Cmd : List Byte
  rd : ReadSt

/-- `fread`: full buffers first, then the rest, then nothing. -/
def fread (file : List Byte) : List Byte × List Byte :=
  (file.take INI_BUF_SIZE, file.drop INI_BUF_SIZE)

def readLineBody : ReadSt × List Byte → Step (ReadSt × List Byte) LineResult
  | (rd, Cmd) =>
    if rd.buffer_current < rd.buffer_end then
      let b := rd.iniBuf.getD rd.buffer_current 0
      let rd := { rd with buffer_current := rd.buffer_current + 1 }
      if b = 0x0D then .next (rd, Cmd)
      else if b = 0x0A then .done ⟨true, Cmd, rd⟩
      else .next (rd, Cmd ++ [b])
    else if rd.buffer_end < INI_BUF_SIZE ∧ rd.buffer_end > 0 then
      if Cmd.length > 0 then .done ⟨true, Cmd, rd⟩ else .done ⟨false, Cmd, rd⟩
    else
      let (data, file) := fread rd.file
      if data.length = 0 then .done ⟨false, Cmd, rd⟩
      else .next (⟨data, 0, data.length, file⟩, Cmd)

def readLineLoop (rd : ReadSt) : Option LineResult :=
  iterate readLineBody (rd.buffer_end - rd.buffer_current + 2 * rd.file.length + 1) (rd, [])

def iniReadLine := readLineLoop

/-- `readLine` of `ProcessOptionalIni.c`, with a buffer of its own. -/
def optionalIniReadLine := readLineLoop

def readLinesBody (readLine : ReadSt → Option LineResult) :
    List (List Byte) × ReadSt → Step (List (List Byte) × ReadSt) (Option (List (List Byte)))
  | (lines, rd) =>
    match readLine rd with
    | none => .done none
    | some ⟨true, Cmd, rd⟩ => .next (lines ++ [Cmd], rd)
    | some ⟨false, _, _⟩ => .done (some lines)

/-- The lines of a file, from an empty buffer. -/
def readLines (readLine : ReadSt → Option LineResult) (content : List Byte) :
    Option (List (List Byte)) :=
  (iterate (readLinesBody readLine) (content.length + 2) ([], ⟨[], 0, 0, content⟩)).join

/-! ## Plain splitting -/

/-- What lies between the LFs, without the CRs. -/
def pieces (content : List Byte) : List (List Byte) :=
  (content.filter (· ≠ 0x0D)).splitOnP (· = 0x0A)

/-- What follows the last LF. -/
def lastPiece (content : List Byte) : List Byte := (pieces content).getLastD []

/-- The lines of a file: a last piece counts if it is not empty. -/
def splitLines (content : List Byte) : List (List Byte) :=
  (pieces content).dropLast ++ if lastPiece content = [] then [] else [lastPiece content]

section Pieces
variable {pre post s : List Byte}

theorem pieces_of_not_mem (h : 0x0A ∉ s) : pieces s = [s.filter (· ≠ 0x0D)] := by
  unfold pieces
  refine List.splitOnP_eq_singleton ?_
  intro b hb
  simp only [decide_eq_false_iff_not]
  rintro rfl
  exact h (List.mem_of_mem_filter hb)

theorem pieces_line (h : 0x0A ∉ pre) :
    pieces (pre ++ 0x0A :: post) = pre.filter (· ≠ 0x0D) :: pieces post := by
  unfold pieces
  rw [List.filter_append, List.filter_cons_of_pos (by decide)]
  refine List.splitOnP_append_cons_of_forall_mem ?_ _ (by decide) _
  intro b hb
  simp only [decide_eq_false_iff_not]
  rintro rfl
  exact h (List.mem_of_mem_filter hb)

/-- The lines read, if a last piece without LF is returned or lost. -/
def linesRead (lost : Bool) (s : List Byte) : List (List Byte) :=
  if lost then (pieces s).dropLast else splitLines s

theorem linesRead_line (lost : Bool) (h : 0x0A ∉ pre) :
    linesRead lost (pre ++ 0x0A :: post) = pre.filter (· ≠ 0x0D) :: linesRead lost post := by
  have hne : pieces post ≠ [] := List.splitOnP_ne_nil _ _
  have hlast : lastPiece (pre ++ 0x0A :: post) = lastPiece post := by
    unfold lastPiece
    rw [pieces_line h, List.getLastD_cons, List.getLastD_eq_getLast?, List.getLastD_eq_getLast?,
      List.getLast?_eq_some_getLast hne]
    rfl
  unfold linesRead splitLines
  rw [hlast, pieces_line h, List.dropLast_cons_of_ne_nil hne]
  split <;> rfl

theorem linesRead_end (lost : Bool) (h : 0x0A ∉ s) :
    linesRead lost s = if lost ∨ s.filter (· ≠ 0x0D) = [] then [] else [s.filter (· ≠ 0x0D)] := by
  unfold linesRead splitLines lastPiece
  rw [pieces_of_not_mem h]
  cases lost <;> simp

theorem linesRead_eq_splitLines_iff (lost : Bool) (s : List Byte) :
    linesRead lost s = splitLines s ↔ lost = false ∨ lastPiece s = [] := by
  unfold linesRead splitLines
  cases lost <;> by_cases h : lastPiece s = [] <;> simp [h]

end Pieces

/-! ## One call -/

/-- The reader in a file of `total` bytes, with `s` still to come. A buffer that was
not full is the last one. -/
structure Reading (total : Nat) (rd : ReadSt) (s : List Byte) : Prop where
  rest : s = rd.iniBuf.drop rd.buffer_current ++ rd.file
  filled : rd.buffer_end = rd.iniBuf.length
  short : 0 < rd.buffer_end → rd.buffer_end < INI_BUF_SIZE → rd.file = [] ∧ total % INI_BUF_SIZE ≠ 0
  full : ¬ (rd.buffer_end < INI_BUF_SIZE ∧ rd.buffer_end > 0) →
    rd.file.length % INI_BUF_SIZE = total % INI_BUF_SIZE

section Call
variable {total : Nat} {rd : ReadSt} {s : List Byte} {b : Byte} {Cmd : List Byte}

theorem reading_start (content : List Byte) : Reading content.length ⟨[], 0, 0, content⟩ content :=
  ⟨rfl, rfl, fun h => absurd h (Nat.lt_irrefl 0), fun _ => rfl⟩

theorem Reading.refill (h : Reading total rd (b :: s)) :
    ∃ rd', Reading total rd' (b :: s) ∧ rd'.buffer_current < rd'.buffer_end ∧
      ∀ Cmd r, Ends readLineBody (rd, Cmd) r ↔ Ends readLineBody (rd', Cmd) r := by
  obtain ⟨hrest, hfilled, hshort, hfull⟩ := h
  by_cases hlt : rd.buffer_current < rd.buffer_end
  · exact ⟨rd, ⟨hrest, hfilled, hshort, hfull⟩, hlt, fun _ _ => Iff.rfl⟩
  · have hfile : rd.file = b :: s := by
      rw [hrest, List.drop_of_length_le (by omega), List.nil_append]
    have hnot : ¬ (rd.buffer_end < INI_BUF_SIZE ∧ rd.buffer_end > 0) := by
      rintro ⟨hsize, hpos⟩
      have := (hshort hpos hsize).1
      rw [hfile] at this
      cases this
    have hmod := hfull hnot
    have hlen : (rd.file.take INI_BUF_SIZE).length = min INI_BUF_SIZE rd.file.length :=
      List.length_take
    have hpos : 0 < rd.file.length := by
      rw [hfile]
      exact Nat.succ_pos _
    have hsize : INI_BUF_SIZE = 512 := rfl
    refine ⟨⟨rd.file.take INI_BUF_SIZE, 0, (rd.file.take INI_BUF_SIZE).length,
      rd.file.drop INI_BUF_SIZE⟩, ⟨?_, rfl, ?_, ?_⟩, ?_, ?_⟩
    · rw [List.drop_zero, List.take_append_drop, hfile]
    · intro _ hlt'
      dsimp only at hlt' ⊢
      refine ⟨List.drop_of_length_le (by omega), ?_⟩
      rw [hsize] at hmod ⊢
      omega
    · intro hnot'
      dsimp only at hnot' ⊢
      rw [List.length_drop, ← hmod]
      rw [hsize] at hlen hnot' ⊢
      omega
    · dsimp only
      omega
    · intro Cmd r
      refine ends_next ?_
      rw [readLineBody, if_neg hlt, if_neg hnot]
      exact if_neg (by rw [hlen]; omega)

theorem Reading.advance (h : Reading total rd (b :: s)) (hlt : rd.buffer_current < rd.buffer_end) :
    rd.iniBuf.getD rd.buffer_current 0 = b ∧
      Reading total { rd with buffer_current := rd.buffer_current + 1 } s := by
  obtain ⟨hrest, hfilled, hshort, hfull⟩ := h
  rw [hfilled] at hlt
  rw [List.drop_eq_getElem_cons hlt, List.cons_append] at hrest
  obtain ⟨rfl, rfl⟩ := List.cons.inj hrest
  refine ⟨?_, rfl, hfilled, hshort, hfull⟩
  rw [List.getD_eq_getElem?_getD, List.getElem?_eq_getElem hlt, Option.getD_some]

theorem readLineBody_byte (Cmd : List Byte) (hlt : rd.buffer_current < rd.buffer_end)
    (hb : rd.iniBuf.getD rd.buffer_current 0 = b) :
    readLineBody (rd, Cmd) =
      if b = 0x0D then .next ({ rd with buffer_current := rd.buffer_current + 1 }, Cmd)
      else if b = 0x0A then .done ⟨true, Cmd, { rd with buffer_current := rd.buffer_current + 1 }⟩
      else .next ({ rd with buffer_current := rd.buffer_current + 1 }, Cmd ++ [b]) := by
  rw [readLineBody, if_pos hlt, ← hb]

/-- At the end of the file a line is returned if the last buffer was not full. -/
theorem Reading.at_end (h : Reading total rd []) (Cmd : List Byte) :
    Ends readLineBody (rd, Cmd)
      ⟨decide (total % INI_BUF_SIZE ≠ 0 ∧ Cmd ≠ []), Cmd, rd⟩ := by
  obtain ⟨hrest, hfilled, hshort, hfull⟩ := h
  obtain ⟨hdrop, hfile⟩ := List.append_eq_nil_iff.1 hrest.symm
  have hge : ¬ rd.buffer_current < rd.buffer_end := by
    rw [List.drop_eq_nil_iff] at hdrop
    omega
  by_cases hnot : rd.buffer_end < INI_BUF_SIZE ∧ rd.buffer_end > 0
  · have htotal := (hshort hnot.2 hnot.1).2
    cases Cmd with
    | nil =>
      rw [decide_eq_false (by simp)]
      refine (ends_done ?_).2 rfl
      rw [readLineBody, if_neg hge, if_pos hnot]
      rfl
    | cons c Cmd =>
      rw [decide_eq_true ⟨htotal, List.cons_ne_nil _ _⟩]
      refine (ends_done ?_).2 rfl
      rw [readLineBody, if_neg hge, if_pos hnot]
      rfl
  · have htotal : total % INI_BUF_SIZE = 0 := by
      rw [← hfull hnot, hfile]
      rfl
    rw [decide_eq_false fun h => h.1 htotal]
    refine (ends_done ?_).2 rfl
    rw [readLineBody, if_neg hge, if_neg hnot, hfile]
    rfl

/-- **A call**: the bytes up to the next LF, without the CRs. Without an LF it is
what is left, and counts if the last buffer was not full. -/
theorem Reading.call (h : Reading total rd s) (Cmd : List Byte) : ∃ rd',
    (∃ pre post, s = pre ++ 0x0A :: post ∧ 0x0A ∉ pre ∧ Reading total rd' post ∧
      Ends readLineBody (rd, Cmd) ⟨true, Cmd ++ pre.filter (· ≠ 0x0D), rd'⟩) ∨
    (0x0A ∉ s ∧ Reading total rd' [] ∧ Ends readLineBody (rd, Cmd)
      ⟨decide (total % INI_BUF_SIZE ≠ 0 ∧ Cmd ++ s.filter (· ≠ 0x0D) ≠ []),
        Cmd ++ s.filter (· ≠ 0x0D), rd'⟩) := by
  induction s generalizing rd Cmd with
  | nil =>
    refine ⟨rd, .inr ⟨List.not_mem_nil, h, ?_⟩⟩
    rw [List.filter_nil, List.append_nil]
    exact h.at_end Cmd
  | cons b s ih =>
    obtain ⟨rd₁, h₁, hlt, hends⟩ := h.refill
    obtain ⟨hb, h₂⟩ := h₁.advance hlt
    have hbody := readLineBody_byte Cmd hlt hb
    by_cases hlf : b = 0x0A
    · subst hlf
      refine ⟨_, .inl ⟨[], s, rfl, List.not_mem_nil, h₂, ?_⟩⟩
      rw [hends, ends_done hbody, List.filter_nil, List.append_nil]
    · -- the byte goes to the line, or is a CR
      have hstep : ∀ r, Ends readLineBody (rd, Cmd) r ↔ Ends readLineBody
          ({ rd₁ with buffer_current := rd₁.buffer_current + 1 },
            Cmd ++ [b].filter (· ≠ 0x0D)) r := by
        intro r
        rw [hends]
        refine ends_next (hbody.trans ?_)
        by_cases hcr : b = 0x0D
        · rw [if_pos hcr, List.filter_cons_of_neg (by simpa using hcr), List.filter_nil,
            List.append_nil]
        · rw [if_neg hcr, if_neg hlf, List.filter_cons_of_pos (by simpa using hcr), List.filter_nil]
      have hfilter : ∀ l, (b :: l).filter (· ≠ 0x0D) =
          [b].filter (· ≠ 0x0D) ++ l.filter (· ≠ 0x0D) := fun l => List.filter_append [b] l
      obtain ⟨rd', ⟨pre, post, rfl, hpre, h', hr⟩ | ⟨hs, h', hr⟩⟩ :=
        ih h₂ (Cmd ++ [b].filter (· ≠ 0x0D))
      · refine ⟨rd', .inl ⟨b :: pre, post, rfl, ?_, h', ?_⟩⟩
        · exact List.not_mem_cons_of_ne_of_not_mem (Ne.symm hlf) hpre
        · rw [hfilter pre, ← List.append_assoc, hstep]
          exact hr
      · refine ⟨rd', .inr ⟨List.not_mem_cons_of_ne_of_not_mem (Ne.symm hlf) hs, h', ?_⟩⟩
        rw [hfilter s, ← List.append_assoc, hstep]
        exact hr

/-- The bytes a call still has to look at, those in the file twice. -/
def toRead (st : ReadSt × List Byte) : Nat :=
  st.1.buffer_end - st.1.buffer_current + 2 * st.1.file.length

theorem readLineBody_toRead (st st' : ReadSt × List Byte) (h : readLineBody st = .next st') :
    toRead st' < toRead st := by
  obtain ⟨rd, Cmd⟩ := st
  rw [readLineBody] at h
  split at h
  case isTrue hlt =>
    have hnext : ∀ Cmd', toRead ({ rd with buffer_current := rd.buffer_current + 1 }, Cmd') <
        toRead (rd, Cmd) := by
      intro Cmd'
      unfold toRead
      dsimp only
      omega
    dsimp only at h
    split_ifs at h <;> cases h
    · exact hnext _
    · exact hnext _
  case isFalse hge =>
    split at h
    · split at h <;> cases h
    · dsimp only [fread] at h
      split at h
      · cases h
      · cases h
        unfold toRead
        dsimp only
        rw [List.length_drop]
        rw [List.length_take] at *
        omega

theorem readLineLoop_of_ends {r : LineResult} (h : Ends readLineBody (rd, []) r) :
    readLineLoop rd = some r :=
  h.iterate readLineBody_toRead (Nat.lt_succ_self (toRead (rd, [])))

end Call

/-! ## All calls -/

section Calls
variable {total : Nat} {rd : ReadSt} {s : List Byte}

theorem Reading.fails (h : Reading total rd []) (lines : List (List Byte)) :
    readLinesBody readLineLoop (lines, rd) = .done (some lines) := by
  have hr : Ends readLineBody (rd, []) ⟨false, [], rd⟩ := by
    have hend := h.at_end []
    rwa [decide_eq_false (by simp)] at hend
  rw [readLinesBody, readLineLoop_of_ends hr]

/-- **The file**: its pieces between LFs, the last one lost if the length is a multiple
of the buffer's. Each call takes a byte, but for the one that fails. -/
theorem Reading.calls {n : Nat} (h : Reading total rd s) (hn : s.length + 1 < n)
    (lines : List (List Byte)) :
    iterate (readLinesBody readLineLoop) n (lines, rd) =
      some (some (lines ++ linesRead (total % INI_BUF_SIZE = 0) s)) := by
  induction n generalizing rd s lines with
  | zero => omega
  | succ n ih =>
    obtain ⟨rd', ⟨pre, post, rfl, hpre, h', hr⟩ | ⟨hs, h', hr⟩⟩ := h.call []
    · have hbody : readLinesBody readLineLoop (lines, rd) =
          .next (lines ++ [pre.filter (· ≠ 0x0D)], rd') := by
        rw [readLinesBody, readLineLoop_of_ends hr, List.nil_append]
      have hlen : post.length + 1 < n := by
        rw [List.length_append, List.length_cons] at hn
        omega
      rw [iterate_next hbody, ih h' hlen, linesRead_line _ hpre, List.append_assoc,
        List.singleton_append]
    · rw [List.nil_append] at hr
      rw [linesRead_end _ hs]
      by_cases hline : total % INI_BUF_SIZE ≠ 0 ∧ s.filter (· ≠ 0x0D) ≠ []
      · -- the last line, and a call that fails
        have hbody : readLinesBody readLineLoop (lines, rd) =
            .next (lines ++ [s.filter (· ≠ 0x0D)], rd') := by
          rw [readLinesBody, readLineLoop_of_ends hr, decide_eq_true hline]
        obtain ⟨n, rfl⟩ : ∃ k, n = k + 1 := ⟨n - 1, by omega⟩
        rw [iterate_next hbody, iterate_done (h'.fails _), if_neg (by simpa using hline)]
      · rw [if_pos (by simpa [Classical.or_iff_not_imp_left] using hline), List.append_nil]
        refine iterate_done ?_
        rw [readLinesBody, readLineLoop_of_ends hr, decide_eq_false hline]

theorem readLines_eq (content : List Byte) :
    readLines readLineLoop content = some (linesRead (content.length % INI_BUF_SIZE = 0) content) := by
  unfold readLines
  rw [(reading_start content).calls (Nat.lt_succ_self _), List.nil_append]
  rfl

end Calls

/-- **`readLine`, both copies**, delivers the lines of a file exactly if its length is no
multiple of 512 or it ends with a whole line. -/
theorem readLine_splits_iff (content : List Byte) :
    (readLines iniReadLine content = some (splitLines content) ↔
      content.length % INI_BUF_SIZE ≠ 0 ∨ lastPiece content = []) ∧
    (readLines optionalIniReadLine content = some (splitLines content) ↔
      content.length % INI_BUF_SIZE ≠ 0 ∨ lastPiece content = []) := by
  have h : readLines readLineLoop content = some (splitLines content) ↔
      content.length % INI_BUF_SIZE ≠ 0 ∨ lastPiece content = [] := by
    rw [readLines_eq, Option.some.injEq, linesRead_eq_splitLines_iff, decide_eq_false_iff_not]
  exact ⟨h, h⟩

def slashes (n : Nat) : List Byte := List.replicate n 0x2F

/-- A file of 512 bytes with three lines, the last without LF. -/
def fullBuffer : List Byte := slashes 200 ++ 0x0A :: (slashes 200 ++ 0x0A :: slashes 110)

theorem lf_not_mem_slashes (n : Nat) : (0x0A : Byte) ∉ slashes n :=
  fun h => absurd (List.eq_of_mem_replicate h) (by decide)

theorem filter_slashes (n : Nat) : (slashes n).filter (· ≠ 0x0D) = slashes n := by
  refine List.filter_eq_self.2 fun b hb => ?_
  rw [List.eq_of_mem_replicate hb]
  rfl

theorem pieces_fullBuffer : pieces fullBuffer = [slashes 200, slashes 200, slashes 110] := by
  unfold fullBuffer
  rw [pieces_line (lf_not_mem_slashes _), pieces_line (lf_not_mem_slashes _),
    pieces_of_not_mem (lf_not_mem_slashes _), filter_slashes, filter_slashes]

/-- The last line is lost. -/
theorem readLine_loses_last_line :
    splitLines fullBuffer = [slashes 200, slashes 200, slashes 110] ∧
      readLines iniReadLine fullBuffer = some [slashes 200, slashes 200] ∧
      readLines iniReadLine fullBuffer ≠ some (splitLines fullBuffer) ∧
      readLines optionalIniReadLine fullBuffer ≠ some (splitLines fullBuffer) := by
  have hlength : fullBuffer.length = 512 := by
    unfold fullBuffer slashes
    simp only [List.length_append, List.length_cons, List.length_replicate]
  have hlost : readLines readLineLoop fullBuffer = some [slashes 200, slashes 200] := by
    rw [readLines_eq, hlength, linesRead, pieces_fullBuffer]
    rfl
  have hlast : lastPiece fullBuffer = slashes 110 := by
    rw [lastPiece, pieces_fullBuffer]
    rfl
  have hsplit : splitLines fullBuffer = [slashes 200, slashes 200, slashes 110] := by
    have hne : slashes 110 ≠ [] := List.ne_nil_of_length_pos (by simp [slashes])
    rw [splitLines, hlast, pieces_fullBuffer, if_neg hne]
    rfl
  have hne : readLines readLineLoop fullBuffer ≠ some (splitLines fullBuffer) := by
    rw [hlost, hsplit]
    intro h
    exact absurd (congrArg List.length (Option.some.inj h)) (by decide)
  exact ⟨hsplit, hlost, hne, hne⟩

end N32905.MnWriter
