import N32905.MnWriter.Ini
import N32905.MnWriter.ReadLine

/-!
# Long lines in `NANDWRITER.ini`

`ProcessINI` lets `readLine` fill `char Cmd[256]` and compares the length of a file
name with 511 afterwards. `readLine` itself has no bound. Here every store into
`Cmd` is checked, and `processIniFile` is `ProcessINI` on the bytes of a file: it
returns, or a store falls outside `Cmd`.

`processIniFile_cases` says which: a line of more than 255 bytes is stored outside
whatever it is for, so the test of the length never fails.
-/

namespace N32905.MnWriter

open N32905.Lib

/-! ## The model -/

/-- What a call of `readLine` returns if its stores are inside `Cmd[256]`. -/
structure CmdResult where
  successful : Bool
  Cmd : Line
  rd : ReadSt

/-- The store of the NUL at `Cmd[i_cmd]`, the last one of every call. -/
def endOfString (r : LineResult) : Option CmdResult :=
  if h : r.Cmd.length ≤ 255 then some ⟨r.successful, ⟨r.Cmd, h⟩, r.rd⟩ else none

/-- One pass of `readLine` with its stores checked; the result `none` is a store
outside `Cmd`. -/
def checkedBody (st : ReadSt × List Byte) : Step (ReadSt × List Byte) (Option CmdResult) :=
  match readLineBody st with
  | .next st' => if st'.2.length ≤ 256 then .next st' else .done none
  | .done r => .done (endOfString r)

def checkedReadLine (rd : ReadSt) : Option (Option CmdResult) :=
  iterate checkedBody (rd.buffer_end - rd.buffer_current + 2 * rd.file.length + 1) (rd, [])

/-- How `ProcessINI` ends. -/
inductive IniOutcome
  | outside
  | fail
  | ok (ini : IniInfo)
  deriving DecidableEq

/-- A call of `readLine`, and what the loop that made it does with the line. -/
def processIniBody : (IniPos × IniInfo) × ReadSt →
    Step ((IniPos × IniInfo) × ReadSt) (Option IniOutcome)
  | (st, rd) =>
    match checkedReadLine rd with
    | none => .done none
    | some none => .done (some .outside)
    | some (some ⟨false, _, _⟩) => .done (some (.ok st.2))  -- both loops break
    | some (some ⟨true, Cmd, rd⟩) =>
      match iniStep st Cmd with
      | none => .done (some .fail)
      | some st => .next (st, rd)

/-- `ProcessINI` on the bytes of a file that could be opened. -/
def processIniFile (Ini_Writer : IniInfo) (content : List Byte) : Option IniOutcome :=
  (iterate processIniBody (content.length + 2)
    ((.outer, iniDefaults Ini_Writer), ⟨[], 0, 0, content⟩)).join

/-! ## A checked call -/

theorem readLineBody_next_length {st st' : ReadSt × List Byte} (h : readLineBody st = .next st') :
    st.2.length ≤ st'.2.length := by
  obtain ⟨rd, Cmd⟩ := st
  rw [readLineBody] at h
  split at h
  · dsimp only at h
    split_ifs at h <;> cases h
    · exact Nat.le_refl _
    · simp
  · split at h
    · split at h <;> cases h
    · dsimp only [fread] at h
      split at h
      · cases h
      · cases h
        exact Nat.le_refl _

theorem readLineBody_done_cmd {st : ReadSt × List Byte} {r : LineResult}
    (h : readLineBody st = .done r) : r.Cmd = st.2 := by
  obtain ⟨rd, Cmd⟩ := st
  rw [readLineBody] at h
  split at h
  · dsimp only at h
    split_ifs at h
    cases h
    rfl
  · split at h
    · split at h <;> cases h <;> rfl
    · dsimp only [fread] at h
      split at h
      · cases h
        rfl
      · cases h

/-- The line that is returned is as long as what is in `Cmd` on the way. -/
theorem length_le_of_ends {st : ReadSt × List Byte} {r : LineResult}
    (h : Ends readLineBody st r) : st.2.length ≤ r.Cmd.length := by
  obtain ⟨st', hle, hdone⟩ := h.rule (P := fun s => st.2.length ≤ s.2.length)
    (fun s s' hs hb => hs.trans (readLineBody_next_length hb)) (Nat.le_refl _)
  rwa [readLineBody_done_cmd hdone]

theorem ends_checked {st : ReadSt × List Byte} {r : LineResult} (h : Ends readLineBody st r) :
    Ends checkedBody st (endOfString r) := by
  obtain ⟨n, hn⟩ := h
  induction n generalizing st with
  | zero => cases hn
  | succ n ih =>
    cases hb : readLineBody st with
    | done r' =>
      rw [iterate_done hb] at hn
      cases hn
      refine (ends_done ?_).2 rfl
      rw [checkedBody, hb]
    | next st' =>
      rw [iterate_next hb] at hn
      by_cases hlen : st'.2.length ≤ 256
      · rw [ends_next (by rw [checkedBody, hb]; exact if_pos hlen)]
        exact ih hn
      · have hle := length_le_of_ends ⟨n, hn⟩
        have hnone : endOfString r = none := dif_neg (by omega)
        rw [ends_done (by rw [checkedBody, hb]; exact if_neg hlen), hnone]

theorem checkedBody_toRead (st st' : ReadSt × List Byte) (h : checkedBody st = .next st') :
    toRead st' < toRead st := by
  unfold checkedBody at h
  split at h
  · next st₁ hb =>
    split at h
    · cases h
      exact readLineBody_toRead st st' hb
    · cases h
  · cases h

/-- **A checked call** is the call itself, or a store outside. -/
theorem checkedReadLine_of_ends {rd : ReadSt} {r : LineResult}
    (h : Ends readLineBody (rd, []) r) : checkedReadLine rd = some (endOfString r) :=
  (ends_checked h).iterate checkedBody_toRead (Nat.lt_succ_self (toRead (rd, [])))

/-! ## The whole file -/

section File
variable {total : Nat} {rd : ReadSt} {s : List Byte} {r : LineResult}

theorem processIniBody_outside (st : IniPos × IniInfo) (h : Ends readLineBody (rd, []) r)
    (hlen : 255 < r.Cmd.length) : processIniBody (st, rd) = .done (some .outside) := by
  have hnone : endOfString r = none := dif_neg (Nat.not_le.2 hlen)
  rw [processIniBody, checkedReadLine_of_ends h, hnone]

theorem processIniBody_fails (st : IniPos × IniInfo) (h : Ends readLineBody (rd, []) r)
    (hlen : r.Cmd.length ≤ 255) (hr : r.successful = false) :
    processIniBody (st, rd) = .done (some (.ok st.2)) := by
  have hsome : endOfString r = some ⟨false, ⟨r.Cmd, hlen⟩, r.rd⟩ := by
    rw [endOfString, dif_pos hlen, hr]
  rw [processIniBody, checkedReadLine_of_ends h, hsome]

theorem processIniBody_line (st : IniPos × IniInfo) (h : Ends readLineBody (rd, []) r)
    (hlen : r.Cmd.length ≤ 255) (hr : r.successful = true) :
    ∃ st', iniStep st ⟨r.Cmd, hlen⟩ = some st' ∧ processIniBody (st, rd) = .next (st', r.rd) := by
  have hsome : endOfString r = some ⟨true, ⟨r.Cmd, hlen⟩, r.rd⟩ := by
    rw [endOfString, dif_pos hlen, hr]
  obtain ⟨pos', ini', hstep, -⟩ := iniStep_last st.1 st.2 ⟨r.Cmd, hlen⟩
  refine ⟨(pos', ini'), hstep, ?_⟩
  rw [processIniBody, checkedReadLine_of_ends h, hsome]
  dsimp only
  rw [show iniStep st ⟨r.Cmd, hlen⟩ = some (pos', ini') from hstep]

/-- What `ProcessINI` makes of the bytes `s` to come: with lines that all fit it runs
through those that are delivered, with one that does not it stores outside. -/
structure Processes (lost : Bool) (st : IniPos × IniInfo) (s : List Byte)
    (out : IniOutcome) : Prop where
  fits : (∀ p ∈ pieces s, p.length ≤ 255) → ∃ lines st', lines.map Line.bytes = linesRead lost s ∧
    run iniStep st lines = some st' ∧ out = .ok st'.2
  long : (∃ p ∈ pieces s, 255 < p.length) → out = .outside

theorem Processes.line {lost : Bool} {st st₁ : IniPos × IniInfo} {pre post : List Byte}
    {out : IniOutcome} (hpre : 0x0A ∉ pre) (hlen : (pre.filter (· ≠ 0x0D)).length ≤ 255)
    (hstep : iniStep st ⟨pre.filter (· ≠ 0x0D), hlen⟩ = some st₁) (h : Processes lost st₁ post out) :
    Processes lost st (pre ++ 0x0A :: post) out := by
  constructor
  · intro hall
    rw [pieces_line hpre] at hall
    obtain ⟨lines, st', hlines, hrun, hout⟩ := h.fits fun p hp => hall p (List.mem_cons_of_mem _ hp)
    refine ⟨⟨_, hlen⟩ :: lines, st', ?_, ?_, hout⟩
    · rw [List.map_cons, hlines, linesRead_line _ hpre]
    · unfold run at hrun ⊢
      rw [List.foldlM_cons, hstep]
      exact hrun
  · rintro ⟨p, hp, hlong⟩
    rw [pieces_line hpre] at hp
    rcases List.mem_cons.1 hp with rfl | hp
    · omega
    · exact h.long ⟨p, hp, hlong⟩

theorem Processes.outside {lost : Bool} {st : IniPos × IniInfo} {p : List Byte} (hp : p ∈ pieces s)
    (hlong : 255 < p.length) : Processes lost st s .outside :=
  ⟨fun hall => absurd (hall p hp) (Nat.not_le.2 hlong), fun _ => rfl⟩

theorem Processes.last {lost : Bool} {st st' : IniPos × IniInfo} (lines : List Line)
    (hs : 0x0A ∉ s) (hlen : (s.filter (· ≠ 0x0D)).length ≤ 255)
    (hlines : lines.map Line.bytes = linesRead lost s) (hrun : run iniStep st lines = some st') :
    Processes lost st s (.ok st'.2) := by
  refine ⟨fun _ => ⟨lines, st', hlines, hrun, rfl⟩, ?_⟩
  rw [pieces_of_not_mem hs]
  rintro ⟨p, hp, hlong⟩
  rw [List.mem_singleton.1 hp] at hlong
  omega

/-- **The whole file.** Each call takes a byte, but for the one that fails. -/
theorem Reading.processes {n : Nat} (h : Reading total rd s) (hn : s.length + 1 < n)
    (st : IniPos × IniInfo) :
    ∃ out, iterate processIniBody n (st, rd) = some (some out) ∧
      Processes (total % INI_BUF_SIZE = 0) st s out := by
  induction n generalizing rd s st with
  | zero => omega
  | succ n ih =>
    obtain ⟨rd', ⟨pre, post, rfl, hpre, h', hr⟩ | ⟨hs, h', hr⟩⟩ := h.call []
    · rw [List.nil_append] at hr
      rcases Nat.lt_or_ge 255 (pre.filter (· ≠ 0x0D)).length with hlong | hlen
      · refine ⟨.outside, iterate_done (processIniBody_outside st hr hlong), ?_⟩
        apply Processes.outside ?_ hlong
        rw [pieces_line hpre]
        exact List.mem_cons_self
      · obtain ⟨st₁, hstep, hbody⟩ := processIniBody_line st hr hlen rfl
        have hlt : post.length + 1 < n := by
          rw [List.length_append, List.length_cons] at hn
          omega
        obtain ⟨out, hout, hproc⟩ := ih h' hlt st₁
        exact ⟨out, (iterate_next hbody).trans hout, hproc.line hpre hlen hstep⟩
    · rw [List.nil_append] at hr
      rcases Nat.lt_or_ge 255 (s.filter (· ≠ 0x0D)).length with hlong | hlen
      · refine ⟨.outside, iterate_done (processIniBody_outside st hr hlong), ?_⟩
        apply Processes.outside ?_ hlong
        rw [pieces_of_not_mem hs]
        exact List.mem_cons_self
      · by_cases hline : total % INI_BUF_SIZE ≠ 0 ∧ s.filter (· ≠ 0x0D) ≠ []
        · -- the last line, and a call that fails
          obtain ⟨st₁, hstep, hbody⟩ := processIniBody_line st hr hlen (decide_eq_true hline)
          obtain ⟨m, rfl⟩ : ∃ m, n = m + 1 := ⟨n - 1, by omega⟩
          have hend : Ends readLineBody (rd', []) ⟨false, [], rd'⟩ := by
            have := h'.at_end []
            rwa [decide_eq_false (by simp)] at this
          refine ⟨.ok st₁.2, ?_, Processes.last [⟨_, hlen⟩] hs hlen ?_ ?_⟩
          · rw [iterate_next hbody]
            exact iterate_done (processIniBody_fails st₁ hend (Nat.zero_le _) rfl)
          · rw [linesRead_end _ hs, if_neg (by simpa using hline)]
            rfl
          · unfold run
            rw [List.foldlM_cons, hstep]
            rfl
        · refine ⟨.ok st.2, iterate_done (processIniBody_fails st hr hlen (decide_eq_false hline)),
            Processes.last [] hs hlen ?_ rfl⟩
          rw [linesRead_end _ hs, if_pos]
          · rfl
          · rcases not_and_or.1 hline with h0 | h0
            · exact .inl (by simpa using h0)
            · exact .inr (not_not.1 h0)

end File

/-- **How `ProcessINI` ends**: with a line of more than 255 bytes a store falls outside
`Cmd`, else it returns `Successful` with the settings of the lines delivered. -/
theorem processIniFile_cases (Ini_Writer : IniInfo) (content : List Byte) :
    ((∃ p ∈ pieces content, 255 < p.length) →
      processIniFile Ini_Writer content = some .outside) ∧
    ((∀ p ∈ pieces content, p.length ≤ 255) → ∃ lines ini,
      lines.map Line.bytes = linesRead (content.length % INI_BUF_SIZE = 0) content ∧
      processIniFile Ini_Writer content = some (.ok ini) ∧
      ∀ k, ini.setting k = meaning lines k) := by
  obtain ⟨out, hout, hproc⟩ := (reading_start content).processes (Nat.lt_succ_self _)
    (.outer, iniDefaults Ini_Writer)
  have hfile : processIniFile Ini_Writer content = some out := by rw [processIniFile, hout]; rfl
  constructor
  · intro hlong
    rw [hfile, hproc.long hlong]
  · intro hall
    obtain ⟨lines, st', hlines, hrun, rfl⟩ := hproc.fits hall
    obtain ⟨ini, hini, hset⟩ := processINI_setting Ini_Writer lines
    refine ⟨lines, ini, hlines, ?_, hset⟩
    rw [processINI, Option.bind_eq_bind, Option.bind_some, hrun] at hini
    rw [hfile, ← Option.some.inj hini]

/-! ## File names -/

def Keyword.isName : Keyword → Bool
  | .nandLoader | .logo | .execFile => true
  | .execFileNum | .execAddress => false

/-- Every store is inside `Cmd`, and the file names are stored as the file has them. -/
def NamesStored (Ini_Writer : IniInfo) (content : List Byte) : Prop :=
  ∃ ini lines, processIniFile Ini_Writer content = some (.ok ini) ∧
    lines.map Line.bytes = splitLines content ∧
    ∀ k : Keyword, k.isName = true → ini.setting k = meaning lines k

/-- No file name changes when the last line is left out. -/
def LastNameless (content : List Byte) : Prop :=
  ∀ lines : List Line, lines.map Line.bytes = splitLines content →
    ∀ k : Keyword, k.isName = true → meaning lines.dropLast k = meaning lines k

theorem bytes_injective : Function.Injective Line.bytes := by
  rintro ⟨b, h⟩ ⟨b', h'⟩ rfl
  rfl

theorem lines_unique {lines lines' : List Line} (h : lines.map Line.bytes = lines'.map Line.bytes) :
    lines = lines' :=
  List.map_injective_iff.2 bytes_injective h

theorem exists_lines {ps : List (List Byte)} (h : ∀ p ∈ ps, p.length ≤ 255) :
    ∃ lines : List Line, lines.map Line.bytes = ps := by
  induction ps with
  | nil => exact ⟨[], rfl⟩
  | cons p ps ih =>
    obtain ⟨lines, hlines⟩ := ih fun q hq => h q (List.mem_cons_of_mem _ hq)
    exact ⟨⟨p, h p List.mem_cons_self⟩ :: lines, by rw [List.map_cons, hlines]⟩

theorem mem_pieces_of_splitLines {content p : List Byte} (h : p ∈ splitLines content) :
    p ∈ pieces content := by
  have hne : pieces content ≠ [] := List.splitOnP_ne_nil _ _
  rcases List.mem_append.1 h with h | h
  · exact List.mem_of_mem_dropLast h
  · split at h
    · cases h
    · rw [List.mem_singleton.1 h, lastPiece, List.getLastD_eq_getLast?,
        List.getLast?_eq_some_getLast hne]
      exact List.getLast_mem hne

theorem linesRead_cases (content : List Byte) :
    linesRead (content.length % INI_BUF_SIZE = 0) content =
      if content.length % INI_BUF_SIZE ≠ 0 ∨ lastPiece content = [] then splitLines content
      else (splitLines content).dropLast := by
  split
  · next h =>
    rw [linesRead_eq_splitLines_iff, decide_eq_false_iff_not]
    exact h
  · next h =>
    obtain ⟨h0, hlast⟩ := not_or.1 h
    rw [linesRead, if_pos (by simpa using h0), splitLines, if_neg hlast, List.dropLast_concat]

theorem fits_of_namesStored {Ini_Writer : IniInfo} {content : List Byte}
    (h : NamesStored Ini_Writer content) : ∀ p ∈ pieces content, p.length ≤ 255 := by
  obtain ⟨ini, lines, hini, -⟩ := h
  intro p hp
  rw [← Nat.not_lt]
  intro hlt
  rw [(processIniFile_cases Ini_Writer content).1 ⟨p, hp, hlt⟩] at hini
  cases hini

/-- With lines that fit, the names are right if the lines delivered have those of the
file. -/
theorem namesStored_of_fits (Ini_Writer : IniInfo) {content : List Byte}
    (hall : ∀ p ∈ pieces content, p.length ≤ 255) :
    NamesStored Ini_Writer content ↔
      content.length % INI_BUF_SIZE ≠ 0 ∨ lastPiece content = [] ∨ LastNameless content := by
  obtain ⟨read, ini, hmap, hini, hset⟩ := (processIniFile_cases Ini_Writer content).2 hall
  obtain ⟨lines, hlines⟩ := exists_lines fun p hp => hall p (mem_pieces_of_splitLines hp)
  have hstored : NamesStored Ini_Writer content ↔
      ∀ k : Keyword, k.isName = true → meaning read k = meaning lines k := by
    constructor
    · rintro ⟨ini', lines', hini', hlines', hnames⟩ k hk
      rw [hini, Option.some.injEq, IniOutcome.ok.injEq] at hini'
      rw [← hset, hini', hnames k hk, lines_unique (hlines'.trans hlines.symm)]
    · intro hnames
      exact ⟨ini, lines, hini, hlines, fun k hk => (hset k).trans (hnames k hk)⟩
  rw [hstored, ← or_assoc]
  rw [linesRead_cases, ← hlines] at hmap
  by_cases hend : content.length % INI_BUF_SIZE ≠ 0 ∨ lastPiece content = []
  · rw [if_pos hend] at hmap
    rw [lines_unique hmap]
    exact ⟨fun _ => .inl hend, fun _ _ _ => rfl⟩
  · rw [if_neg hend, ← List.map_dropLast] at hmap
    rw [lines_unique hmap]
    constructor
    · intro hnames
      refine .inr fun lines' hlines' => ?_
      rw [lines_unique (hlines'.trans hlines.symm)]
      exact hnames
    · intro h
      exact h.resolve_left hend lines hlines

/-- **Long lines in `NANDWRITER.ini`**: `ProcessINI` stays inside `Cmd` and stores the
file names of a file exactly when no line has more than 255 bytes, and a last line
that `readLine` loses is no file name. On a line of more than 511 bytes it does
not return `Fail`: it stores outside `Cmd`. -/
theorem long_lines_iff (Ini_Writer : IniInfo) (content : List Byte) :
    (NamesStored Ini_Writer content ↔ (∀ p ∈ pieces content, p.length ≤ 255) ∧
      (content.length % INI_BUF_SIZE ≠ 0 ∨ lastPiece content = [] ∨ LastNameless content)) ∧
    ((∃ p ∈ pieces content, 511 < p.length) →
      processIniFile Ini_Writer content = some .outside) := by
  refine ⟨⟨fun h => ?_, fun h => (namesStored_of_fits Ini_Writer h.1).2 h.2⟩, ?_⟩
  · have hall := fits_of_namesStored h
    exact ⟨hall, (namesStored_of_fits Ini_Writer hall).1 h⟩
  · rintro ⟨p, hp, hlong⟩
    exact (processIniFile_cases Ini_Writer content).1 ⟨p, hp, by omega⟩

/-- A file name of `n` letters. -/
def nameFile (n : Nat) : List Byte :=
  ascii "[Logo File Name]" ++ 0x0A :: (List.replicate n 0x41 ++ 0x0A :: [])

/-- A file name of 300 bytes is inside the documented limit, and one of 600 is not:
both are stored outside `Cmd`. -/
theorem long_name_outside :
    let ini : IniInfo := ⟨charArray [] (by decide), charArray [] (by decide),
      charArray [] (by decide), 0, 0⟩
    (∀ p ∈ pieces (nameFile 300), p.length ≤ 511) ∧
      processIniFile ini (nameFile 300) = some .outside ∧
      processIniFile ini (nameFile 600) = some .outside := by
  intro ini
  have hfilter : ∀ n, (List.replicate n (0x41 : Byte)).filter (· ≠ 0x0D) = List.replicate n 0x41 :=
    fun n => List.filter_replicate_of_pos (by decide)
  have hpieces : ∀ n, pieces (nameFile n) =
      [ascii "[Logo File Name]", List.replicate n 0x41, []] := by
    intro n
    have hlf : (0x0A : Byte) ∉ List.replicate n 0x41 := fun h =>
      absurd (List.eq_of_mem_replicate h) (by decide)
    rw [nameFile, pieces_line (by decide), pieces_line hlf, hfilter, pieces_of_not_mem (by decide)]
    rfl
  have hout : ∀ n, 255 < n → processIniFile ini (nameFile n) = some .outside := by
    intro n hn
    refine (processIniFile_cases ini (nameFile n)).1 ⟨List.replicate n 0x41, ?_, ?_⟩
    · rw [hpieces]
      exact List.mem_cons_of_mem _ List.mem_cons_self
    · rw [List.length_replicate]
      exact hn
  refine ⟨?_, hout 300 (by decide), hout 600 (by decide)⟩
  rw [hpieces]
  intro p hp
  simp only [List.mem_cons, List.not_mem_nil, or_false] at hp
  rcases hp with rfl | rfl | rfl
  · decide
  · rw [List.length_replicate]
    decide
  · decide

end N32905.MnWriter
