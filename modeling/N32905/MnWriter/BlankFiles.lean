import N32905.MnWriter.BlankLines
import N32905.MnWriter.LongLines

/-!
# Blank lines in a file

`ProcessOptionalINI` on the bytes of `TurboWriter.ini`. A blank line has two effects: in
a user section it is a pair, and everywhere it changes the length of the file, on which
it depends whether `readLine` delivers a last line without LF.
-/

namespace N32905.MnWriter

open N32905.Lib

/-! ## The model -/

/-- How `ProcessOptionalINI` ends. -/
inductive OptOutcome
  | outside
  | ok (o : IbrBootOptional)

/-- A call of `readLine`, and what the loop that made it does with the line. -/
def processOptionalBody : (OptPos × IbrBootOptional) × ReadSt →
    Step ((OptPos × IbrBootOptional) × ReadSt) (Option OptOutcome)
  | (st, rd) =>
    match checkedReadLine rd with
    | none => .done none
    | some none => .done (some .outside)
    | some (some ⟨false, _, _⟩) => .done (some (.ok st.2))  -- both loops break
    | some (some ⟨true, Cmd, rd⟩) => .next (optStep st Cmd, rd)

/-- `ProcessOptionalINI` on the bytes of a file that could be opened. -/
def processOptionalFile (content : List Byte) : Option OptOutcome :=
  (iterate processOptionalBody (content.length + 2)
    ((.outer, optionalDefaults), ⟨[], 0, 0, content⟩)).join

/-- A file whose lines fit in `Cmd[256]`. -/
structure IniText where
  content : List Byte
  fits : ∀ p ∈ pieces content, p.length ≤ 255

namespace IniText

/-- What lies between the LFs. -/
def lines (f : IniText) : List Line :=
  (pieces f.content).pmap (fun p h => ⟨p, h⟩) f.fits

/-- The lines that `readLine` delivers: without an LF the last one counts if it is not
empty, and if the length of the file is no multiple of 512. -/
def delivered (f : IniText) : List Line :=
  if f.content.length % INI_BUF_SIZE = 0 ∨ lastPiece f.content = [] then f.lines.dropLast else f.lines

end IniText

def rawPieces (content : List Byte) : List (List Byte) := content.splitOnP (· = 0x0A)

def blankPiece (p : List Byte) : Bool := p.all fun b => b = 0x20 || b = 0x09 || b = 0x0D

/-- The same text, with blank lines put in and taken out. -/
def SameButBlanks (content content' : List Byte) : Prop :=
  (rawPieces content').filter (fun p => !blankPiece p) =
    (rawPieces content).filter fun p => !blankPiece p

def joinLines (ps : List (List Byte)) : List Byte := ps.flatMap (· ++ [0x0A])

/-- `f'` is `f` with the blank line `b` behind the lines `ps`, and of the two both lose a
last line or neither does. -/
structure BlankPut (f f' : IniText) (ps : List (List Byte)) (b post : List Byte) : Prop where
  lines : ∀ p ∈ ps, 0x0A ∉ p
  blank : blankPiece b = true
  nonempty : b.filter (· ≠ 0x0D) ≠ []
  before : f.content = joinLines ps ++ post
  after : f'.content = joinLines (ps ++ [b]) ++ post
  last : lastPiece f.content = [] ∨
    (f'.content.length % INI_BUF_SIZE = 0 ↔ f.content.length % INI_BUF_SIZE = 0)

/-! ## The lines of a file -/

section Pieces
variable {content pre post s : List Byte}

theorem rawPieces_of_not_mem (h : 0x0A ∉ s) : rawPieces s = [s] := by
  refine List.splitOnP_eq_singleton ?_
  intro b hb
  simp only [decide_eq_false_iff_not]
  rintro rfl
  exact h hb

theorem rawPieces_line (h : 0x0A ∉ pre) : rawPieces (pre ++ 0x0A :: post) = pre :: rawPieces post := by
  refine List.splitOnP_append_cons_of_forall_mem ?_ _ (by decide) _
  intro b hb
  simp only [decide_eq_false_iff_not]
  rintro rfl
  exact h hb

theorem line_cases (s : List Byte) :
    0x0A ∉ s ∨ ∃ pre post, s = pre ++ 0x0A :: post ∧ 0x0A ∉ pre := by
  by_cases h : (0x0A : Byte) ∈ s
  · obtain ⟨pre, post, hs, hpre⟩ := List.eq_append_cons_of_mem h
    exact .inr ⟨pre, post, hs, hpre⟩
  · exact .inl h

theorem pieces_eq_map (s : List Byte) : pieces s = (rawPieces s).map (List.filter (· ≠ 0x0D)) := by
  induction hn : s.length using Nat.strong_induction_on generalizing s with
  | _ n ih =>
    rcases line_cases s with h | ⟨pre, post, rfl, hpre⟩
    · rw [pieces_of_not_mem h, rawPieces_of_not_mem h]
      rfl
    · rw [pieces_line hpre, rawPieces_line hpre, List.map_cons, ← ih post.length ?_ post rfl]
      rw [← hn, List.length_append, List.length_cons]
      omega

theorem IniText.map_lines (f : IniText) : f.lines.map Line.bytes = pieces f.content := by
  rw [IniText.lines, List.map_pmap]
  exact List.pmap_eq_self.2 fun _ _ => rfl

theorem IniText.map_delivered (f : IniText) :
    f.delivered.map Line.bytes = linesRead (f.content.length % INI_BUF_SIZE = 0) f.content := by
  have hne : pieces f.content ≠ [] := List.splitOnP_ne_nil _ _
  have hlast : (pieces f.content).dropLast ++ [lastPiece f.content] = pieces f.content := by
    rw [lastPiece, List.getLastD_eq_getLast?, List.getLast?_eq_some_getLast hne, Option.getD_some,
      List.dropLast_concat_getLast]
  unfold IniText.delivered linesRead splitLines
  by_cases h0 : f.content.length % INI_BUF_SIZE = 0
  · rw [if_pos (Or.inl h0), if_pos (decide_eq_true h0), List.map_dropLast, f.map_lines]
  · by_cases hl : lastPiece f.content = []
    · rw [if_pos (Or.inr hl), if_neg (by simpa using h0), if_pos hl, List.append_nil,
        List.map_dropLast, f.map_lines]
    · rw [if_neg (not_or.2 ⟨h0, hl⟩), if_neg (by simpa using h0), if_neg hl, hlast, f.map_lines]

end Pieces

/-! ## The whole file -/

section File
variable {total n : Nat} {rd : ReadSt} {s : List Byte} {r : LineResult}

theorem processOptionalBody_fails (st : OptPos × IbrBootOptional)
    (h : Ends readLineBody (rd, []) r) (hlen : r.Cmd.length ≤ 255) (hr : r.successful = false) :
    processOptionalBody (st, rd) = .done (some (.ok st.2)) := by
  have hsome : endOfString r = some ⟨false, ⟨r.Cmd, hlen⟩, r.rd⟩ := by
    rw [endOfString, dif_pos hlen, hr]
  rw [processOptionalBody, checkedReadLine_of_ends h, hsome]

theorem processOptionalBody_line (st : OptPos × IbrBootOptional)
    (h : Ends readLineBody (rd, []) r) (hlen : r.Cmd.length ≤ 255) (hr : r.successful = true) :
    processOptionalBody (st, rd) = .next (optStep st ⟨r.Cmd, hlen⟩, r.rd) := by
  have hsome : endOfString r = some ⟨true, ⟨r.Cmd, hlen⟩, r.rd⟩ := by
    rw [endOfString, dif_pos hlen, hr]
  rw [processOptionalBody, checkedReadLine_of_ends h, hsome]

/-- The lines delivered are steps. Each call takes a byte, but for the one that fails. -/
theorem Reading.processOptional (h : Reading total rd s) (hn : s.length + 1 < n)
    (hfits : ∀ p ∈ pieces s, p.length ≤ 255) (st : OptPos × IbrBootOptional) :
    ∃ lines : List Line, lines.map Line.bytes = linesRead (total % INI_BUF_SIZE = 0) s ∧
      iterate processOptionalBody n (st, rd) = some (some (.ok (lines.foldl optStep st).2)) := by
  induction n generalizing rd s st with
  | zero => omega
  | succ n ih =>
    obtain ⟨rd', ⟨pre, post, rfl, hpre, h', hr⟩ | ⟨hs, h', hr⟩⟩ := h.call []
    · rw [List.nil_append] at hr
      rw [pieces_line hpre] at hfits
      have hlen := hfits _ List.mem_cons_self
      have hlt : post.length + 1 < n := by
        rw [List.length_append, List.length_cons] at hn
        omega
      obtain ⟨lines, hlines, hrun⟩ := ih h' hlt (fun p hp => hfits p (List.mem_cons_of_mem _ hp))
        (optStep st ⟨_, hlen⟩)
      refine ⟨⟨_, hlen⟩ :: lines, ?_, ?_⟩
      · rw [List.map_cons, hlines, linesRead_line _ hpre]
      · rw [iterate_next (processOptionalBody_line st hr hlen rfl), hrun]
        rfl
    · rw [List.nil_append] at hr
      rw [pieces_of_not_mem hs] at hfits
      have hlen := hfits _ List.mem_cons_self
      by_cases hline : total % INI_BUF_SIZE ≠ 0 ∧ s.filter (· ≠ 0x0D) ≠ []
      · -- the last line, and a call that fails
        have hend : Ends readLineBody (rd', []) ⟨false, [], rd'⟩ := by
          have := h'.at_end []
          rwa [decide_eq_false (by simp)] at this
        obtain ⟨m, rfl⟩ : ∃ m, n = m + 1 := ⟨n - 1, by omega⟩
        refine ⟨[⟨_, hlen⟩], ?_, ?_⟩
        · rw [linesRead_end _ hs, if_neg (by simpa using hline)]
          rfl
        · rw [iterate_next (processOptionalBody_line st hr hlen (decide_eq_true hline))]
          exact iterate_done (processOptionalBody_fails _ hend (Nat.zero_le _) rfl)
      · refine ⟨[], ?_, iterate_done (processOptionalBody_fails st hr hlen (decide_eq_false hline))⟩
        rw [linesRead_end _ hs, if_pos]
        · rfl
        · rcases not_and_or.1 hline with h0 | h0
          · exact .inl (by simpa using h0)
          · exact .inr (not_not.1 h0)

/-- **`ProcessOptionalINI` on a file** takes the lines that `readLine` delivers. -/
theorem processOptionalFile_eq (f : IniText) :
    processOptionalFile f.content =
      (processOptionalINI (some f.delivered)).map OptOutcome.ok := by
  obtain ⟨lines, hlines, hrun⟩ := (reading_start f.content).processOptional (Nat.lt_succ_self _)
    f.fits (.outer, optionalDefaults)
  rw [lines_unique (hlines.trans f.map_delivered.symm)] at hrun
  rw [processOptionalFile, hrun]
  rfl

theorem processOptionalFile_eq_iff (f f' : IniText) :
    processOptionalFile f'.content = processOptionalFile f.content ↔
      recorded f'.delivered = recorded f.delivered := by
  rw [processOptionalFile_eq, processOptionalFile_eq, ← processOptionalINI_eq_iff]
  simp [processOptionalINI]

end File

/-! ## Texts that differ in blank lines -/

section Same
variable {f f' : IniText}

theorem blankPiece_eq (p : List Byte) :
    (p.filter (· ≠ 0x0D)).all (fun b => b = 0x20 || b = 0x09) = blankPiece p := by
  unfold blankPiece
  induction p with
  | nil => rfl
  | cons b p ih =>
    by_cases hcr : b = 0x0D
    · rw [List.filter_cons_of_neg (by simpa using hcr), ih, List.all_cons, hcr]
      rfl
    · have hb : decide (b = 0x0D) = false := decide_eq_false hcr
      rw [List.filter_cons_of_pos (by simpa using hcr), List.all_cons, List.all_cons, ih, hb,
        Bool.or_false]

theorem IniText.map_notBlank (f : IniText) : (f.lines.filter Line.notBlank).map Line.bytes =
    ((rawPieces f.content).filter fun p => !blankPiece p).map (List.filter (· ≠ 0x0D)) := by
  have hblank : (fun p => !blankPiece p) =
      (fun p : List Byte => !p.all fun b => b = 0x20 || b = 0x09) ∘ List.filter (· ≠ 0x0D) :=
    funext fun p => congrArg (!·) (blankPiece_eq p).symm
  rw [hblank, ← List.filter_map, ← pieces_eq_map, ← f.map_lines, List.filter_map]
  rfl

theorem SameButBlanks.notBlank (h : SameButBlanks f.content f'.content) :
    f'.lines.filter Line.notBlank = f.lines.filter Line.notBlank := by
  refine lines_unique ?_
  rw [f'.map_notBlank, f.map_notBlank, h]

theorem filter_dropLast {α : Type*} (p : α → Bool) (l : List α) :
    l.dropLast.filter p = l.filter p ∨ l.dropLast.filter p = (l.filter p).dropLast := by
  induction l using List.reverseRecOn with
  | nil => exact .inl rfl
  | append_singleton l x =>
    rw [List.dropLast_concat, List.filter_append]
    by_cases hx : p x = true
    · rw [List.filter_cons_of_pos hx, List.filter_nil, List.dropLast_concat]
      exact .inr rfl
    · rw [List.filter_cons_of_neg hx, List.filter_nil, List.append_nil]
      exact .inl rfl

theorem IniText.delivered_notBlank (f : IniText) :
    f.delivered.filter Line.notBlank = f.lines.filter Line.notBlank ∨
      f.delivered.filter Line.notBlank = (f.lines.filter Line.notBlank).dropLast := by
  unfold IniText.delivered
  split
  · exact filter_dropLast _ _
  · exact .inl rfl

theorem IniText.mem_lines_of_delivered {l : Line} (h : l ∈ f.delivered) : l ∈ f.lines := by
  unfold IniText.delivered at h
  split at h
  · exact List.mem_of_mem_dropLast h
  · exact h

theorem take_settings_of_dropLast {lines : List Line}
    (h : ((settingLines lines.dropLast).take optionalMaxNumber).map settingPair =
      List.replicate optionalMaxNumber ffPair) :
    ((settingLines lines).take optionalMaxNumber).map settingPair =
      List.replicate optionalMaxNumber ffPair := by
  induction lines using List.reverseRecOn with
  | nil => exact h
  | append_singleton lines l =>
    rw [List.dropLast_concat] at h
    have hlen : optionalMaxNumber ≤ (settingLines lines).length := by
      have := congrArg List.length h
      rw [List.length_map, List.length_take, List.length_replicate] at this
      omega
    rw [settingLines_concat, List.take_append_of_le_length hlen, h]

theorem recorded_eq_nil {lines : List Line} (h : ∀ l ∈ lines, isUserDefine l.cmd = false) :
    recorded lines = [] := by
  rw [recorded, settingLines_eq, settingsFrom_eq_nil h]
  rfl

/-- **Where blank lines make no difference.** -/
theorem same_of_blanks (h : SameButBlanks f.content f'.content)
    (hcond : (∀ l ∈ f.lines, isUserDefine l.cmd = false) ∨
      ((settingLines (f.lines.filter Line.notBlank).dropLast).take optionalMaxNumber).map
        settingPair = List.replicate optionalMaxNumber ffPair) :
    recorded f'.delivered = recorded f.delivered := by
  rcases hcond with hnone | hff
  · have hnone' : ∀ l ∈ f'.lines, isUserDefine l.cmd = false := by
      rw [← no_userDefine_filter, h.notBlank, no_userDefine_filter]
      exact hnone
    rw [recorded_eq_nil fun l hl => hnone l (IniText.mem_lines_of_delivered hl),
      recorded_eq_nil fun l hl => hnone' l (IniText.mem_lines_of_delivered hl)]
  · have hall : ∀ g : IniText, g.lines.filter Line.notBlank = f.lines.filter Line.notBlank →
        recorded g.delivered = List.replicate optionalMaxNumber ffPair := by
      intro g hg
      refine recorded_filter ?_
      rcases g.delivered_notBlank with heq | heq
      · rw [heq, hg]
        exact take_settings_of_dropLast hff
      · rw [heq, hg]
        exact hff
    rw [hall f' h.notBlank, hall f rfl]

end Same

/-! ## Texts made of lines -/

section Texts
variable {ps : List (List Byte)} {s : List Byte} {f : IniText}

theorem rawPieces_joinLines (hps : ∀ p ∈ ps, 0x0A ∉ p) (s : List Byte) :
    rawPieces (joinLines ps ++ s) = ps ++ rawPieces s := by
  induction ps with
  | nil => rfl
  | cons p ps ih =>
    have hcons : joinLines (p :: ps) ++ s = p ++ 0x0A :: (joinLines ps ++ s) := by
      simp [joinLines]
    rw [hcons, rawPieces_line (hps p List.mem_cons_self),
      ih fun q hq => hps q (List.mem_cons_of_mem _ hq), List.cons_append]

theorem not_mem_rawPieces {content p : List Byte} (h : p ∈ rawPieces content) : 0x0A ∉ p := by
  induction hn : content.length using Nat.strong_induction_on generalizing content with
  | _ n ih =>
    rcases line_cases content with hs | ⟨pre, post, rfl, hpre⟩
    · rw [rawPieces_of_not_mem hs, List.mem_singleton] at h
      rwa [h]
    · rw [rawPieces_line hpre] at h
      rcases List.mem_cons.1 h with rfl | h
      · exact hpre
      · refine ih post.length ?_ h rfl
        rw [← hn, List.length_append, List.length_cons]
        omega

theorem exists_text (hps : ∀ p ∈ ps ++ [s], 0x0A ∉ p ∧ (p.filter (· ≠ 0x0D)).length ≤ 255) :
    ∃ g : IniText, g.content = joinLines ps ++ s ∧ rawPieces g.content = ps ++ [s] := by
  have hraw : rawPieces (joinLines ps ++ s) = ps ++ [s] := by
    rw [rawPieces_joinLines fun p hp => (hps p (List.mem_append_left _ hp)).1,
      rawPieces_of_not_mem (hps s (by simp)).1]
  refine ⟨⟨joinLines ps ++ s, ?_⟩, rfl, hraw⟩
  rw [pieces_eq_map, hraw]
  intro p hp
  obtain ⟨q, hq, rfl⟩ := List.mem_map.1 hp
  exact (hps q hq).2

theorem IniText.map_delivered_of_lost (hraw : rawPieces f.content = ps ++ [s])
    (hlost : f.content.length % INI_BUF_SIZE = 0 ∨ s.filter (· ≠ 0x0D) = []) :
    f.delivered.map Line.bytes = ps.map (List.filter (· ≠ 0x0D)) := by
  have hpieces : pieces f.content = ps.map (List.filter (· ≠ 0x0D)) ++ [s.filter (· ≠ 0x0D)] := by
    rw [pieces_eq_map, hraw, List.map_append, List.map_singleton]
  have hlast : lastPiece f.content = s.filter (· ≠ 0x0D) := by
    rw [lastPiece, hpieces, List.getLastD_concat]
  rw [IniText.delivered, if_pos (hlast ▸ hlost), List.map_dropLast, f.map_lines, hpieces,
    List.dropLast_concat]

def Writable (ps : List (List Byte)) : Prop :=
  ∀ p ∈ ps, 0x0A ∉ p ∧ (p.filter (· ≠ 0x0D)).length ≤ 255

theorem IniText.writable (f : IniText) : Writable (rawPieces f.content) := fun p hp =>
  ⟨not_mem_rawPieces hp, f.fits _ (by
    rw [pieces_eq_map]
    exact List.mem_map_of_mem hp)⟩

theorem Writable.append {ps qs : List (List Byte)} (h : Writable ps) (h' : Writable qs) :
    Writable (ps ++ qs) :=
  fun p hp => (List.mem_append.1 hp).elim (h p) (h' p)

theorem Writable.blank (h : ∀ p ∈ ps, blankPiece p = true ∧ p.length ≤ 255) : Writable ps := by
  intro p hp
  obtain ⟨hblank, hlen⟩ := h p hp
  refine ⟨fun hlf => ?_, Nat.le_trans (List.length_filter_le _ _) hlen⟩
  exact absurd (List.all_eq_true.1 hblank _ hlf) (by decide)

end Texts

/-! ## Blank lines that make a difference -/

section Differ
variable {f : IniText} {ps : List (List Byte)}

/-- The lines `ps`, which are those of `f` and blank ones, as a text that ends with an LF. -/
theorem text_of_lines (hps : Writable ps) (hsame : (ps.filter fun p => !blankPiece p) =
      (rawPieces f.content).filter fun p => !blankPiece p) :
    ∃ g : IniText, SameButBlanks f.content g.content ∧
      g.delivered.map Line.bytes = ps.map (List.filter (· ≠ 0x0D)) := by
  have hnil : Writable [[]] := Writable.blank fun p hp => by
    rw [List.mem_singleton.1 hp]
    exact ⟨rfl, Nat.zero_le _⟩
  obtain ⟨g, -, hraw⟩ := exists_text (hps.append hnil)
  refine ⟨g, ?_, IniText.map_delivered_of_lost hraw (.inr rfl)⟩
  rw [SameButBlanks, hraw, List.filter_append, hsame]
  exact List.append_nil _

/-- The last line is lost behind as many blank lines as it takes. -/
theorem text_that_loses {p : List Byte} (hps : Writable (ps ++ [p]))
    (hsame : ((ps ++ [p]).filter fun p => !blankPiece p) =
      (rawPieces f.content).filter fun p => !blankPiece p) :
    ∃ (g : IniText) (blanks : List Line), SameButBlanks f.content g.content ∧
      (∀ l ∈ blanks, l.blank = true) ∧
      g.delivered.map Line.bytes = blanks.map Line.bytes ++ ps.map (List.filter (· ≠ 0x0D)) := by
  obtain ⟨t, ht⟩ : ∃ t, (t + (joinLines ps ++ p).length) % INI_BUF_SIZE = 0 := by
    refine ⟨512 - (joinLines ps ++ p).length % 512, ?_⟩
    unfold INI_BUF_SIZE
    omega
  have hblank : ∀ q ∈ List.replicate t ([] : List Byte), blankPiece q = true ∧ q.length ≤ 255 := by
    intro q hq
    rw [List.eq_of_mem_replicate hq]
    exact ⟨rfl, Nat.zero_le _⟩
  have hall : Writable ((List.replicate t [] ++ ps) ++ [p]) := by
    rw [List.append_assoc]
    exact (Writable.blank hblank).append hps
  obtain ⟨g, hcontent, hraw⟩ := exists_text hall
  have hlength : g.content.length % INI_BUF_SIZE = 0 := by
    rw [hcontent, joinLines, List.flatMap_append, List.append_assoc, List.length_append, ← joinLines,
      ← joinLines]
    have hreplicate : (joinLines (List.replicate t [])).length = t := by
      simp [joinLines]
    rw [hreplicate]
    exact ht
  refine ⟨g, List.replicate t ⟨[], Nat.zero_le _⟩, ?_, ?_, ?_⟩
  · have hnone : (List.replicate t ([] : List Byte)).filter (fun p => !blankPiece p) = [] :=
      List.filter_eq_nil_iff.2 fun q hq => by
        rw [(hblank q hq).1]
        decide
    rw [SameButBlanks, hraw, List.append_assoc, List.filter_append, hnone, List.nil_append, hsame]
  · intro l hl
    rw [List.eq_of_mem_replicate hl]
    rfl
  · rw [IniText.map_delivered_of_lost hraw (.inl hlength), List.map_append, List.map_replicate,
      List.map_replicate]
    rfl

theorem recorded_blanks {blanks : List Line} (h : ∀ l ∈ blanks, l.blank = true)
    (lines : List Line) : recorded (blanks ++ lines) = recorded lines := by
  have hmark : ∀ l ∈ blanks, l.marked = false := fun l hl => Line.blank_not_marked (h l hl)
  have huser : inUserDefine blanks = false := by
    rw [inUserDefine, List.find?_eq_none.2]
    · rfl
    · intro l hl
      rw [hmark l (List.mem_reverse.1 hl)]
      decide
  have hnone : settingLines blanks = [] := by
    rw [settingLines_eq, settingsFrom_eq_nil fun l hl => not_isUserDefine (hmark l hl)]
  rw [recorded, settingLines_append, huser, hnone, List.nil_append, ← settingLines_eq]
  rfl

theorem writable_insert {pre post : List (List Byte)} {m : List Byte}
    (h : Writable (pre ++ m :: post)) : Writable (pre ++ m :: [0x20] :: post) := by
  have hblank : Writable [[0x20]] := Writable.blank fun p hp => by
    rw [List.mem_singleton.1 hp]
    decide
  intro p hp
  rcases List.mem_append.1 hp with hp | hp
  · exact h p (List.mem_append_left _ hp)
  rcases List.mem_cons.1 hp with rfl | hp
  · exact h p (List.mem_append_right _ List.mem_cons_self)
  rcases List.mem_cons.1 hp with rfl | hp
  · exact hblank _ List.mem_cons_self
  · exact h p (List.mem_append_right _ (List.mem_cons_of_mem _ hp))

theorem filter_insert_blank {m : List Byte} (pre post : List (List Byte)) :
    ((pre ++ m :: [0x20] :: post).filter fun p => !blankPiece p) =
      (pre ++ m :: post).filter fun p => !blankPiece p := by
  rw [List.append_cons, List.append_cons pre m post, List.filter_append,
    List.filter_cons_of_neg (by decide), ← List.filter_append]

/-- **Where they do**: a file with a user section, if not its first 63 settings are 0xFF
without the last line. -/
theorem settings_of_same
    (hinv : ∀ f' : IniText, SameButBlanks f.content f'.content →
      recorded f'.delivered = recorded f.delivered) :
    (∀ l ∈ f.lines, isUserDefine l.cmd = false) ∨
      ((settingLines (f.lines.filter Line.notBlank).dropLast).take optionalMaxNumber).map
        settingPair = List.replicate optionalMaxNumber ffPair := by
  cases hfind : (f.lines.filter Line.notBlank).find? fun l => isUserDefine l.cmd with
  | none =>
    refine .inl ((no_userDefine_filter f.lines).1 fun l hl => ?_)
    have hl := List.find?_eq_none.1 hfind l hl
    rwa [Bool.not_eq_true] at hl
  | some mark =>
    right
    obtain ⟨hmark, pre, post, heq, hpre⟩ := List.find?_eq_some_iff_append.1 hfind
    have hpre : ∀ l ∈ pre, isUserDefine l.cmd = false := by simpa using hpre
    obtain ⟨hset, huser⟩ := settingLines_first_mark hpre hmark
    -- the pieces of the text behind these lines
    have hwritable : Writable ((rawPieces f.content).filter fun p => !blankPiece p) :=
      fun p hp => f.writable p (List.mem_of_mem_filter hp)
    have hraw := f.map_notBlank
    obtain ⟨ps, hps⟩ : ∃ ps, (rawPieces f.content).filter (fun p => !blankPiece p) = ps := ⟨_, rfl⟩
    have hsame : (ps.filter fun p => !blankPiece p) =
        (rawPieces f.content).filter fun p => !blankPiece p := by
      rw [← hps, List.filter_filter]
      simp
    rw [hps] at hwritable hraw
    have hlines := hraw.symm.trans (congrArg (List.map Line.bytes) heq)
    rw [List.map_append] at hlines
    obtain ⟨preR, restR, rfl, hpreR, hrestR⟩ := List.map_eq_append_iff.1 hlines
    obtain ⟨m, postR, rfl, hm, hpostR⟩ := List.map_eq_cons_iff.1 hrestR
    -- the lines as they are
    obtain ⟨g, hg, hgl⟩ := text_of_lines hwritable hsame
    have hdel : g.delivered = (pre ++ [mark]) ++ post := by
      rw [← List.append_cons, ← heq]
      exact lines_unique (hgl.trans hraw.symm)
    -- one blank line right behind the first mark
    obtain ⟨g', hg', hgl'⟩ := text_of_lines (writable_insert hwritable)
      ((filter_insert_blank preR postR).trans hsame)
    have hdel' : g'.delivered = (pre ++ [mark]) ++ blankLine :: post := by
      refine lines_unique (hgl'.trans ?_)
      rw [List.map_append, List.map_cons, List.map_cons, hpreR, hm, hpostR, ← List.append_cons,
        List.map_append, List.map_cons, List.map_cons]
      rfl
    have hrec := (hinv g' hg').trans (hinv g hg).symm
    rw [hdel', hdel] at hrec
    have hcond := (insert_blank_iff (pre ++ [mark]) post (by decide) (by decide)).1 hrec
    rw [huser, hset] at hcond
    have hff : recorded g.delivered = List.replicate optionalMaxNumber ffPair := by
      rw [hdel]
      exact hcond.resolve_left (by decide)
    -- and the lines without the last
    obtain h0 | ⟨init, p, hinit⟩ := List.eq_nil_or_concat (preR ++ m :: postR)
    · simp at h0
    rw [List.concat_eq_append] at hinit
    rw [hinit] at hwritable hsame hraw
    obtain ⟨g'', blanks, hg'', hblanks, hgl''⟩ := text_that_loses hwritable hsame
    have hdel'' : g''.delivered = blanks ++ (f.lines.filter Line.notBlank).dropLast := by
      refine lines_unique (hgl''.trans ?_)
      rw [List.map_append, List.map_dropLast, hraw, List.map_append, List.map_singleton,
        List.dropLast_concat]
    have hlost := (hinv g'' hg'').trans (hinv g hg).symm
    rw [hdel'', recorded_blanks hblanks, hff] at hlost
    exact hlost

end Differ

/-! ## One more blank line -/

section Put
variable {f f' : IniText} {ps : List (List Byte)} {b post : List Byte}

theorem linesRead_joinLines (lost : Bool) (hps : ∀ p ∈ ps, 0x0A ∉ p) (post : List Byte) :
    linesRead lost (joinLines ps ++ post) =
      ps.map (List.filter (· ≠ 0x0D)) ++ linesRead lost post := by
  induction ps with
  | nil => rfl
  | cons p ps ih =>
    have hcons : joinLines (p :: ps) ++ post = p ++ 0x0A :: (joinLines ps ++ post) := by
      simp [joinLines]
    rw [hcons, linesRead_line _ (hps p List.mem_cons_self),
      ih fun q hq => hps q (List.mem_cons_of_mem _ hq), List.map_cons, List.cons_append]

theorem not_mem_of_blankPiece (h : blankPiece b = true) : 0x0A ∉ b := by
  intro hlf
  exact absurd (List.all_eq_true.1 h _ hlf) (by decide)

theorem lastPiece_joinLines (hps : ∀ p ∈ ps, 0x0A ∉ p) (post : List Byte) :
    lastPiece (joinLines ps ++ post) = lastPiece post := by
  have hne : rawPieces post ≠ [] := List.splitOnP_ne_nil _ _
  unfold lastPiece
  rw [pieces_eq_map, pieces_eq_map, rawPieces_joinLines hps, List.map_append,
    List.getLastD_eq_getLast?, List.getLastD_eq_getLast?, List.getLast?_append_of_ne_nil]
  simpa using hne

theorem linesRead_of_lastPiece (h : lastPiece post = []) (lost lost' : Bool) :
    linesRead lost post = linesRead lost' post := by
  have hall : ∀ lost, linesRead lost post = (pieces post).dropLast := by
    intro lost
    unfold linesRead splitLines
    rw [if_pos h, List.append_nil, ite_self]
  rw [hall, hall]

theorem BlankPut.delivered (h : BlankPut f f' ps b post) :
    ∃ (bl : Line) (rest : List Line), bl.blank = true ∧ bl.cmd ≠ [] ∧
      f.delivered = f.lines.take ps.length ++ rest ∧
      f'.delivered = f.lines.take ps.length ++ bl :: rest := by
  have hb : 0x0A ∉ b := not_mem_of_blankPiece h.blank
  have hps' : ∀ p ∈ ps ++ [b], 0x0A ∉ p := fun p hp =>
    (List.mem_append.1 hp).elim (h.lines p) fun hp => List.mem_singleton.1 hp ▸ hb
  -- the lines before the place
  have hpieces : pieces f.content = ps.map (List.filter (· ≠ 0x0D)) ++ pieces post := by
    rw [pieces_eq_map, h.before, rawPieces_joinLines h.lines, List.map_append, ← pieces_eq_map]
  have htake : (f.lines.take ps.length).map Line.bytes = ps.map (List.filter (· ≠ 0x0D)) := by
    rw [List.map_take, f.map_lines, hpieces, List.take_left' (List.length_map _)]
  -- the lines behind it
  have hlost : linesRead (f'.content.length % INI_BUF_SIZE = 0) post =
      linesRead (f.content.length % INI_BUF_SIZE = 0) post := by
    rcases h.last with hlast | hlast
    · refine linesRead_of_lastPiece ?_ _ _
      rwa [h.before, lastPiece_joinLines h.lines] at hlast
    · rw [decide_eq_decide.2 hlast]
  have hread : f.delivered.map Line.bytes = ps.map (List.filter (· ≠ 0x0D)) ++
      linesRead (f.content.length % INI_BUF_SIZE = 0) post := by
    rw [f.map_delivered, ← linesRead_joinLines _ h.lines, ← h.before]
  have hread' : f'.delivered.map Line.bytes = (ps ++ [b]).map (List.filter (· ≠ 0x0D)) ++
      linesRead (f.content.length % INI_BUF_SIZE = 0) post := by
    rw [f'.map_delivered, ← hlost, ← linesRead_joinLines _ hps', ← h.after]
  obtain ⟨pre, rest, hdel, hpre, hrest⟩ := List.map_eq_append_iff.1 hread
  rw [List.map_append, List.append_assoc] at hread'
  obtain ⟨pre', rest', hdel', hpre', hrest'⟩ := List.map_eq_append_iff.1 hread'
  obtain ⟨bl, rest', rfl, hbl, hrest'⟩ := List.map_eq_cons_iff.1 hrest'
  have hpre := lines_unique (hpre.trans htake.symm)
  have hpre' := lines_unique (hpre'.trans htake.symm)
  have hrest' := lines_unique (hrest'.trans hrest.symm)
  have hblank : bl.blank = true := by
    rw [Line.blank, hbl, blankPiece_eq]
    exact h.blank
  refine ⟨bl, rest, hblank, ?_, ?_, ?_⟩
  · rw [Line.blank_cmd hblank, hbl]
    exact h.nonempty
  · rw [hdel, hpre]
  · rw [hdel', hpre', hrest']

/-- **One more blank line in a file.** -/
theorem BlankPut.same_iff (h : BlankPut f f' ps b post) :
    let n := (settingLines (f.lines.take ps.length)).length
    processOptionalFile f'.content = processOptionalFile f.content ↔
      inUserDefine (f.lines.take ps.length) = false ∨
        (((settingLines f.delivered).drop n).take (63 - n)).map settingPair =
          List.replicate (63 - n) ffPair := by
  obtain ⟨bl, rest, hblank, hne, hdel, hdel'⟩ := h.delivered
  rw [processOptionalFile_eq_iff, hdel', hdel]
  exact insert_blank_iff _ _ hblank hne

end Put

/-! ## The results -/

/-- **Blank lines in `TurboWriter.ini`**: the files for which none makes a difference, the
places of a file at which one more makes none, and the files that yield only pairs
with a token. -/
theorem blank_lines_iff (f : IniText) :
    ((∀ f' : IniText, SameButBlanks f.content f'.content →
        processOptionalFile f'.content = processOptionalFile f.content) ↔
      (∀ l ∈ f.lines, isUserDefine l.cmd = false) ∨
        ((settingLines (f.lines.filter Line.notBlank).dropLast).take 63).map settingPair =
          List.replicate 63 ffPair) ∧
    (∀ f' ps b post, BlankPut f f' ps b post →
      let before := f.lines.take ps.length
      let n := (settingLines before).length
      (processOptionalFile f'.content = processOptionalFile f.content ↔
        inUserDefine before = false ∨
          (((settingLines f.delivered).drop n).take (63 - n)).map settingPair =
            List.replicate (63 - n) ffPair)) ∧
    ((∀ l ∈ sources f.delivered, tokens isDelim l.cmd ≠ []) ↔
      ∀ pre l post, f.delivered = pre ++ l :: post → inUserDefine pre = true → l.cmd ≠ [] →
        (∀ b ∈ l.cmd, isDelim b = true) → 63 ≤ (settingLines pre).length) := by
  refine ⟨?_, fun f' ps b post h => h.same_iff, sources_tokens_iff f.delivered⟩
  simp only [processOptionalFile_eq_iff]
  exact ⟨settings_of_same, fun hcond f' hsame => same_of_blanks hsame hcond⟩

/-- A blank line behind `[USER_DEFINE]` is a pair, and no token stands in it. -/
theorem blank_line_counts :
    ∃ f f' : IniText,
      f.content = ascii "[USER_DEFINE]\n" ∧ f'.content = ascii "[USER_DEFINE]\n \n" ∧
      SameButBlanks f.content f'.content ∧
      (∃ o, processOptionalFile f.content = some (.ok o) ∧ o.counter = 0) ∧
      (∃ o, processOptionalFile f'.content = some (.ok o) ∧ o.counter = 1) ∧
      sources f'.delivered = [blankLine] ∧ tokens isDelim blankLine.cmd = [] := by
  refine ⟨⟨ascii "[USER_DEFINE]\n", by decide⟩, ⟨ascii "[USER_DEFINE]\n \n", by decide⟩, rfl, rfl,
    ?_, ⟨_, processOptionalFile_eq _, by decide⟩, ⟨_, processOptionalFile_eq _, by decide⟩,
    by decide, by decide⟩
  unfold SameButBlanks
  decide

end N32905.MnWriter
