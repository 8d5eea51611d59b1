import N32905.Lib.CString
import N32905.Lib.Run
import N32905.MnWriter.Structs

/-!
# `NANDWRITER.ini`

`processINI` is `ProcessINI` on the lines `readLine` delivers. The C function is
an outer loop with five inner ones and a `goto NextMark2` out of each of them;
here `IniPos` says which loop reads the next line, and `iniStep` is what that
loop does with it.

`values` gives the file a meaning without positions: the values of all
occurrences of a keyword, in file order. `processINI_setting` says that the last
one counts.
-/

namespace N32905.MnWriter

open N32905.Lib

/-! ## Lines -/

/-- A line as `readLine` delivers it: with its NUL it fits `Cmd[256]`. -/
structure Line where
  bytes : List Byte
  fits : bytes.length ≤ 255
  deriving DecidableEq

namespace Line

def cmd (l : Line) : List Byte := text l.bytes

/-- An empty line or a comment. -/
def skipped (l : Line) : Bool := l.cmd = [] || (l.cmd[0]? = some 0x2F && l.cmd[1]? = some 0x2F)

/-- `Cmd[0] == '['`. -/
def marked (l : Line) : Bool := l.cmd[0]? = some 0x5B

theorem not_skipped_of_marked {l : Line} (h : l.marked) : l.skipped = false := by
  unfold marked at h
  unfold skipped
  have hne : l.cmd ≠ [] := by
    intro h0
    simp [h0] at h
  simp only [decide_eq_true_eq] at h
  simp [h, hne]

theorem length_cmd_le (l : Line) : l.cmd.length ≤ 255 := (length_text_le _).trans l.fits

end Line

/-! ## The model -/

inductive Keyword
  | nandLoader | logo | execFile | execFileNum | execAddress
  deriving DecidableEq

/-- The line that opens a setting's section. -/
def Keyword.line : Keyword → List Byte
  | .nandLoader => ascii "[NandLoader File Name]"
  | .logo => ascii "[Logo File Name]"
  | .execFile => ascii "[Execute File Name]"
  | .execFileNum => ascii "[Execute Image Number]"
  | .execAddress => ascii "[Execute Image Address]"

/-- Which loop reads the next line: the outer one, or the one that waits for the
value of a keyword. -/
inductive IniPos
  | outer
  | value (k : Keyword)
  deriving DecidableEq

/-- The `if` chain at `NextMark2`. -/
def nextMark (cmd : List Byte) : IniPos :=
  if cmd = Keyword.nandLoader.line then .value .nandLoader
  else if cmd = Keyword.logo.line then .value .logo
  else if cmd = Keyword.execFile.line then .value .execFile
  else if cmd = Keyword.execFileNum.line then .value .execFileNum
  else if cmd = Keyword.execAddress.line then .value .execAddress
  else .outer

/-- `strcpy` of a string of at most 511 bytes; `none` is the exit "too long". -/
def copyName (dst : List.Vector Byte 512) (cmd : List Byte) : Option (List.Vector Byte 512) :=
  if h : 511 < cmd.length then none
  else some ⟨cmd ++ 0 :: dst.toList.drop (cmd.length + 1), by simp; omega⟩

/-- What the loop of `k` does with its value. -/
def storeValue (ini : IniInfo) (cmd : List Byte) : Keyword → Option IniInfo
  | .nandLoader => (copyName ini.nandLoader cmd).map fun a => { ini with nandLoader := a }
  | .logo => (copyName ini.logo cmd).map fun a => { ini with logo := a }
  | .execFile => (copyName ini.execFile cmd).map fun a => { ini with execFile := a }
  | .execFileNum => some { ini with execFileNum := atoi cmd }
  | .execAddress => some { ini with execAddress := atoi cmd }

def iniStep : IniPos × IniInfo → Line → Option (IniPos × IniInfo)
  | (.outer, ini), l => some (nextMark l.cmd, ini)
  | (.value k, ini), l =>
    if l.skipped then some (.value k, ini)
    else if l.marked then some (nextMark l.cmd, ini)
    else (storeValue ini l.cmd k).map fun ini => (.outer, ini)

/-- The defaults `ProcessINI` sets before it opens the file. -/
def iniDefaults (ini : IniInfo) : IniInfo where
  nandLoader := ini.nandLoader.set 0 0
  logo := ini.logo.set 0 0
  execFile := ini.execFile.set 0 0
  execFileNum := 0
  execAddress := 0

/-- `ProcessINI`. `file` is `none` where `fopen` fails, else the lines of the
file; the result `none` is `Fail`. -/
def processINI (Ini_Writer : IniInfo) (file : Option (List Line)) : Option IniInfo := do
  let lines ← file
  let st ← run iniStep (.outer, iniDefaults Ini_Writer) lines
  return st.2

/-! ## The meaning of a file -/

inductive Setting
  | name (s : List Byte)
  | number (n : BitVec 32)
  deriving DecidableEq

/-- The setting of `k` in `Ini_Writer`. -/
def IniInfo.setting (ini : IniInfo) : Keyword → Setting
  | .nandLoader => .name (cstr ini.nandLoader)
  | .logo => .name (cstr ini.logo)
  | .execFile => .name (cstr ini.execFile)
  | .execFileNum => .number ini.execFileNum
  | .execAddress => .number ini.execAddress

/-- What the value `cmd` gives to `k`. -/
def Keyword.read (cmd : List Byte) : Keyword → Setting
  | .nandLoader | .logo | .execFile => .name cmd
  | .execFileNum | .execAddress => .number (atoi cmd)

def Keyword.default : Keyword → Setting
  | .nandLoader | .logo | .execFile => .name []
  | .execFileNum | .execAddress => .number 0

/-- The value of a keyword line with the lines `rest` behind it: the first of
them that is not skipped, unless it is marked. -/
def valueAfter (rest : List Line) : Option (List Byte) :=
  (rest.find? fun l => !l.skipped).bind fun l => if l.marked then none else some l.cmd

/-- The values of the occurrences of `k`'s line that have one, in file order. -/
def values (k : Keyword) : List Line → List (List Byte)
  | [] => []
  | l :: rest => (if l.cmd = k.line then (valueAfter rest).toList else []) ++ values k rest

/-- The setting a file gives to `k`: its last value counts. -/
def meaning (lines : List Line) (k : Keyword) : Setting :=
  match (values k lines).getLast? with
  | some v => k.read v
  | none => k.default

theorem Keyword.line_injective : Function.Injective Keyword.line := by
  intro k k'
  cases k <;> cases k' <;> decide

theorem nextMark_line (k : Keyword) : nextMark k.line = .value k := by
  cases k <;> decide

theorem nextMark_eq_value {cmd : List Byte} {k : Keyword} (h : nextMark cmd = .value k) :
    cmd = k.line := by
  unfold nextMark at h
  split_ifs at h <;> cases h <;> assumption

theorem marked_of_line {l : Line} {k : Keyword} (h : l.cmd = k.line) : l.marked := by
  unfold Line.marked
  rw [h]
  cases k <;> decide

theorem valueAfter_cons (l : Line) (rest : List Line) : valueAfter (l :: rest) =
    if l.skipped then valueAfter rest else if l.marked then none else some l.cmd := by
  unfold valueAfter
  rw [List.find?_cons]
  cases l.skipped <;> rfl

theorem valueAfter_marked {l : Line} (h : l.marked) (rest : List Line) :
    valueAfter (l :: rest) = none := by
  rw [valueAfter_cons, Line.not_skipped_of_marked h, if_pos h]
  rfl

/-! ## What a line does -/

/-- The setting of `k` after the values `vs`, `s` before them. -/
def Keyword.last (k : Keyword) (vs : List (List Byte)) (s : Setting) : Setting :=
  (vs.getLast?.map k.read).getD s

theorem meaning_eq_last (lines : List Line) (k : Keyword) :
    meaning lines k = k.last (values k lines) k.default := by
  unfold meaning Keyword.last
  cases (values k lines).getLast? <;> rfl

theorem Keyword.last_cons (k : Keyword) (v : List Byte) (vs : List (List Byte)) (s : Setting) :
    k.last (v :: vs) s = k.last vs (k.read v) := by
  unfold Keyword.last
  rw [List.getLast?_cons]
  cases vs.getLast? <;> rfl

/-- The values `k` gets from the lines to come. -/
def pending (k : Keyword) : IniPos → List Line → List (List Byte)
  | .outer, lines => values k lines
  | .value k', lines => (if k' = k then (valueAfter lines).toList else []) ++ values k lines

theorem pending_nil (k : Keyword) (pos : IniPos) : pending k pos [] = [] := by
  unfold pending
  split
  · rfl
  · split <;> rfl

theorem pending_nextMark (k : Keyword) (l : Line) (rest : List Line) :
    pending k (nextMark l.cmd) rest = values k (l :: rest) := by
  cases hm : nextMark l.cmd with
  | outer =>
    have hne : l.cmd ≠ k.line := by
      intro h
      rw [h, nextMark_line] at hm
      cases hm
    rw [pending, values, if_neg hne, List.nil_append]
  | value k' =>
    have hk' := nextMark_eq_value hm
    rw [pending, values]
    congr 1
    by_cases h : k' = k
    · rw [if_pos h, if_pos (by rw [hk', h])]
    · rw [if_neg h, if_neg (by rw [hk']; exact fun e => h (Keyword.line_injective e))]

theorem copyName_spec (dst : List.Vector Byte 512) (l : Line) :
    ∃ a, copyName dst l.cmd = some a ∧ cstr a = l.cmd := by
  have hlen := l.length_cmd_le
  refine ⟨_, dif_neg (by omega), ?_⟩
  exact text_append_zero (zero_not_mem_text _) _

theorem storeValue_spec (ini : IniInfo) (l : Line) (k : Keyword) :
    ∃ ini', storeValue ini l.cmd k = some ini' ∧ ini'.setting k = k.read l.cmd ∧
      ∀ k', k' ≠ k → ini'.setting k' = ini.setting k' := by
  cases k with
  | nandLoader =>
    obtain ⟨a, ha, hs⟩ := copyName_spec ini.nandLoader l
    refine ⟨{ ini with nandLoader := a }, by rw [storeValue, ha]; rfl, congrArg Setting.name hs, ?_⟩
    intro k' hk'
    cases k' <;> first | rfl | exact absurd rfl hk'
  | logo =>
    obtain ⟨a, ha, hs⟩ := copyName_spec ini.logo l
    refine ⟨{ ini with logo := a }, by rw [storeValue, ha]; rfl, congrArg Setting.name hs, ?_⟩
    intro k' hk'
    cases k' <;> first | rfl | exact absurd rfl hk'
  | execFile =>
    obtain ⟨a, ha, hs⟩ := copyName_spec ini.execFile l
    refine ⟨{ ini with execFile := a }, by rw [storeValue, ha]; rfl, congrArg Setting.name hs, ?_⟩
    intro k' hk'
    cases k' <;> first | rfl | exact absurd rfl hk'
  | execFileNum =>
    refine ⟨_, rfl, rfl, ?_⟩
    intro k' hk'
    cases k' <;> first | rfl | exact absurd rfl hk'
  | execAddress =>
    refine ⟨_, rfl, rfl, ?_⟩
    intro k' hk'
    cases k' <;> first | rfl | exact absurd rfl hk'

/-- **One line**: what a setting will be at the end of the file does not change. -/
theorem iniStep_last (pos : IniPos) (ini : IniInfo) (l : Line) :
    ∃ pos' ini', iniStep (pos, ini) l = some (pos', ini') ∧ ∀ (k : Keyword) rest,
      k.last (pending k pos (l :: rest)) (ini.setting k) =
        k.last (pending k pos' rest) (ini'.setting k) := by
  cases pos with
  | outer =>
    refine ⟨nextMark l.cmd, ini, rfl, fun k rest => ?_⟩
    rw [pending_nextMark]
    rfl
  | value k₀ =>
    by_cases hs : l.skipped
    · -- skipped: neither the value nor the keywords behind it move
      refine ⟨.value k₀, ini, if_pos hs, fun k rest => ?_⟩
      have hne : l.cmd ≠ k.line := by
        intro h
        have := Line.not_skipped_of_marked (marked_of_line h)
        rw [hs] at this
        cases this
      rw [pending, pending, valueAfter_cons, if_pos hs, values, if_neg hne, List.nil_append]
    · by_cases hm : l.marked
      · refine ⟨nextMark l.cmd, ini, by rw [iniStep, if_neg hs, if_pos hm], fun k rest => ?_⟩
        rw [pending_nextMark, pending, valueAfter_marked hm]
        split <;> rfl
      · obtain ⟨ini', hst, hown, hother⟩ := storeValue_spec ini l k₀
        refine ⟨.outer, ini', by rw [iniStep, if_neg hs, if_neg hm, hst]; rfl, fun k rest => ?_⟩
        have hne : l.cmd ≠ k.line := fun h => hm (marked_of_line h)
        rw [pending, pending, valueAfter_cons, if_neg hs, if_neg hm, values, if_neg hne,
          List.nil_append]
        by_cases hk : k₀ = k
        · subst hk
          rw [if_pos rfl, hown]
          exact k₀.last_cons l.cmd _ _
        · rw [if_neg hk, hother k (Ne.symm hk), List.nil_append]

/-- **A whole file**: the run returns, each setting being its last value. -/
theorem run_iniStep_last (lines : List Line) (pos : IniPos) (ini : IniInfo) :
    ∃ pos' ini', run iniStep (pos, ini) lines = some (pos', ini') ∧
      ∀ k, ini'.setting k = k.last (pending k pos lines) (ini.setting k) := by
  induction lines generalizing pos ini with
  | nil =>
    refine ⟨pos, ini, rfl, fun k => ?_⟩
    rw [pending_nil]
    rfl
  | cons l rest ih =>
    obtain ⟨pos₁, ini₁, hstep, hlast⟩ := iniStep_last pos ini l
    obtain ⟨pos', ini', hrun, hset⟩ := ih pos₁ ini₁
    refine ⟨pos', ini', ?_, fun k => by rw [hset, hlast]⟩
    unfold run
    rw [List.foldlM_cons, hstep]
    exact hrun

theorem setting_iniDefaults (ini : IniInfo) (k : Keyword) :
    (iniDefaults ini).setting k = k.default := by
  have hset : ∀ a : List.Vector Byte 512, cstr (a.set 0 0) = [] := by
    intro a
    obtain ⟨b, t, rfl⟩ := a.exists_eq_cons
    rfl
  cases k <;> first | rfl | exact congrArg Setting.name (hset _)

theorem processINI_setting (Ini_Writer : IniInfo) (lines : List Line) :
    ∃ ini, processINI Ini_Writer (some lines) = some ini ∧
      ∀ k, ini.setting k = meaning lines k := by
  obtain ⟨pos, ini, hrun, hset⟩ := run_iniStep_last lines .outer (iniDefaults Ini_Writer)
  refine ⟨ini, ?_, fun k => ?_⟩
  · unfold processINI
    simp only [Option.bind_eq_bind, Option.bind_some, hrun]
    rfl
  · rw [hset, setting_iniDefaults, meaning_eq_last]
    rfl

/-! ## Comments and the order of sections -/

theorem iniStep_skipped {l : Line} (h : l.skipped) (st : IniPos × IniInfo) :
    iniStep st l = some st := by
  obtain ⟨pos, ini⟩ := st
  cases pos with
  | outer =>
    have hm : nextMark l.cmd = .outer := by
      cases hm : nextMark l.cmd with
      | outer => rfl
      | value k =>
        have := Line.not_skipped_of_marked (marked_of_line (nextMark_eq_value hm))
        rw [h] at this
        cases this
    rw [iniStep, hm]
  | value k => rw [iniStep, if_pos h]

theorem run_iniStep_filter (lines : List Line) (st : IniPos × IniInfo) :
    run iniStep st (lines.filter fun l => !l.skipped) = run iniStep st lines := by
  unfold run
  induction lines generalizing st with
  | nil => rfl
  | cons l rest ih =>
    by_cases h : l.skipped
    · rw [List.filter_cons_of_neg (by simp [h]), List.foldlM_cons, iniStep_skipped h]
      exact ih st
    · rw [List.filter_cons_of_pos (by simp [h]), List.foldlM_cons, List.foldlM_cons]
      congr 1
      funext st'
      exact ih st'

/-- A whole section: a marked line and the lines up to the next one. -/
structure Section where
  key : Line
  body : List Line
  marked : key.marked
  plain : ∀ l ∈ body, l.marked = false

namespace Section

def lines (s : Section) : List Line := s.key :: s.body

def hasValue (s : Section) : Bool := (valueAfter s.body).isSome

/-- What a section gives to `k`. -/
def values (k : Keyword) (s : Section) : List (List Byte) :=
  if s.key.cmd = k.line then (valueAfter s.body).toList else []

end Section

/-- `post` does not go on with the section before it. -/
def StartsMarked (post : List Line) : Prop := ∀ l ∈ post.head?, l.marked

theorem valueAfter_append (body : List Line) {post : List Line} (h : StartsMarked post) :
    valueAfter (body ++ post) = valueAfter body := by
  induction body with
  | nil =>
    cases post with
    | nil => rfl
    | cons l post =>
      rw [List.nil_append, valueAfter_marked (h l rfl)]
      rfl
  | cons l body ih =>
    rw [List.cons_append, valueAfter_cons, valueAfter_cons, ih]

theorem values_append (k : Keyword) (pre : List Line) {post : List Line} (h : StartsMarked post) :
    values k (pre ++ post) = values k pre ++ values k post := by
  induction pre with
  | nil => rfl
  | cons l pre ih =>
    rw [List.cons_append, values, values, valueAfter_append _ h, ih, List.append_assoc]

theorem values_plain (k : Keyword) {body : List Line} (h : ∀ l ∈ body, l.marked = false) :
    values k body = [] := by
  induction body with
  | nil => rfl
  | cons l body ih =>
    have hne : l.cmd ≠ k.line := by
      intro e
      have := h l (by simp)
      rw [marked_of_line e] at this
      cases this
    rw [values, if_neg hne, ih fun l hl => h l (List.mem_cons_of_mem _ hl)]
    rfl

theorem startsMarked_sections (ss : List Section) {post : List Line} (h : StartsMarked post) :
    StartsMarked (ss.flatMap Section.lines ++ post) := by
  cases ss with
  | nil => exact h
  | cons s ss =>
    intro l hl
    cases hl
    exact s.marked

theorem values_sections (k : Keyword) (ss : List Section) {post : List Line}
    (h : StartsMarked post) :
    values k (ss.flatMap Section.lines ++ post) = ss.flatMap (Section.values k) ++ values k post := by
  induction ss with
  | nil => rfl
  | cons s ss ih =>
    rw [List.flatMap_cons, List.append_assoc, values_append k _ (startsMarked_sections ss h), ih,
      Section.lines, values, values_plain k s.plain, List.append_nil, List.flatMap_cons,
      List.append_assoc, Section.values]

/-- Sections with pairwise distinct keywords give a setting at most one value. -/
theorem length_flatMap_values (k : Keyword) {ss : List Section}
    (h : ss.Pairwise fun s t => s.hasValue → t.hasValue → s.key.cmd ≠ t.key.cmd) :
    (ss.flatMap (Section.values k)).length ≤ 1 := by
  induction ss with
  | nil => exact Nat.zero_le _
  | cons s ss ih =>
    obtain ⟨hs, htail⟩ := List.pairwise_cons.1 h
    rw [List.flatMap_cons]
    by_cases hk : s.key.cmd = k.line ∧ s.hasValue
    · -- the section has a value, so no later one has it again
      have hnil : ss.flatMap (Section.values k) = [] := by
        rw [List.flatMap_eq_nil_iff]
        intro t ht
        unfold Section.values
        split
        · rename_i htk
          have hv : ¬ t.hasValue := fun hv => hs t ht hk.2 hv (hk.1.trans htk.symm)
          simpa [Section.hasValue] using hv
        · rfl
      rw [hnil, List.append_nil, Section.values, if_pos hk.1]
      cases valueAfter s.body <;> simp
    · have hnil : s.values k = [] := by
        unfold Section.values
        split
        · rename_i hsk
          have hv : ¬ s.hasValue := fun hv => hk ⟨hsk, hv⟩
          simpa [Section.hasValue] using hv
        · rfl
      rw [hnil, List.nil_append]
      exact ih htail

theorem values_perm (k : Keyword) (pre : List Line) {ss ss' : List Section} {post : List Line}
    (hperm : ss.Perm ss')
    (hss : ss.Pairwise fun s t => s.hasValue → t.hasValue → s.key.cmd ≠ t.key.cmd)
    (hpost : StartsMarked post) :
    values k (pre ++ (ss.flatMap Section.lines ++ post)) =
      values k (pre ++ (ss'.flatMap Section.lines ++ post)) := by
  have hvals : (ss.flatMap (Section.values k)).Perm (ss'.flatMap (Section.values k)) :=
    hperm.flatMap_right _
  have heq : ss.flatMap (Section.values k) = ss'.flatMap (Section.values k) := by
    have hle := length_flatMap_values k hss
    cases hl : ss.flatMap (Section.values k) with
    | nil =>
      rw [hl] at hvals
      exact hvals.nil_eq
    | cons v vs =>
      rw [hl] at hvals hle
      obtain rfl : vs = [] := List.length_eq_zero_iff.1 (by simpa using hle)
      exact List.singleton_perm.1 hvals
  rw [values_append k pre (startsMarked_sections ss hpost),
    values_append k pre (startsMarked_sections ss' hpost), values_sections k ss hpost,
    values_sections k ss' hpost, heq]

/-- **The meaning of `NANDWRITER.ini`.** `ProcessINI` returns, and each setting is
the last value of its keyword, else its default. So skipped lines do not count,
wherever they are inserted, nor does the order of whole sections that give their
values to distinct keywords. -/
theorem processINI_meaning (Ini_Writer : IniInfo) :
    (∀ lines, ∃ ini, processINI Ini_Writer (some lines) = some ini ∧
      ∀ k, ini.setting k = meaning lines k) ∧
    (∀ lines lines' : List Line,
      lines.filter (fun l => !l.skipped) = lines'.filter (fun l => !l.skipped) →
      processINI Ini_Writer (some lines) = processINI Ini_Writer (some lines')) ∧
    ∀ (pre : List Line) (ss ss' : List Section) (post : List Line), ss.Perm ss' →
      ss.Pairwise (fun s t => s.hasValue → t.hasValue → s.key.cmd ≠ t.key.cmd) →
      StartsMarked post →
      (processINI Ini_Writer (some (pre ++ (ss.flatMap Section.lines ++ post)))).map
          IniInfo.setting =
        (processINI Ini_Writer (some (pre ++ (ss'.flatMap Section.lines ++ post)))).map
          IniInfo.setting := by
  refine ⟨processINI_setting Ini_Writer, fun lines lines' h => ?_, ?_⟩
  · unfold processINI
    simp only [Option.bind_eq_bind, Option.bind_some]
    rw [← run_iniStep_filter lines, h, run_iniStep_filter lines']
  · intro pre ss ss' post hperm hss hpost
    have hset : ∀ lines, (processINI Ini_Writer (some lines)).map IniInfo.setting =
        some (meaning lines) := by
      intro lines
      obtain ⟨ini, hini, hk⟩ := processINI_setting Ini_Writer lines
      rw [hini, Option.map_some, funext hk]
    rw [hset, hset, Option.some_inj]
    funext k
    unfold meaning
    rw [values_perm k pre hperm hss hpost]

/-- The sections of the logo and of the execute address, in both orders and with
a comment more. -/
theorem processINI_meaning_logo_address :
    ∃ logo address : Section, ∃ comment : Line, logo.hasValue ∧ address.hasValue ∧
      logo.key.cmd = Keyword.logo.line ∧ address.key.cmd = Keyword.execAddress.line ∧
      comment.skipped ∧
      (∀ Ini_Writer, (processINI Ini_Writer (some (logo.lines ++ address.lines))).map
        IniInfo.setting =
        (processINI Ini_Writer (some (address.lines ++ logo.lines))).map IniInfo.setting) ∧
      ∀ Ini_Writer, processINI Ini_Writer (some (comment :: logo.lines)) =
        processINI Ini_Writer (some logo.lines) := by
  let logo : Section := ⟨⟨ascii "[Logo File Name]", by decide⟩,
    [⟨ascii "NuvotonLogo_320x240.bin", by decide⟩], by decide, by decide⟩
  let address : Section := ⟨⟨ascii "[Execute Image Address]", by decide⟩,
    [⟨ascii "//8388608", by decide⟩, ⟨ascii "0", by decide⟩], by decide, by decide⟩
  refine ⟨logo, address, ⟨ascii "// Execute address", by decide⟩, by decide, by decide, by decide,
    by decide, by decide, fun Ini_Writer => ?_, fun Ini_Writer => ?_⟩
  · exact (processINI_meaning Ini_Writer).2.2 [] [logo, address] [address, logo] []
      (.swap _ _ _) (by decide) (by intro l h; cases h)
  · exact (processINI_meaning Ini_Writer).2.1 _ _ (by decide)

end N32905.MnWriter
