import N32905.MnWriter.OptionalIni

/-!
# Blank lines in `TurboWriter.ini`

`ProcessOptionalINI` skips a line whose first byte is NUL. A line of blanks and
tabs is not empty in this sense: `strtok` finds nothing in it, `parsePair` stores
nothing, and `Counter` goes up all the same. So a blank line in a user section
is recorded as the pair of `0xFF` bytes that `memset` has left.

Here the lines are those that `readLine` delivers: for which of them blank lines make
no difference, at which places one more makes none, and when every recorded pair has
a token.
-/

namespace N32905.MnWriter

open N32905.Lib

/-! ## Blank lines, and where pairs come from -/

def Line.blank (l : Line) : Bool := l.bytes.all fun b => b = 0x20 || b = 0x09

def Line.notBlank (l : Line) : Bool := !l.blank

/-- The lines at which `Counter` goes up, from a state of the two loops on. -/
def sourcesFrom : OptPos × IbrBootOptional → List Line → List Line
  | _, [] => []
  | s, l :: lines =>
    (if (optStep s l).2.counter = s.2.counter then [] else [l]) ++ sourcesFrom (optStep s l) lines

/-- The lines the recorded pairs come from. -/
def sources (lines : List Line) : List Line := sourcesFrom (.outer, optionalDefaults) lines

def recorded (lines : List Line) : List IbrBootOptionalPair :=
  ((settingLines lines).take optionalMaxNumber).map settingPair

/-! ## Lists -/

section Lists
variable {α β : Type*}

/-- A list pushed back by one element shows no difference in its first `m` if these
are all equal to it. -/
theorem cons_take_eq_take_iff {x : α} {m : Nat} {l : List α} :
    x :: l.take m = l.take (m + 1) ↔ l.take (m + 1) = List.replicate (m + 1) x := by
  induction m generalizing l with
  | zero =>
    cases l with
    | nil => simp
    | cons y l => simp [eq_comm]
  | succ m ih =>
    cases l with
    | nil => simp
    | cons y l =>
      rw [List.take_succ_cons, List.take_succ_cons (i := m + 1), List.replicate_succ (n := m + 1),
        List.cons_eq_cons, List.cons_eq_cons]
      constructor
      · rintro ⟨rfl, h⟩
        exact ⟨rfl, ih.1 h⟩
      · rintro ⟨rfl, h⟩
        exact ⟨rfl, ih.2 h⟩

theorem map_take_of_filter {p : α → Bool} {f : α → β} {c : β} {m : Nat} {l : List α}
    (hc : ∀ x ∈ l, p x = false → f x = c)
    (h : ((l.filter p).take m).map f = List.replicate m c) :
    (l.take m).map f = List.replicate m c := by
  induction l generalizing m with
  | nil => simpa using h
  | cons x l ih =>
    cases m with
    | zero => rfl
    | succ m =>
      have hrest := fun y hy => hc y (List.mem_cons_of_mem x hy)
      rw [List.take_succ_cons, List.map_cons, List.replicate_succ, List.cons_eq_cons]
      cases hp : p x with
      | true =>
        rw [List.filter_cons_of_pos hp, List.take_succ_cons, List.map_cons, List.replicate_succ,
          List.cons_eq_cons] at h
        exact ⟨h.1, ih hrest h.2⟩
      | false =>
        rw [List.filter_cons_of_neg (by rw [hp]; decide)] at h
        refine ⟨hc x List.mem_cons_self hp, ih hrest ?_⟩
        have := congrArg (List.take m) h
        rwa [← List.map_take, List.take_take, List.take_replicate, Nat.min_eq_left (Nat.le_succ m)]
          at this

end Lists

/-! ## The settings behind a line -/

/-- The setting lines behind a place that is inside a user section or not. -/
def settingsFrom : Bool → List Line → List Line
  | _, [] => []
  | user, l :: lines =>
    (if !l.skipped && !l.marked && user then [l] else []) ++
      settingsFrom (if l.marked then isUserDefine l.cmd else user) lines

theorem settingLines_append (pre post : List Line) :
    settingLines (pre ++ post) = settingLines pre ++ settingsFrom (inUserDefine pre) post := by
  induction post generalizing pre with
  | nil => simp [settingsFrom]
  | cons l post ih =>
    have h := ih (pre ++ [l])
    rw [List.append_assoc, List.singleton_append, settingLines_concat, inUserDefine_concat] at h
    rw [h, settingsFrom, List.append_assoc]
    rfl

theorem settingLines_eq (lines : List Line) : settingLines lines = settingsFrom false lines :=
  settingLines_append [] lines

theorem settingsFrom_eq_nil {lines : List Line} (h : ∀ l ∈ lines, isUserDefine l.cmd = false) :
    settingsFrom false lines = [] := by
  induction lines with
  | nil => rfl
  | cons l lines ih =>
    rw [settingsFrom, h l List.mem_cons_self, ite_self, Bool.and_false, if_neg (by decide),
      List.nil_append]
    exact ih fun x hx => h x (List.mem_cons_of_mem _ hx)

/-! ## The lines without tokens -/

theorem tokens_eq_nil_iff {s : List Byte} :
    tokens isDelim s = [] ↔ ∀ b ∈ s, isDelim b = true := by
  rw [strtok_tokens, ← List.dropWhile_eq_nil_iff]
  unfold strtok
  dsimp only
  by_cases hs : s.dropWhile isDelim = []
  · rw [if_pos hs]
    simp [hs]
  · rw [if_neg hs]
    simp only [hs, reduceCtorEq]

section Delim
variable {l : Line} (hdelim : ∀ b ∈ l.cmd, isDelim b = true)
include hdelim

theorem first_of_delim {c : Byte} (hc : isDelim c = false) : l.cmd[0]? ≠ some c := by
  intro h0
  rw [hdelim c (List.mem_of_getElem? h0)] at hc
  cases hc

theorem not_marked_of_delim : l.marked = false :=
  decide_eq_false (first_of_delim hdelim (by decide))

theorem not_skipped_of_delim (hne : l.cmd ≠ []) : l.skipped = false := by
  rw [Line.skipped, Bool.or_eq_false_iff, Bool.and_eq_false_iff]
  exact ⟨decide_eq_false hne, .inl (decide_eq_false (first_of_delim hdelim (by decide)))⟩

end Delim

section Blank
variable {l : Line} (h : l.blank = true)
include h

theorem Line.blank_byte {b : Byte} (hb : b ∈ l.bytes) : b = 0x20 ∨ b = 0x09 := by
  have := List.all_eq_true.1 h b hb
  simpa using this

theorem Line.blank_cmd : l.cmd = l.bytes := by
  refine List.takeWhile_eq_self_iff.2 fun b hb => ?_
  rcases Line.blank_byte h hb with rfl | rfl <;> decide

theorem Line.blank_delim : ∀ b ∈ l.cmd, isDelim b = true := by
  intro b hb
  rw [Line.blank_cmd h] at hb
  rcases Line.blank_byte h hb with rfl | rfl <;> decide

theorem Line.blank_tokens : tokens isDelim l.cmd = [] := tokens_eq_nil_iff.2 (Line.blank_delim h)

theorem Line.blank_not_marked : l.marked = false := not_marked_of_delim (Line.blank_delim h)

theorem settingPair_blank : settingPair l = ffPair := by
  simp only [settingPair, Line.blank_tokens h]
  rfl

end Blank

theorem filter_settingsFrom (user : Bool) (lines : List Line) :
    (settingsFrom user lines).filter Line.notBlank =
      settingsFrom user (lines.filter Line.notBlank) := by
  induction lines generalizing user with
  | nil => rfl
  | cons l lines ih =>
    rw [settingsFrom, List.filter_append, ih]
    cases hb : l.blank with
    | true =>
      have hnot : ¬ l.notBlank = true := by simp [Line.notBlank, hb]
      have huser : (if l.marked then isUserDefine l.cmd else user) = user := by
        rw [Line.blank_not_marked hb]
        rfl
      rw [List.filter_cons_of_neg hnot, huser]
      split
      · rw [List.filter_cons_of_neg hnot]
        rfl
      · rfl
    | false =>
      have hnot : l.notBlank = true := by simp [Line.notBlank, hb]
      rw [List.filter_cons_of_pos hnot, settingsFrom]
      congr 1
      split
      · rw [List.filter_cons_of_pos hnot]
        rfl
      · rfl

/-! ## The recorded pairs -/

theorem recorded_getElem? (lines : List Line) {k : Nat} (hk : k < optionalMaxNumber) :
    (recorded lines)[k]? = (settingLines lines)[k]?.map settingPair := by
  rw [recorded, List.getElem?_map, List.getElem?_take_of_lt hk]

theorem length_recorded (lines : List Line) :
    (recorded lines).length = min optionalMaxNumber (settingLines lines).length := by
  rw [recorded, List.length_map, List.length_take]

theorem processOptionalINI_eq_iff (lines lines' : List Line) :
    processOptionalINI (some lines) = processOptionalINI (some lines') ↔
      recorded lines = recorded lines' := by
  have h := optInv_foldl lines
  have h' := optInv_foldl lines'
  simp only [processOptionalINI, Option.map_some, Option.some.injEq]
  generalize (lines.foldl optStep (.outer, optionalDefaults)).2 = o at h ⊢
  generalize (lines'.foldl optStep (.outer, optionalDefaults)).2 = o' at h' ⊢
  constructor
  · rintro rfl
    have hlen : (recorded lines).length = (recorded lines').length := by
      rw [length_recorded, length_recorded, ← h.counter, ← h'.counter]
    apply List.ext_getElem hlen
    intro k hk hk'
    have hlt : k < optionalMaxNumber := by
      rw [length_recorded] at hk
      omega
    have h1 := h.pairs ⟨k, hlt⟩
    have h2 := h'.pairs ⟨k, hlt⟩
    rw [← recorded_getElem? lines hlt, List.getElem?_eq_getElem hk] at h1
    rw [← recorded_getElem? lines' hlt, List.getElem?_eq_getElem hk'] at h2
    exact h1.symm.trans h2
  · intro heq
    have hlen := congrArg List.length heq
    rw [length_recorded, length_recorded, ← h.counter, ← h'.counter] at hlen
    have hpairs : o.pairs = o'.pairs := by
      apply List.Vector.ext
      intro k
      rw [h.pairs, h'.pairs, ← recorded_getElem? lines k.isLt, ← recorded_getElem? lines' k.isLt, heq]
    have hcounter := BitVec.eq_of_toNat_eq hlen
    have hmarker := h.marker.trans h'.marker.symm
    cases o
    cases o'
    simp_all

/-- **One more blank line** makes no difference outside a user section, and inside
one if the settings from there to the 63rd are there and all 0xFF. -/
theorem insert_blank_iff (pre post : List Line) {b : Line} (hb : b.blank = true)
    (hne : b.cmd ≠ []) :
    let n := (settingLines pre).length
    recorded (pre ++ b :: post) = recorded (pre ++ post) ↔
      inUserDefine pre = false ∨
        (((settingLines (pre ++ post)).drop n).take (optionalMaxNumber - n)).map settingPair =
          List.replicate (optionalMaxNumber - n) ffPair := by
  intro n
  have hstep : settingsFrom (inUserDefine pre) (b :: post) =
      (if inUserDefine pre then [b] else []) ++ settingsFrom (inUserDefine pre) post := by
    rw [settingsFrom, Line.blank_not_marked hb, not_skipped_of_delim (Line.blank_delim hb) hne]
    rfl
  rw [recorded, recorded, settingLines_append, settingLines_append, hstep]
  cases inUserDefine pre with
  | false => simp
  | true =>
    rw [if_pos rfl, List.singleton_append, List.drop_left, List.take_append, List.take_append,
      List.map_append, List.map_append, List.append_right_inj]
    simp only [Bool.true_eq_false, false_or]
    change _ ↔ ((settingsFrom true post).take (optionalMaxNumber - n)).map settingPair = _
    change ((b :: settingsFrom true post).take (optionalMaxNumber - n)).map settingPair =
      ((settingsFrom true post).take (optionalMaxNumber - n)).map settingPair ↔ _
    cases optionalMaxNumber - n with
    | zero => simp
    | succ m =>
      rw [List.take_succ_cons, List.map_cons, settingPair_blank hb, List.map_take, List.map_take]
      exact cons_take_eq_take_iff

/-! ## Any blank lines -/

section Any
variable {lines : List Line}

theorem marked_of_isUserDefine {l : Line} (h : isUserDefine l.cmd = true) : l.marked = true := by
  cases hm : l.marked with
  | true => rfl
  | false =>
    rw [not_isUserDefine hm] at h
    cases h

theorem notBlank_of_isUserDefine {l : Line} (h : isUserDefine l.cmd = true) :
    l.notBlank = true := by
  cases hb : l.blank with
  | true =>
    have := marked_of_isUserDefine h
    rw [Line.blank_not_marked hb] at this
    cases this
  | false => simp [Line.notBlank, hb]

theorem no_userDefine_filter (lines : List Line) :
    (∀ l ∈ lines.filter Line.notBlank, isUserDefine l.cmd = false) ↔
      ∀ l ∈ lines, isUserDefine l.cmd = false := by
  constructor
  · intro h l hl
    by_contra hu
    rw [Bool.not_eq_false] at hu
    have := h l (List.mem_filter.2 ⟨hl, notBlank_of_isUserDefine hu⟩)
    rw [hu] at this
    cases this
  · intro h l hl
    exact h l (List.mem_filter.1 hl).1

/-- What the first mark of a user section leaves: no settings, and a user section. -/
theorem settingLines_first_mark {pre : List Line} {mark : Line}
    (hpre : ∀ l ∈ pre, isUserDefine l.cmd = false) (hmark : isUserDefine mark.cmd = true) :
    settingLines (pre ++ [mark]) = [] ∧ inUserDefine (pre ++ [mark]) = true := by
  have hm := marked_of_isUserDefine hmark
  constructor
  · rw [settingLines_concat, settingLines_eq, settingsFrom_eq_nil hpre, isSetting, hm]
    simp
  · rw [inUserDefine_concat, if_pos hm, hmark]

theorem recorded_filter (h : ((settingLines (lines.filter Line.notBlank)).take
      optionalMaxNumber).map settingPair = List.replicate optionalMaxNumber ffPair) :
    recorded lines = List.replicate optionalMaxNumber ffPair := by
  rw [settingLines_eq, ← filter_settingsFrom] at h
  rw [recorded, settingLines_eq]
  refine map_take_of_filter (fun l _ hl => settingPair_blank ?_) h
  simpa [Line.notBlank] using hl

def blankLine : Line := ⟨[0x20], by decide⟩

end Any

/-! ## Pairs and tokens -/

theorem sourcesFrom_append (s : OptPos × IbrBootOptional) (pre post : List Line) :
    sourcesFrom s (pre ++ post) = sourcesFrom s pre ++ sourcesFrom (pre.foldl optStep s) post := by
  induction pre generalizing s with
  | nil => rfl
  | cons l pre ih => rw [List.cons_append, sourcesFrom, ih, sourcesFrom, List.append_assoc]; rfl

theorem sources_eq (lines : List Line) :
    sources lines = (settingLines lines).take optionalMaxNumber := by
  induction lines using List.reverseRecOn with
  | nil => rfl
  | append_singleton lines l ih =>
    have h := (optInv_foldl lines).counter
    have h' := ((optInv_foldl lines).step l).counter
    rw [sources, sourcesFrom_append, ← sources, ih, sourcesFrom, sourcesFrom, List.append_nil,
      settingLines_concat]
    rw [settingLines_concat, List.length_append] at h'
    generalize (lines.foldl optStep (.outer, optionalDefaults)) = st at h h' ⊢
    have hiff : (optStep st l).2.counter = st.2.counter ↔
        (optStep st l).2.counter.toNat = st.2.counter.toNat := BitVec.toNat_inj.symm
    rw [List.take_append]
    congr 1
    cases hset : isSetting lines l with
    | false =>
      rw [hset] at h'
      rw [if_pos (hiff.2 (h'.trans h.symm)), if_neg (by decide), List.take_nil]
    | true =>
      rw [hset, if_pos rfl, List.length_singleton] at h'
      have h' : (optStep st l).2.counter.toNat = _ := h'
      rw [if_pos rfl]
      rcases Nat.lt_or_ge (settingLines lines).length optionalMaxNumber with hlt | hge
      · rw [if_neg (by rw [hiff]; omega), List.take_of_length_le]
        rw [List.length_singleton]
        omega
      · rw [if_pos (by rw [hiff]; omega), Nat.sub_eq_zero_of_le hge]
        rfl

theorem settingLines_split {lines : List Line} {k : Nat} {l : Line}
    (h : (settingLines lines)[k]? = some l) :
    ∃ pre post, lines = pre ++ l :: post ∧ isSetting pre l = true ∧
      (settingLines pre).length = k := by
  induction lines using List.reverseRecOn with
  | nil => simp [settingLines] at h
  | append_singleton lines x ih =>
    rw [settingLines_concat] at h
    rcases Nat.lt_or_ge k (settingLines lines).length with hlt | hge
    · rw [List.getElem?_append_left hlt] at h
      obtain ⟨pre, post, rfl, hset, hk⟩ := ih h
      exact ⟨pre, post ++ [x], by simp, hset, hk⟩
    · rw [List.getElem?_append_right hge] at h
      split at h
      · next hset =>
        obtain ⟨hk, rfl⟩ := List.getElem?_eq_some_iff.1 h
        rw [List.length_singleton] at hk
        exact ⟨lines, [], by simp, by simpa using hset, by omega⟩
      · cases h

/-- A line of delimiters that is not empty is a setting line of its section. -/
theorem isSetting_of_delim {pre : List Line} {l : Line} (huser : inUserDefine pre = true)
    (hne : l.cmd ≠ []) (hdelim : ∀ b ∈ l.cmd, isDelim b = true) : isSetting pre l = true := by
  rw [isSetting, not_skipped_of_delim hdelim hne, not_marked_of_delim hdelim, huser]
  rfl

/-- **Every recorded pair has a token** unless a line of delimiters stands in a user
section before the table is full. -/
theorem sources_tokens_iff (lines : List Line) :
    (∀ l ∈ sources lines, tokens isDelim l.cmd ≠ []) ↔
      ∀ pre l post, lines = pre ++ l :: post → inUserDefine pre = true → l.cmd ≠ [] →
        (∀ b ∈ l.cmd, isDelim b = true) → optionalMaxNumber ≤ (settingLines pre).length := by
  rw [sources_eq]
  constructor
  · rintro hall pre l post rfl huser hne hdelim
    rw [← Nat.not_lt]
    intro hlt
    have hset := isSetting_of_delim huser hne hdelim
    refine hall l ?_ (tokens_eq_nil_iff.2 hdelim)
    have hlines : settingLines (pre ++ l :: post) = settingLines pre ++ l :: settingsFrom
        (if l.marked then isUserDefine l.cmd else inUserDefine pre) post := by
      rw [settingLines_append, settingsFrom]
      rw [isSetting] at hset
      rw [if_pos hset, List.singleton_append]
    rw [hlines, List.take_append]
    obtain ⟨m, hm⟩ : ∃ m, optionalMaxNumber - (settingLines pre).length = m + 1 :=
      ⟨optionalMaxNumber - (settingLines pre).length - 1, by omega⟩
    rw [hm, List.take_succ_cons]
    exact List.mem_append_right _ List.mem_cons_self
  · intro hall l hl htok
    obtain ⟨k, hk, hlk⟩ := List.mem_take_iff_getElem.1 hl
    obtain ⟨pre, post, rfl, hset, hlen⟩ := settingLines_split (k := k)
      (List.getElem?_eq_some_iff.2 ⟨by omega, hlk⟩)
    simp only [isSetting, Bool.and_eq_true, Bool.not_eq_true'] at hset
    have hne : l.cmd ≠ [] := by
      intro h0
      have := hset.1.1
      rw [Line.skipped, h0] at this
      cases this
    have := hall pre l post rfl hset.2 hne (tokens_eq_nil_iff.1 htok)
    omega

end N32905.MnWriter
