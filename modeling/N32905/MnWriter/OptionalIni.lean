import N32905.MnWriter.Ini

/-!
# `TurboWriter.ini`

`processOptionalINI` is `ProcessOptionalINI` on the lines `readLine` delivers. As
in `processINI` a position says which of the two loops reads the next line. At 63
pairs the inner loop breaks, and the outer one goes on through the file: it may
enter the inner loop again, but no pair is stored any more.

`settingLines` is the meaning of the file, line by line; `OptInv` relates it to
the position and to the table after any number of lines.
-/

namespace N32905.MnWriter

open N32905.Lib

/-! ## The model -/

/-- `power`: `num *= x`, `n` times. -/
def power (x n : BitVec 32) : BitVec 32 := (fun num => num * x)^[n.toNat] 1

/-- `toupper` in the C locale. -/
def toupper (b : Byte) : Byte := if 0x61 ≤ b.toNat ∧ b.toNat ≤ 0x7A then b - 0x20 else b

/-- The inner loop of `transfer_hex_string_to_int`: the `number[j]` of a digit. -/
def hexDigit (b : Byte) : Option (BitVec 32) :=
  ((ascii "0123456789ABCDEF").idxOf? (toupper b)).map (BitVec.ofNat 32)

/-- `transfer_hex_string_to_int`. Other characters take a place but add nothing. -/
def transferHexStringToInt (str_name : List Byte) : BitVec 32 :=
  str_name.zipIdx.foldl (fun str_number (b, i) =>
    match hexDigit b with
    | some number => str_number + power 16 (BitVec.ofNat 32 (str_name.length - 1 - i)) * number
    | none => str_number) 0

def isDelim (b : Byte) : Bool := (ascii " =\t").contains b

/-- `parsePair` on the pair at `Counter`. -/
def parsePair (pair : IbrBootOptionalPair) (cmd : List Byte) : IbrBootOptionalPair :=
  let (token, rest) := strtok isDelim cmd
  let pair := match token with
    | some token => { pair with address := transferHexStringToInt token }
    | none => pair
  let (token, _) := strtok isDelim rest
  match token with
  | some token => { pair with value := transferHexStringToInt token }
  | none => pair

inductive OptPos
  | outer | inner
  deriving DecidableEq

/-- The two `strcmp` at `NextMark2`. -/
def isUserDefine (cmd : List Byte) : Bool :=
  cmd = ascii "[USER_DEFINE]" || cmd = ascii "[N3290 USER_DEFINE]"

def nextMark2 (cmd : List Byte) : OptPos := if isUserDefine cmd then .inner else .outer

def optStep : OptPos × IbrBootOptional → Line → OptPos × IbrBootOptional
  | (.outer, o), l => (nextMark2 l.cmd, o)
  | (.inner, o), l =>
    if l.skipped then (.inner, o)
    else if l.marked then (nextMark2 l.cmd, o)
    else if h : o.counter.toNat < optionalMaxNumber then
      let i : Fin optionalMaxNumber := ⟨o.counter.toNat, h⟩
      (.inner, { o with
        pairs := o.pairs.set i (parsePair (o.pairs.get i) l.cmd), counter := o.counter + 1 })
    else (.outer, o)  -- "Some pairs be ignored !"

/-- A pair of 0xFF bytes. -/
def ffPair : IbrBootOptionalPair := ⟨0xFFFFFFFF, 0xFFFFFFFF⟩

def optionalDefaults : IbrBootOptional where
  optionalMarker := optionalMarkerWord
  counter := 0
  pairs := List.Vector.replicate optionalMaxNumber ffPair

/-- `ProcessOptionalINI`. `file` is `none` where `fopen` fails. -/
def processOptionalINI (file : Option (List Line)) : Option IbrBootOptional :=
  file.map fun lines => (lines.foldl optStep (.outer, optionalDefaults)).2

/-! ## The meaning of a file -/

def inUserDefine (before : List Line) : Bool :=
  (before.reverse.find? Line.marked).any fun l => isUserDefine l.cmd

/-- A setting line, with the lines `before` it. -/
def isSetting (before : List Line) (l : Line) : Bool :=
  !l.skipped && !l.marked && inUserDefine before

/-- The setting lines, in file order. -/
def settingLines (lines : List Line) : List Line :=
  (lines.zipIdx.filter fun (l, i) => isSetting (lines.take i) l).map Prod.fst

/-- The pair a setting line stands for. -/
def settingPair (l : Line) : IbrBootOptionalPair where
  address := ((tokens isDelim l.cmd)[0]?.map transferHexStringToInt).getD 0xFFFFFFFF
  value := ((tokens isDelim l.cmd)[1]?.map transferHexStringToInt).getD 0xFFFFFFFF

theorem parsePair_ffPair (l : Line) : parsePair ffPair l.cmd = settingPair l := by
  obtain ⟨h0, h1⟩ := strtok_two isDelim l.cmd
  unfold settingPair parsePair
  rw [← h0, ← h1]
  rcases strtok isDelim l.cmd with ⟨token, rest⟩
  dsimp only
  rcases strtok isDelim rest with ⟨token', rest'⟩
  cases token <;> cases token' <;> rfl

theorem inUserDefine_concat (lines : List Line) (l : Line) :
    inUserDefine (lines ++ [l]) = if l.marked then isUserDefine l.cmd else inUserDefine lines := by
  unfold inUserDefine
  rw [List.reverse_append, List.reverse_singleton, List.singleton_append, List.find?_cons]
  cases l.marked <;> rfl

theorem settingLines_concat (lines : List Line) (l : Line) :
    settingLines (lines ++ [l]) = settingLines lines ++ if isSetting lines l then [l] else [] := by
  unfold settingLines
  rw [List.zipIdx_append, List.filter_append, List.map_append]
  congr 1
  · -- the lines before a line are the same in the longer file
    congr 1
    apply List.filter_congr
    rintro ⟨x, i⟩ hx
    have hi : i < lines.length := List.snd_lt_of_mem_zipIdx hx
    dsimp only
    rw [List.take_append_of_le_length hi.le]
  · rw [Nat.zero_add, List.zipIdx_singleton, List.filter_singleton]
    dsimp only
    rw [List.take_left]
    cases isSetting lines l <;> rfl

/-- What holds after the lines `lines`. -/
structure OptInv (lines : List Line) (pos : OptPos) (o : IbrBootOptional) : Prop where
  marker : o.optionalMarker = optionalMarkerWord
  counter : o.counter.toNat = min optionalMaxNumber (settingLines lines).length
  pairs : ∀ k : Fin optionalMaxNumber,
    o.pairs.get k = ((settingLines lines)[k.val]?.map settingPair).getD ffPair
  inner : pos = .inner → inUserDefine lines
  -- outside a user section, or behind the break at 63 pairs
  outer : pos = .outer → inUserDefine lines = false ∨ o.counter.toNat = optionalMaxNumber

theorem optInv_nil : OptInv [] .outer optionalDefaults where
  marker := rfl
  counter := rfl
  pairs _ := List.Vector.get_replicate _ _
  inner h := nomatch h
  outer _ := .inl rfl

/-- A line that is no setting line, or comes when the table is full, leaves the
table; only the position may move. -/
theorem OptInv.keep {lines : List Line} {pos pos' : OptPos} {o : IbrBootOptional}
    (h : OptInv lines pos o) {l : Line}
    (hl : isSetting lines l = false ∨ o.counter.toNat = optionalMaxNumber)
    (hinner : pos' = .inner → inUserDefine (lines ++ [l]))
    (houter : pos' = .outer →
      inUserDefine (lines ++ [l]) = false ∨ o.counter.toNat = optionalMaxNumber) :
    OptInv (lines ++ [l]) pos' o := by
  have hcounter := h.counter
  rcases hl with hl | hfull
  · have hs : settingLines (lines ++ [l]) = settingLines lines := by
      rw [settingLines_concat, hl]
      exact List.append_nil _
    exact ⟨h.marker, by rw [hs]; exact h.counter, by rw [hs]; exact h.pairs, hinner, houter⟩
  · have hlen : optionalMaxNumber ≤ (settingLines lines).length := by omega
    refine ⟨h.marker, ?_, fun k => ?_, hinner, houter⟩
    · rw [settingLines_concat, List.length_append]
      omega
    · rw [settingLines_concat, List.getElem?_append_left (by omega)]
      exact h.pairs k

theorem OptInv.append {lines : List Line} {pos : OptPos} {o : IbrBootOptional}
    (h : OptInv lines pos o) {l : Line} (hl : isSetting lines l)
    (hc : o.counter.toNat < optionalMaxNumber) :
    OptInv (lines ++ [l]) .inner { o with
      pairs := o.pairs.set ⟨o.counter.toNat, hc⟩
        (parsePair (o.pairs.get ⟨o.counter.toNat, hc⟩) l.cmd)
      counter := o.counter + 1 } := by
  have hlen : o.counter.toNat = (settingLines lines).length := by
    have := h.counter
    omega
  have hs : settingLines (lines ++ [l]) = settingLines lines ++ [l] := by
    rw [settingLines_concat, if_pos hl]
  unfold isSetting at hl
  simp only [Bool.and_eq_true, Bool.not_eq_true'] at hl
  refine ⟨h.marker, ?_, fun k => ?_, fun _ => ?_, fun hp => nomatch hp⟩
  · have h1 : (o.counter + 1).toNat = o.counter.toNat + 1 := by
      rw [BitVec.toNat_add]
      exact Nat.mod_eq_of_lt (by unfold optionalMaxNumber at hc; simp; omega)
    rw [hs, List.length_append, List.length_singleton, h1]
    omega
  · rw [hs]
    dsimp only
    by_cases hk : k.val = o.counter.toNat
    · -- the pair was still 0xFF
      have hff : o.pairs.get ⟨o.counter.toNat, hc⟩ = ffPair := by
        rw [h.pairs, List.getElem?_eq_none (by simp [hlen])]
        rfl
      obtain rfl : k = ⟨o.counter.toNat, hc⟩ := Fin.ext hk
      rw [List.Vector.get_set_same, hff, parsePair_ffPair, List.getElem?_append_right (by simp [hlen])]
      simp [hlen]
    · rw [List.Vector.get_set_of_ne (fun e => hk (by rw [← e])), h.pairs]
      congr 2
      rcases Nat.lt_or_ge k.val (settingLines lines).length with hlt | hge
      · rw [List.getElem?_append_left hlt]
      · rw [List.getElem?_eq_none hge, List.getElem?_eq_none (by simp; omega)]
  · rw [inUserDefine_concat, if_neg (by simp [hl.1.2])]
    exact hl.2

theorem OptInv.of_marked {lines : List Line} {pos : OptPos} {o : IbrBootOptional}
    (h : OptInv lines pos o) {l : Line} (hm : l.marked) :
    OptInv (lines ++ [l]) (nextMark2 l.cmd) o := by
  have hu : inUserDefine (lines ++ [l]) = isUserDefine l.cmd := by
    rw [inUserDefine_concat, if_pos hm]
  refine h.keep (.inl (by simp [isSetting, hm])) ?_ ?_
  · intro hp
    rw [hu]
    unfold nextMark2 at hp
    split at hp
    · assumption
    · cases hp
  · intro hp
    rw [hu]
    unfold nextMark2 at hp
    split at hp
    · cases hp
    · exact .inl (Bool.eq_false_of_not_eq_true ‹_›)

theorem not_isUserDefine {l : Line} (hm : l.marked = false) : isUserDefine l.cmd = false := by
  unfold Line.marked at hm
  unfold isUserDefine
  rw [Bool.or_eq_false_iff]
  refine ⟨decide_eq_false fun h => ?_, decide_eq_false fun h => ?_⟩ <;>
  · rw [h] at hm
    exact absurd hm (by decide)

/-- **One line.** -/
theorem OptInv.step {lines : List Line} {pos : OptPos} {o : IbrBootOptional}
    (h : OptInv lines pos o) (l : Line) :
    OptInv (lines ++ [l]) (optStep (pos, o) l).1 (optStep (pos, o) l).2 := by
  by_cases hm : l.marked
  · have hs := Line.not_skipped_of_marked hm
    cases pos with
    | outer => exact h.of_marked hm
    | inner =>
      rw [optStep, if_neg (by simp [hs]), if_pos hm]
      exact h.of_marked hm
  have hu : inUserDefine (lines ++ [l]) = inUserDefine lines := by
    rw [inUserDefine_concat, if_neg hm]
  simp only [Bool.not_eq_true] at hm
  cases pos with
  | outer =>
    have hpos : optStep (.outer, o) l = (.outer, o) := by
      rw [optStep, nextMark2, not_isUserDefine hm]
      rfl
    rw [hpos]
    rcases h.outer rfl with hout | hfull
    · refine h.keep (.inl (by simp [isSetting, hout])) (fun hp => nomatch hp) fun _ => .inl ?_
      rw [hu, hout]
    · exact h.keep (.inr hfull) (fun hp => nomatch hp) fun _ => .inr hfull
  | inner =>
    have huser := h.inner rfl
    rw [optStep]
    split_ifs with hs hm' hc
    · refine h.keep (.inl (by simp [isSetting, hs])) (fun _ => ?_) fun hp => nomatch hp
      rw [hu, huser]
    · exact absurd hm' (by simp [hm])
    · exact h.append (by simp [isSetting, hs, hm, huser]) hc
    · have hfull : o.counter.toNat = optionalMaxNumber := by
        have := h.counter
        omega
      exact h.keep (.inr hfull) (fun hp => nomatch hp) fun _ => .inr hfull

/-- **Any number of lines.** -/
theorem optInv_foldl (lines : List Line) :
    OptInv lines (lines.foldl optStep (.outer, optionalDefaults)).1
      (lines.foldl optStep (.outer, optionalDefaults)).2 := by
  induction lines using List.reverseRecOn with
  | nil => exact optInv_nil
  | append_singleton lines l ih =>
    rw [List.foldl_append]
    exact ih.step l

/-- **The meaning of `TurboWriter.ini`.** -/
theorem processOptionalINI_meaning (lines : List Line) :
    ∃ o, processOptionalINI (some lines) = some o ∧ o.optionalMarker = optionalMarkerWord ∧
      o.counter.toNat = min 63 (settingLines lines).length ∧
      (∀ k : Fin optionalMaxNumber, k < o.counter.toNat →
        ∃ l, (settingLines lines)[k.val]? = some l ∧ o.pairs.get k = settingPair l) ∧
      ∀ k : Fin optionalMaxNumber, o.counter.toNat ≤ k → o.pairs.get k = ffPair := by
  have hinv := optInv_foldl lines
  refine ⟨_, rfl, hinv.marker, hinv.counter, fun k hk => ?_, fun k hk => ?_⟩
  · rw [hinv.counter] at hk
    have hlt : k.val < (settingLines lines).length := by omega
    refine ⟨_, List.getElem?_eq_getElem hlt, ?_⟩
    rw [hinv.pairs, List.getElem?_eq_getElem hlt]
    rfl
  · rw [hinv.counter] at hk
    have hge : (settingLines lines).length ≤ k.val := by
      have := k.isLt
      omega
    rw [hinv.pairs, List.getElem?_eq_none hge]
    rfl

end N32905.MnWriter
