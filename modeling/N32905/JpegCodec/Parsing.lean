import N32905.Lib.Codec
import N32905.Lib.Loop

/-!
# `ParsingJPEG`

The header parser of `jpeg_demo.c`: a loop over `Buffer` that looks for `FF`,
switches on the byte after it and skips the segment by byte arithmetic that
differs from marker to marker. `index` is a number (it stays below `2^31` where
`Length` leaves room for one more segment) and `MLength` an `unsigned short`.

A read behind the end of `Buffer` and a store behind `appOffset[9]` are the
outcome `outside`.
-/

namespace N32905.JpegCodec

open N32905.Lib

/-! ## The model -/

structure AppMarker where
  offset : Nat
  size : Nat
  deriving DecidableEq

/-- How a call ends: `return 0`, `return -1`, or an access outside an array. The
markers are the first `appNUm` entries. -/
inductive Outcome where
  | found (width height : Nat) (apps : List AppMarker)
  | wrong (apps : List AppMarker)
  | outside
  deriving DecidableEq

/-- The arms of the `switch` on `LByte`. -/
inductive Arm where
  | soi | notBaseline | dqt | sof0 | scanHeader | dht | app | other
  deriving DecidableEq

def switchArm (LByte : Byte) : Arm :=
  if LByte = 0xD8 then .soi
  else if LByte ∈ [0xC1, 0xC2, 0xC3, 0xC5, 0xC6, 0xC7, 0xC8, 0xC9, 0xCA, 0xCB, 0xCD, 0xCE, 0xCF] then
    .notBaseline
  else if LByte = 0xDB then .dqt
  else if LByte = 0xC0 then .sof0
  else if LByte = 0xDA then .scanHeader
  else if LByte = 0xC4 then .dht
  else if LByte ∈ [0xE0, 0xE1, 0xE2, 0xE3, 0xE4, 0xE5, 0xE6, 0xE7, 0xE8, 0xE9, 0xEA, 0xEB, 0xEC,
      0xED, 0xEE, 0xEF, 0xFE] then .app
  else .other

/-- `(HByte << 8) + LByte`, as the `unsigned short` it is stored in. -/
def beWord (HByte LByte : Byte) : BitVec 16 := HByte ++ LByte

/-- The two bytes at `index`, high byte first. -/
def readWord (Buffer : List Byte) (index : Nat) : Option (BitVec 16) := do
  let HByte ← Buffer[index]?
  let LByte ← Buffer[index + 1]?
  return beWord HByte LByte

/-- `index` and the markers found so far. -/
structure ParseSt where
  index : Nat
  apps : List AppMarker
  deriving DecidableEq

section
variable (Buffer : List Byte) (Length : Nat)

/-- An arm that reads the length at `index`, behind the check that it is there. -/
def withLength (st : ParseSt) (arm : BitVec 16 → Step ParseSt Outcome) : Step ParseSt Outcome :=
  if st.index + 2 > Length then .done (.wrong st.apps)
  else match readWord Buffer st.index with
    | none => .done .outside
    | some w => arm w

/-- Go on at `index`, unless that is behind the end. -/
def skipTo (index : Nat) (apps : List AppMarker) : Step ParseSt Outcome :=
  if index > Length then .done (.wrong apps) else .next ⟨index, apps⟩

/-- The `switch`; `st.index` is behind the marker. -/
def onMarker (st : ParseSt) : Arm → Step ParseSt Outcome
  | .soi | .other => .next st
  | .notBaseline => .done (.wrong st.apps)
  | .dqt => withLength Buffer Length st fun w =>
    let MLength := w - 2
    if MLength ≠ 65 then
      if MLength.toNat % 65 ≠ 0 then .done (.wrong st.apps)
      else skipTo Length (st.index + 2 + MLength.toNat) st.apps
    else skipTo Length (st.index + 2 + 64) st.apps
  | .sof0 =>
    if st.index + 7 > Length then .done (.wrong st.apps)
    -- the length is read and not used, the sample precision is stepped over
    else match readWord Buffer st.index, readWord Buffer (st.index + 3),
        readWord Buffer (st.index + 5) with
      | some _, some height, some width => .done (.found width.toNat height.toNat st.apps)
      | _, _, _ => .done .outside
  | .scanHeader | .dht => withLength Buffer Length st fun MLength =>
    skipTo Length (st.index + 2 + MLength.toNat - 2) st.apps
  | .app => withLength Buffer Length st fun MLength =>
    if st.apps.length < 10 then
      skipTo Length (st.index + 2 + MLength.toNat - 2)
        (st.apps ++ [⟨st.index + 2 - 4, MLength.toNat + 2⟩])
    else .done .outside

def parseStep (st : ParseSt) : Step ParseSt Outcome :=
  if st.index < Length then
    match Buffer[st.index]? with
    | none => .done .outside
    | some HByte =>
      if HByte = 0xFF then
        match Buffer[st.index + 1]? with
        | none => .done .outside
        | some LByte => onMarker Buffer Length ⟨st.index + 2, st.apps⟩ (switchArm LByte)
      else .next ⟨st.index + 1, st.apps⟩
  else .done (.wrong st.apps)

def parsingJPEG : Option Outcome := iterate (parseStep Buffer Length) (Length + 1) ⟨0, []⟩

end

/-! ## One pass -/

section
variable {Buffer : List Byte} {Length width height : Nat} {apps : List AppMarker}
  {st st' : ParseSt}

theorem skipTo_next {index : Nat} (h : skipTo Length index apps = .next st') :
    index ≤ Length ∧ st' = ⟨index, apps⟩ := by
  unfold skipTo at h
  split at h
  · cases h
  · cases h
    exact ⟨by omega, rfl⟩

theorem skipTo_not_found {index : Nat} {apps' : List AppMarker} :
    skipTo Length index apps' ≠ .done (.found width height apps) := by
  unfold skipTo
  split <;> simp

theorem withLength_next {arm : BitVec 16 → Step ParseSt Outcome}
    (h : withLength Buffer Length st arm = .next st') : ∃ w, arm w = .next st' := by
  unfold withLength at h
  split at h
  · cases h
  · split at h
    · cases h
    · exact ⟨_, h⟩

theorem withLength_not_found {arm : BitVec 16 → Step ParseSt Outcome}
    (h : ∀ w, arm w ≠ .done (.found width height apps)) :
    withLength Buffer Length st arm ≠ .done (.found width height apps) := by
  unfold withLength
  split
  · simp
  · split
    · simp
    · exact h _

/-- No arm goes back to its marker, the markers found stay, and a new one lies in the
bytes parsed. -/
theorem onMarker_next {arm : Arm} (hidx : 2 ≤ st.index)
    (h : onMarker Buffer Length st arm = .next st') :
    st.index ≤ st'.index ∧ ∃ new, st'.apps = st.apps ++ new ∧
      ∀ a ∈ new, a.offset + a.size ≤ Length := by
  have hskip : ∀ index, st.index ≤ index → skipTo Length index st.apps = .next st' →
      st.index ≤ st'.index ∧ ∃ new, st'.apps = st.apps ++ new ∧
        ∀ a ∈ new, a.offset + a.size ≤ Length := by
    intro index hle h
    obtain ⟨-, rfl⟩ := skipTo_next h
    exact ⟨hle, [], (List.append_nil _).symm, fun _ ha => nomatch ha⟩
  cases arm with
  | soi | other =>
    cases h
    exact ⟨Nat.le_refl _, [], (List.append_nil _).symm, fun _ ha => nomatch ha⟩
  | notBaseline => cases h
  | dqt =>
    obtain ⟨w, h⟩ := withLength_next h
    dsimp only at h
    split at h
    · split at h
      · cases h
      · exact hskip _ (by omega) h
    · exact hskip _ (by omega) h
  | sof0 =>
    simp only [onMarker] at h
    split at h
    · cases h
    · split at h <;> cases h
  | scanHeader | dht =>
    obtain ⟨w, h⟩ := withLength_next h
    exact hskip _ (by omega) h
  | app =>
    obtain ⟨w, h⟩ := withLength_next h
    split at h
    · obtain ⟨hle, rfl⟩ := skipTo_next h
      refine ⟨by dsimp only; omega, _, rfl, ?_⟩
      intro a ha
      rw [List.mem_singleton.1 ha]
      dsimp only
      omega
    · cases h

theorem onMarker_found {arm : Arm}
    (h : onMarker Buffer Length st arm = .done (.found width height apps)) : apps = st.apps := by
  cases arm with
  | soi | other | notBaseline => cases h
  | dqt =>
    refine absurd h (withLength_not_found fun w => ?_)
    dsimp only
    split
    · split
      · simp
      · exact skipTo_not_found
    · exact skipTo_not_found
  | sof0 =>
    simp only [onMarker] at h
    split at h
    · cases h
    · split at h <;> cases h
      rfl
  | scanHeader | dht => exact absurd h (withLength_not_found fun w => skipTo_not_found)
  | app =>
    refine absurd h (withLength_not_found fun w => ?_)
    split
    · exact skipTo_not_found
    · simp

theorem parseStep_next (h : parseStep Buffer Length st = .next st') :
    st.index < Length ∧ st.index < st'.index ∧ ∃ new, st'.apps = st.apps ++ new ∧
      ∀ a ∈ new, a.offset + a.size ≤ Length := by
  unfold parseStep at h
  split at h
  case isFalse => cases h
  case isTrue hlt =>
    refine ⟨hlt, ?_⟩
    split at h
    · cases h
    · split at h
      · split at h
        · cases h
        · obtain ⟨h1, h2⟩ := onMarker_next (Nat.le_add_left 2 st.index) h
          exact ⟨Nat.lt_of_lt_of_le (Nat.lt_add_of_pos_right (by decide)) h1, h2⟩
      · cases h
        exact ⟨Nat.lt_succ_self _, [], (List.append_nil _).symm, fun _ ha => nomatch ha⟩

theorem parseStep_found (h : parseStep Buffer Length st = .done (.found width height apps)) :
    apps = st.apps := by
  unfold parseStep at h
  split at h
  · split at h
    · cases h
    · split at h
      · split at h
        · cases h
        · have := onMarker_found h
          exact this
      · cases h
  · cases h

theorem ends_found_apps (h : Ends (parseStep Buffer Length) st (.found width height apps)) :
    st.apps <+: apps := by
  have hnext : ∀ s s' : ParseSt, st.apps <+: s.apps → parseStep Buffer Length s = .next s' →
      st.apps <+: s'.apps := by
    intro s s' hs hb
    obtain ⟨-, -, new, hnew, -⟩ := parseStep_next hb
    rw [hnew]
    exact hs.trans (List.prefix_append _ _)
  obtain ⟨s, hs, hb⟩ := h.rule hnext (List.prefix_refl _)
  rw [parseStep_found hb]
  exact hs

theorem parseStep_measure (st st' : ParseSt) (h : parseStep Buffer Length st = .next st') :
    Length - st'.index < Length - st.index := by
  have := parseStep_next h
  omega

/-- **The parser ends**, on every buffer. -/
theorem parsingJPEG_isSome (Buffer : List Byte) (Length : Nat) :
    (parsingJPEG Buffer Length).isSome :=
  iterate_isSome (μ := fun st : ParseSt => Length - st.index) parseStep_measure
    (show Length - 0 < Length + 1 by omega)

theorem parsingJPEG_of_ends {r : Outcome} (h : Ends (parseStep Buffer Length) ⟨0, []⟩ r) :
    parsingJPEG Buffer Length = some r :=
  h.iterate (μ := fun st : ParseSt => Length - st.index) parseStep_measure
    (show Length - 0 < Length + 1 by omega)

theorem parsingJPEG_apps_le (h : parsingJPEG Buffer Length = some (.found width height apps)) :
    ∀ a ∈ apps, a.offset + a.size ≤ Length := by
  have hends : Ends (parseStep Buffer Length) ⟨0, []⟩ (.found width height apps) := ⟨_, h⟩
  have hnext : ∀ s s' : ParseSt, (∀ a ∈ s.apps, a.offset + a.size ≤ Length) →
      parseStep Buffer Length s = .next s' → ∀ a ∈ s'.apps, a.offset + a.size ≤ Length := by
    intro s s' hs hb a ha
    obtain ⟨-, -, new, hnew, hle⟩ := parseStep_next hb
    rw [hnew] at ha
    rcases List.mem_append.1 ha with ha | ha
    · exact hs a ha
    · exact hle a ha
  obtain ⟨s, hs, hb⟩ := hends.rule hnext (List.forall_mem_nil _)
  rw [parseStep_found hb]
  exact hs

end

end N32905.JpegCodec
