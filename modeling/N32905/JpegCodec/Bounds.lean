import N32905.JpegCodec.Header

/-!
# The bounds of the parser

`ParsingJPEG` checks the bytes it reads against `Length`, but for the marker byte
behind an `FF`, and never checks `appNUm` against the ten entries of its table. `Scan`
says where the parser comes to in a file; it leaves the file or the table exactly if it
comes to a lone `FF` at the end or to an eleventh application segment.
-/

namespace N32905.JpegCodec

open N32905.Lib

/-- With `k` application segments stored the parser comes to the rest `t` of `data`. A
segment of length 0 or 1 leads back to its own length. -/
inductive Scan (data : List Byte) : Nat → List Byte → Prop
  | start : Scan data 0 data
  | byte {k b t} (h : Scan data k (b :: t)) (hb : b ≠ 0xFF) : Scan data k t
  | ignored {k c t} (h : Scan data k (0xFF :: c :: t))
    (hc : switchArm c = .soi ∨ switchArm c = .other) : Scan data k t
  | table {k c x y t} (h : Scan data k (0xFF :: c :: x :: y :: t))
    (hc : switchArm c = .scanHeader ∨ switchArm c = .dht)
    (hn : (beWord x y).toNat ≤ t.length + 2) : Scan data k ((x :: y :: t).drop (beWord x y).toNat)
  | dqt {k c x y t} (h : Scan data k (0xFF :: c :: x :: y :: t)) (hc : switchArm c = .dqt)
    (hm : (beWord x y - 2).toNat % 65 = 0) (hn : dqtSkip (beWord x y) ≤ t.length) :
    Scan data k (t.drop (dqtSkip (beWord x y)))
  | app {k c x y t} (h : Scan data k (0xFF :: c :: x :: y :: t)) (hc : switchArm c = .app)
    (hk : k < 10) (hn : (beWord x y).toNat ≤ t.length + 2) :
    Scan data (k + 1) ((x :: y :: t).drop (beWord x y).toNat)

/-- The last byte of a file is an `FF` the parser takes for a marker, or there is an
eleventh application segment. -/
def Overruns (data : List Byte) : Prop :=
  (∃ k, Scan data k [0xFF]) ∨
    ∃ c x y t, switchArm c = .app ∧ Scan data 10 (0xFF :: c :: x :: y :: t)

/-! ## Where the parser comes to -/

section Scan
variable {data t : List Byte} {i k : Nat} {apps : List AppMarker}

/-- What a pass may do: go on at a place of the scan, or leave the arrays where they are
overrun. -/
def Stays (data : List Byte) : Step ParseSt Outcome → Prop
  | .next st => ∃ t, At data st.index t ∧ Scan data st.apps.length t
  | .done .outside => Overruns data
  | .done _ => True

theorem skipTo_stays {j : Nat}
    (h : j ≤ data.length → ∃ t, At data j t ∧ Scan data apps.length t) :
    Stays data (skipTo data.length j apps) := by
  unfold skipTo
  split
  · trivial
  · exact h (by omega)

theorem withLength_stays {arm : BitVec 16 → Step ParseSt Outcome} (ha : At data i t)
    (h : ∀ x y l, t = x :: y :: l → Stays data (arm (beWord x y))) :
    Stays data (withLength data data.length ⟨i, apps⟩ arm) := by
  match t, ha with
  | x :: y :: l, ha =>
    rw [ha.withLength]
    exact h x y l rfl
  | [], ha | [_], ha =>
    have hlen := ha.length
    simp only [List.length_cons, List.length_nil] at hlen
    unfold withLength
    rw [if_pos (by dsimp only; omega)]
    trivial

theorem At.skip_length {c x y : Byte} {l : List Byte} {n : Nat}
    (ha : At data i (0xFF :: c :: x :: y :: l)) (hn : i + 2 + n ≤ data.length) :
    n ≤ l.length + 2 ∧ At data (i + 2 + n) ((x :: y :: l).drop n) := by
  have hlen := ha.length
  simp only [List.length_cons] at hlen
  have hle : n ≤ (x :: y :: l).length := by
    simp only [List.length_cons]
    omega
  exact ⟨by omega, ha.tail.tail.drop hle⟩

theorem Scan.le_ten (h : Scan data k t) : k ≤ 10 := by
  induction h with
  | start => exact Nat.zero_le _
  | byte _ _ ih | ignored _ _ ih | table _ _ _ ih | dqt _ _ _ _ ih => exact ih
  | app _ _ hk _ _ => exact hk

theorem At.step_lone (ha : At data i [0xFF]) :
    parseStep data data.length ⟨i, apps⟩ = .done .outside := by
  have h0 := ha.getElem? 0
  have h1 := ha.getElem? 1
  have hlen := ha.length
  rw [List.length_singleton] at hlen
  simp only [Nat.add_zero, List.getElem?_cons_zero, List.getElem?_cons_succ,
    List.getElem?_nil] at h0 h1
  simp only [parseStep, h0, h1, if_true, if_pos (show i < data.length by omega)]

theorem readWord_inside (h : i + 1 < data.length) : ∃ w, readWord data i = some w := by
  unfold readWord
  rw [List.getElem?_eq_getElem (Nat.lt_of_succ_lt h), List.getElem?_eq_getElem h]
  exact ⟨_, rfl⟩

/-! One pass at a marker, by the arms of the `switch`. -/

theorem sof0_stays {i : Nat} : Stays data (onMarker data data.length ⟨i, apps⟩ .sof0) := by
  simp only [onMarker]
  split
  · trivial
  · rename_i hle
    rw [Nat.not_lt] at hle
    obtain ⟨len, hlen⟩ := readWord_inside (show i + 1 < data.length by omega)
    obtain ⟨height, hheight⟩ := readWord_inside (show i + 3 + 1 < data.length by omega)
    obtain ⟨width, hwidth⟩ := readWord_inside (show i + 5 + 1 < data.length by omega)
    simp only [hlen, hheight, hwidth]
    trivial

theorem Scan.dqt_stays {c : Byte} (hs : Scan data apps.length (0xFF :: c :: t))
    (ha : At data i (0xFF :: c :: t)) (hc : switchArm c = .dqt) :
    Stays data (onMarker data data.length ⟨i + 2, apps⟩ .dqt) := by
  refine withLength_stays ha.tail.tail ?_
  rintro x y l rfl
  dsimp only
  have hskip : (beWord x y - 2).toNat % 65 = 0 →
      Stays data (skipTo data.length (i + 2 + 2 + dqtSkip (beWord x y)) apps) := by
    intro hm
    refine skipTo_stays fun hj => ?_
    have hlen := ha.length
    simp only [List.length_cons] at hlen
    have hle : dqtSkip (beWord x y) ≤ l.length := by omega
    exact ⟨_, ha.tail.tail.tail.tail.drop hle, hs.dqt hc hm hle⟩
  by_cases h65 : beWord x y - 2 = 65
  · rw [if_neg (not_not.2 h65)]
    rw [dqtSkip, if_neg (not_not.2 h65)] at hskip
    exact hskip (by rw [h65]; rfl)
  · rw [if_pos h65]
    rw [dqtSkip, if_pos h65] at hskip
    split
    · trivial
    · rename_i hm
      exact hskip (not_not.1 hm)

/-- A table or an application segment is stepped over, and the parser comes to what is
behind it. -/
theorem segment_stays {c x y : Byte} {l : List Byte} {apps : List AppMarker}
    (ha : At data i (0xFF :: c :: x :: y :: l))
    (h : (beWord x y).toNat ≤ l.length + 2 →
      Scan data apps.length ((x :: y :: l).drop (beWord x y).toNat)) :
    Stays data (skipTo data.length (i + 2 + 2 + (beWord x y).toNat - 2) apps) := by
  rw [show i + 2 + 2 + (beWord x y).toNat - 2 = i + 2 + (beWord x y).toNat by omega]
  refine skipTo_stays fun hj => ?_
  obtain ⟨hn, hat⟩ := ha.skip_length hj
  exact ⟨_, hat, h hn⟩

theorem Scan.app_stays {c : Byte} (hs : Scan data apps.length (0xFF :: c :: t))
    (ha : At data i (0xFF :: c :: t)) (hc : switchArm c = .app) :
    Stays data (onMarker data data.length ⟨i + 2, apps⟩ .app) := by
  refine withLength_stays ha.tail.tail ?_
  rintro x y l rfl
  dsimp only
  split
  · rename_i hk
    refine segment_stays ha fun hn => ?_
    rw [List.length_append]
    exact hs.app hc hk hn
  · rename_i hk
    have hten : apps.length = 10 := by
      have := hs.le_ten
      omega
    rw [hten] at hs
    exact .inr ⟨c, x, y, l, hc, hs⟩

theorem Scan.onMarker_stays {c : Byte} (hs : Scan data apps.length (0xFF :: c :: t))
    (ha : At data i (0xFF :: c :: t)) :
    Stays data (onMarker data data.length ⟨i + 2, apps⟩ (switchArm c)) := by
  cases hc : switchArm c with
  | soi => exact ⟨t, ha.tail.tail, hs.ignored (.inl hc)⟩
  | other => exact ⟨t, ha.tail.tail, hs.ignored (.inr hc)⟩
  | notBaseline => trivial
  | sof0 => exact sof0_stays
  | dqt => exact hs.dqt_stays ha hc
  | scanHeader | dht =>
    refine withLength_stays ha.tail.tail ?_
    rintro x y l rfl
    exact segment_stays ha fun hn => hs.table (by simp [hc]) hn
  | app => exact hs.app_stays ha hc

theorem Scan.parseStep_stays (hs : Scan data apps.length t) (ha : At data i t) :
    Stays data (parseStep data data.length ⟨i, apps⟩) := by
  cases t with
  | nil =>
    have hlen := ha.length
    rw [List.length_nil] at hlen
    unfold parseStep
    rw [if_neg (by dsimp only; omega)]
    trivial
  | cons b t =>
    by_cases hb : b = 0xFF
    · subst hb
      cases t with
      | nil =>
        rw [ha.step_lone]
        exact .inl ⟨_, hs⟩
      | cons c t =>
        rw [ha.step_marker]
        exact hs.onMarker_stays ha
    · rw [ha.step_byte hb]
      exact ⟨t, ha.tail, hs.byte hb⟩

theorem parsingJPEG_outside (h : parsingJPEG data data.length = some .outside) : Overruns data := by
  have hends : Ends (parseStep data data.length) ⟨0, []⟩ .outside := ⟨_, h⟩
  have hnext : ∀ st st' : ParseSt, (∃ t, At data st.index t ∧ Scan data st.apps.length t) →
      parseStep data data.length st = .next st' →
      ∃ t, At data st'.index t ∧ Scan data st'.apps.length t := by
    rintro st st' ⟨t, ha, hs⟩ hb
    have hstays := hs.parseStep_stays ha
    rwa [hb] at hstays
  obtain ⟨st, ⟨t, ha, hs⟩, hb⟩ := hends.rule hnext ⟨data, ⟨[], rfl, rfl⟩, .start⟩
  have hstays := hs.parseStep_stays ha
  rwa [hb] at hstays

theorem Scan.reached (h : Scan data k t) : ∃ i apps, At data i t ∧ apps.length = k ∧
    ∀ r, Parses data 0 [] r ↔ Parses data i apps r := by
  induction h with
  | start => exact ⟨0, [], ⟨[], rfl, rfl⟩, rfl, fun r => Iff.rfl⟩
  | byte _ hb ih =>
    obtain ⟨i, apps, ha, hk, hr⟩ := ih
    exact ⟨i + 1, apps, ha.tail, hk, fun r => (hr r).trans (ha.parses_byte hb)⟩
  | ignored _ hc ih =>
    obtain ⟨i, apps, ha, hk, hr⟩ := ih
    exact ⟨i + 2, apps, ha.tail.tail, hk, fun r => (hr r).trans (ha.parses_ignored hc)⟩
  | @table k c x y t _ hc hn ih =>
    obtain ⟨i, apps, ha, hk, hr⟩ := ih
    have hlen := ha.length
    simp only [List.length_cons] at hlen
    refine ⟨i + 2 + (beWord x y).toNat, apps, ha.tail.tail.drop (by simpa using hn), hk,
      fun r => (hr r).trans ?_⟩
    rw [skipTo_parses (ha.step_table hc), if_pos (by omega),
      show i + 2 + 2 + (beWord x y).toNat - 2 = i + 2 + (beWord x y).toNat by omega]
  | @dqt k c x y t _ hc hm hn ih =>
    obtain ⟨i, apps, ha, hk, hr⟩ := ih
    have hlen := ha.length
    simp only [List.length_cons] at hlen
    refine ⟨i + 4 + dqtSkip (beWord x y), apps, ha.tail.tail.tail.tail.drop hn, hk,
      fun r => (hr r).trans ?_⟩
    rw [ha.parses_dqt hc, if_pos ⟨hm, by omega⟩]
  | @app k c x y t _ hc hk hn ih =>
    obtain ⟨i, apps, ha, rfl, hr⟩ := ih
    have hlen := ha.length
    simp only [List.length_cons] at hlen
    refine ⟨i + 2 + (beWord x y).toNat, apps ++ [⟨i, (beWord x y).toNat + 2⟩],
      ha.tail.tail.drop (by simpa using hn), List.length_append, fun r => (hr r).trans ?_⟩
    rw [ha.parses_app hc hk, if_pos (by omega),
      show i + 4 + (beWord x y).toNat - 2 = i + 2 + (beWord x y).toNat by omega]

theorem Overruns.parsingJPEG (h : Overruns data) :
    parsingJPEG data data.length = some .outside := by
  apply parsingJPEG_of_ends
  show Parses data 0 [] .outside
  rcases h with ⟨k, hs⟩ | ⟨c, x, y, t, hc, hs⟩
  · obtain ⟨i, apps, ha, -, hr⟩ := hs.reached
    rw [hr]
    exact (ends_done ha.step_lone).2 rfl
  · obtain ⟨i, apps, ha, hten, hr⟩ := hs.reached
    have hstep : parseStep data data.length ⟨i, apps⟩ = .done .outside := by
      rw [ha.step_marker, hc]
      simp only [onMarker, ha.tail.tail.withLength, hten]
      rfl
    rw [hr]
    exact (ends_done hstep).2 rfl

end Scan

/-- **The bounds of the parser**: on the bytes `data` it ends, and it reads only these and
stores only in the ten entries of its table if and only if the scan does not overrun
them. -/
theorem parsingJPEG_inside_iff (data : List Byte) :
    (∃ r, parsingJPEG data data.length = some r ∧ r ≠ .outside) ↔ ¬ Overruns data := by
  obtain ⟨r, hr⟩ := Option.isSome_iff_exists.1 (parsingJPEG_isSome data data.length)
  constructor
  · rintro ⟨r', hr', hne⟩ hover
    rw [hover.parsingJPEG] at hr'
    exact hne (Option.some.inj hr').symm
  · intro hover
    refine ⟨r, hr, ?_⟩
    rintro rfl
    exact hover (parsingJPEG_outside hr)

/-- A file cut inside a marker, and one with eleven empty comments. -/
theorem parsingJPEG_overruns :
    (¬ ∃ r, parsingJPEG [0xFF, 0xD8, 0xFF] 3 = some r ∧ r ≠ .outside) ∧
      ¬ ∃ r, parsingJPEG (List.replicate 11 [0xFF, 0xFE, 0x00, 0x02]).flatten 44 = some r ∧
        r ≠ .outside := by
  have hcut : parsingJPEG [0xFF, 0xD8, 0xFF] 3 = some .outside := rfl
  have hcom : parsingJPEG (List.replicate 11 [0xFF, 0xFE, 0x00, 0x02]).flatten 44 =
      some .outside := rfl
  rw [hcut, hcom]
  simp

end N32905.JpegCodec
