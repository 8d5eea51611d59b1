import N32905.JpegCodec.Parsing

/-!
# JPEG headers

A JPEG file before its scan, by the format: `FF D8`, segments with a length and
a payload, and the frame header. `parsingJPEG_complete_iff` compares the parser
with it. The parser has no arm for `DRI`, whose bytes it scans for `FF`, and it
leaves the last byte of a single quantization table to the same scan; `Passes`
says which bytes such a scan leaves behind without a trace.
-/

namespace N32905.JpegCodec

open N32905.Lib

/-! ## The format -/

inductive Marker where
  | app (n : Fin 16) | com | dht | dri | dqt
  deriving DecidableEq

def Marker.code : Marker → Byte
  | .app n => 0xE0 + BitVec.ofNat 8 n
  | .com => 0xFE
  | .dht => 0xC4
  | .dri => 0xDD
  | .dqt => 0xDB

def beBytes (n : Nat) : List Byte := [BitVec.ofNat 8 (n / 256), BitVec.ofNat 8 n]

/-- A segment; a `DQT` holds one or more tables of a selector and 64 bytes. -/
structure Segment where
  marker : Marker
  payload : List Byte
  length_lt : payload.length + 2 < 2 ^ 16
  tables : marker = .dqt → payload ≠ [] ∧ payload.length % 65 = 0

/-- A baseline frame header, up to the width. -/
structure Frame where
  length : BitVec 16
  precision : Byte
  height : BitVec 16
  width : BitVec 16

namespace Segment

def bytes (s : Segment) : List Byte :=
  0xFF :: s.marker.code :: (beBytes (s.payload.length + 2) ++ s.payload)

/-- `APPn` or `COM`. -/
def isApp (s : Segment) : Bool :=
  match s.marker with
  | .app _ | .com => true
  | _ => false

/-- The entry a segment at offset `off` has in `appOffset` and `appSize`. -/
def appMarker (s : Segment) (off : Nat) : List AppMarker :=
  if s.isApp then [⟨off, s.bytes.length⟩] else []

end Segment

def Frame.bytes (f : Frame) : List Byte :=
  [0xFF, 0xC0] ++ (beBytes f.length.toNat ++ ([f.precision] ++
    (beBytes f.height.toNat ++ beBytes f.width.toNat)))

/-- A file with the segments `segs`, the frame header `f` and anything behind it. -/
def jpegFile (segs : List Segment) (f : Frame) (rest : List Byte) : List Byte :=
  [0xFF, 0xD8] ++ (segs.flatMap Segment.bytes ++ (f.bytes ++ rest))

def appMarkers : Nat → List Segment → List AppMarker
  | _, [] => []
  | off, s :: ss => s.appMarker off ++ appMarkers (off + s.bytes.length) ss

/-! ## Bytes the scan passes over -/

/-- The bytes of a segment that the parser scans for `FF`. -/
def Segment.scanned (s : Segment) : List Byte :=
  match s.marker with
  | .dri => beBytes (s.payload.length + 2) ++ s.payload
  | .dqt => if s.payload.length = 65 then s.payload.drop 64 else []
  | _ => []

/-- How far the `DQT` arm skips, for the length `w`. -/
def dqtSkip (w : BitVec 16) : Nat := if w - 2 ≠ 65 then (w - 2).toNat else 64

/-- Bytes with no effect on a scan that starts at the first of them: plain bytes,
pairs the `switch` ignores, and tables that end inside. -/
inductive Passes : List Byte → Prop
  | nil : Passes []
  | byte {b l} (hb : b ≠ 0xFF) (hl : Passes l) : Passes (b :: l)
  | ignored {c l} (hc : switchArm c = .soi ∨ switchArm c = .other) (hl : Passes l) :
    Passes (0xFF :: c :: l)
  | table {c h b l} (hc : switchArm c = .scanHeader ∨ switchArm c = .dht)
    (hn : (beWord h b).toNat - 2 ≤ l.length) (hl : Passes (l.drop ((beWord h b).toNat - 2))) :
    Passes (0xFF :: c :: h :: b :: l)
  | dqt {c h b l} (hc : switchArm c = .dqt) (hm : (beWord h b - 2).toNat % 65 = 0)
    (hn : dqtSkip (beWord h b) ≤ l.length) (hl : Passes (l.drop (dqtSkip (beWord h b)))) :
    Passes (0xFF :: c :: h :: b :: l)

/-! ## Positions in a buffer -/

section At
variable {Buffer l l' : List Byte} {i k : Nat} {b c : Byte} {apps : List AppMarker}

/-- `Buffer` from offset `i` on is `l`. -/
def At (Buffer : List Byte) (i : Nat) (l : List Byte) : Prop :=
  ∃ pre, pre ++ l = Buffer ∧ pre.length = i

theorem At.length (h : At Buffer i l) : i + l.length = Buffer.length := by
  obtain ⟨pre, rfl, rfl⟩ := h
  rw [List.length_append]

theorem At.getElem? (h : At Buffer i l) (k : Nat) : Buffer[i + k]? = l[k]? := by
  obtain ⟨pre, rfl, rfl⟩ := h
  rw [List.getElem?_append_right (by omega), Nat.add_sub_cancel_left]

theorem At.append (h : At Buffer i (l ++ l')) : At Buffer (i + l.length) l' := by
  obtain ⟨pre, rfl, rfl⟩ := h
  exact ⟨pre ++ l, by rw [List.append_assoc], by rw [List.length_append]⟩

theorem At.drop (h : At Buffer i l) (hk : k ≤ l.length) : At Buffer (i + k) (l.drop k) := by
  rw [← List.take_append_drop k l] at h
  have := h.append
  rwa [List.length_take, Nat.min_eq_left hk] at this

theorem At.tail (h : At Buffer i (b :: l)) : At Buffer (i + 1) l := At.append (l := [b]) h

theorem At.skip {a d : Byte} (h : At Buffer i (a :: b :: c :: d :: (l ++ l')))
    (hk : k ≤ l.length) : At Buffer (i + 4 + k) (l.drop k ++ l') := by
  have := h.tail.tail.tail.tail.drop (k := k) (by rw [List.length_append]; omega)
  rwa [List.drop_append_of_le_length hk] at this

theorem At.readWord (h : At Buffer i (b :: c :: l)) : readWord Buffer i = some (beWord b c) := by
  have h0 := h.getElem? 0
  have h1 := h.getElem? 1
  simp only [Nat.add_zero, List.getElem?_cons_zero, List.getElem?_cons_succ] at h0 h1
  simp [JpegCodec.readWord, h0, h1]

theorem At.step_marker (h : At Buffer i (0xFF :: c :: l)) :
    parseStep Buffer Buffer.length ⟨i, apps⟩ =
      onMarker Buffer Buffer.length ⟨i + 2, apps⟩ (switchArm c) := by
  have h0 := h.getElem? 0
  have h1 := h.getElem? 1
  have hlen := h.length
  rw [List.length_cons] at hlen
  simp only [Nat.add_zero, List.getElem?_cons_zero, List.getElem?_cons_succ] at h0 h1
  simp only [parseStep, h0, h1, if_true, if_pos (show i < Buffer.length by omega)]

theorem At.withLength (h : At Buffer i (b :: c :: l)) (arm : BitVec 16 → Step ParseSt Outcome) :
    withLength Buffer Buffer.length ⟨i, apps⟩ arm = arm (beWord b c) := by
  have hlen := h.length
  simp only [List.length_cons] at hlen
  simp only [JpegCodec.withLength, h.readWord,
    if_neg (show ¬ i + 2 > Buffer.length by omega)]

end At

/-! ## What the loop does at a position -/

section Arms
variable {Buffer l : List Byte} {i : Nat} {b c h : Byte} {apps : List AppMarker} {r : Outcome}

abbrev Parses (Buffer : List Byte) (i : Nat) (apps : List AppMarker) (r : Outcome) : Prop :=
  Ends (parseStep Buffer Buffer.length) ⟨i, apps⟩ r

theorem At.parses_nil (h : At Buffer i []) : Parses Buffer i apps r ↔ r = .wrong apps := by
  have hlen := h.length
  rw [List.length_nil] at hlen
  exact ends_done (if_neg (by show ¬ i < Buffer.length; omega))

theorem At.step_byte (h : At Buffer i (b :: l)) (hb : b ≠ 0xFF) :
    parseStep Buffer Buffer.length ⟨i, apps⟩ = .next ⟨i + 1, apps⟩ := by
  have h0 := h.getElem? 0
  have hlen := h.length
  rw [List.length_cons] at hlen
  simp only [Nat.add_zero, List.getElem?_cons_zero] at h0
  simp only [parseStep, h0, if_neg hb, if_pos (show i < Buffer.length by omega)]

theorem At.parses_byte (h : At Buffer i (b :: l)) (hb : b ≠ 0xFF) :
    Parses Buffer i apps r ↔ Parses Buffer (i + 1) apps r :=
  ends_next (h.step_byte hb)

theorem At.parses_plain (h : At Buffer i l) (hl : 0xFF ∉ l) :
    Parses Buffer i apps r ↔ r = .wrong apps := by
  induction l generalizing i with
  | nil => exact h.parses_nil
  | cons b l ih =>
    rw [List.mem_cons, not_or] at hl
    rw [h.parses_byte (Ne.symm hl.1), ih h.tail hl.2]

theorem At.parses_ignored (h : At Buffer i (0xFF :: c :: l))
    (hc : switchArm c = .soi ∨ switchArm c = .other) :
    Parses Buffer i apps r ↔ Parses Buffer (i + 2) apps r := by
  refine ends_next ?_
  rw [h.step_marker]
  rcases hc with hc | hc <;> rw [hc] <;> rfl

theorem skipTo_parses {j : Nat} {apps' : List AppMarker}
    (hs : parseStep Buffer Buffer.length ⟨i, apps⟩ = skipTo Buffer.length j apps') :
    Parses Buffer i apps r ↔ if j ≤ Buffer.length then Parses Buffer j apps' r
      else r = .wrong apps' := by
  unfold skipTo at hs
  split
  · rw [if_neg (by omega)] at hs
    exact ends_next hs
  · rw [if_pos (by omega)] at hs
    exact ends_done hs

theorem beWord_toNat (h b : Byte) : (beWord h b).toNat = 256 * h.toNat + b.toNat := by
  have hb : b.toNat < 2 ^ 8 := b.isLt
  rw [beWord, BitVec.toNat_append, ← Nat.shiftLeft_add_eq_or_of_lt hb, Nat.shiftLeft_eq]
  omega

theorem At.step_table (ha : At Buffer i (0xFF :: c :: h :: b :: l))
    (hc : switchArm c = .scanHeader ∨ switchArm c = .dht) :
    parseStep Buffer Buffer.length ⟨i, apps⟩ =
      skipTo Buffer.length (i + 2 + 2 + (beWord h b).toNat - 2) apps := by
  rw [ha.step_marker]
  rcases hc with hc | hc <;> rw [hc] <;> exact ha.tail.tail.withLength _

/-- A length below 2 takes the loop back to the length itself, which it then
scans: its bytes are not `FF`. -/
theorem At.parses_table (ha : At Buffer i (0xFF :: c :: h :: b :: l))
    (hc : switchArm c = .scanHeader ∨ switchArm c = .dht) :
    Parses Buffer i apps r ↔ if i + 4 + ((beWord h b).toNat - 2) ≤ Buffer.length then
        Parses Buffer (i + 4 + ((beWord h b).toNat - 2)) apps r
      else r = .wrong apps := by
  have hlen := ha.length
  simp only [List.length_cons] at hlen
  have hw := beWord_toNat h b
  rw [skipTo_parses (ha.step_table hc)]
  by_cases h2 : 2 ≤ (beWord h b).toNat
  · rw [show i + 2 + 2 + (beWord h b).toNat - 2 = i + 4 + ((beWord h b).toNat - 2) by omega]
  · have hne : ∀ x : Byte, x.toNat < 2 → x ≠ 0xFF := by
      rintro x hx rfl
      exact absurd hx (by decide)
    rw [if_pos (by omega), if_pos (by omega),
      show i + 4 + ((beWord h b).toNat - 2) = i + 1 + 1 + 1 + 1 by omega]
    have h3 := ha.tail.tail
    rcases Nat.lt_or_ge (beWord h b).toNat 1 with h0 | h1
    · rw [show i + 2 + 2 + (beWord h b).toNat - 2 = i + 1 + 1 by omega,
        h3.parses_byte (hne h (by omega)), h3.tail.parses_byte (hne b (by omega))]
    · rw [show i + 2 + 2 + (beWord h b).toNat - 2 = i + 1 + 1 + 1 by omega,
        h3.tail.parses_byte (hne b (by omega))]

theorem At.parses_dqt (ha : At Buffer i (0xFF :: c :: h :: b :: l)) (hc : switchArm c = .dqt) :
    Parses Buffer i apps r ↔ if (beWord h b - 2).toNat % 65 = 0 ∧
          i + 4 + dqtSkip (beWord h b) ≤ Buffer.length then
        Parses Buffer (i + 4 + dqtSkip (beWord h b)) apps r
      else r = .wrong apps := by
  have hs : parseStep Buffer Buffer.length ⟨i, apps⟩ =
      if (beWord h b - 2).toNat % 65 = 0 then
        skipTo Buffer.length (i + 4 + dqtSkip (beWord h b)) apps
      else .done (.wrong apps) := by
    rw [ha.step_marker, hc]
    simp only [onMarker, ha.tail.tail.withLength, dqtSkip]
    by_cases h65 : beWord h b - 2 = 65
    · rw [h65]
      rfl
    · simp only [ne_eq, h65, not_false_eq_true, if_true, ite_not]
  by_cases hm : (beWord h b - 2).toNat % 65 = 0
  · rw [if_pos hm] at hs
    rw [skipTo_parses hs]
    simp only [hm, true_and]
  · rw [if_neg hm] at hs
    rw [if_neg (fun hh => hm hh.1)]
    exact ends_done hs

theorem At.parses_app (ha : At Buffer i (0xFF :: c :: h :: b :: l)) (hc : switchArm c = .app)
    (happs : apps.length < 10) :
    Parses Buffer i apps r ↔ if i + 4 + (beWord h b).toNat - 2 ≤ Buffer.length then
        Parses Buffer (i + 4 + (beWord h b).toNat - 2)
          (apps ++ [⟨i, (beWord h b).toNat + 2⟩]) r
      else r = .wrong (apps ++ [⟨i, (beWord h b).toNat + 2⟩]) := by
  refine skipTo_parses ?_
  rw [ha.step_marker, hc]
  simp only [onMarker, ha.tail.tail.withLength, if_pos happs]
  rfl

theorem At.parses_sof0 {p₀ p₁ p₂ p₃ p₄ p₅ p₆ : Byte}
    (ha : At Buffer i (0xFF :: c :: p₀ :: p₁ :: p₂ :: p₃ :: p₄ :: p₅ :: p₆ :: l))
    (hc : switchArm c = .sof0) :
    Parses Buffer i apps r ↔ r = .found (beWord p₅ p₆).toNat (beWord p₃ p₄).toNat apps := by
  have hlen := ha.length
  simp only [List.length_cons] at hlen
  refine ends_done ?_
  rw [ha.step_marker, hc]
  simp only [onMarker, if_neg (show ¬ i + 2 + 7 > Buffer.length by omega),
    ha.tail.tail.readWord, ha.tail.tail.tail.tail.tail.readWord,
    ha.tail.tail.tail.tail.tail.tail.tail.readWord]

end Arms

/-! ## Passing over bytes -/

section Passing
variable {Buffer l rest : List Byte} {i : Nat} {apps : List AppMarker} {r : Outcome}

theorem Passes.parses (hp : Passes l) (ha : At Buffer i (l ++ rest)) :
    Parses Buffer i apps r ↔ Parses Buffer (i + l.length) apps r := by
  induction hp generalizing i with
  | nil => rfl
  | @byte b l hb _ ih =>
    rw [ha.parses_byte hb, ih ha.tail, List.length_cons, Nat.add_right_comm, Nat.add_assoc]
  | @ignored c l hc _ ih =>
    rw [ha.parses_ignored hc, ih ha.tail.tail]
    simp only [List.length_cons]
    rw [show i + 1 + 1 + l.length = i + (l.length + 1 + 1) by omega]
  | @table c h b l hc hn _ ih =>
    have hlen := ha.length
    simp only [List.length_append, List.length_cons] at hlen
    rw [ha.parses_table hc, if_pos (by omega), ih (ha.skip hn), List.length_drop]
    simp only [List.length_cons]
    rw [show i + 4 + ((beWord h b).toNat - 2) + (l.length - ((beWord h b).toNat - 2)) =
      i + (l.length + 1 + 1 + 1 + 1) by omega]
  | @dqt c h b l hc hm hn _ ih =>
    have hlen := ha.length
    simp only [List.length_append, List.length_cons] at hlen
    rw [ha.parses_dqt hc, if_pos ⟨hm, by omega⟩, ih (ha.skip hn), List.length_drop]
    simp only [List.length_cons]
    rw [show i + 4 + dqtSkip (beWord h b) + (l.length - dqtSkip (beWord h b)) =
      i + (l.length + 1 + 1 + 1 + 1) by omega]

end Passing

/-! ## Segments -/

theorem beWord_beBytes {n : Nat} (hn : n < 2 ^ 16) :
    (beWord (BitVec.ofNat 8 (n / 256)) (BitVec.ofNat 8 n)).toNat = n := by
  rw [beWord_toNat, BitVec.toNat_ofNat, BitVec.toNat_ofNat]
  omega

section Segments
variable {Buffer rest : List Byte} {i : Nat} {apps : List AppMarker} {r : Outcome}
  {segs : List Segment}

theorem Segment.length_bytes (s : Segment) : s.bytes.length = s.payload.length + 4 := by
  simp [Segment.bytes, beBytes]

theorem Segment.at_bytes (s : Segment) (ha : At Buffer i (s.bytes ++ rest)) :
    ∃ h b, At Buffer i (0xFF :: s.marker.code :: h :: b :: (s.payload ++ rest)) ∧
      [h, b] = beBytes (s.payload.length + 2) ∧ (beWord h b).toNat = s.payload.length + 2 ∧
      i + s.bytes.length + rest.length = Buffer.length := by
  refine ⟨_, _, ha, rfl, beWord_beBytes s.length_lt, ?_⟩
  have := ha.length
  rw [List.length_append] at this
  omega

theorem Segment.parses_app (s : Segment) (ha : At Buffer i (s.bytes ++ rest))
    (hc : switchArm s.marker.code = .app) (happs : apps.length < 10) :
    Parses Buffer i apps r ↔
      Parses Buffer (i + s.bytes.length) (apps ++ [⟨i, s.bytes.length⟩]) r := by
  obtain ⟨h, b, ha', -, hw, hlen⟩ := s.at_bytes ha
  rw [s.length_bytes] at hlen ⊢
  rw [ha'.parses_app hc happs, hw, if_pos (by omega),
    show i + 4 + (s.payload.length + 2) - 2 = i + (s.payload.length + 4) by omega]

/-- The loop goes to the last byte of a single table, and to the end of a segment
with more than one. -/
theorem Segment.parses_dqt (s : Segment) (ha : At Buffer i (s.bytes ++ rest))
    (hm : s.marker = .dqt) :
    Parses Buffer i apps r ↔ Parses Buffer (i + (s.bytes.length - s.scanned.length)) apps r := by
  obtain ⟨h, b, ha', -, hw, hlen⟩ := s.at_bytes ha
  have hlt := s.length_lt
  obtain ⟨-, h65⟩ := s.tables hm
  have hw2 : (beWord h b - 2).toNat = s.payload.length := by
    have h2 : (2 : BitVec 16).toNat = 2 := rfl
    rw [BitVec.toNat_sub, hw, h2]
    omega
  have hsk : dqtSkip (beWord h b) + s.scanned.length = s.payload.length := by
    have hiff : beWord h b - 2 = 65 ↔ s.payload.length = 65 := by
      rw [← hw2]
      exact ⟨fun h => by rw [h]; rfl, fun h => BitVec.eq_of_toNat_eq h⟩
    simp only [dqtSkip, Segment.scanned, hm, ne_eq, hiff, hw2]
    by_cases h1 : s.payload.length = 65
    · simp [h1]
    · simp [h1]
  rw [s.length_bytes] at hlen ⊢
  rw [hm] at ha'
  rw [ha'.parses_dqt (by decide), hw2, if_pos ⟨h65, by omega⟩,
    show i + 4 + dqtSkip (beWord h b) = i + (s.payload.length + 4 - s.scanned.length) by omega]

theorem Segment.parses_scanned (s : Segment) (ha : At Buffer i (s.bytes ++ rest))
    (hs : s.isApp = false) :
    Parses Buffer i apps r ↔ Parses Buffer (i + (s.bytes.length - s.scanned.length)) apps r := by
  obtain ⟨h, b, ha', hlb, hw, hlen⟩ := s.at_bytes ha
  rw [s.length_bytes] at hlen
  cases hm : s.marker with
  | app n => simp [Segment.isApp, hm] at hs
  | com => simp [Segment.isApp, hm] at hs
  | dht =>
    rw [hm] at ha'
    rw [ha'.parses_table (.inr (by decide)), hw, if_pos (by omega), s.length_bytes]
    simp only [Segment.scanned, hm, List.length_nil]
    rw [show i + 4 + (s.payload.length + 2 - 2) = i + (s.payload.length + 4 - 0) by omega]
  | dri =>
    rw [hm] at ha'
    rw [ha'.parses_ignored (.inr (by decide)), s.length_bytes]
    simp only [Segment.scanned, hm, ← hlb, List.length_append, List.length_cons, List.length_nil]
    rw [show i + 2 = i + (s.payload.length + 4 - (0 + 1 + 1 + s.payload.length)) by omega]
  | dqt => exact s.parses_dqt ha hm

theorem Segment.scanned_suffix (s : Segment) : s.scanned <:+ s.bytes := by
  unfold Segment.scanned
  split
  · exact ⟨[0xFF, s.marker.code], rfl⟩
  · split
    · exact (List.drop_suffix 64 s.payload).trans
        ⟨0xFF :: s.marker.code :: beBytes (s.payload.length + 2), rfl⟩
    · exact List.nil_suffix
  · exact List.nil_suffix

theorem Segment.at_scanned (s : Segment) (ha : At Buffer i (s.bytes ++ rest)) :
    At Buffer (i + (s.bytes.length - s.scanned.length)) (s.scanned ++ rest) := by
  obtain ⟨pre, hpre⟩ := s.scanned_suffix
  rw [← hpre, List.append_assoc] at ha
  rw [← hpre, List.length_append, Nat.add_sub_cancel]
  exact ha.append

/-- **One segment**: where its scanned bytes pass, the loop goes to its end and
enters it in the table if it is an application marker. -/
theorem Segment.parses (s : Segment) (ha : At Buffer i (s.bytes ++ rest))
    (hp : Passes s.scanned) (happs : s.isApp = true → apps.length < 10) :
    Parses Buffer i apps r ↔ Parses Buffer (i + s.bytes.length) (apps ++ s.appMarker i) r := by
  cases hs : s.isApp with
  | true =>
    have hc : switchArm s.marker.code = .app := by
      cases hm : s.marker with
      | app n => exact (show ∀ n : Fin 16, switchArm (Marker.app n).code = .app by decide) n
      | com => decide
      | dht | dri | dqt => simp [Segment.isApp, hm] at hs
    rw [s.parses_app ha hc (happs hs), Segment.appMarker, if_pos hs]
  | false =>
    have hle := s.scanned_suffix.length_le
    rw [s.parses_scanned ha hs, hp.parses (s.at_scanned ha), Segment.appMarker,
      if_neg (by rw [hs]; decide), List.append_nil,
      show i + (s.bytes.length - s.scanned.length) + s.scanned.length = i + s.bytes.length by omega]

/-- **All segments** before a frame header. -/
theorem segments_parse (ha : At Buffer i (segs.flatMap Segment.bytes ++ rest))
    (hp : ∀ s ∈ segs, Passes s.scanned)
    (happs : apps.length + (segs.filter Segment.isApp).length ≤ 10) :
    Parses Buffer i apps r ↔
      Parses Buffer (i + (segs.flatMap Segment.bytes).length) (apps ++ appMarkers i segs) r := by
  induction segs generalizing i apps with
  | nil => simp [appMarkers]
  | cons s segs ih =>
    rw [List.flatMap_cons, List.append_assoc] at ha
    have hcount : apps.length + (s.appMarker i).length + (segs.filter Segment.isApp).length ≤ 10 ∧
        (s.isApp = true → apps.length < 10) := by
      rw [List.filter_cons] at happs
      unfold Segment.appMarker
      by_cases hs : s.isApp = true
      · rw [if_pos hs, List.length_cons] at happs
        rw [if_pos hs, List.length_singleton]
        omega
      · rw [if_neg hs] at happs ⊢
        exact ⟨happs, fun h => absurd h hs⟩
    rw [s.parses ha (hp s List.mem_cons_self) hcount.2,
      ih ha.append (fun s' hs' => hp s' (List.mem_cons_of_mem s hs'))
        (by rw [List.length_append]; exact hcount.1),
      appMarkers, List.flatMap_cons, List.length_append, List.append_assoc, Nat.add_assoc]

theorem Frame.parses {f : Frame} (ha : At Buffer i (f.bytes ++ rest)) :
    Parses Buffer i apps r ↔ r = .found f.width.toNat f.height.toNat apps := by
  have h : Parses Buffer i apps r ↔ _ := At.parses_sof0 ha (by decide)
  rwa [beWord_beBytes f.width.isLt, beWord_beBytes f.height.isLt] at h

end Segments

/-! ## Bytes that do not pass

Scanned bytes are probed with two frame headers at the end of the file. If the
parser finds both, it has come to the end of the bytes and left no trace. -/

section Probing
variable {B : Byte → List Byte} {l : List Byte} {i n : Nat} {b c h v : Byte}

/-- A frame of `v` by `v` in both bytes of each. -/
def probe (v : Byte) : Frame := ⟨0, 0, beWord v v, beWord v v⟩

theorem probe_bytes (hv : v = 1 ∨ v = 2) :
    (probe v).bytes = [0xFF, 0xC0, 0, 0, 0, v, v, v, v] := by
  rcases hv with rfl | rfl <;> decide

/-- The parser finds both frames behind `l`. -/
def Probed (B : Byte → List Byte) (i : Nat) (l : List Byte) : Prop :=
  ∀ v : Byte, v = 1 ∨ v = 2 → At (B v) i (l ++ (probe v).bytes) ∧
    Parses (B v) i [] (.found (beWord v v).toNat (beWord v v).toNat [])

theorem At.lost {Buffer : List Byte} {apps : List AppMarker} {r : Outcome}
    (hv : v = 1 ∨ v = 2) (ha : At Buffer i (l ++ (probe v).bytes)) (hn : l.length < n)
    (hle : i + n ≤ Buffer.length) (hr : Parses Buffer (i + n) apps r) : r = .wrong apps := by
  have hlen := ha.length
  refine ((ha.drop (k := n) (by omega)).parses_plain ?_).1 hr
  rw [List.drop_append, List.drop_of_length_le (by omega), List.nil_append, probe_bytes hv,
    show n - l.length = n - l.length - 1 + 1 by omega, List.drop_succ_cons]
  refine fun hmem => absurd (List.mem_of_mem_drop hmem) ?_
  rcases hv with rfl | rfl <;> decide

theorem Probed.skip (hp : ∀ v : Byte, v = 1 ∨ v = 2 →
      At (B v) i (0xFF :: c :: h :: b :: (l ++ (probe v).bytes)) ∧ i + 4 + n ≤ (B v).length ∧
        Parses (B v) (i + 4 + n) [] (.found (beWord v v).toNat (beWord v v).toNat [])) :
    n ≤ l.length ∧ Probed B (i + 4 + n) (l.drop n) := by
  have hn : n ≤ l.length := by
    by_contra hn
    obtain ⟨ha, hle, hr⟩ := hp 1 (.inl rfl)
    exact nomatch ha.tail.tail.tail.tail.lost (.inl rfl) (by omega) hle hr
  exact ⟨hn, fun v hv => ⟨(hp v hv).1.skip hn, (hp v hv).2.2⟩⟩

theorem Probed.length_bytes (hp : Probed B i (0xFF :: c :: l))
    (hc : switchArm c = .scanHeader ∨ switchArm c = .dht ∨ switchArm c = .dqt) :
    ∃ h b l', l = h :: b :: l' := by
  obtain ⟨ha, hr⟩ := hp 1 (.inl rfl)
  have hlen := ha.length
  rw [probe_bytes (.inl rfl)] at ha hlen
  simp only [List.length_append, List.length_cons, List.length_nil] at hlen
  -- both bytes of the length, or its second, would be the first of the frame header
  have hshort : ∀ h b l', At (B 1) i (0xFF :: c :: h :: b :: l') → l.length < 2 →
      253 ≤ (beWord h b).toNat - 2 → False := by
    intro h b l' ha' hl hw
    have hlt := (beWord h b).isLt
    rcases or_assoc.2 hc with hc | hc
    · rw [ha'.parses_table hc, if_neg (by omega)] at hr
      cases hr
    · have hsk : dqtSkip (beWord h b) = (beWord h b).toNat - 2 := by
        have h2 : (2 : BitVec 16).toNat = 2 := rfl
        have hw2 : (beWord h b - 2).toNat = (beWord h b).toNat - 2 := by
          rw [BitVec.toNat_sub, h2]
          omega
        rw [dqtSkip, if_pos (by rintro h65; rw [h65] at hw2; simp at hw2; omega), hw2]
      rw [ha'.parses_dqt hc, if_neg (by omega)] at hr
      cases hr
  match l, ha, hshort with
  | [], ha, hshort => exact (hshort _ _ _ ha (by decide) (by decide)).elim
  | [x], ha, hshort =>
    refine (hshort _ _ _ ha (Nat.lt_succ_self 1) ?_).elim
    rw [beWord_toNat]
    show 253 ≤ 256 * x.toNat + 255 - 2
    omega
  | h :: b :: l', _, _ => exact ⟨h, b, l', rfl⟩

theorem Probed.table (hp : Probed B i (0xFF :: c :: l))
    (hc : switchArm c = .scanHeader ∨ switchArm c = .dht)
    (ih : ∀ l' j, l'.length ≤ l.length → Probed B j l' → Passes l') :
    Passes (0xFF :: c :: l) := by
  obtain ⟨h, b, l, rfl⟩ := hp.length_bytes (or_assoc.1 (.inl hc))
  obtain ⟨hn, hp'⟩ := Probed.skip (n := (beWord h b).toNat - 2) (l := l) fun v hv => by
    obtain ⟨ha, hr⟩ := hp v hv
    rw [ha.parses_table hc] at hr
    split at hr
    case isTrue hle => exact ⟨ha, hle, hr⟩
    case isFalse => cases hr
  exact .table hc hn (ih _ _ (by simp only [List.length_drop, List.length_cons]; omega) hp')

theorem Probed.dqt (hp : Probed B i (0xFF :: c :: l)) (hc : switchArm c = .dqt)
    (ih : ∀ l' j, l'.length ≤ l.length → Probed B j l' → Passes l') :
    Passes (0xFF :: c :: l) := by
  obtain ⟨h, b, l, rfl⟩ := hp.length_bytes (.inr (.inr hc))
  have hr : ∀ v : Byte, v = 1 ∨ v = 2 → (beWord h b - 2).toNat % 65 = 0 ∧
      At (B v) i (0xFF :: c :: h :: b :: (l ++ (probe v).bytes)) ∧
      i + 4 + dqtSkip (beWord h b) ≤ (B v).length ∧
      Parses (B v) (i + 4 + dqtSkip (beWord h b)) []
        (.found (beWord v v).toNat (beWord v v).toNat []) := by
    intro v hv
    obtain ⟨ha, hr⟩ := hp v hv
    rw [ha.parses_dqt hc] at hr
    split at hr
    case isTrue hle => exact ⟨hle.1, ha, hle.2, hr⟩
    case isFalse => cases hr
  obtain ⟨hn, hp'⟩ := Probed.skip fun v hv => (hr v hv).2
  exact .dqt hc (hr 1 (.inl rfl)).1 hn
    (ih _ _ (by simp only [List.length_drop, List.length_cons]; omega) hp')

theorem Probed.not_app (hp : Probed B i (0xFF :: c :: l)) : switchArm c ≠ .app := by
  intro hc
  obtain ⟨ha, hr⟩ := hp 1 (.inl rfl)
  obtain ⟨h, b, l', hl⟩ : ∃ h b l', l ++ (probe 1).bytes = h :: b :: l' := by
    match l with
    | [] => exact ⟨_, _, _, probe_bytes (.inl rfl)⟩
    | [x] => exact ⟨x, _, _, by rw [probe_bytes (.inl rfl)]; rfl⟩
    | h :: b :: l' => exact ⟨h, b, _, rfl⟩
  rw [List.cons_append, List.cons_append, hl] at ha
  rw [ha.parses_app hc (by decide)] at hr
  split at hr
  · have := ends_found_apps hr
    simp at this
  · cases hr

/-- A frame header in the scanned bytes gives one size for both frames, one that
reaches into the frame header a size of neither. -/
theorem Probed.not_sof0 (hp : Probed B i (0xFF :: c :: l)) : switchArm c ≠ .sof0 := by
  intro hc
  obtain ⟨ha, hr⟩ := hp 1 (.inl rfl)
  rw [probe_bytes (.inl rfl)] at ha
  match l, hp, ha with
  | [], _, ha =>
    injection (ha.parses_sof0 hc).1 hr with _ hh
    exact absurd hh (by decide)
  | [_], _, ha =>
    injection (ha.parses_sof0 hc).1 hr with _ hh
    exact absurd hh (by decide)
  | [_, _], _, ha =>
    injection (ha.parses_sof0 hc).1 hr with _ hh
    exact absurd hh (by decide)
  | [_, _, _], _, ha =>
    injection (ha.parses_sof0 hc).1 hr with _ hh
    exact absurd hh (by decide)
  | [_, _, _, _], _, ha =>
    injection (ha.parses_sof0 hc).1 hr with hw
    exact absurd hw (by decide)
  | [_, _, _, _, _], _, ha =>
    injection (ha.parses_sof0 hc).1 hr with hw
    exact absurd hw (by decide)
  | [_, _, _, _, _, x], _, ha =>
    injection (ha.parses_sof0 hc).1 hr with hw
    rw [beWord_toNat, beWord_toNat] at hw
    have h1 : (1 : Byte).toNat = 1 := rfl
    have h255 : (0xFF : Byte).toNat = 255 := rfl
    omega
  | _ :: _ :: _ :: _ :: _ :: _ :: _ :: _, hp, ha =>
    injection (ha.parses_sof0 hc).1 hr with h1
    obtain ⟨ha2, hr2⟩ := hp 2 (.inr rfl)
    injection (ha2.parses_sof0 hc).1 hr2 with h2
    rw [← h1] at h2
    exact absurd h2 (by decide)

/-- **Bytes behind which the parser still finds every frame pass.** -/
theorem Probed.passes (hp : Probed B i l) : Passes l := by
  induction hk : l.length using Nat.strong_induction_on generalizing i l with
  | _ k ih =>
    subst hk
    match l, hp with
    | [], _ => exact .nil
    | b :: l, hp =>
      by_cases hb : b = 0xFF
      · subst hb
        match l, hp with
        | [], hp =>
          -- the `FF` takes the one of the frame header for its marker
          obtain ⟨ha, hr⟩ := hp 1 (.inl rfl)
          rw [probe_bytes (.inl rfl)] at ha
          rw [ha.parses_ignored (.inr (by decide)), ha.tail.tail.parses_plain (by decide)] at hr
          cases hr
        | c :: l, hp =>
          have ih' : ∀ l' j, l'.length ≤ l.length → Probed B j l' → Passes l' :=
            fun l' j hl' hp' => ih _ (by simp only [List.length_cons]; omega) hp' rfl
          have hign : switchArm c = .soi ∨ switchArm c = .other → Passes (0xFF :: c :: l) :=
            fun hc => .ignored hc (ih' l (i + 2) (Nat.le_refl _) fun v hv =>
              ⟨(hp v hv).1.tail.tail, ((hp v hv).1.parses_ignored hc).1 (hp v hv).2⟩)
          cases hc : switchArm c with
          | soi => exact hign (.inl hc)
          | other => exact hign (.inr hc)
          | notBaseline =>
            obtain ⟨ha, hr⟩ := hp 1 (.inl rfl)
            have hs : parseStep (B 1) (B 1).length ⟨i, []⟩ = _ := ha.step_marker
            rw [hc] at hs
            exact nomatch (ends_done hs).1 hr
          | dqt => exact hp.dqt hc ih'
          | scanHeader => exact hp.table (.inl hc) ih'
          | dht => exact hp.table (.inr hc) ih'
          | app => exact absurd hc hp.not_app
          | sof0 => exact absurd hc hp.not_sof0
      · refine .byte hb (ih _ (Nat.lt_succ_self _) (i := i + 1) (fun v hv => ?_) rfl)
        exact ⟨(hp v hv).1.tail, ((hp v hv).1.parses_byte hb).1 (hp v hv).2⟩

end Probing

/-! ## Completeness of the parser -/

section Complete
variable {f : Frame} {rest : List Byte} {r : Outcome}

theorem at_jpegFile (segs : List Segment) (f : Frame) (rest : List Byte) :
    At (jpegFile segs f rest) 2 (segs.flatMap Segment.bytes ++ (f.bytes ++ rest)) :=
  At.append (l := [0xFF, 0xD8]) ⟨[], rfl, rfl⟩

theorem jpegFile_parses (segs : List Segment) (f : Frame) (rest : List Byte) :
    Parses (jpegFile segs f rest) 0 [] r ↔ Parses (jpegFile segs f rest) 2 [] r :=
  At.parses_ignored (c := 0xD8) (l := segs.flatMap Segment.bytes ++ (f.bytes ++ rest))
    ⟨[], rfl, rfl⟩ (.inl (by decide))

theorem parsingJPEG_passes {segs : List Segment} (hp : ∀ s ∈ segs, Passes s.scanned)
    (happs : (segs.filter Segment.isApp).length ≤ 10) :
    parsingJPEG (jpegFile segs f rest) (jpegFile segs f rest).length =
      some (.found f.width.toNat f.height.toNat (appMarkers 2 segs)) := by
  have ha := at_jpegFile segs f rest
  apply parsingJPEG_of_ends
  show Parses _ 0 [] _
  rw [jpegFile_parses, segments_parse ha hp (by rw [List.length_nil]; omega), List.nil_append]
  exact (Frame.parses ha.append).2 rfl

end Complete

/-- **What the parser accepts.** It returns the size and the application markers
of all files with segments of a kind `P` if and only if the scanned bytes of
every segment of the kind pass. -/
theorem parsingJPEG_complete_iff (P : Segment → Prop) :
    (∀ (segs : List Segment) (f : Frame) (rest : List Byte), (∀ s ∈ segs, P s) →
      (segs.filter Segment.isApp).length ≤ 10 →
      parsingJPEG (jpegFile segs f rest) (jpegFile segs f rest).length =
        some (.found f.width.toNat f.height.toNat (appMarkers 2 segs))) ↔
    ∀ s, P s → Passes s.scanned := by
  constructor
  · intro h s hs
    cases happ : s.isApp with
    | true =>
      have : s.scanned = [] := by
        cases hm : s.marker <;> simp [Segment.isApp, Segment.scanned, hm] at happ ⊢
      rw [this]
      exact .nil
    | false =>
      refine Probed.passes (B := fun v => jpegFile [s] (probe v) [])
        (i := 2 + (s.bytes.length - s.scanned.length)) fun v hv => ?_
      have ha := at_jpegFile [s] (probe v) []
      rw [List.append_nil, List.flatMap_singleton] at ha
      refine ⟨s.at_scanned ha, ?_⟩
      have hr := h [s] (probe v) [] (by simpa using hs)
        (by rw [List.filter_singleton, happ]; exact Nat.zero_le _)
      have he : Parses (jpegFile [s] (probe v) []) 0 [] _ := ⟨_, hr⟩
      rw [jpegFile_parses, s.parses_scanned ha happ] at he
      simpa [appMarkers, Segment.appMarker, happ, probe] using he
  · intro h segs f rest hP happs
    exact parsingJPEG_passes (fun s hs => h s (hP s hs)) happs

/-- A restart interval of 65472 is taken for a frame header. -/
theorem parsingJPEG_dri_interval :
    let s : Segment := ⟨.dri, [0xFF, 0xC0], by decide, by decide⟩
    let f : Frame := ⟨17, 8, 240, 320⟩
    parsingJPEG (jpegFile [s] f []) (jpegFile [s] f []).length = some (.found 240 0x1108 []) ∧
      parsingJPEG (jpegFile [s] f []) (jpegFile [s] f []).length ≠ some (.found 320 240 []) := by
  decide

end N32905.JpegCodec
