import N32905.JpegCodec.Resize

/-!
# Loading a bitstream

`jpegCodec`, `jpegWindowCodec` and `jpeg_resize` read a file into the engine's buffer
in pieces of 4096 bytes, and call `ParsingJPEG` after each piece until it succeeds.
What it finds in the first bytes of a file it finds in the whole of it: a call that
succeeds has looked at no byte behind the ones it was given.
-/

namespace N32905.JpegCodec

open N32905.Lib

/-! ## The parser with more data -/

section MoreData
variable {Buffer Buffer' : List Byte} {n m : Nat} {st : ParseSt} {s : Step ParseSt Outcome}
  {frame : ParsedFrame}

/-- `Buffer'` starts with the first `n` bytes of `Buffer`. -/
def Agree (n : Nat) (Buffer Buffer' : List Byte) : Prop := ∀ i < n, Buffer'[i]? = Buffer[i]?

def Within (n : Nat) : Step ParseSt Outcome → Prop
  | .next st => st.index ≤ n
  | .done (.found _ _ _) => True
  | .done _ => False

theorem Agree.readWord (h : Agree n Buffer Buffer') {i : Nat} (hi : i + 2 ≤ n) :
    readWord Buffer' i = readWord Buffer i := by
  unfold JpegCodec.readWord
  rw [h i (by omega), h (i + 1) (by omega)]

theorem skipTo_more (hnm : n ≤ m) {index : Nat} {apps : List AppMarker}
    (hw : Within n (skipTo n index apps)) : skipTo m index apps = skipTo n index apps := by
  unfold skipTo at hw ⊢
  split at hw
  · cases hw
  · rw [if_neg (by omega), if_neg (by omega)]

theorem withLength_more (h : Agree n Buffer Buffer') (hnm : n ≤ m)
    {arm arm' : BitVec 16 → Step ParseSt Outcome} (harm : ∀ w, Within n (arm w) → arm' w = arm w)
    (hw : Within n (withLength Buffer n st arm)) :
    st.index ≤ n ∧ withLength Buffer' m st arm' = withLength Buffer n st arm := by
  unfold withLength at hw ⊢
  split at hw
  · cases hw
  · rename_i hlen
    refine ⟨by omega, ?_⟩
    rw [if_neg (by omega), if_neg hlen, h.readWord (by omega)]
    cases hword : readWord Buffer st.index with
    | none => rfl
    | some w =>
      rw [hword] at hw
      exact harm w hw

/-- The `switch`: every arm that goes on, and the one that succeeds, has checked the
bytes it reads against the length. -/
theorem onMarker_more (h : Agree n Buffer Buffer') (hnm : n ≤ m) {arm : Arm}
    (hw : Within n (onMarker Buffer n st arm)) :
    st.index ≤ n ∧ onMarker Buffer' m st arm = onMarker Buffer n st arm := by
  cases arm with
  | soi | other => exact ⟨hw, rfl⟩
  | notBaseline => cases hw
  | dqt =>
    refine withLength_more h hnm (fun w hw => ?_) hw
    dsimp only at hw ⊢
    split
    · rename_i h65
      rw [if_pos h65] at hw
      split
      · rfl
      · rename_i hmod
        rw [if_neg hmod] at hw
        exact skipTo_more hnm hw
    · rename_i h65
      rw [if_neg h65] at hw
      exact skipTo_more hnm hw
  | sof0 =>
    simp only [onMarker] at hw ⊢
    split at hw
    · cases hw
    · rename_i hlen
      refine ⟨by omega, ?_⟩
      rw [if_neg (by omega), if_neg hlen, h.readWord (by omega), h.readWord (by omega),
        h.readWord (by omega)]
  | scanHeader | dht => exact withLength_more h hnm (fun w hw => skipTo_more hnm hw) hw
  | app =>
    refine withLength_more h hnm (fun w hw => ?_) hw
    split
    · rename_i happs
      rw [if_pos happs] at hw
      exact skipTo_more hnm hw
    · rfl

/-- One pass. The byte behind an `FF` is read unchecked; if it is not one of the first
`n`, no arm goes on. -/
theorem parseStep_more (h : Agree n Buffer Buffer') (hnm : n ≤ m)
    (hw : Within n (parseStep Buffer n st)) :
    parseStep Buffer' m st = parseStep Buffer n st := by
  unfold parseStep at hw ⊢
  split at hw
  case isFalse => cases hw
  case isTrue hlt =>
    rw [if_pos hlt, if_pos (by omega), h _ hlt]
    cases hHByte : Buffer[st.index]? with
    | none => rfl
    | some HByte =>
      rw [hHByte] at hw
      dsimp only at hw ⊢
      split
      · rename_i hff
        rw [if_pos hff] at hw
        cases hLByte : Buffer[st.index + 1]? with
        | none =>
          rw [hLByte] at hw
          cases hw
        | some LByte =>
          rw [hLByte] at hw
          obtain ⟨hidx, heq⟩ := onMarker_more h hnm hw
          rw [h _ (by dsimp only at hidx; omega), hLByte]
          exact heq
      · rfl

theorem not_found_of_le {width height : Nat} {apps : List AppMarker} (hst : n ≤ st.index) :
    ¬ Ends (parseStep Buffer n) st (.found width height apps) := by
  have hdone : parseStep Buffer n st = .done (.wrong st.apps) := if_neg (by omega)
  rw [ends_done hdone]
  exact fun h => nomatch h

theorem within_of_found {width height : Nat} {apps : List AppMarker}
    (h : Ends (parseStep Buffer n) st (.found width height apps)) :
    Within n (parseStep Buffer n st) := by
  cases hs : parseStep Buffer n st with
  | done r =>
    rw [← (ends_done hs).1 h]
    trivial
  | next st' =>
    rw [ends_next hs] at h
    refine Nat.le_of_not_lt fun hlt => ?_
    exact not_found_of_le (Nat.le_of_lt hlt) h

/-- `ParsingJPEG` returns 0 with this frame. -/
def Parsed (Buffer : List Byte) (Length : Nat) (frame : ParsedFrame) : Prop :=
  parsingJPEG Buffer Length = some (.found frame.width frame.height frame.apps)

/-- **A parse that succeeds** depends on no byte behind the first `n`. -/
theorem Parsed.more (h : Parsed Buffer n frame) (hagree : Agree n Buffer Buffer') (hnm : n ≤ m) :
    Parsed Buffer' m frame := by
  have hends : Ends (parseStep Buffer n) ⟨0, []⟩ (.found frame.width frame.height frame.apps) :=
    ⟨_, h⟩
  refine parsingJPEG_of_ends (hends.congr_body fun st hst => ?_)
  exact parseStep_more hagree hnm (within_of_found hst)

end MoreData

/-! ## The reading loops -/

/-- The decode tests of `jpegCodec`. -/
inductive DecodeMode where
  | normal | downscale | outputWait | downscaleFb
  deriving DecidableEq

/-- `src_bufsize` and `dst_bufsize` as a test sets them. -/
structure BufSizes where
  src_bufsize : BitVec 32
  dst_bufsize : BitVec 32

def jpegCodecDecodeSizes : DecodeMode → BufSizes
  | .outputWait => ⟨600 * 1024, 200 * 1024⟩
  | _ => ⟨100 * 1024, 640 * 480 * 2⟩

def jpegWindowCodecSizes (xres yres : BitVec 32) : BufSizes := ⟨300 * 1024, xres * yres * 2⟩

section Loops
variable (file old : List Byte) (ready : Nat → Bool)

/-- One pass of a reading loop: `readBody`, with a limit of its own. -/
def loadBody (limit : Nat) (st : ReadSt) : Step ReadSt ReadEnd :=
  if st.feof then .done (.read st.bufferCount st.parser)
  else
    let readSize := freadSize file ready st
    let feof := ready st.passes && readSize < 4096
    let bufferCount := st.bufferCount + readSize
    match parseOnce file old bufferCount st.parser with
    | none => .done .outside
    | some parser =>
      if bufferCount > limit then .done .tooLarge
      else .next ⟨bufferCount, st.passes + 1, feof, parser⟩

/-- The functions that parse while they read. -/
inductive ParsingLoop where
  | jpegCodec (mode : DecodeMode)
  | jpegWindowCodec (xres yres : BitVec 32)
  | jpeg_resize

def ParsingLoop.body : ParsingLoop → ReadSt → Step ReadSt ReadEnd
  | .jpegCodec mode => loadBody file old ready (jpegCodecDecodeSizes mode).src_bufsize.toNat
  | .jpegWindowCodec xres yres =>
    loadBody file old ready (jpegWindowCodecSizes xres yres).src_bufsize.toNat
  | .jpeg_resize => readBody file old ready

end Loops

section Reading
variable {file old : List Byte} {ready : Nat → Bool} {limit : Nat} {s s' : ReadSt}

theorem ParsingLoop.body_eq (l : ParsingLoop) (file old : List Byte) (ready : Nat → Bool) :
    ∃ limit, l.body file old ready = loadBody file old ready limit := by
  cases l with
  | jpegCodec | jpegWindowCodec => exact ⟨_, rfl⟩
  | jpeg_resize => exact ⟨old.length, rfl⟩

theorem getElem?_readBuffer {n i : Nat} (hn : n ≤ file.length) (hi : i < n) :
    (readBuffer file old n)[i]? = file[i]? := by
  have hlen : (file.take n).length = n := List.length_take_of_le hn
  unfold readBuffer
  rw [List.getElem?_append_left (by omega), List.getElem?_take_of_lt hi]

theorem agree_readBuffer {n m : Nat} (hnm : n ≤ m) (hm : m ≤ file.length) :
    Agree n (readBuffer file old n) (readBuffer file old m) := by
  intro i hi
  rw [getElem?_readBuffer hm (by omega), getElem?_readBuffer (by omega) hi]

theorem agree_file {n : Nat} (hn : n ≤ file.length) (rest : List Byte) :
    Agree n (readBuffer file old n) (file ++ rest) := by
  intro i hi
  rw [getElem?_readBuffer hn hi, List.getElem?_append_left (by omega)]

/-- `parser` says what the parser finds in the bytes read. -/
def Current (file old : List Byte) (n : Nat) (parser : Option ParsedFrame) : Prop :=
  ∀ frame, parser = some frame ↔ Parsed (readBuffer file old n) n frame

theorem parseOnce_current {n m : Nat} {parser parser' : Option ParsedFrame} (hnm : n ≤ m)
    (hm : m ≤ file.length) (h : Current file old n parser)
    (hp : parseOnce file old m parser = some parser') : Current file old m parser' := by
  intro frame
  cases parser with
  | some fr =>
    cases hp
    have hfr := ((h fr).1 rfl).more (agree_readBuffer hnm hm) hnm
    constructor
    · rintro ⟨⟩
      exact hfr
    · intro hframe
      unfold Parsed at hfr hframe
      rw [hfr] at hframe
      cases fr
      cases frame
      cases hframe
      rfl
  | none =>
    rw [parseOnce] at hp
    unfold Parsed
    split at hp
    case h_1 width height apps hfound =>
      cases hp
      rw [hfound]
      cases frame
      simp
    case h_2 hwrong =>
      cases hp
      rw [hwrong]
      simp
    case h_3 => cases hp

structure LoadInv (file old : List Byte) (st : ReadSt) : Prop where
  count_le : st.bufferCount ≤ file.length
  feof : st.feof → st.bufferCount = file.length
  current : Current file old st.bufferCount st.parser

theorem loadInv_start : LoadInv file old readStart where
  count_le := Nat.zero_le _
  feof h := nomatch h
  current frame := by
    -- in no bytes nothing is found
    have hwrong : parsingJPEG (readBuffer file old 0) 0 = some (.wrong []) := rfl
    unfold Parsed
    rw [readStart, hwrong]
    simp

theorem bufferCount_le (ready : Nat → Bool) (h : LoadInv file old s) :
    s.bufferCount + freadSize file ready s ≤ file.length := by
  have := h.count_le
  unfold freadSize
  split <;> omega

theorem loadBody_next (h : LoadInv file old s) (hb : loadBody file old ready limit s = .next s') :
    LoadInv file old s' := by
  unfold loadBody at hb
  split at hb
  · cases hb
  · dsimp only at hb
    split at hb
    · cases hb
    · rename_i parser hparse
      split at hb
      · cases hb
      · cases hb
        have hcount := bufferCount_le ready h
        refine ⟨hcount, fun hfeof => ?_,
          parseOnce_current (Nat.le_add_right _ _) hcount h.current hparse⟩
        simp only [Bool.and_eq_true, decide_eq_true_eq] at hfeof
        obtain ⟨hready, hshort⟩ := hfeof
        unfold freadSize at hshort hcount ⊢
        rw [if_pos hready] at hshort hcount ⊢
        dsimp only
        omega

theorem loadBody_done {count : Nat} {parser : Option ParsedFrame} (h : LoadInv file old s)
    (hb : loadBody file old ready limit s = .done (.read count parser)) :
    count = file.length ∧ Current file old count parser := by
  unfold loadBody at hb
  split at hb
  case isTrue hend =>
    cases hb
    exact ⟨h.feof hend, h.current⟩
  case isFalse =>
    dsimp only at hb
    split at hb
    · cases hb
    · split at hb <;> cases hb

theorem load_ends {count : Nat} {parser : Option ParsedFrame}
    (h : Ends (loadBody file old ready limit) readStart (.read count parser)) :
    count = file.length ∧ Current file old count parser := by
  obtain ⟨s, hs, hb⟩ := h.rule (fun _ _ => loadBody_next) loadInv_start
  exact loadBody_done hs hb

theorem LoadInv.found {frame : ParsedFrame} (h : LoadInv file old s)
    (hparse : parseOnce file old (s.bufferCount + freadSize file ready s) s.parser =
      some (some frame)) (rest : List Byte) : Parsed (file ++ rest) file.length frame := by
  have hcount := bufferCount_le ready h
  have hcur := parseOnce_current (Nat.le_add_right _ _) hcount h.current hparse
  exact ((hcur frame).1 rfl).more (agree_file hcount rest) hcount

theorem parsed_file_iff {frame : ParsedFrame} (rest : List Byte) :
    Parsed (readBuffer file old file.length) file.length frame ↔
      Parsed (file ++ rest) file.length frame := by
  have hagree : Agree file.length (readBuffer file old file.length) (file ++ rest) :=
    agree_file (Nat.le_refl _) rest
  constructor
  · intro h
    exact h.more hagree (Nat.le_refl _)
  · intro h
    exact h.more (fun i hi => (hagree i hi).symm) (Nat.le_refl _)

end Reading

/-- **More data changes nothing.** What `ParsingJPEG` finds in the first `n` bytes it
finds whatever follows them and however many bytes it is given. What a reading loop
takes from it, in any pass, is the result for the whole file, and a loop that comes to
the end has that result. -/
theorem parsingJPEG_more_data :
    (∀ (Buffer Buffer' : List Byte) (n m width height : Nat) (apps : List AppMarker), n ≤ m →
      Buffer'.take n = Buffer.take n →
      parsingJPEG Buffer n = some (.found width height apps) →
      parsingJPEG Buffer' m = some (.found width height apps)) ∧
    ∀ (l : ParsingLoop) (file old : List Byte) (ready : Nat → Bool),
      (∀ k st frame, after (l.body file old ready) readStart k = some st →
        parseOnce file old (st.bufferCount + freadSize file ready st) st.parser =
          some (some frame) →
        ∀ rest, parsingJPEG (file ++ rest) file.length =
          some (.found frame.width frame.height frame.apps)) ∧
      ∀ count parser, Ends (l.body file old ready) readStart (.read count parser) →
        count = file.length ∧ ∀ rest frame, parser = some frame ↔
          parsingJPEG (file ++ rest) file.length =
            some (.found frame.width frame.height frame.apps) := by
  constructor
  · intro Buffer Buffer' n m width height apps hnm htake h
    have hagree : Agree n Buffer Buffer' := by
      intro i hi
      rw [← List.getElem?_take_of_lt hi, htake, List.getElem?_take_of_lt hi]
    have hparsed : Parsed Buffer n ⟨width, height, apps⟩ := h
    exact hparsed.more hagree hnm
  intro l file old ready
  obtain ⟨limit, hbody⟩ := l.body_eq file old ready
  rw [hbody]
  constructor
  · intro k st frame hst hparse rest
    have hinv : LoadInv file old st := after_rule (fun _ _ => loadBody_next) loadInv_start hst
    exact hinv.found hparse rest
  · intro count parser hends
    obtain ⟨rfl, hcur⟩ := load_ends hends
    exact ⟨rfl, fun rest frame => (hcur frame).trans (parsed_file_iff rest)⟩

/-- The comment file, cut behind its frame header and with a scan to come. -/
theorem parsingJPEG_comment_more :
    parsingJPEG commentFile 17 = some (.found 16 16 [⟨2, 6⟩]) ∧
      parsingJPEG (commentFile ++ [0x01, 0x11, 0xFF, 0xC0, 0xFF]) 22 =
        some (.found 16 16 [⟨2, 6⟩]) := by
  have h : parsingJPEG commentFile 17 = some (.found 16 16 [⟨2, 6⟩]) := rfl
  exact ⟨h, parsingJPEG_more_data.1 commentFile _ 17 22 16 16 _ (by omega) rfl h⟩

end N32905.JpegCodec
