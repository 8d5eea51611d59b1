import N32905.JpegCodec.Parsing
import N32905.JpegCodec.Write2File
import N32905.Lib.Memory

/-!
# `jpeg_resize`

The function reads a JPEG file into the buffer of the engine, decodes it behind the
file, copies the decoded image over the file and encodes it, scaled, behind that.
With the application-marker option the APPn and COM segments of the file are kept
aside and put in front of the new bitstream: the space for them is reserved behind
the image, rounded up to 4 bytes, and the last two bytes of the segments replace
the `FF D8` of the bitstream.

The engine is a parameter. Sizes are numbers: the buffer is below 2^31 bytes. The
questions to the user that only set the scaling are left out.
-/

namespace N32905.JpegCodec

open N32905.Lib

/-! ## Reading the file -/

structure ParsedFrame where
  width : Nat
  height : Nat
  apps : List AppMarker

/-- The reading loop: the bytes read, the passes made, `feof` and `parser` with the
results of the parser. -/
structure ReadSt where
  bufferCount : Nat
  passes : Nat
  feof : Bool
  parser : Option ParsedFrame

/-- How the loop ends: at the end of the file, with a file that is too large, or with
an access outside an array in `ParsingJPEG`. -/
inductive ReadEnd where
  | read (bufferCount : Nat) (parser : Option ParsedFrame)
  | tooLarge
  | outside

section Read
variable (file old : List Byte) (ready : Nat → Bool)

/-- `pJpegBuffer` after `n` bytes of the file; `old` is what it held before. -/
def readBuffer (n : Nat) : List Byte := file.take n ++ old.drop n

/-- The parser is called until it succeeds; `none` is an access outside an array. -/
def parseOnce (n : Nat) : Option ParsedFrame → Option (Option ParsedFrame)
  | some frame => some (some frame)
  | none =>
    match parsingJPEG (readBuffer file old n) n with
    | some (.found width height apps) => some (some ⟨width, height, apps⟩)
    | some (.wrong _) => some none
    | _ => none

/-- What a pass reads; `ready` says in which passes `select` lets it. -/
def freadSize (st : ReadSt) : Nat :=
  if ready st.passes then min 4096 (file.length - st.bufferCount) else 0

/-- One pass. A short read sets `feof`. -/
def readBody (st : ReadSt) : Step ReadSt ReadEnd :=
  if st.feof then .done (.read st.bufferCount st.parser)
  else
    let readSize := freadSize file ready st
    let feof := ready st.passes && readSize < 4096
    let bufferCount := st.bufferCount + readSize
    match parseOnce file old bufferCount st.parser with
    | none => .done .outside
    | some parser =>
      if bufferCount > old.length then .done .tooLarge
      else .next ⟨bufferCount, st.passes + 1, feof, parser⟩

def readStart : ReadSt := ⟨0, 0, false, none⟩

end Read

/-! ## Decoding and encoding -/

/-- The engine's buffer and the `malloc`ed copy of the segments. -/
inductive ResizeArray
  | jpegBuffer | appInfo
  deriving DecidableEq

abbrev ResizeMem := Memory ResizeArray

/-- The memory after the file has been read. -/
def readMem (file old : List Byte) : ResizeMem where
  bytes a i :=
    match a with
    | .jpegBuffer => (readBuffer file old file.length).getD i 0
    | .appInfo => 0
  stores := []

/-- The JPEG engine, given the size of its source buffer: it delivers the memory and
`image_size[0]`, or fails. A decoder leaves its source, an encoder a bitstream with
a start marker behind the source, and neither touches the program's own memory. -/
structure Engine where
  decode : Nat → ResizeMem → Option (ResizeMem × Nat)
  encode : Nat → ResizeMem → Option (ResizeMem × Nat)
  decode_source : ∀ {src m m' size}, decode src m = some (m', size) →
    m'.load .jpegBuffer 0 src = m.load .jpegBuffer 0 src
  encode_appInfo : ∀ {src m m' size}, encode src m = some (m', size) →
    ∀ off n, m'.load .appInfo off n = m.load .appInfo off n
  encode_soi : ∀ {src m m' size}, encode src m = some (m', size) →
    2 ≤ size ∧ m'.load .jpegBuffer src 2 = [0xFF, 0xD8]

def roundUp4 (n : Nat) : Nat := if n % 4 ≠ 0 then n / 4 * 4 + 4 else n

def appTotalSize (apps : List AppMarker) : Nat := (apps.map AppMarker.size).sum

/-- The loop that collects the segments in `AppInfo`. -/
def collectApps (apps : List AppMarker) (m : ResizeMem) : ResizeMem :=
  (apps.foldl (fun (m, offset) a =>
    (m.store .appInfo offset (m.load .jpegBuffer a.offset a.size), offset + a.size)) (m, 0)).1

/-- The memory, `src_bufsize`, `image_size[0]` and `AppTotalSize` behind the encoder. -/
structure Encoded where
  m : ResizeMem
  src_bufsize : Nat
  image_size : Nat
  appTotalSize : Nat

/-- From the read file to the new bitstream. `none` is a call of the engine that
failed. -/
def resizeEncode (engine : Engine) (appOption : Bool) (apps : List AppMarker) (bufferCount : Nat)
    (m : ResizeMem) : Option Encoded := do
  let src_bufsize := roundUp4 bufferCount
  let (m, image_size) ← engine.decode src_bufsize m
  let AppTotalSize := if appOption then appTotalSize apps else 0
  let ReservedAppOffset := roundUp4 AppTotalSize
  let m := if appOption then collectApps apps m else m
  let m := m.store .jpegBuffer 0 (m.load .jpegBuffer src_bufsize image_size)
  let enc_source_datasize := if appOption then image_size + ReservedAppOffset else image_size
  let (m, image_size) ← engine.encode enc_source_datasize m
  return ⟨m, enc_source_datasize, image_size, AppTotalSize⟩

/-- The memory, and the offset and length given to `Write2File`. -/
def resizeSplice (appOption : Bool) (e : Encoded) : ResizeMem × Nat × Nat :=
  if appOption then
    let src_bufsize : Int := e.src_bufsize - ((e.appTotalSize : Int) - 2)
    let m := e.m.store .jpegBuffer src_bufsize.toNat (e.m.load .appInfo 0 e.appTotalSize)
    let m := m.store .jpegBuffer (src_bufsize - 2).toNat [0xFF, 0xD8]
    (m, (src_bufsize - 2).toNat, e.image_size + e.appTotalSize - 2)
  else (e.m, e.src_bufsize, e.image_size)

/-! ## The segments -/

section Segments
variable {file old : List Byte} {ready : Nat → Bool} {count : Nat} {frame : ParsedFrame}

def InFile (file : List Byte) (parser : Option ParsedFrame) : Prop :=
  ∀ fr ∈ parser, ∀ a ∈ fr.apps, a.offset + a.size ≤ file.length

theorem parseOnce_inFile {parser parser' : Option ParsedFrame} (hcount : count ≤ file.length)
    (hparser : InFile file parser) (h : parseOnce file old count parser = some parser') :
    InFile file parser' := by
  cases parser with
  | some fr =>
    cases h
    exact hparser
  | none =>
    rw [parseOnce] at h
    split at h
    case h_1 width height apps hp =>
      cases h
      rintro _ ⟨⟩ a ha
      exact Nat.le_trans (parsingJPEG_apps_le hp a ha) hcount
    case h_2 =>
      cases h
      exact fun _ hfr => nomatch hfr
    case h_3 => cases h

structure ReadInv (file : List Byte) (st : ReadSt) : Prop where
  count_le : st.bufferCount ≤ file.length
  feof : st.feof → st.bufferCount = file.length
  parser : InFile file st.parser

theorem readBody_next {s s' : ReadSt} (h : ReadInv file s)
    (hb : readBody file old ready s = .next s') : ReadInv file s' := by
  unfold readBody at hb
  split at hb
  · cases hb
  · dsimp only at hb
    split at hb
    · cases hb
    · rename_i parser hparse
      split at hb
      · cases hb
      · cases hb
        have hle := h.count_le
        have hcount : s.bufferCount + freadSize file ready s ≤ file.length := by
          unfold freadSize
          split <;> omega
        refine ⟨hcount, fun hfeof => ?_, parseOnce_inFile hcount h.parser hparse⟩
        simp only [Bool.and_eq_true, decide_eq_true_eq] at hfeof
        obtain ⟨hready, hshort⟩ := hfeof
        unfold freadSize at hshort ⊢
        rw [if_pos hready] at hshort ⊢
        dsimp only
        omega

theorem readBody_done {s : ReadSt} (h : ReadInv file s)
    (hb : readBody file old ready s = .done (.read count (some frame))) :
    count = file.length ∧ InFile file (some frame) := by
  unfold readBody at hb
  split at hb
  case isTrue hend =>
    injection hb with hb
    injection hb with hcount hparser
    rw [← hcount, ← hparser]
    exact ⟨h.feof hend, h.parser⟩
  case isFalse =>
    dsimp only at hb
    split at hb
    · cases hb
    · split at hb <;> cases hb

/-- The loop reads the whole file, and the table it leaves has segments of the file. -/
theorem read_ends (h : Ends (readBody file old ready) readStart (.read count (some frame))) :
    count = file.length ∧ InFile file (some frame) := by
  have hstart : ReadInv file readStart :=
    ⟨Nat.zero_le _, (fun hf => nomatch hf), (fun _ hfr => nomatch hfr)⟩
  obtain ⟨s, hs, hb⟩ := h.rule (fun s s' hs hb => readBody_next hs hb) hstart
  exact readBody_done hs hb

end Segments

/-! ## Collecting and splicing -/

section Splice
variable {m m' : ResizeMem}

/-- The segments of `apps` in the engine's buffer, one after the other. -/
def segments (m : ResizeMem) (apps : List AppMarker) : List Byte :=
  apps.flatMap fun a => m.load .jpegBuffer a.offset a.size

theorem load_jpegBuffer_appInfo (off k n : Nat) (data : List Byte) :
    (m.store .appInfo off data).load .jpegBuffer k n = m.load .jpegBuffer k n :=
  Memory.load_store_of_ne (.inl (by decide))

/-- The loop from `offset` on: the bytes before it stay, the segments follow. -/
theorem collect_loop (apps : List AppMarker) (m : ResizeMem) (offset : Nat) :
    let r := (apps.foldl (fun (m, offset) a =>
      (m.store .appInfo offset (m.load .jpegBuffer a.offset a.size), offset + a.size)) (m, offset)).1
    r.load .appInfo 0 (offset + appTotalSize apps) = m.load .appInfo 0 offset ++ segments m apps := by
  induction apps generalizing m offset with
  | nil => exact (List.append_nil _).symm
  | cons a apps ih =>
    have hseg : segments (m.store .appInfo offset (m.load .jpegBuffer a.offset a.size)) apps =
        segments m apps := by
      unfold segments
      simp only [load_jpegBuffer_appInfo]
    have hsize : offset + appTotalSize (a :: apps) = offset + a.size + appTotalSize apps := by
      unfold appTotalSize
      rw [List.map_cons, List.sum_cons, Nat.add_assoc]
    have hfirst : (m.store .appInfo offset (m.load .jpegBuffer a.offset a.size)).load .appInfo 0
        (offset + a.size) = m.load .appInfo 0 offset ++ m.load .jpegBuffer a.offset a.size := by
      rw [Memory.load_add, Nat.zero_add, Memory.load_store_self (by simp),
        Memory.load_store_of_ne (.inr (.inl (by omega)))]
    intro r
    rw [hsize]
    refine (ih _ (offset + a.size)).trans ?_
    rw [hfirst, hseg, List.append_assoc]
    rfl

theorem collectApps_load (apps : List AppMarker) (m : ResizeMem) :
    (collectApps apps m).load .appInfo 0 (appTotalSize apps) = segments m apps := by
  have h := collect_loop apps m 0
  rw [Nat.zero_add] at h
  exact h

theorem le_roundUp4 (n : Nat) : n ≤ roundUp4 n := by
  unfold roundUp4
  split <;> omega

theorem segments_file {file : List Byte} {apps : List AppMarker} (hfile :
    m.load .jpegBuffer 0 file.length = file) (happs : ∀ a ∈ apps, a.offset + a.size ≤ file.length) :
    segments m apps = apps.flatMap fun a => (file.drop a.offset).take a.size := by
  unfold segments
  apply List.flatMap_congr
  intro a ha
  rw [← Nat.zero_add a.offset, ← m.drop_take_load .jpegBuffer 0 (happs a ha), hfile, Nat.zero_add]

theorem load_readMem (file old : List Byte) :
    (readMem file old).load .jpegBuffer 0 file.length = file := by
  apply List.ext_getElem
  · simp
  · intro i hi hi'
    simp [Memory.load, readMem, readBuffer, List.getElem?_append_left hi', hi']

/-- What the encoder leaves with the marker option: the segments of the file in
`AppInfo`, and the bitstream behind enough space for them. -/
theorem resizeEncode_app {engine : Engine} {file old : List Byte} {apps : List AppMarker}
    {e : Encoded} (happs : ∀ a ∈ apps, a.offset + a.size ≤ file.length)
    (h : resizeEncode engine true apps file.length (readMem file old) = some e) :
    e.appTotalSize = appTotalSize apps ∧ e.appTotalSize ≤ e.src_bufsize ∧ 2 ≤ e.image_size ∧
      e.m.load .appInfo 0 e.appTotalSize =
        apps.flatMap (fun a => (file.drop a.offset).take a.size) := by
  obtain ⟨⟨m₁, size⟩, hdec, h⟩ := Option.bind_eq_some_iff.1 h
  obtain ⟨⟨m₂, size'⟩, henc, h⟩ := Option.bind_eq_some_iff.1 h
  cases h
  have hle := le_roundUp4 (appTotalSize apps)
  refine ⟨rfl, ?_, (engine.encode_soi henc).1, ?_⟩
  · change appTotalSize apps ≤ size + roundUp4 (appTotalSize apps)
    omega
  · have hsource := engine.decode_source hdec
    have hfile : m₁.load .jpegBuffer 0 file.length = file := by
      have hpre := le_roundUp4 file.length
      rw [← m₁.take_load .jpegBuffer 0 hpre, hsource, Memory.take_load _ _ _ hpre, load_readMem]
    refine (engine.encode_appInfo henc 0 _).trans ?_
    refine (Memory.load_store_of_ne (.inl (by decide))).trans ?_
    exact (collectApps_load apps m₁).trans (segments_file hfile happs)

theorem resizeSplice_app {e : Encoded} (hsrc : e.appTotalSize ≤ e.src_bufsize) :
    resizeSplice true e =
      ((e.m.store .jpegBuffer (e.src_bufsize - e.appTotalSize + 2)
          (e.m.load .appInfo 0 e.appTotalSize)).store .jpegBuffer (e.src_bufsize - e.appTotalSize)
          [0xFF, 0xD8],
        e.src_bufsize - e.appTotalSize, e.image_size + e.appTotalSize - 2) := by
  have hstart : ((e.src_bufsize : Int) - ((e.appTotalSize : Int) - 2) - 2).toNat =
      e.src_bufsize - e.appTotalSize := by omega
  have happ : ((e.src_bufsize : Int) - ((e.appTotalSize : Int) - 2)).toNat =
      e.src_bufsize - e.appTotalSize + 2 := by omega
  unfold resizeSplice
  rw [if_pos rfl]
  dsimp only
  rw [hstart, happ]

theorem resizeSplice_load {e : Encoded} (hsrc : e.appTotalSize ≤ e.src_bufsize)
    (hsize : 2 ≤ e.image_size) :
    (resizeSplice true e).1.load .jpegBuffer (resizeSplice true e).2.1
        (2 + e.appTotalSize + (e.image_size - 2)) =
      [0xFF, 0xD8] ++ e.m.load .appInfo 0 e.appTotalSize ++
        (e.m.load .jpegBuffer e.src_bufsize e.image_size).drop 2 := by
  have hrest : (e.m.load .jpegBuffer e.src_bufsize e.image_size).drop 2 =
      e.m.load .jpegBuffer (e.src_bufsize + 2) (e.image_size - 2) := by
    rw [← e.m.drop_take_load .jpegBuffer e.src_bufsize (show 2 + (e.image_size - 2) ≤ e.image_size
      by omega), List.take_of_length_le (by simp)]
  have hlen := e.m.length_load .appInfo 0 e.appTotalSize
  rw [hrest, resizeSplice_app hsrc]
  dsimp only
  rw [Memory.load_add, Memory.load_add]
  -- start marker, segments, and what the segments leave of the bitstream
  congr 1
  · congr 1
    · exact Memory.load_store_self rfl
    · rw [Memory.load_store_of_ne (.inr (.inr (by simp)))]
      exact Memory.load_store_self hlen.symm
  · rw [Memory.load_store_of_ne (.inr (.inr (by simp))),
      Memory.load_store_of_ne (.inr (.inr (by omega)))]
    congr 1
    omega

end Splice

/-- What the file should be: a start marker, the segments of the source and the new
bitstream without its own start marker. -/
def resizedFile (file : List Byte) (apps : List AppMarker) (e : Encoded) : List Byte :=
  [0xFF, 0xD8] ++ apps.flatMap (fun a => (file.drop a.offset).take a.size) ++
    (e.m.load .jpegBuffer e.src_bufsize e.image_size).drop 2

/-- The call of `Write2File` at the end of `jpeg_resize`. -/
def ResizeRequest (e : Encoded) (q : WriteRequest) : Prop :=
  q.len.toNat = (resizeSplice true e).2.2 ∧
    q.buffer = (resizeSplice true e).1.load .jpegBuffer (resizeSplice true e).2.1
      (resizeSplice true e).2.2

/-- The bytes given to `Write2File` are all but the last two of the right file. -/
theorem ResizeRequest.buffer_eq {file old : List Byte} {engine : Engine} {apps : List AppMarker}
    {e : Encoded} {q : WriteRequest} (hq : ResizeRequest e q)
    (happs : ∀ a ∈ apps, a.offset + a.size ≤ file.length)
    (henc : resizeEncode engine true apps file.length (readMem file old) = some e) :
    2 ≤ (resizedFile file apps e).length ∧ q.buffer.take q.len.toNat =
      (resizedFile file apps e).take ((resizedFile file apps e).length - 2) := by
  obtain ⟨-, hsrc, hsize, happ⟩ := resizeEncode_app happs henc
  have hfull : (resizeSplice true e).1.load .jpegBuffer (resizeSplice true e).2.1
      (2 + e.appTotalSize + (e.image_size - 2)) = resizedFile file apps e := by
    rw [resizeSplice_load hsrc hsize, happ]
    rfl
  have hlength : (resizedFile file apps e).length = e.image_size + e.appTotalSize := by
    rw [← hfull, Memory.length_load]
    omega
  have hlen : (resizeSplice true e).2.2 = e.image_size + e.appTotalSize - 2 := rfl
  refine ⟨by omega, ?_⟩
  rw [hq.1, hq.2, hlen, hlength, ← hfull, List.take_of_length_le (by simp),
    Memory.take_load _ _ _ (by omega)]

/-- **The last two bytes are missing.** With the marker option the file `jpeg_resize`
writes stops two bytes before its end, and is never the right one. -/
theorem jpeg_resize_cuts_two_bytes (file old : List Byte) (ready : Nat → Bool) (engine : Engine)
    (count : Nat) (frame : ParsedFrame) (e : Encoded) (q : WriteRequest)
    (hread : Ends (readBody file old ready) readStart (.read count (some frame)))
    (henc : resizeEncode engine true frame.apps count (readMem file old) = some e)
    (hq : ResizeRequest e q) :
    (∀ env ret written, NoFailure env q.len.toNat → write2File q true env ret written →
      written = some ((resizedFile file frame.apps e).take
        ((resizedFile file frame.apps e).length - 2))) ∧
    ¬ ∀ env ret written, write2File q true env ret written →
      written = some (resizedFile file frame.apps e) := by
  obtain ⟨rfl, happs⟩ := read_ends hread
  obtain ⟨hsize, hbuffer⟩ := hq.buffer_eq (happs frame rfl) henc
  have hcut : ∀ env ret written, NoFailure env q.len.toNat → write2File q true env ret written →
      written = some ((resizedFile file frame.apps e).take
        ((resizedFile file frame.apps e).length - 2)) := by
    intro env ret written hno hwrite
    rw [write2FileLoop_file hno hwrite, hbuffer]
  refine ⟨hcut, fun hall => ?_⟩
  -- a run in which every call writes at least a byte
  have hno : NoFailure (fun _ => some 0) q.len.toNat := fun _ _ => Option.some_ne_none 0
  have hrun : write2File q true (fun _ => some 0) 0 (some (q.buffer.take q.len.toNat)) :=
    ⟨_, rfl, sound_start.ends hno⟩
  have heq := Option.some.inj ((hcut _ _ _ hno hrun).symm.trans (hall _ _ _ hrun))
  have := congrArg List.length heq
  rw [List.length_take] at this
  omega

/-- A file of 16 x 16 pixels with one comment. -/
def commentFile : List Byte :=
  [0xFF, 0xD8, 0xFF, 0xFE, 0x00, 0x04, 0x41, 0x42, 0xFF, 0xC0, 0x00, 0x0B, 0x08, 0x00, 0x10, 0x00,
    0x10]

def commentFrame : ParsedFrame := ⟨16, 16, [⟨2, 6⟩]⟩

/-- An engine that decodes to a black picture and encodes to the shortest bitstream. -/
def blackEngine : Engine where
  decode src m := some (m.store .jpegBuffer src (List.replicate 512 0), 512)
  encode src m := some (m.store .jpegBuffer src [0xFF, 0xD8, 0xFF, 0xD9], 4)
  decode_source := by
    rintro src m _ _ ⟨⟩
    exact Memory.load_store_of_ne (.inr (.inl (by omega)))
  encode_appInfo := by
    rintro src m _ _ ⟨⟩ off n
    exact Memory.load_store_of_ne (.inl (by decide))
  encode_soi := by
    rintro src m _ _ ⟨⟩
    have hall : (m.store .jpegBuffer src [0xFF, 0xD8, 0xFF, 0xD9]).load .jpegBuffer src 4 =
        [0xFF, 0xD8, 0xFF, 0xD9] := Memory.load_store_self rfl
    refine ⟨by decide, ?_⟩
    rw [← Memory.take_load _ _ _ (show 2 ≤ 4 by decide), hall]
    rfl

def commentRequest : WriteRequest :=
  ⟨[0xFF, 0xD8, 0xFF, 0xFE, 0x00, 0x04, 0x41, 0x42], 8, by decide, by decide⟩

theorem comment_read (old : List Byte) (hold : 17 ≤ old.length) :
    Ends (readBody commentFile old fun _ => true) readStart (.read 17 (some commentFrame)) := by
  have hparse : parseOnce commentFile old 17 none = some (some commentFrame) := rfl
  have hfirst : readBody commentFile old (fun _ => true) readStart =
      .next ⟨17, 1, true, some commentFrame⟩ := by
    have hbody : readBody commentFile old (fun _ => true) readStart =
        match parseOnce commentFile old 17 none with
        | none => .done .outside
        | some parser => if 17 > old.length then .done .tooLarge else .next ⟨17, 1, true, parser⟩ := rfl
    rw [hbody, hparse]
    exact if_neg (Nat.not_lt.2 hold)
  rw [ends_next hfirst]
  exact ⟨1, rfl⟩

def emptyBuffer : List Byte := List.replicate 1024 0

theorem emptyBuffer_fits : 17 ≤ emptyBuffer.length := by
  unfold emptyBuffer
  rw [List.length_replicate]
  omega

/-- Behind the encoder: 512 bytes of picture, 8 reserved, the bitstream. -/
def commentEncoded : Encoded :=
  (resizeEncode blackEngine true commentFrame.apps 17 (readMem commentFile emptyBuffer)).get rfl

/-- The segments end 2 bytes behind the reserved space, and 8 bytes are written. -/
theorem comment_request : ResizeRequest commentEncoded commentRequest := ⟨rfl, rfl⟩

theorem comment_write : write2File commentRequest true (fun _ => some 100) 0
    (some commentRequest.buffer) := ⟨_, rfl, 2, rfl⟩

theorem comment_resized :
    (∀ env ret written, NoFailure env 8 → write2File commentRequest true env ret written →
      written = some ((resizedFile commentFile commentFrame.apps commentEncoded).take
        ((resizedFile commentFile commentFrame.apps commentEncoded).length - 2))) ∧
    ¬ ∀ env ret written, write2File commentRequest true env ret written →
      written = some (resizedFile commentFile commentFrame.apps commentEncoded) :=
  jpeg_resize_cuts_two_bytes commentFile emptyBuffer (fun _ => true) blackEngine 17 commentFrame
    commentEncoded commentRequest (comment_read emptyBuffer emptyBuffer_fits) rfl comment_request

/-- The end marker of the bitstream does not reach the file. -/
theorem comment_loses_end_marker :
    Ends (readBody commentFile emptyBuffer fun _ => true) readStart (.read 17 (some commentFrame)) ∧
    resizeEncode blackEngine true commentFrame.apps 17 (readMem commentFile emptyBuffer) =
      some commentEncoded ∧
    ResizeRequest commentEncoded commentRequest ∧
    write2File commentRequest true (fun _ => some 100) 0
      (some [0xFF, 0xD8, 0xFF, 0xFE, 0x00, 0x04, 0x41, 0x42]) ∧
    resizedFile commentFile commentFrame.apps commentEncoded =
      [0xFF, 0xD8, 0xFF, 0xFE, 0x00, 0x04, 0x41, 0x42, 0xFF, 0xD9] ∧
    ¬ write2File commentRequest true (fun _ => some 100) 0
      (some (resizedFile commentFile commentFrame.apps commentEncoded)) := by
  refine ⟨comment_read emptyBuffer emptyBuffer_fits, rfl, comment_request, comment_write, rfl, ?_⟩
  intro h
  have hfile := write2FileLoop_file (fun _ _ => Option.some_ne_none 100) h
  exact absurd (congrArg (Option.map List.length) hfile) (by decide)

end N32905.JpegCodec
