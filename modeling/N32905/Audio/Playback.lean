import N32905.Lib.Codec
import N32905.Lib.Loop

/-!
# Playing a PCM file

`play_pcm` and `play_pcm_single` of `audio_oss2alsa_demo.c` read a fragment ahead: the
`fread` that comes up short sets `feof` and ends the loop, before the bytes it read
are written. So the device gets the file up to its last whole fragment.
-/

namespace N32905.Audio

open N32905.Lib

/-! ## The model -/

/-- The opened device: the fragment size, and what it answers to the calls of
`SNDCTL_DSP_GETOSPACE` and of `select`, each counted on its own. -/
structure Dsp where
  frag : Nat
  frag_pos : 0 < frag
  /-- `info.bytes`. -/
  bytes : Nat → Int
  /-- `FD_ISSET(p_dsp, &writefds)`. -/
  isset : Nat → Bool
  space_again : ∀ k, ∃ j, k ≤ j ∧ frag ≤ bytes j
  isset_again : ∀ k, ∃ j, k ≤ j ∧ isset j = true

/-- The driver: the rate `SNDCTL_DSP_SPEED` leaves, and the device behind the
`SNDCTL_DSP_SETFRAGMENT`, if there is one. -/
structure Driver where
  speed : Int → Int
  opened : Option (BitVec 32) → Dsp

inductive PlayPos
  | while | getospace | select
  deriving DecidableEq

/-- `rest` is what `fread` has not read yet, `written` the blocks of the calls of `write`. -/
structure PlaySt where
  pos : PlayPos
  polls : Nat
  selects : Nat
  rest : List Byte
  feof : Bool
  buffer : List Byte
  written : List (List Byte)

/-- `fread(buffer, 1, frag, fd)`. -/
def PlaySt.fread (frag : Nat) (st : PlaySt) : PlaySt :=
  { st with
    rest := st.rest.drop frag
    feof := st.feof || decide (st.rest.length < frag)
    buffer := st.rest.take frag ++ st.buffer.drop (st.rest.take frag).length }

/-- `write(p_dsp, buffer, frag)`. -/
def PlaySt.write (st : PlaySt) : PlaySt := { st with written := st.written ++ [st.buffer] }

def playStep (d : Dsp) (st : PlaySt) : Step PlaySt (List (List Byte)) :=
  match st.pos with
  | .while => if st.feof then .done st.written else .next { st with pos := .getospace }
  | .getospace =>
    .next { st with
      polls := st.polls + 1
      pos := if d.bytes st.polls < d.frag then .getospace else .select }
  | .select =>
    let after := { st with selects := st.selects + 1, pos := .while }
    .next (if d.isset st.selects then after.write.fread d.frag else after)

/-- The state at the first `while`; `buffer` is as `malloc` returned it. -/
def playStart (d : Dsp) (file buffer : List Byte) : PlaySt :=
  PlaySt.fread d.frag
    { pos := .while, polls := 0, selects := 0, rest := file, feof := false, buffer := buffer
      written := [] }

/-- What both functions do with the opened device, for at most `fuel` steps: the blocks written. -/
def play (d : Dsp) (file : List Byte) (buffer : List.Vector Byte d.frag) (fuel : Nat) :
    Option (List (List Byte)) :=
  iterate (playStep d) fuel (playStart d file buffer.toList)

/-- `play_pcm` asks for two fragments of 4 or 8 KB. -/
def pcmDsp (drv : Driver) (samplerate : Int) : Dsp :=
  drv.opened (some (if drv.speed samplerate < 96000 then 0x2000c else 0x2000d))

def playPcm (drv : Driver) (samplerate : Int) (file : List Byte)
    (buffer : List.Vector Byte (pcmDsp drv samplerate).frag) : Nat → Option (List (List Byte)) :=
  play (pcmDsp drv samplerate) file buffer

/-- `play_pcm_single` takes the fragments as they are. -/
def singleDsp (drv : Driver) : Dsp := drv.opened none

def playPcmSingle (drv : Driver) (file : List Byte)
    (buffer : List.Vector Byte (singleDsp drv).frag) : Nat → Option (List (List Byte)) :=
  play (singleDsp drv) file buffer

/-! ## One fragment -/

/-- The program is elsewhere and has polled; nothing else has changed. -/
def PlaySt.moved (st : PlaySt) (pos : PlayPos) (polls selects : Nat) : PlaySt :=
  { st with pos := pos, polls := polls, selects := selects }

section Round
variable {d : Dsp} {st : PlaySt}

theorem getospace_leads (d : Dsp) (st : PlaySt) (p q : Nat) :
    ∃ p', Leads (playStep d) (st.moved .getospace p q) (st.moved .select p' q) := by
  have hstep : ∀ k, playStep d (st.moved .getospace k q) =
      .next (st.moved (if d.bytes k < d.frag then .getospace else .select) (k + 1) q) :=
    fun k => rfl
  obtain ⟨_, ⟨p', rfl⟩, hleads⟩ := leads_wait (playStep d)
    (fun k s => s = st.moved .getospace k q) (fun k => d.frag ≤ d.bytes k)
    (fun s => ∃ p', s = st.moved .select p' q)
    (by
      rintro k _ rfl hlt
      refine ⟨_, rfl, leads_next ?_⟩
      rw [hstep, if_pos (Int.not_le.1 hlt)])
    (by
      rintro k _ rfl hle
      refine ⟨_, ⟨k + 1, rfl⟩, leads_next ?_⟩
      rw [hstep, if_neg (Int.not_lt.2 hle)])
    (d.space_again p) rfl
  exact ⟨p', hleads⟩

theorem while_leads (d : Dsp) (hfeof : st.feof = false) (p q : Nat) :
    ∃ p', Leads (playStep d) (st.moved .while p q) (st.moved .select p' q) := by
  have hstep : playStep d (st.moved .while p q) = .next (st.moved .getospace p q) := by
    simp [playStep, PlaySt.moved, hfeof]
  obtain ⟨p', hleads⟩ := getospace_leads d st p q
  exact ⟨p', (leads_next hstep).trans hleads⟩

/-- **One fragment**: sooner or later the buffer is written, once, and filled again. -/
theorem round_leads (d : Dsp) (hfeof : st.feof = false) (p q : Nat) :
    ∃ p' q', Leads (playStep d) (st.moved .while p q)
      ((st.moved .while p' q').write.fread d.frag) := by
  obtain ⟨_, ⟨p', q', rfl⟩, hleads⟩ := leads_wait (playStep d)
    (fun k s => ∃ p, s = st.moved .while p k) (fun k => d.isset k = true)
    (fun s => ∃ p' q', s = (st.moved .while p' q').write.fread d.frag)
    (by
      rintro k _ ⟨p, rfl⟩ hset
      obtain ⟨p', hleads⟩ := while_leads d hfeof p k
      refine ⟨_, ⟨p', rfl⟩, hleads.trans (leads_next ?_)⟩
      simp [playStep, PlaySt.moved, hset])
    (by
      rintro k _ ⟨p, rfl⟩ hset
      obtain ⟨p', hleads⟩ := while_leads d hfeof p k
      refine ⟨_, ⟨p', k + 1, rfl⟩, hleads.trans (leads_next ?_)⟩
      simp [playStep, PlaySt.moved, hset])
    (d.isset_again q) ⟨p, rfl⟩
  exact ⟨p', q', hleads⟩

/-! ## The file -/

/-- From an `fread` on, with `m` whole fragments left: these are written and nothing else. -/
theorem fread_ends (st : PlaySt) {m : Nat} (hfeof : st.feof = false)
    (hbuf : st.buffer.length = d.frag) (hm : st.rest.length / d.frag = m) (p q : Nat) :
    ∃ blocks, Ends (playStep d) ((st.moved .while p q).fread d.frag) blocks ∧
      blocks.flatten = st.written.flatten ++ st.rest.take (m * d.frag) := by
  have hpos := d.frag_pos
  induction m generalizing st p q with
  | zero =>
    have hshort : st.rest.length < d.frag := (Nat.div_eq_zero_iff_lt hpos).1 hm
    refine ⟨st.written, (ends_done ?_).2 rfl, by simp⟩
    simp [playStep, PlaySt.fread, PlaySt.moved, hshort]
  | succ m ih =>
    have hlong : d.frag ≤ st.rest.length := by
      by_contra hlt
      rw [Nat.div_eq_of_lt (Nat.lt_of_not_le hlt)] at hm
      cases hm
    -- the buffer is full, and is the next fragment of the file
    have hfull : (st.fread d.frag).buffer = st.rest.take d.frag := by
      simp [PlaySt.fread, Nat.min_eq_left hlong, hbuf]
    have hfeof' : (st.fread d.frag).feof = false := by
      simp [PlaySt.fread, hfeof, hlong]
    obtain ⟨p', q', hleads⟩ := round_leads d hfeof' p q
    have hm' : (st.fread d.frag).write.rest.length / d.frag = m := by
      have hdiv := Nat.div_eq_sub_div hpos hlong
      rw [PlaySt.write, PlaySt.fread, List.length_drop]
      omega
    obtain ⟨blocks, hends, hflat⟩ := ih (st.fread d.frag).write hfeof'
      (by rw [PlaySt.write, hfull, List.length_take, Nat.min_eq_left hlong]) hm' p' q'
    refine ⟨blocks, (hleads blocks).2 hends, ?_⟩
    rw [hflat, PlaySt.write, hfull, List.flatten_append, List.flatten_singleton, List.append_assoc,
      Nat.succ_mul, Nat.add_comm, List.take_add]
    rfl

end Round

/-- The blocks are the file, with padding behind it that does not fill a fragment. -/
def PlaysOnce (frag : Nat) (file : List Byte) (blocks : List (List Byte)) : Prop :=
  ∃ padding : List Byte, padding.length < frag ∧ blocks.flatten = file ++ padding

/-- The file up to its last whole fragment is all of it if that is its end. -/
theorem playsOnce_iff {frag : Nat} (hfrag : 0 < frag) {file : List Byte} {blocks : List (List Byte)}
    (h : blocks.flatten = file.take (file.length / frag * frag)) :
    PlaysOnce frag file blocks ↔ frag ∣ file.length := by
  constructor
  · rintro ⟨padding, -, hplay⟩
    have hlen := congrArg List.length (h.symm.trans hplay)
    rw [List.length_take, List.length_append] at hlen
    have hle := Nat.div_mul_le_self file.length frag
    exact Nat.dvd_of_mod_eq_zero (by have := Nat.div_add_mod' file.length frag; omega)
  · intro hdvd
    refine ⟨[], hfrag, ?_⟩
    rw [h, Nat.div_mul_cancel hdvd, List.take_length, List.append_nil]

/-- The loop ends, and plays the file once if and only if it is made of whole fragments. -/
theorem play_iff (d : Dsp) (file : List Byte) (buffer : List.Vector Byte d.frag) :
    ∃ blocks, (∃ fuel, play d file buffer fuel = some blocks) ∧
      (PlaysOnce d.frag file blocks ↔ d.frag ∣ file.length) := by
  obtain ⟨blocks, hends, hflat⟩ := fread_ends (d := d)
    { pos := .while, polls := 0, selects := 0, rest := file, feof := false
      buffer := buffer.toList, written := [] } rfl buffer.toList_length rfl 0 0
  exact ⟨blocks, hends, playsOnce_iff d.frag_pos hflat⟩

/-- **Playback** ends for every file and every pattern of readiness, and plays the whole file once
exactly if the fragment size divides its length. -/
theorem playback_whole (drv : Driver) (samplerate : Int) (file : List Byte)
    (buffer : List.Vector Byte (pcmDsp drv samplerate).frag)
    (buffer' : List.Vector Byte (singleDsp drv).frag) :
    (∃ blocks, (∃ fuel, playPcm drv samplerate file buffer fuel = some blocks) ∧
      (PlaysOnce (pcmDsp drv samplerate).frag file blocks ↔
        (pcmDsp drv samplerate).frag ∣ file.length)) ∧
    ∃ blocks, (∃ fuel, playPcmSingle drv file buffer' fuel = some blocks) ∧
      (PlaysOnce (singleDsp drv).frag file blocks ↔ (singleDsp drv).frag ∣ file.length) :=
  ⟨play_iff (pcmDsp drv samplerate) file buffer, play_iff (singleDsp drv) file buffer'⟩

def readyDsp : Dsp where
  frag := 4096
  frag_pos := by decide
  bytes _ := 8192
  isset _ := true
  space_again k := ⟨k, Nat.le_refl k, by decide⟩
  isset_again k := ⟨k, Nat.le_refl k, rfl⟩

def readyDriver : Driver where
  speed rate := rate
  opened _ := readyDsp

/-- Of a file of two samples nothing is played. -/
theorem playback_short :
    playPcm readyDriver 44100 [1, 2, 3, 4] (List.Vector.replicate _ 0) 1 = some [] ∧
      playPcmSingle readyDriver [1, 2, 3, 4] (List.Vector.replicate _ 0) 1 = some [] ∧
      ¬ PlaysOnce 4096 [1, 2, 3, 4] [] := by
  refine ⟨rfl, rfl, ?_⟩
  rintro ⟨padding, -, hplay⟩
  cases hplay

end N32905.Audio
