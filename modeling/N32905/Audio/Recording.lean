import Mathlib.Data.Vector.Basic
import N32905.Lib.InPlace
import N32905.Lib.Loop

/-!
# Recording to a file

`record_to_pcm` and `record_to_pcm_adc` of `audio_oss2alsa_demo.c` ask the device for
2048 bytes at a time and write as many as they asked for, whatever `read` returned,
until the bytes asked for are a product that is computed in an `int`.
-/

namespace N32905.Audio

open N32905.Lib

/-! ## The model -/

/-- The opened device: what it leaves of the rate and of the number of channels, and the bytes
its `k`-th `read` of `n` returns; none where `read` fails. -/
structure RecDevice where
  speed : BitVec 32 → BitVec 32
  channels : BitVec 32 → BitVec 32
  read : Nat → Nat → List Byte
  read_le : ∀ k n, (read k n).length ≤ n

/-- `signed short applicbuf[2048]`. -/
def applicbufSize : Nat := 2048 * 2

/-- The calls of `read` so far, the bytes they returned and the bytes written. -/
structure RecordSt where
  calls : Nat
  total : Int
  applicbuf : List Byte
  returned : List Byte
  written : List Byte

/-- The file in the end, and all the bytes the device returned. -/
structure RecordEnd where
  file : List Byte
  returned : List Byte
  deriving DecidableEq

/-- An `int` as the `size_t` of a call. -/
def sizeT (count : Int) : Nat := (BitVec.ofInt 32 count).toNat

/-- `read`, `write` and `total += count`. -/
def RecordSt.transfer (dev : RecDevice) (count : Int) (st : RecordSt) : RecordSt :=
  let data := dev.read st.calls (sizeT count)
  let applicbuf := partly data st.applicbuf
  { calls := st.calls + 1
    total := st.total + count
    applicbuf := applicbuf
    returned := st.returned ++ data
    written := st.written ++ applicbuf.take (sizeT count) }

/-- One pass of the `while` over a file that held `old`. The result `none` is a `read` of more than
the buffer holds. -/
def recordStep (dev : RecDevice) (goal : Int) (old : List Byte) (st : RecordSt) :
    Step RecordSt (Option RecordEnd) :=
  if st.total = goal then
    .done (some { file := partly st.written old, returned := st.returned })
  else
    let count := if 2048 ≤ goal - st.total then 2048 else goal - st.total
    if applicbufSize < sizeT count then .done none else .next (st.transfer dev count)

def recordStart (applicbuf : List.Vector Byte applicbufSize) : RecordSt where
  calls := 0
  total := 0
  applicbuf := applicbuf.toList
  returned := []
  written := []

/-- The `while`, for at most `fuel` passes. -/
def record (dev : RecDevice) (goal : Int) (old : List Byte)
    (applicbuf : List.Vector Byte applicbufSize) (fuel : Nat) : Option (Option RecordEnd) :=
  iterate (recordStep dev goal old) fuel (recordStart applicbuf)

/-- `totalbyte` of `record_to_pcm`. -/
def pcmTotalbyte (dev : RecDevice) (samplerate loop : BitVec 32) : BitVec 32 :=
  dev.speed samplerate * dev.channels 2 * 2 * loop * 2

def pcmTotalword (dev : RecDevice) (samplerate loop : BitVec 32) : Int :=
  (pcmTotalbyte dev samplerate loop).toInt.tdiv 2

/-- `record_to_pcm`, which opens the file without `O_TRUNC`. -/
def recordToPcm (dev : RecDevice) (samplerate loop : BitVec 32) (old : List Byte)
    (applicbuf : List.Vector Byte applicbufSize) : Nat → Option (Option RecordEnd) :=
  record dev (pcmTotalword dev samplerate loop) old applicbuf

/-- `totalbyte` of `record_to_pcm_adc`, with its one channel. -/
def adcTotalbyte (samplerate seconds : BitVec 32) : BitVec 32 :=
  let channels := 1
  samplerate * channels * 2 * seconds

/-- `record_to_pcm_adc`, which empties the file. -/
def recordToPcmAdc (dev : RecDevice) (samplerate seconds : BitVec 32)
    (applicbuf : List.Vector Byte applicbufSize) : Nat → Option (Option RecordEnd) :=
  record dev (adcTotalbyte samplerate seconds).toInt [] applicbuf

/-! ## What is asked for -/

def want (T k : Nat) : Nat := min 2048 (T - 2048 * k)

/-- The call `k` returns what it is asked for. -/
def Full (dev : RecDevice) (T k : Nat) : Prop := (dev.read k (want T k)).length = want T k

/-- Every call does. -/
def Delivers (dev : RecDevice) (T : Nat) : Prop := ∀ k, 2048 * k < T → Full dev T k

theorem sizeT_natCast {n : Nat} (h : n < 2 ^ 32) : sizeT n = n := by
  rw [sizeT, BitVec.ofInt_natCast, BitVec.toNat_ofNat, Nat.mod_eq_of_lt h]

theorem want_le (T k : Nat) : want T k ≤ 2048 := Nat.min_le_left _ _

section Passes
variable {dev : RecDevice} {T : Nat} {old : List Byte} {st : RecordSt}

/-- After a number of calls: all they asked for is written, and it is what they returned if every
one of them was full. -/
structure RecordInv (dev : RecDevice) (T : Nat) (st : RecordSt) : Prop where
  total_eq : st.total = (min (2048 * st.calls) T : Nat)
  asked : ∀ k < st.calls, 2048 * k < T
  applicbuf_length : st.applicbuf.length = applicbufSize
  written_length : st.written.length = min (2048 * st.calls) T
  returned_le : st.returned.length ≤ st.written.length
  of_full : (∀ k < st.calls, Full dev T k) → st.returned = st.written
  full_of : st.returned.length = st.written.length → ∀ k < st.calls, Full dev T k

theorem recordInv_start (applicbuf : List.Vector Byte applicbufSize) :
    RecordInv dev T (recordStart applicbuf) where
  total_eq := by simp [recordStart]
  asked k hk := absurd hk (Nat.not_lt_zero k)
  applicbuf_length := applicbuf.toList_length
  written_length := by simp [recordStart]
  returned_le := Nat.le_refl _
  of_full _ := rfl
  full_of _ k hk := absurd hk (Nat.not_lt_zero k)

theorem recordStep_next (h : RecordInv dev T st) (hlt : 2048 * st.calls < T) :
    recordStep dev T old st = .next (st.transfer dev (want T st.calls)) := by
  have htotal := h.total_eq
  have hcount : (if (2048 : Int) ≤ T - st.total then 2048 else T - st.total) =
      (want T st.calls : Int) := by
    unfold want
    split <;> omega
  have hsize : ¬ applicbufSize < sizeT (want T st.calls : Int) := by
    have := want_le T st.calls
    rw [sizeT_natCast (by omega), applicbufSize]
    omega
  rw [recordStep, if_neg (by omega)]
  simp only [hcount, if_neg hsize]

/-- **One pass** keeps the invariant. -/
theorem RecordInv.transfer (h : RecordInv dev T st) (hlt : 2048 * st.calls < T) :
    RecordInv dev T (st.transfer dev (want T st.calls)) := by
  have hle := want_le T st.calls
  have hdata := dev.read_le st.calls (want T st.calls)
  have htotal := h.total_eq
  have hwritten := h.written_length
  have hreturned := h.returned_le
  have hwant : min (2048 * (st.calls + 1)) T = min (2048 * st.calls) T + want T st.calls := by
    unfold want
    omega
  have hbuf : (partly (dev.read st.calls (want T st.calls)) st.applicbuf).length = applicbufSize := by
    rw [partly_length (by rw [h.applicbuf_length, applicbufSize]; omega), h.applicbuf_length]
  have htake : ((partly (dev.read st.calls (want T st.calls)) st.applicbuf).take
      (want T st.calls)).length = want T st.calls := by
    rw [List.length_take, hbuf, applicbufSize]
    omega
  have hsize := sizeT_natCast (n := want T st.calls) (by omega)
  constructor <;> simp only [RecordSt.transfer, hsize]
  case total_eq => omega
  case asked =>
    intro k hk
    omega
  case applicbuf_length => exact hbuf
  case written_length => rw [List.length_append, htake, hwritten, hwant]
  case returned_le =>
    rw [List.length_append, List.length_append, htake]
    omega
  case of_full =>
    intro hfull
    have hnow : (dev.read st.calls (want T st.calls)).length = want T st.calls :=
      hfull _ (Nat.lt_succ_self _)
    rw [h.of_full fun k hk => hfull k (Nat.lt_succ_of_lt hk), partly, List.take_left' hnow]
  case full_of =>
    intro heq k hk
    rw [List.length_append, List.length_append, htake] at heq
    rcases Nat.lt_succ_iff_lt_or_eq.1 hk with hk | rfl
    · exact h.full_of (by omega) k hk
    · rw [Full]
      omega

theorem record_ends (dev : RecDevice) (T : Nat) (old : List Byte)
    (applicbuf : List.Vector Byte applicbufSize) :
    ∃ st, RecordInv dev T st ∧ T ≤ 2048 * st.calls ∧
      Ends (recordStep dev T old) (recordStart applicbuf)
        (some { file := partly st.written old, returned := st.returned }) := by
  have hnext : ∀ s s', RecordInv dev T s → recordStep dev T old s = .next s' →
      RecordInv dev T s' ∧ T - 2048 * s'.calls < T - 2048 * s.calls := by
    intro s s' hs hstep
    have hlt : 2048 * s.calls < T := by
      by_contra hge
      have htotal := hs.total_eq
      rw [recordStep, if_pos (by omega)] at hstep
      cases hstep
    rw [recordStep_next hs hlt] at hstep
    cases hstep
    refine ⟨hs.transfer hlt, ?_⟩
    simp only [RecordSt.transfer]
    omega
  obtain ⟨r, hr⟩ := ends_of_rank hnext (recordInv_start applicbuf)
  obtain ⟨st, hst, hdone⟩ := hr.rule (fun s s' hs hstep => (hnext s s' hs hstep).1)
    (recordInv_start applicbuf)
  have hend : T ≤ 2048 * st.calls := by
    by_contra hlt
    rw [recordStep_next hst (Nat.lt_of_not_le hlt)] at hdone
    cases hdone
  have htotal := hst.total_eq
  rw [recordStep, if_pos (by omega)] at hdone
  cases hdone
  exact ⟨st, hst, hend, hr⟩

end Passes

/-- `bytes` are stored, and the file is what the device returned. -/
def Stores (bytes : Int) (r : Option RecordEnd) : Prop :=
  ∃ e, r = some e ∧ (e.file.length : Int) = bytes ∧ e.file = e.returned

theorem stores_iff {dev : RecDevice} {T : Nat} {old : List Byte} {st : RecordSt} {P : Int}
    (h : RecordInv dev T st) (hend : T ≤ 2048 * st.calls) :
    Stores P (some { file := partly st.written old, returned := st.returned }) ↔
      T = P ∧ old.length ≤ T ∧ Delivers dev T := by
  have hwritten : st.written.length = T := h.written_length.trans (Nat.min_eq_right hend)
  have hlen : (partly st.written old).length = T + (old.length - T) := by
    rw [partly, List.length_append, List.length_drop, hwritten]
  constructor
  · rintro ⟨e, he, hbytes, hfile⟩
    obtain rfl := Option.some.inj he
    simp only at hbytes hfile
    -- the file is no longer than what was returned, and this no longer than what was written
    have hreturned := congrArg List.length hfile
    have hle := h.returned_le
    refine ⟨by omega, by omega, fun k hk => h.full_of (by omega) k (by omega)⟩
  · rintro ⟨rfl, hold, hfull⟩
    refine ⟨_, rfl, by simp only; omega, ?_⟩
    have hdrop : old.drop st.written.length = [] := List.drop_eq_nil_of_le (by omega)
    rw [partly, hdrop, List.append_nil, h.of_full fun k hk => hfull k (h.asked k hk)]

theorem record_negative {dev : RecDevice} {goal : Int} {old : List Byte} (hlo : -2 ^ 31 ≤ goal)
    (hneg : goal < 0) (applicbuf : List.Vector Byte applicbufSize) :
    Ends (recordStep dev goal old) (recordStart applicbuf) none := by
  have hsize : sizeT goal = (goal + 2 ^ 32).toNat := by
    rw [sizeT, BitVec.toNat_ofInt]
    omega
  refine (ends_done ?_).2 rfl
  rw [recordStep, if_neg (by simp only [recordStart]; omega)]
  have hcount : (if 2048 ≤ goal - (recordStart applicbuf).total then 2048
      else goal - (recordStart applicbuf).total) = goal := by
    simp only [recordStart]
    omega
  simp only [hcount]
  rw [if_pos (by rw [hsize, applicbufSize]; omega)]

/-- The loop ends whatever its goal. It stores `P` bytes if that is its goal, no longer file was
there before, and the device delivers. -/
theorem record_iff (dev : RecDevice) (goal : Int) (hlo : -2 ^ 31 ≤ goal) (P : Int)
    (old : List Byte) (applicbuf : List.Vector Byte applicbufSize) :
    ∃ r, (∃ fuel, record dev goal old applicbuf fuel = some r) ∧
      (Stores P r ↔ 0 ≤ goal ∧ goal = P ∧ (old.length : Int) ≤ P ∧ Delivers dev P.toNat) := by
  rcases lt_or_ge goal 0 with hneg | hpos
  · refine ⟨none, record_negative hlo hneg applicbuf, ?_⟩
    constructor
    · rintro ⟨_, h, -⟩
      cases h
    · rintro ⟨h, -⟩
      omega
  · obtain ⟨T, rfl⟩ := Int.eq_ofNat_of_zero_le hpos
    obtain ⟨st, hst, hend, hr⟩ := record_ends dev T old applicbuf
    refine ⟨_, hr, (stores_iff hst hend).trans ?_⟩
    constructor
    · rintro ⟨rfl, hold, hfull⟩
      exact ⟨hpos, rfl, Int.ofNat_le.2 hold, hfull⟩
    · rintro ⟨-, rfl, hold, hfull⟩
      exact ⟨rfl, Int.ofNat_le.1 hold, hfull⟩

/-! ## The products -/

/-- `rate * channels * 2 * seconds` for `record_to_pcm`. -/
def pcmBytes (dev : RecDevice) (samplerate loop : BitVec 32) : Int :=
  (dev.speed samplerate).toInt * (dev.channels 2).toInt * 2 * loop.toInt

/-- `rate * channels * 2 * seconds` for `record_to_pcm_adc`, with one channel. -/
def adcBytes (samplerate seconds : BitVec 32) : Int := samplerate.toInt * 1 * 2 * seconds.toInt

theorem toInt_ofInt_wrap (x : Int) : ∃ q : Int, (BitVec.ofInt 32 x).toInt = x - 2 ^ 32 * q ∧
    -2 ^ 31 ≤ (BitVec.ofInt 32 x).toInt ∧ (BitVec.ofInt 32 x).toInt < 2 ^ 31 := by
  have hsplit : 2 ^ 32 * x.bdiv (2 ^ 32) + x.bmod (2 ^ 32) = x := Int.bdiv_add_bmod x (2 ^ 32)
  refine ⟨x.bdiv (2 ^ 32), ?_, BitVec.le_toInt _, BitVec.toInt_lt⟩
  rw [BitVec.toInt_ofInt]
  omega

theorem pcmTotalword_iff (dev : RecDevice) (samplerate loop : BitVec 32) :
    -2 ^ 31 ≤ pcmTotalword dev samplerate loop ∧
      (0 ≤ pcmTotalword dev samplerate loop ∧
          pcmTotalword dev samplerate loop = pcmBytes dev samplerate loop ↔
        0 ≤ pcmBytes dev samplerate loop ∧ pcmBytes dev samplerate loop < 2 ^ 30) := by
  have hword : pcmTotalbyte dev samplerate loop =
      BitVec.ofInt 32 (pcmBytes dev samplerate loop * 2) := by
    simp [pcmTotalbyte, pcmBytes, BitVec.ofInt_mul]
  obtain ⟨q, hq, hlo, hhi⟩ := toInt_ofInt_wrap (pcmBytes dev samplerate loop * 2)
  rw [← hword] at hq hlo hhi
  have heven : (pcmTotalbyte dev samplerate loop).toInt =
      (pcmBytes dev samplerate loop - 2 ^ 31 * q) * 2 := by
    omega
  have hhalf : pcmTotalword dev samplerate loop = pcmBytes dev samplerate loop - 2 ^ 31 * q := by
    rw [pcmTotalword, heven, Int.mul_tdiv_cancel _ (by decide)]
  omega

theorem adcTotalbyte_iff (samplerate seconds : BitVec 32) :
    0 ≤ (adcTotalbyte samplerate seconds).toInt ∧
        (adcTotalbyte samplerate seconds).toInt = adcBytes samplerate seconds ↔
      0 ≤ adcBytes samplerate seconds ∧ adcBytes samplerate seconds < 2 ^ 31 := by
  have hword : adcTotalbyte samplerate seconds = BitVec.ofInt 32 (adcBytes samplerate seconds) := by
    simp [adcTotalbyte, adcBytes, BitVec.ofInt_mul]
  obtain ⟨q, hq, hlo, hhi⟩ := toInt_ofInt_wrap (adcBytes samplerate seconds)
  rw [← hword] at hq hlo hhi
  omega

/-- **Recording** ends in any case. `record_to_pcm` stores what the device delivered exactly if it
is less than 2^30 bytes and not negative, no longer file was there before, and every `read` is
full; `record_to_pcm_adc` exactly if it is less than 2^31 bytes and not negative, and every `read`
is full. -/
theorem recording_stores (dev : RecDevice) (samplerate seconds : BitVec 32) (old : List Byte)
    (applicbuf : List.Vector Byte applicbufSize) :
    (∃ r, (∃ fuel, recordToPcm dev samplerate seconds old applicbuf fuel = some r) ∧
      (Stores (pcmBytes dev samplerate seconds) r ↔
        0 ≤ pcmBytes dev samplerate seconds ∧ pcmBytes dev samplerate seconds < 2 ^ 30 ∧
        (old.length : Int) ≤ pcmBytes dev samplerate seconds ∧
        Delivers dev (pcmBytes dev samplerate seconds).toNat)) ∧
    ∃ r, (∃ fuel, recordToPcmAdc dev samplerate seconds applicbuf fuel = some r) ∧
      (Stores (adcBytes samplerate seconds) r ↔
        0 ≤ adcBytes samplerate seconds ∧ adcBytes samplerate seconds < 2 ^ 31 ∧
        Delivers dev (adcBytes samplerate seconds).toNat) := by
  constructor
  · obtain ⟨hlo, hfits⟩ := pcmTotalword_iff dev samplerate seconds
    obtain ⟨r, hr, hiff⟩ := record_iff dev _ hlo (pcmBytes dev samplerate seconds) old applicbuf
    refine ⟨r, hr, hiff.trans ?_⟩
    rw [← and_assoc, hfits, and_assoc]
  · have hfits := adcTotalbyte_iff samplerate seconds
    have hlo : -2 ^ 31 ≤ (adcTotalbyte samplerate seconds).toInt := BitVec.le_toInt _
    obtain ⟨r, hr, hiff⟩ := record_iff dev _ hlo (adcBytes samplerate seconds) []
      applicbuf
    refine ⟨r, hr, hiff.trans ?_⟩
    rw [← and_assoc, hfits, and_assoc, List.length_nil, Int.natCast_zero]
    constructor
    · rintro ⟨h0, h31, -, hfull⟩
      exact ⟨h0, h31, hfull⟩
    · rintro ⟨h0, h31, hfull⟩
      exact ⟨h0, h31, h0, hfull⟩

/-- A device whose `read` always fails. -/
def deafDevice : RecDevice where
  speed rate := rate
  channels n := n
  read _ _ := []
  read_le _ n := Nat.zero_le n

/-- One second at 1 Hz from it: nothing is returned, and what the buffer held is stored. -/
theorem recording_deaf :
    (∃ r, (∃ fuel, recordToPcm deafDevice 1 1 [] (List.Vector.replicate _ 0) fuel = some r) ∧
      ¬ Stores (pcmBytes deafDevice 1 1) r) ∧
    ∃ r, (∃ fuel, recordToPcmAdc deafDevice 1 1 (List.Vector.replicate _ 0) fuel = some r) ∧
      ¬ Stores (adcBytes 1 1) r := by
  have hdeaf : ∀ T, 0 < T → ¬ Delivers deafDevice T := by
    intro T hT hfull
    have hfirst : 0 = want T 0 := hfull 0 (by omega)
    unfold want at hfirst
    omega
  constructor
  · obtain ⟨r, hr, hiff⟩ := record_iff deafDevice (pcmTotalword deafDevice 1 1) (by decide)
      (pcmBytes deafDevice 1 1) [] (List.Vector.replicate _ 0)
    exact ⟨r, hr, fun h => hdeaf _ (by decide) (hiff.1 h).2.2.2⟩
  · obtain ⟨r, hr, hiff⟩ := record_iff deafDevice (adcTotalbyte 1 1).toInt (by decide)
      (adcBytes 1 1) [] (List.Vector.replicate _ 0)
    exact ⟨r, hr, fun h => hdeaf _ (by decide) (hiff.1 h).2.2.2⟩

end N32905.Audio
