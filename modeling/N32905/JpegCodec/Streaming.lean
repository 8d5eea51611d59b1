import N32905.Lib.Codec
import N32905.Lib.Loop

/-!
# Feeding the engine

The loop of `jpegCodecIPW` hands a file to the engine piece by piece: it polls until
the engine's input buffer is empty or the decoding is over, reads as many bytes as
the engine asks for and writes them. The condition of the outer `while` is always
true, so the loop is left by its `break` only, or by `goto out`. Both loops look for
`JPEG_DECODED_IMAGE` and `JPEG_MEM_SHORTAGE`, and not for `JPEG_DECODE_ERROR`.

One pass here is one poll of the two nested loops.
-/

namespace N32905.JpegCodec

open N32905.Lib

/-! ## The model -/

/-- `jpeg_state_t`. -/
inductive JpegState
  | idle | encoding | encodedImage | decoding | decodedHeader | decodedImage | decodeError
  | memShortage | decodeParamError | encodeParamError | closed
  deriving DecidableEq

def JpegState.final (s : JpegState) : Prop :=
  s = .decodedImage ∨ s = .decodeError ∨ s = .memShortage

/-- `decInWait_buffer_size`, the size of `buffer`. -/
def decInWaitBufferSize : Nat := 16 * 1024

/-- What the driver answers at the poll `k` and behind it. -/
structure FeedEngine where
  /-- `JPEG_DECIPW_BUFFER_STATE` is `JPEG_DECIPW_BUFFER_EMPTY`. -/
  empty : Nat → Bool
  /-- `JPEG_STATE`. -/
  state : Nat → JpegState
  /-- `JPEG_G_DECIPW_BUFFER_SIZE`, unless it fails. -/
  size : Nat → Option Nat
  /-- `select` finds the device ready. -/
  ready : Nat → Bool
  /-- `JPEG_TRIGGER` succeeds. -/
  trigger : Nat → Bool
  /-- The engine's buffer is no larger than what was set. -/
  size_le : ∀ k n, size k = some n → n ≤ decInWaitBufferSize

/-- The polls so far, the rest of the file, the bytes handed to `write`. -/
structure FeedSt where
  polls : Nat
  rest : List Byte
  written : List Byte
  bTrigger : Bool
  feof : Bool

/-- The loop is left by its `break` (or its condition), or by `goto out`. -/
structure FeedEnd where
  completed : Bool
  written : List Byte

def whileCond (feof : Bool) (state : JpegState) : Bool :=
  !feof || state ≠ .decodedImage || state ≠ .memShortage

def seen (state : JpegState) : Bool := state = .decodedImage || state = .memShortage

/-- One poll, and what follows it. -/
def feedBody (e : FeedEngine) (st : FeedSt) : Step FeedSt FeedEnd :=
  let k := st.polls
  if !e.empty k && e.state k ≠ .decodedImage && e.state k ≠ .memShortage then
    .next { st with polls := k + 1 }
  else if seen (e.state k) then .done ⟨true, st.written⟩
  else
    match e.size k with
    | none => .done ⟨false, st.written⟩
    | some jpeg_buffersize =>
      let data := if e.ready k then st.rest.take jpeg_buffersize else []
      let feof := st.feof || e.ready k && st.rest.length < jpeg_buffersize
      if !st.bTrigger && !e.trigger k then .done ⟨false, st.written ++ data⟩
      else if whileCond feof (e.state k) then
        .next ⟨k + 1, st.rest.drop data.length, st.written ++ data, true, feof⟩
      else .done ⟨true, st.written ++ data⟩

def feedStart (file : List Byte) : FeedSt := ⟨0, file, [], false, false⟩

/-- From the poll `n` on the engine is in the final state `s`. -/
structure FeedEngine.FinalFrom (e : FeedEngine) (n : Nat) (s : JpegState) : Prop where
  final : s.final
  stays : ∀ k, n ≤ k → e.state k = s

/-- A call that makes the loop `goto out`: the size cannot be read, or the trigger behind
the first empty buffer fails. -/
def FeedEngine.Fails (e : FeedEngine) : Prop :=
  ∃ k, e.empty k = true ∧ (e.size k = none ∨
    e.trigger k = false ∧ ∀ j < k, e.empty j = false)

/-! ## One poll -/

theorem whileCond_eq_true (feof : Bool) (state : JpegState) : whileCond feof state = true := by
  cases feof <;> cases state <;> rfl

theorem seen_eq_false {state : JpegState} :
    seen state = false ↔ state ≠ .decodedImage ∧ state ≠ .memShortage := by
  simp [seen]

section Poll
variable {e : FeedEngine} {st st' : FeedSt} {r : FeedEnd}

theorem feedBody_wait (hs : seen (e.state st.polls) = false) (he : e.empty st.polls = false) :
    feedBody e st = .next { st with polls := st.polls + 1 } := by
  obtain ⟨h1, h2⟩ := seen_eq_false.1 hs
  simp [feedBody, he, h1, h2]

theorem feedBody_seen (hs : seen (e.state st.polls) = true) :
    feedBody e st = .done ⟨true, st.written⟩ := by
  have hcond : (!e.empty st.polls && e.state st.polls ≠ .decodedImage &&
      e.state st.polls ≠ .memShortage) = false := by
    rw [seen, Bool.or_eq_true, decide_eq_true_eq, decide_eq_true_eq] at hs
    rcases hs with hs | hs <;> simp [hs]
  rw [feedBody, if_neg (by rw [hcond]; decide), if_pos hs]

theorem feedBody_feed (hs : seen (e.state st.polls) = false) (he : e.empty st.polls = true) :
    (e.size st.polls = none ∧ feedBody e st = .done ⟨false, st.written⟩) ∨
    ∃ n feof, (e.size st.polls).isSome ∧
      feedBody e st =
        if !st.bTrigger && !e.trigger st.polls then .done ⟨false, st.written ++ st.rest.take n⟩
        else .next ⟨st.polls + 1, st.rest.drop n, st.written ++ st.rest.take n, true, feof⟩ := by
  have hcond : (!e.empty st.polls && e.state st.polls ≠ .decodedImage &&
      e.state st.polls ≠ .memShortage) = false := by simp [he]
  cases hn : e.size st.polls with
  | none =>
    refine .inl ⟨rfl, ?_⟩
    rw [feedBody, if_neg (by rw [hcond]; decide), if_neg (by rw [hs]; decide), hn]
  | some size =>
    refine .inr ⟨if e.ready st.polls then size else 0,
      st.feof || e.ready st.polls && st.rest.length < size, rfl, ?_⟩
    rw [feedBody, if_neg (by rw [hcond]; decide), if_neg (by rw [hs]; decide), hn]
    dsimp only
    rw [whileCond_eq_true, if_pos rfl]
    cases hr : e.ready st.polls with
    | false => simp
    | true =>
      have hdrop : st.rest.drop (st.rest.take size).length = st.rest.drop size := by
        rw [List.length_take]
        rcases Nat.le_total size st.rest.length with h | h
        · rw [Nat.min_eq_left h]
        · rw [Nat.min_eq_right h, List.drop_of_length_le h, List.drop_length]
      simp only [if_true, hdrop]

end Poll

/-! ## The whole loop -/

section Loop
variable {e : FeedEngine} {file : List Byte}

/-- What holds before a poll: the bytes written and the rest are the file, and the
engine is triggered behind the first empty buffer. -/
structure FeedInv (e : FeedEngine) (file : List Byte) (st : FeedSt) : Prop where
  bytes : st.written ++ st.rest = file
  triggered : st.bTrigger = true ↔ ∃ j < st.polls, e.empty j = true

theorem feedInv_start (e : FeedEngine) (file : List Byte) : FeedInv e file (feedStart file) :=
  ⟨rfl, ⟨fun h => (nomatch h), fun ⟨_, h, _⟩ => (nomatch h)⟩⟩

theorem FeedInv.first {st : FeedSt} (h : FeedInv e file st) :
    st.bTrigger = false ↔ ∀ j < st.polls, e.empty j = false := by
  rw [← Bool.not_eq_true, h.triggered]
  simp only [not_exists, not_and, Bool.not_eq_true]

/-- **One poll** keeps the invariant, or ends the loop: the state is one of the two, or a
call fails. -/
theorem FeedInv.poll {st : FeedSt} (h : FeedInv e file st) :
    (∃ st', feedBody e st = .next st' ∧ st'.polls = st.polls + 1 ∧ FeedInv e file st') ∨
    ∃ r, feedBody e st = .done r ∧ r.written <+: file ∧
      (seen (e.state st.polls) = true ∨ e.Fails) := by
  cases hs : seen (e.state st.polls) with
  | true => exact .inr ⟨_, feedBody_seen hs, ⟨st.rest, h.bytes⟩, .inl rfl⟩
  | false =>
    cases he : e.empty st.polls with
    | false =>
      refine .inl ⟨_, feedBody_wait hs he, rfl, h.bytes, h.triggered.trans ?_⟩
      rw [Nat.exists_lt_succ_right, he, or_iff_left Bool.false_ne_true]
    | true =>
      obtain ⟨hsize, hdone⟩ | ⟨n, feof, -, hnext⟩ := feedBody_feed hs he
      · exact .inr ⟨_, hdone, ⟨st.rest, h.bytes⟩, .inr ⟨_, he, .inl hsize⟩⟩
      · have hbytes : st.written ++ st.rest.take n ++ st.rest.drop n = file := by
          rw [List.append_assoc, List.take_append_drop]
          exact h.bytes
        split at hnext
        case isTrue hfail =>
          rw [Bool.and_eq_true, Bool.not_eq_true', Bool.not_eq_true'] at hfail
          -- it is the trigger behind the first empty buffer that fails
          exact .inr ⟨_, hnext, ⟨_, hbytes⟩, .inr ⟨_, he, .inr ⟨hfail.2, h.first.1 hfail.1⟩⟩⟩
        case isFalse =>
          refine .inl ⟨_, hnext, rfl, hbytes, fun _ => ?_, fun _ => rfl⟩
          exact ⟨st.polls, Nat.lt_succ_self _, he⟩

theorem FeedInv.next {st st' : FeedSt} (h : FeedInv e file st) (hb : feedBody e st = .next st') :
    FeedInv e file st' ∧ st'.polls = st.polls + 1 := by
  obtain ⟨t, ht, hpolls, hinv⟩ | ⟨r, hr, -, -⟩ := h.poll
  · rw [hb] at ht
    cases ht
    exact ⟨hinv, hpolls⟩
  · rw [hb] at hr
    cases hr

theorem FeedInv.done {st : FeedSt} {r : FeedEnd} (h : FeedInv e file st)
    (hb : feedBody e st = .done r) :
    r.written <+: file ∧ (seen (e.state st.polls) = true ∨ e.Fails) := by
  obtain ⟨t, ht, -, -⟩ | ⟨r', hr, hfile, hend⟩ := h.poll
  · rw [hb] at ht
    cases ht
  · rw [hb] at hr
    cases hr
    exact ⟨hfile, hend⟩

/-- No poll behind one that shows one of the two states, or at which a call fails. -/
theorem FeedInv.ends {K : Nat} {st : FeedSt} (h : FeedInv e file st) (hk : st.polls ≤ K)
    (hK : ∀ st, FeedInv e file st → st.polls = K → ∃ r, feedBody e st = .done r) :
    ∃ r, Ends (feedBody e) st r := by
  have hnext : ∀ s s', FeedInv e file s ∧ s.polls ≤ K → feedBody e s = .next s' →
      (FeedInv e file s' ∧ s'.polls ≤ K) ∧ K - s'.polls < K - s.polls := by
    rintro s s' ⟨hinv, hle⟩ hb
    obtain ⟨hinv', hpolls⟩ := hinv.next hb
    have hlt : s.polls < K := by
      rcases Nat.lt_or_eq_of_le hle with hlt | heq
      · exact hlt
      · obtain ⟨r, hr⟩ := hK s hinv heq
        rw [hb] at hr
        cases hr
    exact ⟨⟨hinv', by omega⟩, by omega⟩
  exact ends_of_rank hnext ⟨h, hk⟩

theorem FeedInv.fails {k : Nat} {st : FeedSt} (h : FeedInv e file st) (hk : st.polls = k)
    (he : e.empty k = true)
    (hfail : e.size k = none ∨ e.trigger k = false ∧ ∀ j < k, e.empty j = false) :
    ∃ r, feedBody e st = .done r := by
  subst hk
  cases hs : seen (e.state st.polls) with
  | true => exact ⟨_, feedBody_seen hs⟩
  | false =>
    obtain ⟨-, hdone⟩ | ⟨n, feof, hsome, hnext⟩ := feedBody_feed hs he
    · exact ⟨_, hdone⟩
    · rcases hfail with hsize | ⟨htrigger, hfirst⟩
      · rw [hsize] at hsome
        cases hsome
      · rw [h.first.2 hfirst, htrigger] at hnext
        exact ⟨_, hnext⟩

/-- **When the loop ends**, for any engine: one of the two states shows, or a call fails. -/
theorem feeding_ends :
    (∃ r, Ends (feedBody e) (feedStart file) r) ↔
      (∃ k, seen (e.state k) = true) ∨ e.Fails := by
  constructor
  · rintro ⟨r, hr⟩
    obtain ⟨st, hinv, hdone⟩ :=
      hr.rule (P := FeedInv e file) (fun s s' h hb => (h.next hb).1) (feedInv_start e file)
    exact (hinv.done hdone).2.imp (fun h => ⟨_, h⟩) id
  · rintro (⟨k, hk⟩ | ⟨k, he, hfail⟩)
    · refine (feedInv_start e file).ends (Nat.zero_le k) fun st _ hpolls => ?_
      exact ⟨_, feedBody_seen (hpolls ▸ hk)⟩
    · exact (feedInv_start e file).ends (Nat.zero_le k) fun st hinv hpolls =>
        hinv.fails hpolls he hfail

/-- Whatever the engine does, what is written is the file's beginning. -/
theorem feeding_prefix :
    (∀ k st, after (feedBody e) (feedStart file) k = some st → st.written <+: file) ∧
      ∀ r, Ends (feedBody e) (feedStart file) r → r.written <+: file := by
  have hnext : ∀ s s', FeedInv e file s → feedBody e s = .next s' → FeedInv e file s' :=
    fun s s' h hb => (h.next hb).1
  constructor
  · intro k st hst
    exact ⟨_, (after_rule hnext (feedInv_start e file) hst).bytes⟩
  · intro r hr
    obtain ⟨st, hinv, hdone⟩ := hr.rule hnext (feedInv_start e file)
    exact (hinv.done hdone).1

end Loop

/-- **Feeding ends with the engine** unless the engine ends in `JPEG_DECODE_ERROR`: then only
a failing call, or one of the other two states shown before, ends the loop. The bytes
written are at every poll the file's beginning. -/
theorem feeding_ends_iff (file : List Byte) (e : FeedEngine) (n : Nat) (s : JpegState)
    (hfinal : e.FinalFrom n s) :
    ((∃ r, Ends (feedBody e) (feedStart file) r) ↔
      s ≠ .decodeError ∨ (∃ k < n, seen (e.state k) = true) ∨ e.Fails) ∧
    (∀ k st, after (feedBody e) (feedStart file) k = some st → st.written <+: file) ∧
    ∀ r, Ends (feedBody e) (feedStart file) r → r.written <+: file := by
  refine ⟨feeding_ends.trans ?_, feeding_prefix⟩
  rw [← or_assoc]
  apply or_congr_left
  constructor
  · rintro ⟨k, hk⟩
    rcases Nat.lt_or_ge k n with hlt | hge
    · exact .inr ⟨k, hlt, hk⟩
    · rw [hfinal.stays k hge] at hk
      refine .inl ?_
      rintro rfl
      cases hk
  · rintro (hs | ⟨k, -, hk⟩)
    · refine ⟨n, ?_⟩
      rw [hfinal.stays n le_rfl]
      obtain rfl | rfl | rfl := hfinal.final
      · rfl
      · exact absurd rfl hs
      · rfl
    · exact ⟨k, hk⟩

/-- The engine asks for four bytes at each of two polls, and then has the image. -/
def decodes : FeedEngine where
  empty _ := true
  state k := if k < 2 then .decoding else .decodedImage
  size _ := some 4
  ready _ := true
  trigger _ := true
  size_le _ _ h := by
    cases h
    decide

theorem feeding_ends_decodes :
    decodes.FinalFrom 2 .decodedImage ∧
      ∃ r, Ends (feedBody decodes) (feedStart [0xff#8, 0xd8#8, 0xff#8, 0xd9#8]) r := by
  have hfinal : decodes.FinalFrom 2 .decodedImage :=
    ⟨.inl rfl, fun k hk => if_neg (Nat.not_lt.2 hk)⟩
  refine ⟨hfinal, (feeding_ends_iff _ decodes 2 _ hfinal).1.2 (.inl ?_)⟩
  nofun

/-- The engine takes four bytes, finds that they are no image and stops. -/
def refuses : FeedEngine where
  empty k := k = 0
  state k := if k = 0 then .decoding else .decodeError
  size _ := some 4
  ready _ := true
  trigger _ := true
  size_le _ _ h := by
    cases h
    decide

theorem refuses_not_fails : ¬ refuses.Fails := by
  rintro ⟨k, -, hsize | ⟨htrigger, -⟩⟩
  · cases hsize
  · cases htrigger

/-- On a malformed file the engine ends in `JPEG_DECODE_ERROR`, and the loop polls forever. -/
theorem feeding_never_ends :
    refuses.FinalFrom 1 .decodeError ∧
      ¬ ∃ r, Ends (feedBody refuses) (feedStart [0x00#8, 0x01#8, 0x02#8, 0x03#8]) r := by
  constructor
  · exact ⟨.inr (.inl rfl), fun k hk => if_neg (by omega)⟩
  · rw [feeding_ends]
    rintro (⟨k, hk⟩ | hfail)
    · by_cases h0 : k = 0 <;> simp [refuses, seen, h0] at hk
    · exact refuses_not_fails hfail

end N32905.JpegCodec
