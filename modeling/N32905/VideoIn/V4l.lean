import N32905.VideoIn.Zoom

/-!
# Frames from the video device

`ReadV4LPicture` and `TriggerV4LNextFrame` of `V4L.c` wait for the current frame with
`VIDIOCSYNC`. The call is made again after `EAGAIN` and `EINTR`, a hundred times at most;
every other outcome ends the loop, and what comes after it does not look at which one it
was.

`sync n` is the outcome of the n-th `VIDIOCSYNC` of a call.
-/

namespace N32905.VideoIn

/-! ## The model -/

/-- The outcomes of `VIDIOCSYNC`. -/
inductive SyncResult where
  | success | eagain | eintr | other
  deriving DecidableEq

def SyncResult.again : SyncResult → Bool
  | .eagain | .eintr => true
  | _ => false

inductive V4lErr where
  | success | vidSync | vidMCapture
  deriving DecidableEq

/-- `s_sVidData`: the frame, the number of frames, the frame of the last request, and where
each frame is mapped. -/
structure VidData where
  i32VidFrame : BitVec 32
  frames : BitVec 32
  mmapFrame : BitVec 32
  frameAddr : BitVec 32 → BitVec 32

/-- `sV4L2Buff` as `VIDIOCGCAPTIME` leaves it: the time stamp and `m.userptr`. -/
structure V4l2Buff where
  tv_sec : BitVec 32
  tv_usec : BitVec 32
  userptr : BitVec 32

/-- What a call stores for its caller (`none` where it stores nothing), and how many
`VIDIOCSYNC` it made. -/
structure ReadResult where
  err : V4lErr
  picPtr : BitVec 32
  timeStamp : Option (BitVec 64)
  bufPhyAddr : Option (BitVec 32)
  syncs : Nat

structure TriggerResult where
  err : V4lErr
  vid : VidData
  syncs : Nat

/-- The loop after `n` attempts, with `left` of the hundred to go: whether it ends without
the error return, and the attempts made. -/
def syncLoop (sync : Nat → SyncResult) : (left n : Nat) → Bool × Nat
  | 0, n => (false, n)
  | left + 1, n => if (sync n).again then syncLoop sync left (n + 1) else (true, n + 1)

def readV4LPicture (vid : VidData) (sync : Nat → SyncResult) (buff : V4l2Buff) : ReadResult :=
  match syncLoop sync 100 0 with
  | (false, n) => ⟨.vidSync, 0, none, none, n⟩
  | (true, n) =>
    { err := .success
      picPtr := vid.frameAddr vid.i32VidFrame
      timeStamp := some (buff.tv_sec.signExtend 64 * 1000000 + buff.tv_usec.signExtend 64)
      bufPhyAddr := some buff.userptr
      syncs := n }

/-- `mcapture` says whether `VIDIOCMCAPTURE` succeeds. -/
def triggerV4LNextFrame (vid : VidData) (sync : Nat → SyncResult) (mcapture : Bool) :
    TriggerResult :=
  match syncLoop sync 100 0 with
  | (false, n) => ⟨.vidSync, vid, n⟩
  | (true, n) =>
    let vid := { vid with mmapFrame := vid.i32VidFrame }
    if mcapture = false then ⟨.vidMCapture, vid, n⟩
    else ⟨.success, { vid with i32VidFrame := (vid.i32VidFrame + 1).srem vid.frames }, n⟩

/-! ## The loop -/

section Loop
variable {sync : Nat → SyncResult} {left n k : Nat}

/-- The first outcome of the next `left` that ends the loop is the one of attempt `k`. -/
def Settles (sync : Nat → SyncResult) (left n k : Nat) : Prop :=
  n ≤ k ∧ k < n + left ∧ (∀ i, n ≤ i → i < k → (sync i).again = true) ∧ (sync k).again = false

theorem again_succ {m : Nat} (hn : (sync n).again = true)
    (h : ∀ i, n + 1 ≤ i → i < m → (sync i).again = true) :
    ∀ i, n ≤ i → i < m → (sync i).again = true := by
  intro i hi hlt
  rcases Nat.eq_or_lt_of_le hi with rfl | hi
  · exact hn
  · exact h i hi hlt

theorem Settles.succ (h : Settles sync left (n + 1) k) (hn : (sync n).again = true) :
    Settles sync (left + 1) n k := by
  obtain ⟨h1, h2, h3, h4⟩ := h
  exact ⟨by omega, by omega, again_succ hn h3, h4⟩

theorem Settles.unique {k' : Nat} (h : Settles sync left n k) (h' : Settles sync left n k') :
    k = k' := by
  obtain ⟨h1, -, h3, h4⟩ := h
  obtain ⟨h1', -, h3', h4'⟩ := h'
  rcases Nat.lt_trichotomy k k' with hlt | heq | hgt
  · rw [h3' k h1 hlt] at h4
    cases h4
  · exact heq
  · rw [h3 k' h1' hgt] at h4'
    cases h4'

/-- **The loop** ends at the first outcome that is not tried again, or after `left` that
are. -/
theorem syncLoop_cases (sync : Nat → SyncResult) (left n : Nat) :
    (∃ k, Settles sync left n k ∧ syncLoop sync left n = (true, k + 1)) ∨
      ((∀ i, n ≤ i → i < n + left → (sync i).again = true) ∧
        syncLoop sync left n = (false, n + left)) := by
  induction left generalizing n with
  | zero => exact .inr ⟨fun i hi hlt => absurd hlt (by omega), rfl⟩
  | succ left ih =>
    cases hn : (sync n).again with
    | false =>
      exact .inl ⟨n, ⟨Nat.le_refl n, by omega, (fun i hi hlt => absurd hlt (by omega)), hn⟩,
        by simp only [syncLoop, hn, Bool.false_eq_true, if_false]⟩
    | true =>
      have hstep : syncLoop sync (left + 1) n = syncLoop sync left (n + 1) := by
        simp only [syncLoop, hn, if_true]
      rcases ih (n + 1) with ⟨k, hk, hloop⟩ | ⟨hall, hloop⟩
      · exact .inl ⟨k, hk.succ hn, hstep.trans hloop⟩
      · rw [Nat.add_right_comm, Nat.add_assoc] at hall hloop
        exact .inr ⟨again_succ hn hall, hstep.trans hloop⟩

/-- The loop is left because of an error other than `EAGAIN` and `EINTR`. -/
def OtherFirst (sync : Nat → SyncResult) : Prop := ∃ k, Settles sync 100 0 k ∧ sync k = .other

/-- What the loop tells the code after it: whether some attempt succeeded. -/
theorem syncLoop_synced (h : syncLoop sync 100 0 = (true, n)) :
    n ≤ 100 ∧ ((∃ i < n, sync i = .success) ↔ ¬ OtherFirst sync) := by
  rcases syncLoop_cases sync 100 0 with ⟨k, hk, hloop⟩ | ⟨-, hloop⟩
  · rw [hloop] at h
    cases h
    obtain ⟨-, hlt, hagain, hend⟩ := id hk
    refine ⟨by omega, ?_⟩
    constructor
    · rintro ⟨i, hi, hsucc⟩ ⟨k', hk', hother⟩
      rw [← hk.unique hk'] at hother
      rcases Nat.eq_or_lt_of_le (Nat.le_of_lt_succ hi) with rfl | hi
      · rw [hsucc] at hother
        cases hother
      · have := hagain i (Nat.zero_le i) hi
        rw [hsucc] at this
        cases this
    · intro hother
      refine ⟨k, Nat.lt_succ_self k, ?_⟩
      cases hres : sync k with
      | success => rfl
      | other => exact absurd ⟨k, hk, hres⟩ hother
      | eagain | eintr =>
        rw [hres] at hend
        cases hend
  · rw [hloop] at h
    cases h

theorem syncLoop_gives_up (h : syncLoop sync 100 0 = (false, n)) :
    n = 100 ∧ ¬ OtherFirst sync ∧ ∀ i < 100, (sync i).again = true := by
  rcases syncLoop_cases sync 100 0 with ⟨k, -, hloop⟩ | ⟨hall, hloop⟩
  · rw [hloop] at h
    cases h
  · rw [hloop] at h
    cases h
    refine ⟨rfl, ?_, fun i hi => hall i (Nat.zero_le i) (by omega)⟩
    rintro ⟨k, ⟨hk, hlt, -, hend⟩, -⟩
    rw [hall k hk hlt] at hend
    cases hend

end Loop

/-! ## The functions -/

/-- A frame is reported only after a `VIDIOCSYNC` of the call that succeeded, and there are
at most 100. -/
def ReportsSynced (sync : Nat → SyncResult) (err : V4lErr) (syncs : Nat) : Prop :=
  (err = .success → ∃ i < syncs, sync i = .success) ∧ syncs ≤ 100

theorem readV4LPicture_reports_iff (vid : VidData) (sync : Nat → SyncResult) (buff : V4l2Buff) :
    ReportsSynced sync (readV4LPicture vid sync buff).err (readV4LPicture vid sync buff).syncs ↔
      ¬ OtherFirst sync := by
  unfold readV4LPicture
  split
  case h_1 n hloop =>
    obtain ⟨rfl, hother, -⟩ := syncLoop_gives_up hloop
    exact iff_of_true ⟨(fun h => nomatch h), Nat.le_refl _⟩ hother
  case h_2 n hloop =>
    obtain ⟨hle, hiff⟩ := syncLoop_synced hloop
    rw [← hiff]
    exact ⟨fun h => h.1 rfl, fun h => ⟨fun _ => h, hle⟩⟩

theorem triggerV4LNextFrame_reports_iff (vid : VidData) (sync : Nat → SyncResult)
    (mcapture : Bool) :
    ReportsSynced sync (triggerV4LNextFrame vid sync mcapture).err
        (triggerV4LNextFrame vid sync mcapture).syncs ↔ ¬ (OtherFirst sync ∧ mcapture = true) := by
  unfold triggerV4LNextFrame
  split
  case h_1 n hloop =>
    obtain ⟨rfl, hother, -⟩ := syncLoop_gives_up hloop
    exact iff_of_true ⟨(fun h => nomatch h), Nat.le_refl _⟩ fun h => hother h.1
  case h_2 n hloop =>
    obtain ⟨hle, hiff⟩ := syncLoop_synced hloop
    cases mcapture with
    | false => exact iff_of_true ⟨(fun h => nomatch h), hle⟩ fun h => nomatch h.2
    | true =>
      have hcond : ¬ (OtherFirst sync ∧ true = true) ↔ ∃ i < n, sync i = .success := by
        rw [hiff, and_iff_left rfl]
      rw [hcond]
      exact ⟨fun h => h.1 rfl, fun h => ⟨fun _ => h, hle⟩⟩

theorem triggerV4LNextFrame_keeps_frame {vid : VidData} {sync : Nat → SyncResult} {mcapture : Bool}
    (h : (triggerV4LNextFrame vid sync mcapture).err ≠ .success) :
    (triggerV4LNextFrame vid sync mcapture).vid.i32VidFrame = vid.i32VidFrame := by
  unfold triggerV4LNextFrame at h ⊢
  split at h
  · rfl
  · dsimp only at h ⊢
    split at h
    · rename_i hm
      rw [if_pos hm]
    · exact absurd rfl h

/-- **Frames and syncs.** `ReadV4LPicture` reports a frame only after a successful sync, in
at most 100 attempts, exactly if the first outcome that is not tried again is no error;
`TriggerV4LNextFrame` too, or if `VIDIOCMCAPTURE` fails, and its error returns keep the
frame. -/
theorem frames_reported_synced_iff (vid : VidData) (sync : Nat → SyncResult) (buff : V4l2Buff)
    (mcapture : Bool) :
    (ReportsSynced sync (readV4LPicture vid sync buff).err (readV4LPicture vid sync buff).syncs ↔
      ¬ OtherFirst sync) ∧
    ((ReportsSynced sync (triggerV4LNextFrame vid sync mcapture).err
          (triggerV4LNextFrame vid sync mcapture).syncs ∧
        ((triggerV4LNextFrame vid sync mcapture).err ≠ .success →
          (triggerV4LNextFrame vid sync mcapture).vid.i32VidFrame = vid.i32VidFrame)) ↔
      ¬ (OtherFirst sync ∧ mcapture = true)) := by
  refine ⟨readV4LPicture_reports_iff vid sync buff, ?_⟩
  rw [and_iff_left triggerV4LNextFrame_keeps_frame]
  exact triggerV4LNextFrame_reports_iff vid sync mcapture

def oneFrame : VidData := ⟨0, 1, 0, fun _ => 0x1000⟩

/-- A first `VIDIOCSYNC` that fails with `EINVAL`: both functions report a frame. -/
theorem frame_reported_unsynced :
    (readV4LPicture oneFrame (fun _ => .other) ⟨0, 0, 0⟩).err = .success ∧
      (triggerV4LNextFrame oneFrame (fun _ => .other) true).err = .success ∧
      ¬ ReportsSynced (fun _ => .other) (readV4LPicture oneFrame (fun _ => .other) ⟨0, 0, 0⟩).err
        (readV4LPicture oneFrame (fun _ => .other) ⟨0, 0, 0⟩).syncs ∧
      ¬ ReportsSynced (fun _ => .other) (triggerV4LNextFrame oneFrame (fun _ => .other) true).err
        (triggerV4LNextFrame oneFrame (fun _ => .other) true).syncs := by
  refine ⟨rfl, rfl, ?_, ?_⟩
  all_goals
    intro h
    obtain ⟨i, -, hi⟩ := h.1 rfl
    cases hi

end N32905.VideoIn
