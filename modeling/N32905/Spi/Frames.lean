import N32905.Spi.Driver

/-!
# Frames on the bus

A call leaves whole frames on the bus: select, bytes, deselect. A frame to an
idle chip carries its command out and finds the chip idle at every byte
(`InFrame`); the frames of `spiCheckBusy` end when the chip is idle. From these
two facts each function gets its specification: what it does to the chip and
which frames it adds.
-/

namespace N32905.Spi

open N32905.Lib

structure Frame where
  start : Bool
  bytes : List (Byte × Bool)
  stop : Bool
  deriving DecidableEq

namespace Frame

def events (f : Frame) : List BusEvent :=
  .select f.start :: (f.bytes.map (fun p => .byte p.1 p.2) ++ [.deselect f.stop])

def sent (f : Frame) : List Byte := f.bytes.map Prod.fst

def quiet (rx : List Byte) : Frame := ⟨false, rx.map fun b => (b, false), false⟩

end Frame

/-- The chip is idle and not selected. -/
structure Idle (s : Bus) : Prop where
  busy : s.dev.busy = 0
  free : s.dev.frame = none

/-- A fresh chip whose every work takes three bytes. -/
def freshBus : Bus where
  dev := ⟨fun _ => 0xFF, false, 0, fun _ => 0xEF, 0, fun _ => 3, 0, none⟩
  gdata := ⟨0, 0, 0⟩
  bus := []

section Transit
variable {s s₀ : Bus} {rx : List Byte} {d : Nor}

theorem working_eq_false (h : d.busy = 0) : d.working = false := by
  rw [Nor.working, h]
  rfl

theorem transit_byte (x : BitVec 32) (s : Bus) :
    (transit x 8 s).dev = (s.dev.receive (BitVec.ofNat 8 x.toNat)).2 ∧
      (transit x 8 s).bus = s.bus ++ [.byte (BitVec.ofNat 8 x.toNat) s.dev.working] ∧
      spiGetData (transit x 8 s) =
        ((s.dev.receive (BitVec.ofNat 8 x.toNat)).1).setWidth 32 := by
  have hout : shiftOut 8 x = [BitVec.ofNat 8 x.toNat] := rfl
  have hin : ∀ b : Byte, shiftIn [b] = b.setWidth 32 := by
    intro b
    rw [shiftIn, List.reverse_singleton, leVal, leVal, Nat.mul_zero, Nat.add_zero,
      BitVec.ofNat_toNat]
  simp only [transit, spiDoTransit, spiSetBitLen, spiSetData, spiGetData, hout, transferBytes,
    transferByte, hin, and_self]

/-- A frame to an idle chip, under way: `rx` has been sent since `s₀`. -/
structure InFrame (s₀ s : Bus) (rx : List Byte) : Prop where
  dev : s.dev = s₀.dev.within rx
  bus : s.bus = s₀.bus ++ .select false :: rx.map fun b => .byte b false

theorem InFrame.select (h : Idle s) : InFrame s (spiSelectCS0 s) [] where
  dev := Nor.select_idle h.busy
  bus := by
    show s.bus ++ [.select s.dev.working] = _
    rw [working_eq_false h.busy]
    rfl

theorem InFrame.transferBytes (h : Idle s₀) (bs : List Byte) (hf : InFrame s₀ s rx) :
    InFrame s₀ (transferBytes bs s).2 (rx ++ bs) := by
  induction bs generalizing s rx with
  | nil =>
    rw [List.append_nil]
    exact hf
  | cons b bs ih =>
    have hr : (s₀.dev.within rx).receive b = _ := Nor.receive_within h.busy b
    have hb : InFrame s₀ (transferByte b s).2 (rx ++ [b]) := by
      constructor
      · show (s.dev.receive b).2 = _
        rw [hf.dev, hr]
      · show s.bus ++ [.byte b s.dev.working] = _
        rw [hf.dev, hf.bus, show (s₀.dev.within rx).working = false from working_eq_false h.busy]
        simp
    have := ih hb
    rwa [List.append_assoc, List.singleton_append] at this

theorem InFrame.transit (h : Idle s₀) (hf : InFrame s₀ s rx) (x : BitVec 32) (n : Nat) :
    InFrame s₀ (transit x n s) (rx ++ shiftOut n x) := by
  have := InFrame.transferBytes (s := spiSetBitLen n (spiSetData x s)) h (shiftOut n x)
    ⟨hf.dev, hf.bus⟩
  exact ⟨this.dev, this.bus⟩

theorem InFrame.getData (h : Idle s₀) (hf : InFrame s₀ s rx) (x : BitVec 32) :
    spiGetData (Spi.transit x 8 s) = (s₀.dev.answer ⟨true, rx⟩).setWidth 32 := by
  rw [(transit_byte x s).2.2, hf.dev, Nor.receive_within h.busy]

/-- **A complete frame** to an idle chip. -/
theorem InFrame.deselect (h : Idle s₀) (hf : InFrame s₀ s rx) :
    (spiDeselectCS0 s).dev = s₀.dev.execute rx ∧
      (spiDeselectCS0 s).bus = s₀.bus ++ (Frame.quiet rx).events := by
  constructor
  · show s.dev.deselect = _
    rw [hf.dev, Nor.deselect_within h.free]
  · show s.bus ++ [.deselect s.dev.working] = _
    rw [hf.dev, hf.bus, show (s₀.dev.within rx).working = false from working_eq_false h.busy]
    simp [Frame.quiet, Frame.events, Function.comp_def]

end Transit

/-! ## The busy loop -/

section Poll
variable {s : Bus} {d : Nor} {m : Nat} {r : Bool} {rx : List Byte}

theorem status_bit (d : Nor) :
    (d.status.setWidth 32 &&& 0xFF &&& 0x01 ≠ (0x01 : BitVec 32)) ↔ d.working = false := by
  have h : ∀ (p : BitVec 6) (w b : Bool),
      ((p ++ BitVec.ofBool w ++ BitVec.ofBool b : BitVec 8).setWidth 32 &&& 0xFF &&& 0x01 ≠
        (0x01 : BitVec 32)) ↔ b = false := by
    decide
  exact h d.protect d.wel d.working

def polled (d : Nor) (m : Nat) (r : Bool) (rx : List Byte) : Nor :=
  { d with busy := m, frame := some ⟨r, 0x05 :: rx⟩ }

/-- One pass: the chip comes closer to idle, and the pass is the last if it is idle. -/
theorem pollStep_polled (h : s.dev = polled d m r rx) :
    ∃ s', s'.dev = polled d (m - 1) r (rx ++ [0xFF]) ∧
      (∃ b, s'.bus = s.bus ++ [.byte 0xFF b]) ∧
      pollStep s = if m = 0 then .done s' else .next s' := by
  obtain ⟨hdev, hbus, hget⟩ := transit_byte 0xFF s
  refine ⟨transit 0xFF 8 s, ?_, ⟨_, hbus⟩, ?_⟩
  · rw [hdev, h]
    rfl
  · have hst : (s.dev.receive (BitVec.ofNat 8 (0xFF : BitVec 32).toNat)).1 =
        (polled d m r rx).status := by
      rw [h]
      rfl
    unfold pollStep
    simp only [hget, hst, status_bit]
    by_cases hm : m = 0
    · rw [if_pos hm, if_pos (working_eq_false hm)]
    · have hw : (polled d m r rx).working = true := decide_eq_true hm
      rw [if_neg hm, if_neg (by rw [hw]; decide)]

theorem poll_ends (h : s.dev = polled d m r rx) :
    ∃ s' rx', ∃ ps : List (Byte × Bool), iterate pollStep (m + 1) s = some s' ∧
      s'.dev = polled d 0 r rx' ∧ s'.bus = s.bus ++ ps.map fun p => .byte p.1 p.2 := by
  induction m generalizing s rx with
  | zero =>
    obtain ⟨s', hdev, ⟨b, hbus⟩, hs⟩ := pollStep_polled h
    exact ⟨s', _, [(0xFF, b)], iterate_done hs, hdev, hbus⟩
  | succ m ih =>
    obtain ⟨s', hdev, ⟨b, hbus⟩, hs⟩ := pollStep_polled h
    obtain ⟨s'', rx', ps, hit, hdev', hbus'⟩ := ih hdev
    refine ⟨s'', rx', (0xFF, b) :: ps, (iterate_next hs).trans hit, hdev', ?_⟩
    rw [hbus', hbus, List.append_assoc]
    rfl

theorem deselect_polled : (polled d 0 r rx).deselect = { d with busy := 0, frame := none } := by
  unfold Nor.deselect
  cases r with
  | false => rfl
  | true =>
    show { (polled d 0 true rx).execute (0x05 :: rx) with frame := none } = _
    rw [Nor.execute_status]
    rfl

/-- **`spiCheckBusy`** returns, with one status frame on the bus and the chip idle. -/
theorem spiCheckBusy_spec (hfree : s.dev.frame = none) :
    ∃ s', ∃ f : Frame, spiCheckBusy s = some s' ∧ s'.dev = { s.dev with busy := 0 } ∧
      f.sent.head? = some 0x05 ∧ s'.bus = s.bus ++ f.events := by
  obtain ⟨hdev, hbus, -⟩ := transit_byte 0x05 (spiSelectCS0 s)
  have hpolled : (transit 0x05 8 (spiSelectCS0 s)).dev =
      polled s.dev (s.dev.busy - 1) (decide (s.dev.busy = 0)) [] := hdev
  obtain ⟨s₂, rx, ps, hit, hdev₂, hbus₂⟩ := poll_ends hpolled
  refine ⟨spiDeselectCS0 s₂, ⟨s.dev.working, (0x05, (spiSelectCS0 s).dev.working) :: ps,
    s₂.dev.working⟩, ?_, ?_, rfl, ?_⟩
  · have hbusy : (transit 0x05 8 (spiSelectCS0 s)).dev.busy = s.dev.busy - 1 := by
      rw [hdev]
      rfl
    simp only [spiCheckBusy, hbusy, hit, Option.bind_eq_bind, Option.bind_some, Option.pure_def]
  · show s₂.dev.deselect = _
    rw [hdev₂, deselect_polled, ← hfree]
  · show s₂.bus ++ [BusEvent.deselect s₂.dev.working] = _
    rw [hbus₂, hbus]
    simp [Frame.events, spiSelectCS0]

end Poll

/-! ## Commands -/

section Commands
variable {s s₀ t : Bus} {rx : List Byte}

/-- `n` bytes of a buffer from `o` on. -/
def bufBytes (buf : Nat → Byte) (o n : Nat) : List Byte := (List.range' o n).map buf

theorem shiftOut_addr (x : BitVec 32) :
    ∃ a₂ a₁ a₀, shiftOut 24 x = [a₂, a₁, a₀] ∧ Nor.address a₂ a₁ a₀ = x.toNat % 2 ^ 24 :=
  ⟨_, _, _, rfl, leVal_leBytes 3 x.toNat⟩

theorem swap16_append (a b : Byte) : swap16 (b ++ a) = a ++ b := by
  have ha := a.isLt
  have hb := b.isLt
  have hx : (b ++ a).toNat = 256 * b.toNat + a.toNat := by
    rw [BitVec.toNat_append, ← Nat.shiftLeft_add_eq_or_of_lt ha, Nat.shiftLeft_eq]
    omega
  have hl : (b ++ a).toNat <<< 8 % 2 ^ (8 + 8) = a.toNat <<< 8 := by
    rw [hx, Nat.shiftLeft_eq, Nat.shiftLeft_eq]
    omega
  have hr : (b ++ a).toNat >>> 8 = b.toNat := by
    rw [hx, Nat.shiftRight_eq_div_pow]
    omega
  apply BitVec.eq_of_toNat_eq
  rw [swap16, BitVec.toNat_or, BitVec.toNat_shiftLeft, BitVec.toNat_ushiftRight, hl, hr,
    BitVec.toNat_append]

/-- A word goes over the bus as its two bytes in the order of the buffer. -/
theorem shiftOut_bufWord (buf : Nat → Byte) (k : Nat) :
    shiftOut 16 ((swap16 (bufWord buf k)).setWidth 32) = [buf (2 * k), buf (2 * k + 1)] := by
  have hlt := (buf (2 * k + 1)).isLt
  have hlt' := (buf (2 * k)).isLt
  have hn : ((swap16 (bufWord buf k)).setWidth 32).toNat =
      256 * (buf (2 * k)).toNat + (buf (2 * k + 1)).toNat := by
    rw [bufWord, swap16_append, BitVec.toNat_setWidth, BitVec.toNat_append,
      ← Nat.shiftLeft_add_eq_or_of_lt hlt, Nat.shiftLeft_eq]
    omega
  show [BitVec.ofNat 8 (_ / 256), BitVec.ofNat 8 _] = _
  rw [hn]
  congr 1
  · apply BitVec.eq_of_toNat_eq
    rw [BitVec.toNat_ofNat]
    omega
  · congr 1
    apply BitVec.eq_of_toNat_eq
    rw [BitVec.toNat_ofNat]
    omega

theorem InFrame.writeData (h : Idle s₀) (buf : Nat → Byte) (page k : Nat)
    (hf : InFrame s₀ s rx) :
    InFrame s₀ (writeData buf page k s) (rx ++ bufBytes buf (2 * k) (2 * page)) := by
  induction page generalizing s rx k with
  | zero =>
    rw [bufBytes, Nat.mul_zero, List.range'_zero, List.map_nil, List.append_nil]
    exact hf
  | succ page ih =>
    have hw := hf.transit h ((swap16 (bufWord buf k)).setWidth 32) 16
    rw [shiftOut_bufWord] at hw
    have := ih (k + 1) hw
    rw [List.append_assoc] at this
    exact this

/-- **The data loop of a read** returns the answers of the chip. -/
theorem InFrame.readData (h : Idle s₀) (n : Nat) (hf : InFrame s₀ s rx) :
    (readData n s).1 =
        (List.range n).map (fun k => s₀.dev.answer ⟨true, rx ++ List.replicate k 0xFF⟩) ∧
      InFrame s₀ (readData n s).2 (rx ++ List.replicate n 0xFF) := by
  induction n generalizing s rx with
  | zero =>
    rw [List.replicate_zero, List.append_nil]
    exact ⟨rfl, hf⟩
  | succ n ih =>
    have hb : ∀ b : Byte, (b.setWidth 32 &&& 0xFF).setWidth 8 = b := by decide
    have ht : InFrame s₀ (Spi.transit 0xFF 8 s) (rx ++ [0xFF]) := hf.transit h 0xFF 8
    obtain ⟨h1, h2⟩ := ih ht
    constructor
    · show ((spiGetData (Spi.transit 0xFF 8 s) &&& 0xFF).setWidth 8) ::
        (Spi.readData n (Spi.transit 0xFF 8 s)).1 = _
      rw [hf.getData h, hb, h1, List.range_succ_eq_map, List.map_cons, List.map_map]
      simp [Function.comp_def, List.replicate_succ]
    · rw [List.append_assoc, List.singleton_append, ← List.replicate_succ] at h2
      exact h2

theorem spiWriteEnable_spec (h : Idle s) :
    (spiWriteEnable s).dev = { s.dev with wel := true } ∧
      (spiWriteEnable s).bus = s.bus ++ (Frame.quiet [0x06]).events :=
  InFrame.deselect h ((InFrame.select h).transit h 0x06 8)

theorem Idle.writeEnable (h : Idle s) : Idle (spiWriteEnable s) := by
  have hdev := (spiWriteEnable_spec h).1
  exact ⟨by rw [hdev]; exact h.busy, by rw [hdev]; exact h.free⟩

/-- **A command that changes the chip**: write enable, the command in the frame
under way at `t`, and the wait for its end. -/
theorem work_spec (h : Idle s) (hf : InFrame (spiWriteEnable s) t rx) :
    ∃ s', ∃ f : Frame, spiCheckBusy (spiDeselectCS0 t) = some s' ∧
      s'.dev = { ({ s.dev with wel := true } : Nor).execute rx with busy := 0 } ∧
      f.sent.head? = some 0x05 ∧
      s'.bus = s.bus ++ [Frame.quiet [0x06], Frame.quiet rx, f].flatMap Frame.events ∧ Idle s' := by
  obtain ⟨hdev, hbus⟩ := spiWriteEnable_spec h
  obtain ⟨hdev₁, hbus₁⟩ := hf.deselect h.writeEnable
  rw [hdev] at hdev₁
  have hfree : (spiDeselectCS0 t).dev.frame = none := by
    rw [hdev₁, Nor.frame_execute]
    exact h.free
  obtain ⟨s', f, hs, hdev₂, hpoll, hbus₂⟩ := spiCheckBusy_spec hfree
  refine ⟨s', f, hs, by rw [hdev₂, hdev₁], hpoll, ?_, ?_⟩
  · rw [hbus₂, hbus₁, hbus]
    simp
  · rw [hdev₁] at hdev₂ hfree
    exact ⟨by rw [hdev₂], by rw [hdev₂]; exact hfree⟩

end Commands

end N32905.Spi
