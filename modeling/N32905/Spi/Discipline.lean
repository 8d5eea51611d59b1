import N32905.Lib.Run
import N32905.Spi.Frames

/-!
# Command discipline

What the flash may rely on: frames do not nest, commands come when the chip is
idle, and whatever changes it comes right behind a write enable. Only some of the
functions wait before they start, so the whole rests on each of them leaving the
chip idle (`Leaves`).
-/

namespace N32905.Spi

open N32905.Lib

/-! ## Disciplined frames -/

namespace Frame

def Quiet (f : Frame) : Prop := f.start = false ∧ (∀ p ∈ f.bytes, p.2 = false) ∧ f.stop = false

def IsPoll (f : Frame) : Prop := f.sent.head? = some 0x05

def Changes (f : Frame) : Prop := ∃ cmd ∈ [0x02, 0xD8, 0xC7, 0x01], f.sent.head? = some cmd

variable {rx : List Byte}

@[simp] theorem sent_quiet : (quiet rx).sent = rx := by
  simp [quiet, sent, Function.comp_def]

theorem quiet_quiet : (quiet rx).Quiet := by
  refine ⟨rfl, ?_, rfl⟩
  simp [quiet]

theorem IsPoll.not_changes {f : Frame} (h : f.IsPoll) : ¬ f.Changes := by
  rintro ⟨cmd, hcmd, hf⟩
  rw [IsPoll, hf, Option.some.injEq] at h
  subst h
  exact absurd hcmd (by decide)

end Frame

/-- Every frame but a status poll meets the chip idle, and a frame that changes the
chip comes right behind a write enable. -/
def Disciplined (fs : List Frame) : Prop :=
  ∀ pre f post, fs = pre ++ f :: post → (¬ f.IsPoll → f.Quiet) ∧
    (f.Changes → ∃ pre' g, pre = pre' ++ [g] ∧ g.sent = [0x06])

section Disciplined
variable {fs gs : List Frame} {f : Frame} {rx : List Byte}

theorem Disciplined.nil : Disciplined [] := by
  intro pre f post h
  simp at h

theorem Disciplined.append (hf : Disciplined fs) (hg : Disciplined gs) : Disciplined (fs ++ gs) := by
  intro pre f post h
  rcases List.append_eq_append_iff.1 h with ⟨as, rfl, hgs⟩ | ⟨cs, rfl, hcs⟩
  · obtain ⟨h1, h2⟩ := hg as f post hgs
    refine ⟨h1, fun hc => ?_⟩
    obtain ⟨pre', g, rfl, hgw⟩ := h2 hc
    exact ⟨fs ++ pre', g, by rw [List.append_assoc], hgw⟩
  · cases cs with
    | nil =>
      obtain ⟨h1, h2⟩ := hg [] f post hcs.symm
      refine ⟨h1, fun hc => ?_⟩
      obtain ⟨pre', g, hpre, -⟩ := h2 hc
      simp at hpre
    | cons c cs =>
      obtain ⟨rfl, -⟩ := List.cons.inj hcs
      exact hf pre f cs rfl

theorem Disciplined.single (hq : ¬ f.IsPoll → f.Quiet) (hc : ¬ f.Changes) : Disciplined [f] := by
  intro pre g post h
  cases pre with
  | nil =>
    obtain ⟨rfl, -⟩ := List.cons.inj h
    exact ⟨hq, fun h => absurd h hc⟩
  | cons a pre => simp at h

theorem Disciplined.work : Disciplined [Frame.quiet [0x06], Frame.quiet rx] := by
  intro pre f post h
  match pre, h with
  | [], h =>
    obtain ⟨rfl, -⟩ := List.cons.inj h
    refine ⟨fun _ => Frame.quiet_quiet, ?_⟩
    rintro ⟨cmd, hcmd, hf⟩
    rw [Frame.sent_quiet, List.head?_cons, Option.some.injEq] at hf
    subst hf
    exact absurd hcmd (by decide)
  | [a], h =>
    obtain ⟨rfl, h'⟩ := List.cons.inj h
    obtain ⟨rfl, -⟩ := List.cons.inj h'
    exact ⟨fun _ => Frame.quiet_quiet, fun _ => ⟨[], _, rfl, Frame.sent_quiet⟩⟩
  | a :: b :: pre, h => simp at h

end Disciplined

/-! ## What a call leaves behind -/

/-- A call from `s` that returns, with disciplined frames on the bus and the chip
idle and released. -/
def Leaves (s : Bus) (r : Option Bus) : Prop :=
  ∃ s' fs, r = some s' ∧ Idle s' ∧ s'.bus = s.bus ++ fs.flatMap Frame.events ∧ Disciplined fs

section Leaves
variable {s t : Bus} {rx : List Byte} {r : Option Bus}

theorem Leaves.skip (h : Idle s) : Leaves s (some s) :=
  ⟨s, [], rfl, h, by simp, .nil⟩

/-- **One call after another.** -/
theorem Leaves.bind {k : Bus → Option Bus} (hr : Leaves s r) (hk : ∀ s', Idle s' → Leaves s' (k s')) :
    Leaves s (r.bind k) := by
  obtain ⟨s', fs, rfl, hi, hbus, hd⟩ := hr
  obtain ⟨s'', gs, hk, hi', hbus', hd'⟩ := hk s' hi
  refine ⟨s'', fs ++ gs, hk, hi', ?_, hd.append hd'⟩
  rw [hbus', hbus, List.flatMap_append, List.append_assoc]

theorem leaves_checkBusy (h : Idle s) : Leaves s (spiCheckBusy s) := by
  obtain ⟨s', f, hs, hdev, hpoll, hbus⟩ := spiCheckBusy_spec h.free
  refine ⟨s', [f], hs, ⟨by rw [hdev], by rw [hdev]; exact h.free⟩, ?_,
    .single (fun hn => absurd hpoll hn) (Frame.IsPoll.not_changes hpoll)⟩
  rw [hbus, List.flatMap_singleton]

theorem leaves_frame {cmd : Byte} (h : Idle s) (hf : InFrame s t rx)
    (hhead : rx.head? = some cmd) (hcmd : cmd ∉ [0x02, 0xD8, 0xC7, 0x01]) :
    Leaves s (some (spiDeselectCS0 t)) := by
  obtain ⟨hdev, hbus⟩ := hf.deselect h
  refine ⟨_, [Frame.quiet rx], rfl, ⟨by rw [hdev, Nor.busy_execute hhead hcmd, h.busy], ?_⟩, ?_,
    .single (fun _ => Frame.quiet_quiet) ?_⟩
  · rw [hdev, Nor.frame_execute, h.free]
  · rw [hbus, List.flatMap_singleton]
  · rintro ⟨c, hm, hc⟩
    rw [Frame.sent_quiet, hhead, Option.some.injEq] at hc
    exact hcmd (hc ▸ hm)

theorem leaves_work (h : Idle s) (hf : InFrame (spiWriteEnable s) t rx) :
    Leaves s (spiCheckBusy (spiDeselectCS0 t)) := by
  obtain ⟨s', f, hs, -, hpoll, hbus, hi⟩ := work_spec h hf
  exact ⟨s', _, hs, hi, hbus, Disciplined.work.append
    (.single (fun hn => absurd hpoll hn) (Frame.IsPoll.not_changes hpoll))⟩

theorem leaves_writeEnable (h : Idle s) : Leaves s (some (spiWriteEnable s)) :=
  leaves_frame h ((InFrame.select h).transit h 0x06 8) rfl (by decide)

theorem leaves_writeDisable (h : Idle s) : Leaves s (some (spiWriteDisable s)) :=
  leaves_frame h ((InFrame.select h).transit h 0x04 8) rfl (by decide)

theorem leaves_read (h : Idle s) (addr len : BitVec 32) :
    Leaves s ((spiRead addr len s).map Prod.snd) := by
  have hr : (spiRead addr len s).map Prod.snd = (spiCheckBusy s).bind fun s =>
      some (spiDeselectCS0 (readData len.toNat
        (transit addr 24 (transit 0x03 8 (spiSelectCS0 s)))).2) := by
    simp only [spiRead, Option.bind_eq_bind, Option.map_bind]
    rfl
  rw [hr]
  refine (leaves_checkBusy h).bind fun s h => leaves_frame h
    ((((InFrame.select h).transit h 0x03 8).transit h addr 24).readData h len.toNat).2 rfl ?_
  decide

theorem leaves_readFast (h : Idle s) (addr len : BitVec 32) :
    Leaves s ((spiReadFast addr len s).map Prod.snd) := by
  have hr : (spiReadFast addr len s).map Prod.snd = (spiCheckBusy s).bind fun s =>
      some (spiDeselectCS0 (readData len.toNat
        (transit 0xFF 8 (transit addr 24 (transit 0x0B 8 (spiSelectCS0 s))))).2) := by
    simp only [spiReadFast, Option.bind_eq_bind, Option.map_bind]
    rfl
  rw [hr]
  refine (leaves_checkBusy h).bind fun s h => leaves_frame h
    (((((InFrame.select h).transit h 0x0B 8).transit h addr 24).transit h 0xFF 8).readData h
      len.toNat).2 rfl ?_
  decide

theorem leaves_readID (h : Idle s) : Leaves s (some (spiReadID s).2) :=
  leaves_frame h ((((InFrame.select h).transit h 0x90 8).transit h 0 24).transit h 0xFFFF 16) rfl
    (by decide)

theorem leaves_statusRead (h : Idle s) : Leaves s (some (spiStatusRead s).2) :=
  leaves_frame h (((InFrame.select h).transit h 0x05 8).transit h 0xFF 8) rfl (by decide)

theorem leaves_writePages (h : Idle s) (addr : BitVec 32) (buf : Nat → Byte) (n i len k : Nat) :
    Leaves s (writePages addr buf n i len k s) := by
  induction n generalizing s i len k with
  | zero => exact .skip h
  | succ n ih =>
    have hw := h.writeEnable
    exact (leaves_work h ((((InFrame.select hw).transit hw 0x02 8).transit hw _ 24).writeData hw
      buf _ k)).bind fun s' h' => ih h' ..

theorem leaves_write (h : Idle s) (addr len : BitVec 32) (buf : Nat → Byte) :
    Leaves s (spiWrite addr len buf s) :=
  (leaves_checkBusy h).bind fun _ h' => leaves_writePages h' ..

theorem leaves_eraseSectors (h : Idle s) (addr : BitVec 32) (n i : Nat) :
    Leaves s (eraseSectors addr n i s) := by
  induction n generalizing s i with
  | zero => exact .skip h
  | succ n ih =>
    have hw := h.writeEnable
    exact (leaves_work h (((InFrame.select hw).transit hw 0xD8 8).transit hw _ 24)).bind
      fun s' h' => ih h' ..

theorem leaves_eraseSector (h : Idle s) (addr secCount : BitVec 32) :
    Leaves s (spiEraseSector addr secCount s) :=
  (leaves_checkBusy h).bind fun _ h' => leaves_eraseSectors h' ..

theorem leaves_eraseAll (h : Idle s) : Leaves s (spiEraseAll s) :=
  leaves_work h ((InFrame.select h.writeEnable).transit h.writeEnable 0xC7 8)

theorem leaves_statusWrite (h : Idle s) (data : Byte) : Leaves s (spiStatusWrite data s) :=
  leaves_work h (((InFrame.select h.writeEnable).transit h.writeEnable 0x01 8).transit
    h.writeEnable (data.setWidth 32) 8)

end Leaves

/-! ## Sequences of calls -/

inductive Call where
  | read (addr len : BitVec 32)
  | readFast (addr len : BitVec 32)
  | write (addr len : BitVec 32) (buf : Nat → Byte)
  | eraseSector (addr secCount : BitVec 32)
  | eraseAll
  | statusRead
  | statusWrite (data : Byte)
  | readID
  | writeEnable
  | writeDisable

def call (s : Bus) : Call → Option Bus
  | .read addr len => (spiRead addr len s).map Prod.snd
  | .readFast addr len => (spiReadFast addr len s).map Prod.snd
  | .write addr len buf => spiWrite addr len buf s
  | .eraseSector addr secCount => spiEraseSector addr secCount s
  | .eraseAll => spiEraseAll s
  | .statusRead => some (spiStatusRead s).2
  | .statusWrite data => spiStatusWrite data s
  | .readID => some (spiReadID s).2
  | .writeEnable => some (spiWriteEnable s)
  | .writeDisable => some (spiWriteDisable s)

theorem leaves_call {s : Bus} (h : Idle s) (c : Call) : Leaves s (call s c) := by
  cases c with
  | read addr len => exact leaves_read h addr len
  | readFast addr len => exact leaves_readFast h addr len
  | write addr len buf => exact leaves_write h addr len buf
  | eraseSector addr secCount => exact leaves_eraseSector h addr secCount
  | eraseAll => exact leaves_eraseAll h
  | statusRead => exact leaves_statusRead h
  | statusWrite data => exact leaves_statusWrite h data
  | readID => exact leaves_readID h
  | writeEnable => exact leaves_writeEnable h
  | writeDisable => exact leaves_writeDisable h

theorem leaves_run {s : Bus} (h : Idle s) (calls : List Call) : Leaves s (run call s calls) := by
  induction calls using List.reverseRecOn with
  | nil => exact .skip h
  | append_singleton calls c ih =>
    rw [run_concat]
    exact ih.bind fun s' h' => leaves_call h' c

/-- **Command discipline.** From an idle chip every sequence of calls returns, however
long the chip takes for its work. The bus has then seen whole frames, none inside
another, and no frame is left open; they are disciplined. -/
theorem spi_discipline (s : Bus) (calls : List Call) (h : Idle s) :
    ∃ s' fs, run call s calls = some s' ∧ s'.dev.frame = none ∧ s'.dev.busy = 0 ∧
      s'.bus = s.bus ++ fs.flatMap Frame.events ∧ Disciplined fs := by
  obtain ⟨s', fs, hr, hi, hbus, hd⟩ := leaves_run h calls
  exact ⟨s', fs, hr, hi.free, hi.busy, hbus, hd⟩

theorem spi_discipline_fresh :
    ∃ s' fs, run call freshBus [.eraseAll, .write 0 4 (fun _ => 0), .read 0 4] = some s' ∧
      s'.dev.frame = none ∧ s'.dev.busy = 0 ∧
      s'.bus = freshBus.bus ++ fs.flatMap Frame.events ∧ Disciplined fs :=
  spi_discipline freshBus _ ⟨rfl, rfl⟩

end N32905.Spi
