import Mathlib.Tactic.Ring
import N32905.JpegCodec.EngineBuffer

/-!
# Writes to the frame buffer

`main` maps `uVideoSize` bytes, the pixels of the panel. What the tests write there
is measured otherwise: the clearing by the engine's buffer, the copy by the decoded
image, and the window of `TEST_DECODE_DOWNSCALE_FB` by a centred rectangle of 320 x
240 whose position is a difference of unsigned numbers.

Offsets are relative to `pVideoBuffer`. The engine writes upwards from the address
it gets, so a position before the buffer is a large offset.
-/

namespace N32905.JpegCodec

open N32905.Lib

/-! ## The model -/

/-- A panel whose pixels of two bytes are mapped. -/
structure Panel where
  xres : BitVec 32
  yres : BitVec 32
  mapped : 2 * xres.toNat * yres.toNat < 2 ^ 32

namespace Panel

def uVideoSize (p : Panel) : BitVec 32 := p.xres * p.yres * 2

/-- `u32OutputOffset` for RGB565. -/
def u32OutputOffset (p : Panel) : BitVec 32 :=
  (p.xres * ((p.yres - 240) / 2) + (p.xres - 320) / 2) * 2

/-- What the engine writes at `vaddr_dst`: 240 rows of 320 pixels, `xres` pixels
apart. -/
def window (p : Panel) : List Span :=
  (List.range 240).map fun r => ⟨p.u32OutputOffset.toNat + 2 * p.xres.toNat * r, 640⟩

end Panel

structure DecodeRun (p : Panel) where
  opened : Bool
  loaded : Bool
  paramSet : Bool
  triggered : Bool
  infoRead : Bool
  decoded : Bool
  image_size : BitVec 32
  /-- The engine produces at most 240 rows. -/
  produced : image_size.toNat ≤ 2 * p.xres.toNat * 240

/-- The writes of `jpegCodec` to `pVideoBuffer`. -/
def jpegCodecWrites (p : Panel) (jpeg_buffer_size : BitVec 32) (mode : DecodeMode)
    (run : DecodeRun p) : List Span :=
  let BufferSize := (jpegCodecDecodeSizes mode).total
  if BufferSize.toNat > jpeg_buffer_size.toNat then []
  else
    (if mode = .downscale ∨ mode = .downscaleFb then [⟨0, BufferSize.toNat⟩] else []) ++
    if run.opened && run.loaded && run.paramSet && run.triggered then
      (if mode = .downscaleFb then p.window else []) ++
      if run.infoRead && run.decoded && mode = .downscale then [⟨0, run.image_size.toNat⟩] else []
    else []

/-- The sizes of `jpegCodecIPW`. -/
def jpegCodecIPWSizes : BufSizes := ⟨16 * 1024, 640 * 480 * 2⟩

/-- The writes of `jpegCodecIPW` to `pVideoBuffer`. The parameters are set before the
buffer is cleared; `triggered` says that the feeding loop is left by its `break`. -/
def jpegCodecIPWWrites (p : Panel) (jpeg_buffer_size : BitVec 32) (mode : DecodeMode)
    (run : DecodeRun p) : List Span :=
  let BufferSize := jpegCodecIPWSizes.total
  if !(run.opened && run.paramSet) || BufferSize.toNat > jpeg_buffer_size.toNat then []
  else
    (if mode = .downscale then [⟨0, BufferSize.toNat⟩] else []) ++
    if run.triggered && run.infoRead && run.decoded && mode = .downscale then
      [⟨0, run.image_size.toNat⟩]
    else []

def OnPanel (p : Panel) (writes : DecodeRun p → List Span) : Prop :=
  ∀ run, ∀ w ∈ writes run, w.Inside p.uVideoSize.toNat

/-! ## The window -/

section Window
variable (p : Panel)

theorem uVideoSize_toNat : p.uVideoSize.toNat = 2 * (p.xres.toNat * p.yres.toNat) := by
  have h2 : (2 : BitVec 32).toNat = 2 := rfl
  have hmap := p.mapped
  rw [Nat.mul_assoc] at hmap
  simp only [Panel.uVideoSize, BitVec.toNat_mul, h2]
  generalize p.xres.toNat * p.yres.toNat = v at hmap ⊢
  omega

/-- Rows above the window: twice as many and the window fit the panel. -/
theorem rows_above (h : 240 ≤ p.yres.toNat) :
    2 * (p.xres.toNat * ((p.yres.toNat - 240) / 2)) + 240 * p.xres.toNat ≤
      p.xres.toNat * p.yres.toNat := by
  have hrows : 2 * ((p.yres.toNat - 240) / 2) + 240 ≤ p.yres.toNat := by omega
  calc 2 * (p.xres.toNat * ((p.yres.toNat - 240) / 2)) + 240 * p.xres.toNat
      = p.xres.toNat * (2 * ((p.yres.toNat - 240) / 2) + 240) := by ring
    _ ≤ p.xres.toNat * p.yres.toNat := Nat.mul_le_mul_left _ hrows

/-- The position of the window: left of a row's start on a panel narrower than 320. -/
theorem u32OutputOffset_toNat (h : 240 ≤ p.yres.toNat) :
    p.u32OutputOffset.toNat = if 320 ≤ p.xres.toNat then
        2 * (p.xres.toNat * ((p.yres.toNat - 240) / 2)) + (p.xres.toNat - 320) / 2 * 2
      else (2 * (p.xres.toNat * ((p.yres.toNat - 240) / 2)) + 2 ^ 32 -
        2 * ((321 - p.xres.toNat) / 2)) % 2 ^ 32 := by
  have h2 : (2 : BitVec 32).toNat = 2 := rfl
  have h240 : (240 : BitVec 32).toNat = 240 := rfl
  have h320 : (320 : BitVec 32).toNat = 320 := rfl
  have hx := p.xres.isLt
  have hy := p.yres.isLt
  have hmap := p.mapped
  have habove := rows_above p h
  rw [Nat.mul_assoc] at hmap
  have hrow : (2 ^ 32 - 240 + p.yres.toNat) % 2 ^ 32 / 2 = (p.yres.toNat - 240) / 2 := by omega
  simp only [Panel.u32OutputOffset, BitVec.toNat_mul, BitVec.toNat_add, BitVec.toNat_sub,
    BitVec.toNat_udiv, h2, h240, h320, hrow]
  generalize p.xres.toNat * p.yres.toNat = v at hmap habove
  generalize p.xres.toNat * ((p.yres.toNat - 240) / 2) = m at habove ⊢
  split <;> omega

/-- **The window** is on the panel when its rows are, and a narrow panel has the bytes
it starts too early above it. -/
theorem window_inside_iff : (∀ w ∈ p.window, w.Inside p.uVideoSize.toNat) ↔
    240 ≤ p.yres.toNat ∧
      (321 - p.xres.toNat) / 2 ≤ p.xres.toNat * ((p.yres.toNat - 240) / 2) := by
  have hmap := p.mapped
  rw [Nat.mul_assoc] at hmap
  have hrow : ∀ r < 240, ⟨p.u32OutputOffset.toNat + 2 * p.xres.toNat * r, 640⟩ ∈ p.window :=
    fun r hr => List.mem_map_of_mem (List.mem_range.2 hr)
  constructor
  · intro hall
    have hlast := hall _ (hrow 239 (by decide))
    have hfirst := hall _ (hrow 0 (by decide))
    rw [Span.Inside, uVideoSize_toNat] at hlast hfirst
    dsimp only at hlast hfirst
    have hy : 240 ≤ p.yres.toNat := by
      rw [← Nat.not_lt]
      intro hlt
      have := Nat.mul_le_mul_left p.xres.toNat (show p.yres.toNat ≤ 239 by omega)
      omega
    refine ⟨hy, ?_⟩
    rw [u32OutputOffset_toNat p hy] at hfirst
    generalize p.xres.toNat * p.yres.toNat = v at hmap hfirst
    generalize p.xres.toNat * ((p.yres.toNat - 240) / 2) = m at hfirst ⊢
    split at hfirst <;> omega
  · rintro ⟨hy, hleft⟩ w hw
    obtain ⟨r, hr, rfl⟩ := List.mem_map.1 hw
    have hle := Nat.mul_le_mul_left (2 * p.xres.toNat)
      (show r ≤ 239 from Nat.le_of_lt_succ (List.mem_range.1 hr))
    have habove := rows_above p hy
    rw [Span.Inside, uVideoSize_toNat, u32OutputOffset_toNat p hy]
    dsimp only
    generalize p.xres.toNat * p.yres.toNat = v at hmap habove ⊢
    generalize p.xres.toNat * ((p.yres.toNat - 240) / 2) = m at habove hleft ⊢
    generalize 2 * p.xres.toNat * r = d at hle ⊢
    split <;> omega

/-- A panel with room for the clearing has room for the window if it has its rows. -/
theorem window_of_cleared (hclear : 630784 ≤ 2 * (p.xres.toNat * p.yres.toNat))
    (hy : 240 ≤ p.yres.toNat) :
    (321 - p.xres.toNat) / 2 ≤ p.xres.toNat * ((p.yres.toNat - 240) / 2) := by
  rcases Nat.lt_or_ge 320 p.xres.toNat with hx | hx
  · omega
  · -- the product is twice the rows above, the window and a row at most
    have hrows : p.yres.toNat ≤ 2 * ((p.yres.toNat - 240) / 2) + 241 := by omega
    have hmul := Nat.mul_le_mul_left p.xres.toNat hrows
    have hring : p.xres.toNat * (2 * ((p.yres.toNat - 240) / 2) + 241) =
        2 * (p.xres.toNat * ((p.yres.toNat - 240) / 2)) + 241 * p.xres.toNat := by ring
    omega

end Window

/-! ## Clearing and copying -/

section Writes
variable (p : Panel)

/-- The decoded image fits a panel that is not empty when its rows do. -/
theorem copy_inside_iff (hpos : 0 < p.xres.toNat * p.yres.toNat) :
    (∀ n : BitVec 32, n.toNat ≤ 2 * p.xres.toNat * 240 →
        n.toNat ≤ 2 * (p.xres.toNat * p.yres.toNat)) ↔ 240 ≤ p.yres.toNat := by
  have hmap := p.mapped
  rw [Nat.mul_assoc] at hmap
  constructor
  · intro hall
    rw [← Nat.not_lt]
    intro hlt
    -- one byte more than the panel has
    have hle := Nat.mul_le_mul_left p.xres.toNat (show p.yres.toNat ≤ 239 by omega)
    have hn : (BitVec.ofNat 32 (2 * (p.xres.toNat * p.yres.toNat) + 1)).toNat =
        2 * (p.xres.toNat * p.yres.toNat) + 1 := by
      rw [BitVec.toNat_ofNat]
      omega
    have := hall (BitVec.ofNat 32 (2 * (p.xres.toNat * p.yres.toNat) + 1)) (by rw [hn]; omega)
    omega
  · intro hy n hn
    have := Nat.mul_le_mul_left p.xres.toNat hy
    omega

def fullRun (n : BitVec 32) (h : n.toNat ≤ 2 * p.xres.toNat * 240) : DecodeRun p :=
  ⟨true, true, true, true, true, true, n, h⟩

structure ClearAndCopy (total : Nat) : Prop where
  clear : total ≤ 2 * (p.xres.toNat * p.yres.toNat)
  rows : 240 ≤ p.yres.toNat

variable {p}

/-- Nothing is written with a buffer smaller than `total`. Else there are a clearing of
`total` bytes and a copy: both are made in a full run, and nothing else in any. -/
theorem onPanel_copy_iff {writes : DecodeRun p → List Span} {total size : Nat} (ht : 0 < total)
    (hnone : size < total → ∀ run, writes run = [])
    (hfull : total ≤ size → ∀ n h, writes (fullRun p n h) = [⟨0, total⟩, ⟨0, n.toNat⟩])
    (hany : total ≤ size → ∀ run, ∀ w ∈ writes run,
      w = ⟨0, total⟩ ∨ w = ⟨0, run.image_size.toNat⟩) :
    OnPanel p writes ↔ size < total ∨ ClearAndCopy p total := by
  have hsize := uVideoSize_toNat p
  rcases Nat.lt_or_ge size total with hlt | hge
  · refine ⟨fun _ => .inl hlt, fun _ run w hw => ?_⟩
    rw [hnone hlt] at hw
    cases hw
  · constructor
    · intro hon
      have hw : ∀ n : BitVec 32, n.toNat ≤ 2 * p.xres.toNat * 240 →
          total ≤ 2 * (p.xres.toNat * p.yres.toNat) ∧
            n.toNat ≤ 2 * (p.xres.toNat * p.yres.toNat) := by
        intro n h
        have hrun := hon (fullRun p n h)
        rw [hfull hge, List.forall_mem_cons, List.forall_mem_singleton] at hrun
        simpa only [Span.Inside, Nat.zero_add, hsize] using hrun
      have hclear := (hw 0 (Nat.zero_le _)).1
      exact .inr ⟨hclear, (copy_inside_iff p (by omega)).1 fun n h => (hw n h).2⟩
    · rintro (hlt | hroom) run w hw
      · omega
      · have hclear := hroom.clear
        have hcopy := (copy_inside_iff p (by omega)).2 hroom.rows run.image_size run.produced
        rw [Span.Inside, hsize]
        rcases hany hge run w hw with rfl | rfl
        · exact (Nat.zero_add _).trans_le hclear
        · exact (Nat.zero_add _).trans_le hcopy

variable (p) (size : BitVec 32)

theorem jpegCodec_downscale_iff : OnPanel p (jpegCodecWrites p size .downscale) ↔
    size.toNat < 716800 ∨ ClearAndCopy p 716800 := by
  have htotal : (jpegCodecDecodeSizes .downscale).total.toNat = 716800 := by decide
  have hwrites : 716800 ≤ size.toNat → ∀ run, jpegCodecWrites p size .downscale run =
      ⟨0, 716800⟩ :: if run.opened && run.loaded && run.paramSet && run.triggered then
        if run.infoRead && run.decoded then [⟨0, run.image_size.toNat⟩] else [] else [] := by
    intro hge run
    rw [jpegCodecWrites, if_neg (by rw [htotal]; omega), htotal]
    simp
  refine onPanel_copy_iff (by decide) (fun hlt run => ?_) (fun hge n h => ?_) fun hge run w hw => ?_
  · rw [jpegCodecWrites, if_pos (by rw [htotal]; exact hlt)]
  · rw [hwrites hge]
    rfl
  · rw [hwrites hge] at hw
    rcases List.mem_cons.1 hw with rfl | hw
    · exact .inl rfl
    · split at hw
      · split at hw
        · exact .inr (List.mem_singleton.1 hw)
        · cases hw
      · cases hw

theorem jpegCodecIPW_downscale_iff : OnPanel p (jpegCodecIPWWrites p size .downscale) ↔
    size.toNat < 630784 ∨ ClearAndCopy p 630784 := by
  have htotal : jpegCodecIPWSizes.total.toNat = 630784 := by decide
  have hwrites : 630784 ≤ size.toNat → ∀ run, jpegCodecIPWWrites p size .downscale run =
      if run.opened && run.paramSet then
        ⟨0, 630784⟩ :: if run.triggered && run.infoRead && run.decoded then
          [⟨0, run.image_size.toNat⟩] else []
      else [] := by
    intro hge run
    have hnot : ¬ 630784 > size.toNat := by omega
    rw [jpegCodecIPWWrites, htotal]
    cases run.opened && run.paramSet <;> simp [hnot]
  refine onPanel_copy_iff (by decide) (fun hlt run => ?_) (fun hge n h => ?_) fun hge run w hw => ?_
  · rw [jpegCodecIPWWrites, htotal]
    simp [hlt]
  · rw [hwrites hge]
    rfl
  · rw [hwrites hge] at hw
    split at hw
    · rcases List.mem_cons.1 hw with rfl | hw
      · exact .inl rfl
      · split at hw
        · exact .inr (List.mem_singleton.1 hw)
        · cases hw
    · cases hw

/-- With the window in place of the copy the condition is the same: a panel that can be
cleared is large enough for the window if it has the rows. -/
theorem jpegCodec_downscaleFb_iff : OnPanel p (jpegCodecWrites p size .downscaleFb) ↔
    size.toNat < 716800 ∨ ClearAndCopy p 716800 := by
  have htotal : (jpegCodecDecodeSizes .downscaleFb).total.toNat = 716800 := by decide
  have hsize := uVideoSize_toNat p
  rcases Nat.lt_or_ge size.toNat 716800 with hlt | hge
  · refine ⟨fun _ => .inl hlt, fun _ run w hw => ?_⟩
    rw [jpegCodecWrites, if_pos (by rw [htotal]; exact hlt)] at hw
    cases hw
  · have hwrites : ∀ run, jpegCodecWrites p size .downscaleFb run = ⟨0, 716800⟩ ::
        if run.opened && run.loaded && run.paramSet && run.triggered then p.window else [] := by
      intro run
      rw [jpegCodecWrites, if_neg (by rw [htotal]; omega), htotal]
      simp
    constructor
    · intro hon
      have hrun := hon (fullRun p 0 (Nat.zero_le _))
      rw [hwrites, List.forall_mem_cons, Span.Inside, hsize, Nat.zero_add, ← hsize] at hrun
      obtain ⟨hclear, hwindow⟩ := hrun
      rw [hsize] at hclear
      exact .inr ⟨hclear, ((window_inside_iff p).1 hwindow).1⟩
    · rintro (hlt | hroom) run w hw
      · omega
      · have hclear := hroom.clear
        rw [hwrites] at hw
        rcases List.mem_cons.1 hw with rfl | hw
        · rw [Span.Inside, hsize]
          omega
        · split at hw
          · refine (window_inside_iff p).2 ⟨hroom.rows, window_of_cleared p ?_ hroom.rows⟩ w hw
            omega
          · cases hw

theorem jpegCodec_other {mode : DecodeMode} (h1 : mode ≠ .downscale) (h2 : mode ≠ .downscaleFb) :
    OnPanel p (jpegCodecWrites p size mode) := by
  intro run w hw
  simp [jpegCodecWrites, h1, h2] at hw

theorem jpegCodecIPW_other {mode : DecodeMode} (h : mode ≠ .downscale) :
    OnPanel p (jpegCodecIPWWrites p size mode) := by
  intro run w hw
  simp [jpegCodecIPWWrites, h] at hw

end Writes

/-- **Writes to the frame buffer.** The downscaling tests stay on the panel exactly when
the engine's buffer is too small for them to start, or the panel has as many bytes as
they clear and 240 rows. The other modes write nothing there. The window alone needs
240 rows, and on a panel narrower than 320 the pixels it starts too early. -/
theorem frameBuffer_onPanel_iff (p : Panel) (size : BitVec 32) :
    (∀ mode, OnPanel p (jpegCodecWrites p size mode) ↔
      (mode ≠ .downscale ∧ mode ≠ .downscaleFb) ∨ size.toNat < 716800 ∨
        (716800 ≤ 2 * (p.xres.toNat * p.yres.toNat) ∧ 240 ≤ p.yres.toNat)) ∧
    (∀ mode, OnPanel p (jpegCodecIPWWrites p size mode) ↔
      mode ≠ .downscale ∨ size.toNat < 630784 ∨
        (630784 ≤ 2 * (p.xres.toNat * p.yres.toNat) ∧ 240 ≤ p.yres.toNat)) ∧
    ((∀ w ∈ p.window, w.Inside p.uVideoSize.toNat) ↔ 240 ≤ p.yres.toNat ∧
      (321 - p.xres.toNat) / 2 ≤ p.xres.toNat * ((p.yres.toNat - 240) / 2)) := by
  have hroom : ∀ total, ClearAndCopy p total ↔
      total ≤ 2 * (p.xres.toNat * p.yres.toNat) ∧ 240 ≤ p.yres.toNat :=
    fun total => ⟨fun h => ⟨h.clear, h.rows⟩, fun h => ⟨h.1, h.2⟩⟩
  refine ⟨fun mode => ?_, fun mode => ?_, window_inside_iff p⟩
  · cases mode with
    | downscale => simp [jpegCodec_downscale_iff, hroom]
    | downscaleFb => simp [jpegCodec_downscaleFb_iff, hroom]
    | normal | outputWait => simp [jpegCodec_other]
  · cases mode with
    | downscale => simp [jpegCodecIPW_downscale_iff, hroom]
    | normal | outputWait | downscaleFb => simp [jpegCodecIPW_other]

/-- The panel of 320 x 240 has 153600 bytes, and the test clears 716800. -/
theorem qvga_cleared_outside :
    let p : Panel := ⟨320, 240, by decide⟩
    p.uVideoSize = 153600 ∧
      ⟨0, 716800⟩ ∈ jpegCodecWrites p 0x100000 .downscaleFb (fullRun p 0 (by decide)) ∧
      ¬ OnPanel p (jpegCodecWrites p 0x100000 .downscaleFb) := by
  intro p
  have hmem : ⟨0, 716800⟩ ∈ jpegCodecWrites p 0x100000 .downscaleFb (fullRun p 0 (by decide)) := by
    rw [jpegCodecWrites, if_neg (by decide)]
    exact List.mem_append_left _ List.mem_cons_self
  refine ⟨by decide, hmem, fun h => ?_⟩
  exact absurd (h _ _ hmem) (by decide)

end N32905.JpegCodec
