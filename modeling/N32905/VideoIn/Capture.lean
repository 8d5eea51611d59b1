import N32905.VideoIn.Dsc
import N32905.VideoIn.JpegEnc
import N32905.VideoIn.V4l

/-!
# `CaptureImage`

The capture of `vin_demo.c` turns the preview off and on again, takes the current frame,
encodes it, and stops the capture while the picture is saved. Where a step fails it goes
to its end, which starts the capture, or returns at once.

The calls that start and stop succeed. The frame buffer and the pauses are left out.
-/

namespace N32905.VideoIn

/-! ## The model -/

/-- The video device, with preview and capture on or off and its window, and what the
encoder and `dsc.c` keep. -/
structure Camera where
  vid : VidData
  preview : Bool
  capture : Bool
  crop : Rect
  param : JpegParam
  dsc : Dsc

def startV4LCapture (c : Camera) : Camera :=
  { c with capture := true, vid := { c.vid with i32VidFrame := 0 } }

def stopV4LCapture (c : Camera) : Camera := { c with capture := false }

def startPreview (c : Camera) : Camera := { c with preview := true }

def stopPreview (c : Camera) : Camera := { c with preview := false }

/-- What a call meets, in the order it meets it. -/
structure CaptureEnv where
  /-- `f_bavail` and `f_bsize`, if `statfs` succeeds. -/
  statfs : Option (BitVec 64 × BitVec 64)
  /-- What `u32PicPhyAdr` holds before it is set. -/
  uninit : BitVec 32
  sync : Nat → SyncResult
  buff : V4l2Buff
  zoom : ZoomCall
  enc : EncEnv
  nextSync : Nat → SyncResult
  mcapture : Bool
  cap : CapEnv
  /-- What `write` brings into the file. -/
  written : List Lib.Byte
  index : IndexWrite

section
variable (resol : ImageResol) (thb : JpegEncThb) (env : CaptureEnv)

def savePicture (folder : Path) (avail : BitVec 64) (len : BitVec 32) (c : Camera) : Camera :=
  if avail ≤ len.setWidth 64 then c
  else
    match newCapFile folder env.cap c.dsc with
    | (.failed _, dsc) => { c with dsc := dsc }
    | (.opened path _, dsc) =>
      let dsc := { dsc with files := Function.update dsc.files path (some env.written) }
      { c with dsc := closeCapFile folder env.index dsc }

/-- Behind `JpegEncFromVIN`. -/
def nextAndSave (folder : Path) (avail : BitVec 64) (len : BitVec 32) (c : Camera) : Camera :=
  let c := { c with vid := (triggerV4LNextFrame c.vid env.nextSync env.mcapture).vid }
  savePicture env folder avail len (stopV4LCapture c)

/-- The camera after the call, and the picture address of each call of `JpegEncFromVIN`:
`none` is the variable as it was before it was set. -/
def captureImage (pchSaveFolder : Option Path) (c : Camera) :
    Camera × List (Option (BitVec 32)) :=
  match pchSaveFolder with
  | none => (c, [])
  | some folder =>
    let c := stopPreview c
    match env.statfs with
    | none => (c, [])
    | some (f_bavail, f_bsize) =>
      let c := startPreview c
      let u32PicPhyAdr := (readV4LPicture c.vid env.sync env.buff).bufPhyAddr
      match queryV4LZoomInfo c.crop env.zoom with
      | (_, none) => (startV4LCapture c, [])
      | (_, some crop) =>
        let enc := jpegEncFromVIN resol crop (u32PicPhyAdr.getD env.uninit) thb env.enc c.param
        let c := { c with param := enc.param }
        match enc.len with
        | none => (startV4LCapture c, [u32PicPhyAdr])
        | some len =>
          (startV4LCapture (nextAndSave env folder (f_bavail * f_bsize) len c), [u32PicPhyAdr])

end

/-! ## The paths -/

section Paths
variable {env : CaptureEnv} {folder : Path}

/-- Preview and capture are on, and only a picture that `ReadV4LPicture` delivered in this
call was encoded. -/
structure Restored (env : CaptureEnv) (c : Camera) (out : Camera × List (Option (BitVec 32))) :
    Prop where
  preview : out.1.preview = true
  capture : out.1.capture = true
  encodes : ∀ pic ∈ out.2, (readV4LPicture c.vid env.sync env.buff).err = .success ∧
    pic.isSome ∧ pic = (readV4LPicture c.vid env.sync env.buff).bufPhyAddr

/-- `ReadV4LPicture` succeeds if one of a hundred attempts is not to be made again. -/
def ReadsFrame (sync : Nat → SyncResult) : Prop := ∃ i < 100, (sync i).again = false

theorem readV4LPicture_success_iff (vid : VidData) (sync : Nat → SyncResult) (buff : V4l2Buff) :
    (readV4LPicture vid sync buff).err = .success ∧
      (readV4LPicture vid sync buff).bufPhyAddr.isSome ↔ ReadsFrame sync := by
  unfold readV4LPicture
  rcases syncLoop_cases sync 100 0 with ⟨k, ⟨-, hlt, -, hk⟩, hloop⟩ | ⟨hall, hloop⟩
  · rw [hloop]
    exact iff_of_true ⟨rfl, rfl⟩ ⟨k, by omega, hk⟩
  · rw [hloop]
    refine iff_of_false (fun h => nomatch h.1) ?_
    rintro ⟨i, hi, hagain⟩
    rw [hall i (Nat.zero_le i) (by omega)] at hagain
    cases hagain

theorem savePicture_preview (avail : BitVec 64) (len : BitVec 32) (c : Camera) :
    (savePicture env folder avail len c).preview = c.preview := by
  unfold savePicture
  split
  · rfl
  · split <;> rfl

theorem queryV4LZoomInfo_none_iff (crop : Rect) (call : ZoomCall) :
    (queryV4LZoomInfo crop call).2 = none ↔ call.cropcap = false ∨ call.gCrop = false := by
  unfold queryV4LZoomInfo
  cases call.cropcap <;> cases call.gCrop <;> simp

theorem captureImage_on (resol : ImageResol) (thb : JpegEncThb) (folder : Path) (c : Camera)
    {f : BitVec 64 × BitVec 64} (hf : env.statfs = some f) :
    (captureImage resol thb env (some folder) c).1.preview = true ∧
      (captureImage resol thb env (some folder) c).1.capture = true := by
  unfold captureImage
  rw [hf]
  dsimp only
  split
  · exact ⟨rfl, rfl⟩
  · split
    · exact ⟨rfl, rfl⟩
    · exact ⟨savePicture_preview _ _ _, rfl⟩

/-- What is encoded: the picture address, where the window can be had. -/
theorem captureImage_encodes (resol : ImageResol) (thb : JpegEncThb) (folder : Path) (c : Camera)
    {f : BitVec 64 × BitVec 64} (hf : env.statfs = some f) :
    (captureImage resol thb env (some folder) c).2 =
      if env.zoom.cropcap = false ∨ env.zoom.gCrop = false then []
      else [(readV4LPicture c.vid env.sync env.buff).bufPhyAddr] := by
  have hzoom := queryV4LZoomInfo_none_iff (startPreview (stopPreview c)).crop env.zoom
  unfold captureImage
  rw [hf]
  dsimp only
  split
  · rename_i hquery
    rw [hquery] at hzoom
    rw [if_pos (hzoom.1 rfl)]
  · rename_i hquery
    rw [hquery] at hzoom
    rw [if_neg (fun h => nomatch hzoom.2 h)]
    split <;> rfl

end Paths

/-- **`CaptureImage` restores the camera**, whatever was on before, and encodes only what it
has read, exactly if `statfs` succeeds, and a frame can be read or the window cannot be
had. -/
theorem captureImage_restores_iff (resol : ImageResol) (thb : JpegEncThb) (env : CaptureEnv)
    (folder : Path) (c : Camera) :
    Restored env c (captureImage resol thb env (some folder) c) ↔
      env.statfs.isSome ∧
        (ReadsFrame env.sync ∨ env.zoom.cropcap = false ∨ env.zoom.gCrop = false) := by
  cases hf : env.statfs with
  | none =>
    refine iff_of_false (fun h => ?_) (fun h => nomatch h.1)
    have hoff : (captureImage resol thb env (some folder) c).1.preview = false := by
      unfold captureImage
      rw [hf]
      rfl
    exact nomatch hoff.symm.trans h.preview
  | some f =>
    obtain ⟨hon, hrun⟩ := captureImage_on resol thb folder c hf
    have henc := captureImage_encodes resol thb folder c hf
    rw [← readV4LPicture_success_iff c.vid env.sync env.buff]
    by_cases hzoom : env.zoom.cropcap = false ∨ env.zoom.gCrop = false
    · rw [if_pos hzoom] at henc
      refine iff_of_true ⟨hon, hrun, ?_⟩ ⟨rfl, .inr hzoom⟩
      rw [henc]
      exact fun _ h => nomatch h
    · rw [if_neg hzoom] at henc
      constructor
      · intro h
        have := h.encodes _ (henc ▸ List.mem_singleton_self _)
        exact ⟨rfl, .inl ⟨this.1, this.2.1⟩⟩
      · rintro ⟨-, hread⟩
        have hread := hread.resolve_right hzoom
        refine ⟨hon, hrun, ?_⟩
        rw [henc]
        intro pic hpic
        rw [List.mem_singleton.1 hpic]
        exact ⟨hread.1, hread.2, rfl⟩

/-- Preview and capture on, a window of 640 x 480. -/
def idleCamera : Camera :=
  ⟨oneFrame, true, true, ⟨0, 0, 640, 480⟩, ⟨0, 0, 0, 0, 0, 0, 0⟩, demoFolder [] ⟨1, 1, 0⟩⟩

/-- Every call succeeds, but for `statfs` and `VIDIOCSYNC` as given. -/
def captureEnv (statfs : Option (BitVec 64 × BitVec 64)) (sync : SyncResult) : CaptureEnv where
  statfs := statfs
  uninit := 0xDEADBEEF
  sync := fun _ => sync
  buff := ⟨0, 0, 0x1000000⟩
  zoom := ⟨0, true, true, true⟩
  enc := ⟨fun _ => false, some 5000⟩
  nextSync := fun _ => .success
  mcapture := true
  cap := demoEnv
  written := []
  index := .wrote 12

/-- A `statfs` that fails leaves the preview off; a sync that times out is encoded from an
address that was never set. -/
theorem captureImage_not_restored :
    (captureImage .vga .none (captureEnv none .success) (some []) idleCamera).1.preview = false ∧
      (captureImage .vga .none (captureEnv (some (100000, 4096)) .eagain) (some [])
        idleCamera).2 = [none] ∧
      ¬ Restored (captureEnv none .success) idleCamera
        (captureImage .vga .none (captureEnv none .success) (some []) idleCamera) ∧
      ¬ Restored (captureEnv (some (100000, 4096)) .eagain) idleCamera
        (captureImage .vga .none (captureEnv (some (100000, 4096)) .eagain) (some [])
          idleCamera) := by
  have hoff : (captureImage .vga .none (captureEnv none .success) (some [])
      idleCamera).1.preview = false := rfl
  have hread : (readV4LPicture oneFrame (fun _ => .eagain) ⟨0, 0, 0x1000000⟩).bufPhyAddr = none :=
    rfl
  have henc : (captureImage .vga .none (captureEnv (some (100000, 4096)) .eagain) (some [])
      idleCamera).2 = [none] := by
    rw [captureImage_encodes _ _ _ _ rfl]
    exact congrArg (fun pic => [pic]) hread
  refine ⟨hoff, henc, fun h => ?_, fun h => ?_⟩
  · exact nomatch hoff.symm.trans h.preview
  · exact nomatch (h.encodes none (henc ▸ List.mem_singleton_self _)).2.1

end N32905.VideoIn
