import N32905.Lib.Extents
import N32905.MnWriter.Structs

/-!
# The image table of `mn_writer`

`writeFwInfo` is `write_fw_info`; `mainImages` is the part of `main` that calls
it for the NandLoader, the Logo and the copies of the Exec file. `none` is
undefined behaviour: a store outside `FWInfo`, a read of `FWInfo[-1]`, a
division by zero. A failed `stat` is not that: `write_fw_info` returns `-1` and
`main` goes on, with the index already advanced.

`foldlM_addImage` compares the table with the layout `place` computes in
unbounded arithmetic.
-/

namespace N32905.MnWriter

open N32905.Lib

/-! ## The model -/

/-- The arguments `main` passes to `write_fw_info` for one image. -/
structure Image where
  filename : List.Vector Byte 512
  imageFlag : BitVec 16
  executeAddr : BitVec 32

/-- The entry `write_fw_info` stores, its block range given. -/
def Image.entry (img : Image) (FileInfoIdx : Nat) (startBlock endBlock : BitVec 16)
    (st_size : BitVec 32) : FwUpdateInfo where
  imageNo := BitVec.ofNat 16 FileInfoIdx
  imageFlag := img.imageFlag
  startBlock := startBlock
  endBlock := endBlock
  executeAddr := img.executeAddr
  fileLen := st_size
  imageName := ⟨(img.filename.toList.take 32).set 31 0, by simp⟩

def writeFwInfo (fs : Files) (g_u32BlockSize : BitVec 32) (FWInfo : FwTable) (FileInfoIdx : Nat)
    (img : Image) : Option (Int × FwTable) :=
  match fs.stat (cstr img.filename) with
  | none => some (-1, FWInfo)
  | some st_size =>
    if h : FileInfoIdx < maxFWInfo then
      if img.imageFlag = ImageFlag_System then
        some (0, FWInfo.set ⟨FileInfoIdx, h⟩ (img.entry FileInfoIdx 0 3 st_size))
      else if 0 < FileInfoIdx ∧ g_u32BlockSize ≠ 0 then
        -- the sum is an `unsigned int`, cut to the 16 bits of `endBlock`
        let startBlock := (FWInfo.get ⟨FileInfoIdx - 1, by omega⟩).endBlock + 1
        let endBlock := (startBlock.setWidth 32 + st_size / g_u32BlockSize).setWidth 16
        some (0, FWInfo.set ⟨FileInfoIdx, h⟩ (img.entry FileInfoIdx startBlock endBlock st_size))
      else none
    else none

/-- What a run of `main` depends on: the files, the two parsed INI files and
the command line. -/
structure Config where
  fs : Files
  ini : IniInfo
  optional : IbrBootOptional
  blockSize : BitVec 32
  pageSize : BitVec 32
  oobSize : BitVec 32
  opOutSysFilePath : List Byte
  noBurn : Bool

/-- `FWInfo` and the number of indices handed out, `gFileInfoIdx + 1`. -/
structure ImgSt where
  count : Nat
  FWInfo : FwTable

/-- An entry of `memset(&FWInfo, 0xFF, sizeof(FWInfo))`. -/
def blankEntry : FwUpdateInfo where
  imageNo := 0xFFFF
  imageFlag := 0xFFFF
  startBlock := 0xFFFF
  endBlock := 0xFFFF
  executeAddr := 0xFFFFFFFF
  fileLen := 0xFFFFFFFF
  imageName := List.Vector.replicate 32 0xFF

namespace Config

/-- `write_fw_info(++gFileInfoIdx, ..)`, its result ignored. -/
def addImage (cfg : Config) (st : ImgSt) (img : Image) : Option ImgSt := do
  let (_, FWInfo) ← writeFwInfo cfg.fs cfg.blockSize st.FWInfo st.count img
  pure ⟨st.count + 1, FWInfo⟩

def exeAddr (cfg : Config) : BitVec 32 := if cfg.noBurn then 0x01F00000 else 0x00900000

def nandLoaderImage (cfg : Config) : Image := ⟨cfg.ini.nandLoader, ImageFlag_System, cfg.exeAddr⟩

def logoImage (cfg : Config) : Image := ⟨cfg.ini.logo, ImageFlag_Logo, 0x500000⟩

def execImage (cfg : Config) : Image := ⟨cfg.ini.execFile, ImageFlag_Exec, cfg.ini.execAddress⟩

/-- `main` from the copy of the NandLoader up to `WriteSysteInfo`: the image
table it builds. -/
def mainImages (cfg : Config) : Option ImgSt := do
  let st : ImgSt := ⟨0, List.Vector.replicate _ blankEntry⟩
  let st ← if strlen cfg.ini.nandLoader = 0 then pure st else cfg.addImage st cfg.nandLoaderImage
  let st ← if strlen cfg.ini.logo = 0 then pure st else cfg.addImage st cfg.logoImage
  if strlen cfg.ini.execFile = 0 then pure st
  else (List.replicate cfg.ini.execFileNum.toInt.toNat cfg.execImage).foldlM cfg.addImage st

/-- The Logo and Exec images `main` registers after the NandLoader. -/
def images (cfg : Config) : List Image :=
  (if strlen cfg.ini.logo = 0 then [] else [cfg.logoImage]) ++
    if strlen cfg.ini.execFile = 0 then []
    else List.replicate cfg.ini.execFileNum.toInt.toNat cfg.execImage

def readable (cfg : Config) (img : Image) : Bool := (cfg.fs.stat (cstr img.filename)).isSome

def size (cfg : Config) (img : Image) : Nat :=
  ((cfg.fs.stat (cstr img.filename)).map BitVec.toNat).getD 0

/-- The blocks after the first that `write_fw_info` gives to `n` bytes. -/
def span (cfg : Config) (n : Nat) : Nat := n / cfg.blockSize.toNat

/-- The layout of the Logo and Exec images in unbounded arithmetic: they follow
the four blocks of the system area. -/
def layout (cfg : Config) : List Extent := place cfg.span 4 (cfg.images.map cfg.size)

end Config

/-! ## One image -/

section One
variable {cfg : Config} {st st' : ImgSt} {img : Image}

theorem addImage_missing (h : cfg.readable img = false) :
    cfg.addImage st img = some ⟨st.count + 1, st.FWInfo⟩ := by
  have hs : cfg.fs.stat (cstr img.filename) = none := by simpa [Config.readable] using h
  simp [Config.addImage, writeFwInfo, hs]

/-- What a readable image adds: a store at the next index, the block range
chained to the entry before. -/
theorem addImage_cases {n : BitVec 32} (hs : cfg.fs.stat (cstr img.filename) = some n)
    (h : cfg.addImage st img = some st') :
    ∃ (hi : st.count < maxFWInfo) (b e : BitVec 16),
      st' = ⟨st.count + 1, st.FWInfo.set ⟨st.count, hi⟩ (img.entry st.count b e n)⟩ := by
  simp only [Config.addImage, writeFwInfo, hs] at h
  split at h
  · next hi =>
    split at h
    · simp only [Option.bind_eq_bind, Option.bind_some, Option.pure_def, Option.some.injEq] at h
      exact ⟨hi, _, _, h.symm⟩
    · split at h
      · simp only [Option.bind_eq_bind, Option.bind_some, Option.pure_def, Option.some.injEq] at h
        exact ⟨hi, _, _, h.symm⟩
      · cases h
  · cases h

theorem addImage_count (h : cfg.addImage st img = some st') : st'.count = st.count + 1 := by
  cases hs : cfg.fs.stat (cstr img.filename) with
  | none =>
    rw [addImage_missing (by simp [Config.readable, hs])] at h
    cases h; rfl
  | some n =>
    obtain ⟨_, _, _, rfl⟩ := addImage_cases hs h
    rfl

/-- A Logo or Exec image at an index below 16, after an entry ending at block `p`. -/
theorem addImage_image {n : BitVec 32} {k : Nat} {p : FwUpdateInfo}
    (hs : cfg.fs.stat (cstr img.filename) = some n) (hf : img.imageFlag ≠ ImageFlag_System)
    (hB : cfg.blockSize ≠ 0) (hk : st.count = k + 1) (hi : st.count < maxFWInfo)
    (hp : st.FWInfo.toList[k]? = some p) :
    cfg.addImage st img = some ⟨st.count + 1, st.FWInfo.set ⟨st.count, hi⟩
      (img.entry st.count (p.endBlock + 1)
        (((p.endBlock + 1).setWidth 32 + n / cfg.blockSize).setWidth 16) n)⟩ := by
  have hget : st.FWInfo.get ⟨st.count - 1, by omega⟩ = p := by
    obtain ⟨hk', rfl⟩ := List.getElem?_eq_some_iff.1 hp
    rw [List.Vector.get_eq_get_toList]
    simp [hk]
  have hpos : 0 < st.count := by omega
  simp only [Config.addImage, writeFwInfo, hs, dif_pos hi, if_neg hf, hpos, ne_eq, hB,
    not_false_eq_true, and_self, if_true, hget]
  rfl

end One

/-! ## All images -/

theorem mainImages_eq (cfg : Config) (hN : strlen cfg.ini.nandLoader ≠ 0) :
    cfg.mainImages = (cfg.nandLoaderImage :: cfg.images).foldlM cfg.addImage
      ⟨0, List.Vector.replicate _ blankEntry⟩ := by
  unfold Config.mainImages Config.images
  rw [if_neg hN, List.foldlM_cons]
  refine bind_congr fun st => ?_
  rw [List.foldlM_append]
  have hexec : ∀ st : ImgSt, (if strlen cfg.ini.execFile = 0 then pure st
      else (List.replicate cfg.ini.execFileNum.toInt.toNat cfg.execImage).foldlM cfg.addImage st) =
      (if strlen cfg.ini.execFile = 0 then []
        else List.replicate cfg.ini.execFileNum.toInt.toNat cfg.execImage).foldlM
          cfg.addImage st := by
    intro st
    split <;> rfl
  by_cases hL : strlen cfg.ini.logo = 0
  · simp only [hL, if_true, pure_bind, List.foldlM_nil, hexec]
  · simp only [hL, if_false, List.foldlM_cons, List.foldlM_nil, bind_pure, hexec]

theorem foldlM_addImage_count {cfg : Config} {imgs : List Image} {st st' : ImgSt}
    (h : imgs.foldlM cfg.addImage st = some st') : st'.count = st.count + imgs.length := by
  induction imgs generalizing st with
  | nil => cases h; rfl
  | cons img imgs ih =>
    rw [List.foldlM_cons] at h
    obtain ⟨st1, h1, h2⟩ := Option.bind_eq_some_iff.1 h
    rw [ih h2, addImage_count h1, List.length_cons]
    omega

theorem foldlM_addImage_le {cfg : Config} (imgs : List Image) {st st' : ImgSt}
    (hr : ∀ img ∈ imgs, cfg.readable img = true) (hst : st.count ≤ maxFWInfo)
    (h : imgs.foldlM cfg.addImage st = some st') : st'.count ≤ maxFWInfo := by
  induction imgs generalizing st with
  | nil => cases h; exact hst
  | cons img imgs ih =>
    rw [List.foldlM_cons] at h
    obtain ⟨st1, h1, h2⟩ := Option.bind_eq_some_iff.1 h
    obtain ⟨n, hn⟩ := Option.isSome_iff_exists.1 (hr img List.mem_cons_self)
    obtain ⟨hi, _, _, rfl⟩ := addImage_cases hn h1
    exact ih (fun i hi => hr i (List.mem_cons_of_mem _ hi)) (Nat.succ_le_of_lt hi) h2

theorem foldlM_addImage_isSome {cfg : Config} (hB : cfg.blockSize ≠ 0) {imgs : List Image}
    (st : ImgSt) (hr : ∀ img ∈ imgs, img.imageFlag ≠ ImageFlag_System ∧ cfg.readable img = true)
    (hst : 0 < st.count) (hlen : st.count + imgs.length ≤ maxFWInfo) :
    ∃ st', imgs.foldlM cfg.addImage st = some st' := by
  induction imgs generalizing st with
  | nil => exact ⟨st, rfl⟩
  | cons img imgs ih =>
    obtain ⟨hf, hrd⟩ := hr img List.mem_cons_self
    obtain ⟨n, hn⟩ := Option.isSome_iff_exists.1 hrd
    obtain ⟨k, hk⟩ : ∃ k, st.count = k + 1 := ⟨st.count - 1, by omega⟩
    rw [List.length_cons] at hlen
    have hkl : k < st.FWInfo.toList.length := by rw [List.Vector.toList_length]; omega
    rw [List.foldlM_cons, addImage_image hn hf hB hk (by omega) (List.getElem?_eq_getElem hkl)]
    exact ih _ (fun i hi => hr i (List.mem_cons_of_mem _ hi)) (by simp) (by simp; omega)

def Image.placed (img : Image) (FileInfoIdx : Nat) (e : Extent) : FwUpdateInfo :=
  img.entry FileInfoIdx (BitVec.ofNat 16 e.first) (BitVec.ofNat 16 e.last) (BitVec.ofNat 32 e.len)

/-- The last block `write_fw_info` stores is the layout's, modulo 65536. -/
theorem endBlock_eq (next : Nat) (n B : BitVec 32) :
    ((BitVec.ofNat 16 next).setWidth 32 + n / B).setWidth 16 =
      BitVec.ofNat 16 (next + n.toNat / B.toNat) := by
  apply BitVec.eq_of_toNat_eq
  simp only [BitVec.toNat_setWidth, BitVec.toNat_add, BitVec.toNat_udiv, BitVec.toNat_ofNat]
  omega

/-- One image behind an entry that ends right before block `next`: its entry is the
extent there, the others stay. -/
theorem addImage_placed {cfg : Config} (hB : cfg.blockSize ≠ 0) {img : Image} {st st' : ImgSt}
    {k next : Nat} {p : FwUpdateInfo} {n : BitVec 32}
    (hn : cfg.fs.stat (cstr img.filename) = some n)
    (hf : img.imageFlag ≠ ImageFlag_System) (h : cfg.addImage st img = some st')
    (hk : st.count = k + 1) (hp : st.FWInfo.toList[k]? = some p)
    (hnext : p.endBlock + 1 = BitVec.ofNat 16 next) :
    st'.count = k + 2 ∧ (∀ i, i ≠ k + 1 → st'.FWInfo.toList[i]? = st.FWInfo.toList[i]?) ∧
      st'.FWInfo.toList[k + 1]? =
        some (img.placed (k + 1) ⟨next, next + cfg.span n.toNat, n.toNat⟩) := by
  obtain ⟨hi, -, -, -⟩ := addImage_cases hn h
  rw [addImage_image hn hf hB hk hi hp, hnext, endBlock_eq, Option.some.injEq] at h
  subst h
  refine ⟨by simp [hk], fun i hne => ?_, ?_⟩
  · rw [List.Vector.toList_set, List.getElem?_set_ne (by simp only [hk]; omega)]
  · rw [List.Vector.toList_set, ← hk,
      List.getElem?_set_self (by rw [List.Vector.toList_length]; exact hi)]
    simp [Image.placed, Config.span]

/-- **The table refines the layout**: the entries stored after an entry that ends
right before block `next` are the layout's extents from there on, with the block
numbers cut to 16 bits. -/
theorem foldlM_addImage {cfg : Config} (hB : cfg.blockSize ≠ 0) {imgs : List Image} {st st' : ImgSt}
    {k next : Nat} {p : FwUpdateInfo} (h : imgs.foldlM cfg.addImage st = some st')
    (hr : ∀ img ∈ imgs, img.imageFlag ≠ ImageFlag_System ∧ cfg.readable img = true)
    (hk : st.count = k + 1) (hp : st.FWInfo.toList[k]? = some p)
    (hnext : p.endBlock + 1 = BitVec.ofNat 16 next) :
    (∀ i ≤ k, st'.FWInfo.toList[i]? = st.FWInfo.toList[i]?) ∧
      ∀ j img e, imgs[j]? = some img → (place cfg.span next (imgs.map cfg.size))[j]? = some e →
        st'.FWInfo.toList[k + 1 + j]? = some (img.placed (k + 1 + j) e) := by
  induction imgs generalizing st k next p with
  | nil =>
    cases h
    exact ⟨fun _ _ => rfl, fun j img e hj _ => by simp at hj⟩
  | cons img imgs ih =>
    obtain ⟨hf, hrd⟩ := hr img List.mem_cons_self
    obtain ⟨n, hn⟩ := Option.isSome_iff_exists.1 hrd
    have hsize : cfg.size img = n.toNat := by simp [Config.size, hn]
    rw [List.foldlM_cons] at h
    obtain ⟨st1, h1, h2⟩ := Option.bind_eq_some_iff.1 h
    obtain ⟨hcount, hset, hnew⟩ := addImage_placed hB hn hf h1 hk hp hnext
    have hend : (img.placed (k + 1) ⟨next, next + cfg.span n.toNat, n.toNat⟩).endBlock + 1 =
        BitVec.ofNat 16 (next + cfg.span n.toNat + 1) := by
      rw [BitVec.ofNat_add]
      rfl
    obtain ⟨hold, hrest⟩ := ih h2 (fun i hi => hr i (List.mem_cons_of_mem _ hi))
      hcount hnew hend
    refine ⟨fun i hi => (hold i (by omega)).trans (hset i (by omega)), fun j im e hj he => ?_⟩
    rw [List.map_cons, place, hsize] at he
    cases j with
    | zero =>
      simp only [List.getElem?_cons_zero, Option.some.injEq] at hj he
      subst hj he
      exact (hold (k + 1) (Nat.le_refl _)).trans hnew
    | succ j =>
      rw [List.getElem?_cons_succ] at hj he
      rw [show k + 1 + (j + 1) = k + 1 + 1 + j by omega]
      exact hrest j im e hj he

end N32905.MnWriter
