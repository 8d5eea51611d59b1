import N32905.MnWriter.Burn

/-!
# The layout of the images on NAND

The table `main` builds against the flash it describes: which blocks each image
gets, and which bytes of `mtd1` `burn_images` then writes for it. Inside the
limits of the on-flash format (`FitsFormat`) the table is the layout `place`
computes (`mainImages_spec`), from which `nand_layout` reads off the properties
of the table. A file that is missing breaks the chain the entries are computed
along: `missing_image_iff`.
-/

namespace N32905.MnWriter

open N32905.Lib

/-! ## The table is the layout -/

/-- `main` gets past its checks with a NandLoader whose `stat` succeeds. -/
structure LoaderOK (cfg : Config) : Prop where
  blockSize : cfg.blockSize ≠ 0
  named : strlen cfg.ini.nandLoader ≠ 0
  found : cfg.readable cfg.nandLoaderImage = true

section Spec
variable {cfg : Config}

theorem images_flag {img : Image} (h : img ∈ cfg.images) :
    img.imageFlag = ImageFlag_Logo ∨ img.imageFlag = ImageFlag_Exec := by
  rcases List.mem_append.1 h with h | h
  · split at h
    · cases h
    · rw [List.mem_singleton] at h
      subst h
      exact .inl rfl
  · split at h
    · cases h
    · rw [List.eq_of_mem_replicate h]
      exact .inr rfl

theorem images_ne_system {img : Image} (h : img ∈ cfg.images) :
    img.imageFlag ≠ ImageFlag_System := by
  rcases images_flag h with h | h <;> rw [h] <;> decide

theorem size_lt (cfg : Config) (img : Image) : cfg.size img < 2 ^ 32 := by
  unfold Config.size
  cases cfg.fs.stat (cstr img.filename) with
  | none => simp
  | some n => exact n.isLt

/-- After the NandLoader one entry is stored: `System`, blocks 0 to 3. -/
theorem addImage_loader (h : cfg.readable cfg.nandLoaderImage = true) :
    ∃ n st1, cfg.addImage ⟨0, List.Vector.replicate _ blankEntry⟩ cfg.nandLoaderImage = some st1 ∧
      st1.count = 1 ∧ st1.FWInfo.toList[0]? = some (cfg.nandLoaderImage.entry 0 0 3 n) := by
  obtain ⟨n, hn⟩ := Option.isSome_iff_exists.1 h
  have hf : cfg.nandLoaderImage.imageFlag = ImageFlag_System := rfl
  refine ⟨n, ⟨1, List.Vector.set (List.Vector.replicate _ blankEntry) ⟨0, by decide⟩
    (cfg.nandLoaderImage.entry 0 0 3 n)⟩, ?_, rfl, rfl⟩
  simp only [Config.addImage, writeFwInfo, hn, hf, if_true]
  rfl

/-- `main` gets through its calls of `write_fw_info` when every image is found
and the indices fit `FWInfo`. -/
theorem mainImages_isSome (h : LoaderOK cfg) (hr : ∀ img ∈ cfg.images, cfg.readable img = true)
    (hlen : 1 + cfg.images.length ≤ maxFWInfo) :
    ∃ st, cfg.mainImages = some st ∧ st.count = 1 + cfg.images.length := by
  obtain ⟨n, st1, h1, hc, -⟩ := addImage_loader h.found
  obtain ⟨st, hst⟩ := foldlM_addImage_isSome h.blockSize st1
    (fun img hi => ⟨images_ne_system hi, hr img hi⟩) (by omega) (by omega)
  refine ⟨st, ?_, by rw [foldlM_addImage_count hst, hc]⟩
  rw [mainImages_eq cfg h.named, List.foldlM_cons, h1]
  exact hst

/-- Every entry is the extent of its image, after the four system blocks. -/
theorem mainImages_spec (h : LoaderOK cfg) (hr : ∀ img ∈ cfg.images, cfg.readable img = true)
    {st : ImgSt} (hst : cfg.mainImages = some st) :
    (∃ n, st.FWInfo.toList[0]? = some (cfg.nandLoaderImage.entry 0 0 3 n)) ∧
      ∀ j img e, cfg.images[j]? = some img → cfg.layout[j]? = some e →
        st.FWInfo.toList[1 + j]? = some (img.placed (1 + j) e) := by
  obtain ⟨n, st1, h1, hc, h0⟩ := addImage_loader h.found
  rw [mainImages_eq cfg h.named, List.foldlM_cons, h1] at hst
  have hend : (cfg.nandLoaderImage.entry 0 0 3 n).endBlock + 1 = BitVec.ofNat 16 4 := rfl
  obtain ⟨hold, hnew⟩ := foldlM_addImage h.blockSize hst
    (fun img hi => ⟨images_ne_system hi, hr img hi⟩) (k := 0) hc h0 hend
  refine ⟨⟨n, (hold 0 (Nat.le_refl _)).trans h0⟩, fun j img e hj he => ?_⟩
  have := hnew j img e hj he
  rwa [Nat.zero_add] at this

/-- The entries in use. -/
def ImgSt.entries (st : ImgSt) : List FwUpdateInfo := st.FWInfo.toList.take st.count

theorem length_layout (cfg : Config) : cfg.layout.length = cfg.images.length := by
  rw [Config.layout, length_place, List.length_map]

/-- The entries in use are the system area and the extents of the images. -/
theorem entries_spec (h : LoaderOK cfg) (hr : ∀ img ∈ cfg.images, cfg.readable img = true)
    {st : ImgSt} (hst : cfg.mainImages = some st) (hcount : st.count = 1 + cfg.images.length) :
    (∃ n, st.entries[0]? = some (cfg.nandLoaderImage.entry 0 0 3 n)) ∧
      ∀ (i : Nat) (e : FwUpdateInfo), st.entries[i + 1]? = some e ↔
        ∃ img x, cfg.images[i]? = some img ∧ cfg.layout[i]? = some x ∧ e = img.placed (1 + i) x := by
  obtain ⟨⟨n, h0⟩, hall⟩ := mainImages_spec h hr hst
  refine ⟨⟨n, ?_⟩, fun i e => ⟨fun he => ?_, ?_⟩⟩
  · rw [ImgSt.entries, List.getElem?_take_of_lt (by omega), h0]
  · have hi : i + 1 < st.count := by
      rcases Nat.lt_or_ge (i + 1) st.count with h' | h'
      · exact h'
      · rw [ImgSt.entries, List.getElem?_take_eq_none h'] at he
        cases he
    rw [ImgSt.entries, List.getElem?_take_of_lt hi, Nat.add_comm] at he
    have hi1 : i < cfg.images.length := by omega
    have hi2 : i < cfg.layout.length := by rw [length_layout]; exact hi1
    have hplaced := hall i _ _ (List.getElem?_eq_getElem hi1) (List.getElem?_eq_getElem hi2)
    rw [hplaced, Option.some.injEq] at he
    exact ⟨_, _, List.getElem?_eq_getElem hi1, List.getElem?_eq_getElem hi2, he.symm⟩
  · rintro ⟨img, x, hi, hx, rfl⟩
    have hlt := (List.getElem?_eq_some_iff.1 hi).1
    rw [ImgSt.entries, List.getElem?_take_of_lt (by omega), Nat.add_comm]
    exact hall i img x hi hx

end Spec

/-! ## Properties of the table -/

/-- A Logo or Exec entry: one `burn_images` writes to `mtd1`. -/
def FwUpdateInfo.isImage (e : FwUpdateInfo) : Prop :=
  e.imageFlag = ImageFlag_Logo ∨ e.imageFlag = ImageFlag_Exec

/-- The limits of the on-flash format: 16 entries, 16-bit block numbers and
32-bit byte offsets on `mtd1`. -/
structure FitsFormat (cfg : Config) : Prop where
  entries : 1 + cfg.images.length ≤ maxFWInfo
  blocks : ∀ x ∈ cfg.layout, x.last < 65536
  offsets : ∀ x ∈ cfg.layout, (x.first - 4) * cfg.blockSize.toNat < 2 ^ 32 ∧
    (x.first - 4) * cfg.blockSize.toNat + x.len ≤ 2 ^ 32

/-- The table `es` lays the images of `cfg` out on NAND. -/
structure NandLayout (cfg : Config) (es : List FwUpdateInfo) : Prop where
  /-- Entry 0 is the system area, blocks 0 to 3. -/
  system : ∃ e, es[0]? = some e ∧ e.imageFlag = ImageFlag_System ∧ e.startBlock.toNat = 0 ∧
    e.endBlock.toNat = 3
  /-- Entry `i + 1` is image `i`, with the length of its file. -/
  image : ∀ (i : Nat) (e : FwUpdateInfo), es[i + 1]? = some e → ∃ img, cfg.images[i]? = some img ∧
    e.imageFlag = img.imageFlag ∧ e.fileLen.toNat = cfg.size img
  chained : ∀ (i : Nat) (a b : FwUpdateInfo), es[i]? = some a → es[i + 1]? = some b →
    b.startBlock.toNat = a.endBlock.toNat + 1
  holds : ∀ (i : Nat) (e : FwUpdateInfo), es[i]? = some e → e.isImage → e.startBlock.toNat ≤ e.endBlock.toNat ∧
    e.fileLen.toNat ≤ (e.endBlock.toNat - e.startBlock.toNat + 1) * cfg.blockSize.toNat
  /-- The bytes written on `mtd1` for an entry lie in its own blocks. -/
  inside : ∀ (i : Nat) (e : FwUpdateInfo), es[i]? = some e → e.isImage → 4 ≤ e.startBlock.toNat ∧
    (cfg.execStart e).toNat = (e.startBlock.toNat - 4) * cfg.blockSize.toNat ∧
    (cfg.execStart e).toNat + e.fileLen.toNat ≤
      (e.endBlock.toNat + 1 - 4) * cfg.blockSize.toNat
  /-- The bytes written for two entries are different bytes. -/
  disjoint : ∀ (i j : Nat) (a b : FwUpdateInfo), i ≠ j → es[i]? = some a → es[j]? = some b →
    a.isImage → b.isImage →
    (cfg.execStart a).toNat + a.fileLen.toNat ≤ (cfg.execStart b).toNat ∨
      (cfg.execStart b).toNat + b.fileLen.toNat ≤ (cfg.execStart a).toNat

section Properties
variable {cfg : Config}

theorem layout_fits (hB : cfg.blockSize ≠ 0) {x : Extent} (hx : x ∈ cfg.layout) :
    4 ≤ x.first ∧ x.first ≤ x.last ∧ x.len ≤ (x.last + 1 - x.first) * cfg.blockSize.toNat := by
  have h1 := place_first_ge hx
  have h2 := place_last hx
  have hpos : 0 < cfg.blockSize.toNat := by
    rcases Nat.eq_zero_or_pos cfg.blockSize.toNat with h | h
    · exact absurd (BitVec.eq_of_toNat_eq (by simpa using h)) hB
    · exact h
  have h3 : x.len < (cfg.span x.len + 1) * cfg.blockSize.toNat := by
    rw [Nat.mul_comm]
    exact Nat.lt_mul_div_succ x.len hpos
  refine ⟨h1, by omega, ?_⟩
  rw [h2, show x.first + cfg.span x.len + 1 - x.first = cfg.span x.len + 1 by omega]
  omega

theorem placed_toNat (img : Image) {x : Extent} (k : Nat) (hlt : x.last < 65536)
    (hle : x.first ≤ x.last) (hlen : x.len < 2 ^ 32) :
    (img.placed k x).startBlock.toNat = x.first ∧ (img.placed k x).endBlock.toNat = x.last ∧
      (img.placed k x).fileLen.toNat = x.len := by
  simp only [Image.placed, Image.entry, BitVec.toNat_ofNat]
  exact ⟨Nat.mod_eq_of_lt (by omega), Nat.mod_eq_of_lt hlt, Nat.mod_eq_of_lt hlen⟩

theorem execStart_toNat {e : FwUpdateInfo} (h4 : 4 ≤ e.startBlock.toNat)
    (hlt : (e.startBlock.toNat - 4) * cfg.blockSize.toNat < 2 ^ 32) :
    (cfg.execStart e).toNat = (e.startBlock.toNat - 4) * cfg.blockSize.toNat := by
  have h : ((e.startBlock.toNat : Int) - 4) * cfg.blockSize.toNat =
      (((e.startBlock.toNat - 4) * cfg.blockSize.toNat : Nat) : Int) := by
    rw [Nat.cast_mul, Nat.cast_sub h4]
    rfl
  rw [execStart_eq, h, BitVec.ofInt_natCast, BitVec.toNat_ofNat, Nat.mod_eq_of_lt hlt]

theorem layout_len_lt {i : Nat} {x : Extent} (hx : cfg.layout[i]? = some x) : x.len < 2 ^ 32 := by
  have := place_len hx
  rw [List.getElem?_map] at this
  obtain ⟨img, -, himg⟩ := Option.map_eq_some_iff.1 this
  rw [← himg]
  exact size_lt cfg img

/-- Entry `e` records the extent `x`. -/
structure Records (cfg : Config) (e : FwUpdateInfo) (x : Extent) : Prop where
  mem : x ∈ cfg.layout
  first : e.startBlock.toNat = x.first
  last : e.endBlock.toNat = x.last
  len : e.fileLen.toNat = x.len

/-- Every entry after the first records its image's extent, as long as the
block numbers fit 16 bits. -/
theorem entries_records (h : LoaderOK cfg) (hr : ∀ img ∈ cfg.images, cfg.readable img = true)
    (hlast : ∀ e ∈ cfg.layout, e.last < 65536) {st : ImgSt} (hst : cfg.mainImages = some st)
    (hcount : st.count = 1 + cfg.images.length) {i : Nat} {e : FwUpdateInfo}
    (he : st.entries[i + 1]? = some e) :
    ∃ img x, cfg.images[i]? = some img ∧ cfg.layout[i]? = some x ∧ Records cfg e x ∧
      e.imageFlag = img.imageFlag ∧ x.len = cfg.size img := by
  obtain ⟨img, x, hi, hx, rfl⟩ := ((entries_spec h hr hst hcount).2 i e).1 he
  have hm := List.mem_of_getElem? hx
  obtain ⟨h1, h2, h3⟩ := placed_toNat img (1 + i) (hlast x hm)
    (layout_fits h.blockSize hm).2.1 (layout_len_lt hx)
  have hlen := place_len hx
  rw [List.getElem?_map, hi, Option.map_some, Option.some.injEq] at hlen
  exact ⟨img, x, hi, hx, ⟨hm, h1, h2, h3⟩, rfl, hlen.symm⟩

theorem Records.holds {e : FwUpdateInfo} {x : Extent} (r : Records cfg e x)
    (hB : cfg.blockSize ≠ 0) : e.startBlock.toNat ≤ e.endBlock.toNat ∧
      e.fileLen.toNat ≤ (e.endBlock.toNat - e.startBlock.toNat + 1) * cfg.blockSize.toNat := by
  obtain ⟨-, h2, h3⟩ := layout_fits hB r.mem
  rw [r.first, r.last, r.len, show x.last - x.first + 1 = x.last + 1 - x.first by omega]
  exact ⟨h2, h3⟩

theorem Records.offset {e : FwUpdateInfo} {x : Extent} (r : Records cfg e x)
    (hB : cfg.blockSize ≠ 0) (hfit : FitsFormat cfg) :
    (cfg.execStart e).toNat = (x.first - 4) * cfg.blockSize.toNat := by
  have h4 := (layout_fits hB r.mem).1
  rw [execStart_toNat (by rw [r.first]; exact h4) (by rw [r.first]; exact (hfit.offsets x r.mem).1),
    r.first]

theorem Records.inside {e : FwUpdateInfo} {x : Extent} (r : Records cfg e x)
    (hB : cfg.blockSize ≠ 0) (hfit : FitsFormat cfg) : 4 ≤ e.startBlock.toNat ∧
      (cfg.execStart e).toNat = (e.startBlock.toNat - 4) * cfg.blockSize.toNat ∧
      (cfg.execStart e).toNat + e.fileLen.toNat ≤
        (e.endBlock.toNat + 1 - 4) * cfg.blockSize.toNat := by
  obtain ⟨h1, h2, h3⟩ := layout_fits hB r.mem
  rw [r.offset hB hfit, r.first, r.last, r.len]
  refine ⟨h1, rfl, ?_⟩
  calc (x.first - 4) * cfg.blockSize.toNat + x.len
      ≤ (x.first - 4) * cfg.blockSize.toNat + (x.last + 1 - x.first) * cfg.blockSize.toNat := by
        omega
    _ = ((x.first - 4) + (x.last + 1 - x.first)) * cfg.blockSize.toNat := (Nat.add_mul ..).symm
    _ = (x.last + 1 - 4) * cfg.blockSize.toNat := by congr 1; omega

theorem Records.before {a b : FwUpdateInfo} {x y : Extent} (ra : Records cfg a x)
    (rb : Records cfg b y) (hB : cfg.blockSize ≠ 0) (hfit : FitsFormat cfg)
    (hlt : x.last < y.first) :
    (cfg.execStart a).toNat + a.fileLen.toNat ≤ (cfg.execStart b).toNat := by
  obtain ⟨h1, h2, h3⟩ := layout_fits hB ra.mem
  rw [ra.offset hB hfit, rb.offset hB hfit, ra.len]
  exact extent_bytes_le hlt h3 h1 h2

theorem layout_zero {x : Extent} (hx : cfg.layout[0]? = some x) : x.first = 4 := by
  unfold Config.layout at hx
  generalize cfg.images.map cfg.size = ns at hx
  cases ns with
  | nil => simp [place] at hx
  | cons n ns =>
    simp only [place, List.getElem?_cons_zero, Option.some.injEq] at hx
    rw [← hx]

theorem not_isImage_loader (cfg : Config) (n : BitVec 32) :
    ¬ (cfg.nandLoaderImage.entry 0 0 3 n).isImage := by
  rintro (h | h)
  · exact absurd h (show ImageFlag_System ≠ ImageFlag_Logo by decide)
  · exact absurd h (show ImageFlag_System ≠ ImageFlag_Exec by decide)

/-- **The layout on NAND**: whatever the files' sizes and the number of Exec
copies, inside the limits of the on-flash format the table `main` builds
describes consecutive block ranges that hold their files, and `burn_images`
writes every file into its own blocks. -/
theorem nand_layout (cfg : Config) (h : LoaderOK cfg)
    (hr : ∀ img ∈ cfg.images, cfg.readable img = true) (hfit : FitsFormat cfg) :
    ∃ st, cfg.mainImages = some st ∧ st.count = 1 + cfg.images.length ∧
      NandLayout cfg st.entries := by
  obtain ⟨st, hst, hcount⟩ := mainImages_isSome h hr hfit.entries
  refine ⟨st, hst, hcount, ?_⟩
  have hrec := fun i e (he : st.entries[i + 1]? = some e) =>
    entries_records h hr hfit.blocks hst hcount he
  obtain ⟨n, h0⟩ := (entries_spec h hr hst hcount).1
  have himage : ∀ i e, st.entries[i]? = some e → e.isImage →
      ∃ j x, i = j + 1 ∧ cfg.layout[j]? = some x ∧ Records cfg e x := by
    intro i e he himg
    cases i with
    | zero =>
      rw [h0, Option.some.injEq] at he
      exact absurd (he ▸ himg) (not_isImage_loader cfg n)
    | succ j =>
      obtain ⟨-, x, -, hx, r, -, -⟩ := hrec j e he
      exact ⟨j, x, rfl, hx, r⟩
  constructor
  case system => exact ⟨_, h0, rfl, rfl, rfl⟩
  case image =>
    intro i e he
    obtain ⟨img, x, hi, -, r, hf, hl⟩ := hrec i e he
    exact ⟨img, hi, hf, r.len.trans hl⟩
  case chained =>
    intro i a b ha hb
    obtain ⟨-, y, -, hy, rb, -, -⟩ := hrec i b hb
    rw [rb.first]
    cases i with
    | zero =>
      rw [h0, Option.some.injEq] at ha
      rw [layout_zero hy, ← ha]
      rfl
    | succ i =>
      obtain ⟨-, x, -, hx, ra, -, -⟩ := hrec i a ha
      rw [ra.last]
      exact place_succ hx hy
  case holds =>
    intro i e he himg
    obtain ⟨-, x, -, -, r⟩ := himage i e he himg
    exact r.holds h.blockSize
  case inside =>
    intro i e he himg
    obtain ⟨-, x, -, -, r⟩ := himage i e he himg
    exact r.inside h.blockSize hfit
  case disjoint =>
    intro i j a b hij ha hb hia hib
    obtain ⟨i', x, rfl, hx, ra⟩ := himage i a ha hia
    obtain ⟨j', y, rfl, hy, rb⟩ := himage j b hb hib
    rcases Nat.lt_or_gt_of_ne hij with hlt | hlt
    · exact .inl (ra.before rb h.blockSize hfit (place_lt (by omega) hx hy))
    · exact .inr (rb.before ra h.blockSize hfit (place_lt (by omega) hy hx))

end Properties

/-- Three files: the NandLoader, a Logo and an Exec image. -/
def demoFs : Files := fun path =>
  if path = [0x4C] then some [1, 2, 3]
  else if path = [0x47] then some [4, 5]
  else if path = [0x45] then some [6, 7, 8, 9]
  else none

theorem nand_layout_demo : ∃ st, (demoCfg demoFs 2).mainImages = some st ∧
    st.count = 1 + (demoCfg demoFs 2).images.length ∧
    NandLayout (demoCfg demoFs 2) st.entries :=
  nand_layout (demoCfg demoFs 2) ⟨by decide, by decide, by decide⟩ (by decide)
    ⟨by decide, by decide, by decide⟩

/-! ## Missing images -/

namespace Config

/-- The count and the table `main` stores in the system area. -/
def sysInfo (cfg : Config) : Option (BitVec 32 × FwTable) :=
  cfg.mainImages.map fun st => (BitVec.ofNat 32 st.count, st.FWInfo)

def noFile : List.Vector Byte 512 := charArray [] (by decide)

/-- The same configuration without the Logo and Exec files `stat` does not find. -/
def leaveOut (cfg : Config) : Config :=
  { cfg with ini := { cfg.ini with
      logo := if cfg.readable cfg.logoImage then cfg.ini.logo else noFile
      execFile := if cfg.readable cfg.execImage then cfg.ini.execFile else noFile } }

end Config

section Missing
variable {cfg : Config}

theorem images_leaveOut (cfg : Config) : cfg.leaveOut.images = cfg.images.filter cfg.readable := by
  have hlogo : (if strlen cfg.leaveOut.ini.logo = 0 then [] else [cfg.leaveOut.logoImage]) =
      (if strlen cfg.ini.logo = 0 then [] else [cfg.logoImage]).filter cfg.readable := by
    cases hr : cfg.readable cfg.logoImage with
    | true =>
      have h : cfg.leaveOut.ini.logo = cfg.ini.logo := by simp [Config.leaveOut, hr]
      have himg : cfg.leaveOut.logoImage = cfg.logoImage := by simp only [Config.logoImage, h]
      rw [h, himg]
      split
      · rfl
      · rw [List.filter_cons_of_pos hr, List.filter_nil]
    | false =>
      have h : cfg.leaveOut.ini.logo = Config.noFile := by simp [Config.leaveOut, hr]
      rw [h, if_pos (by decide)]
      split
      · rfl
      · rw [List.filter_cons_of_neg (by rw [hr]; decide), List.filter_nil]
  have hexec : (if strlen cfg.leaveOut.ini.execFile = 0 then []
        else List.replicate cfg.leaveOut.ini.execFileNum.toInt.toNat cfg.leaveOut.execImage) =
      (if strlen cfg.ini.execFile = 0 then []
        else List.replicate cfg.ini.execFileNum.toInt.toNat cfg.execImage).filter
          cfg.readable := by
    have hnum : cfg.leaveOut.ini.execFileNum = cfg.ini.execFileNum := rfl
    have haddr : cfg.leaveOut.ini.execAddress = cfg.ini.execAddress := rfl
    cases hr : cfg.readable cfg.execImage with
    | true =>
      have h : cfg.leaveOut.ini.execFile = cfg.ini.execFile := by simp [Config.leaveOut, hr]
      have himg : cfg.leaveOut.execImage = cfg.execImage := by
        simp only [Config.execImage, h, haddr]
      rw [h, hnum, himg]
      split
      · rfl
      · rw [List.filter_replicate_of_pos hr]
    | false =>
      have h : cfg.leaveOut.ini.execFile = Config.noFile := by simp [Config.leaveOut, hr]
      rw [h, if_pos (by decide)]
      split
      · rfl
      · rw [List.filter_replicate_of_neg (by rw [hr]; decide)]
  rw [Config.images, Config.images, hlogo, hexec, List.filter_append]

theorem mainImages_leaveOut (hN : strlen cfg.ini.nandLoader ≠ 0) :
    cfg.leaveOut.mainImages = (cfg.nandLoaderImage :: cfg.images.filter cfg.readable).foldlM
      cfg.addImage ⟨0, List.Vector.replicate _ blankEntry⟩ := by
  rw [mainImages_eq cfg.leaveOut hN, images_leaveOut]
  rfl

theorem length_images_lt (cfg : Config) : cfg.images.length < 2 ^ 31 + 1 := by
  have hnum : cfg.ini.execFileNum.toInt.toNat < 2 ^ 31 := by
    have := BitVec.toInt_lt (x := cfg.ini.execFileNum)
    omega
  have h1 : (if strlen cfg.ini.logo = 0 then [] else [cfg.logoImage]).length ≤ 1 := by
    split <;> simp
  have h2 : (if strlen cfg.ini.execFile = 0 then []
      else List.replicate cfg.ini.execFileNum.toInt.toNat cfg.execImage).length < 2 ^ 31 := by
    split
    · simp
    · simpa using hnum
  rw [Config.images, List.length_append]
  omega

/-- The stored count and table are those of the configuration without the missing
files exactly when no image is missing and the images fit the table. -/
theorem sysInfo_leaveOut_iff (h : LoaderOK cfg) :
    (∃ s, cfg.sysInfo = some s ∧ cfg.leaveOut.sysInfo = some s) ↔
      (∀ img ∈ cfg.images, cfg.readable img = true) ∧ 1 + cfg.images.length ≤ maxFWInfo := by
  constructor
  · rintro ⟨s, h1, h2⟩
    obtain ⟨st, hst, rfl⟩ := Option.map_eq_some_iff.1 h1
    obtain ⟨st', hst', heq⟩ := Option.map_eq_some_iff.1 h2
    rw [mainImages_eq cfg h.named] at hst
    rw [mainImages_leaveOut h.named] at hst'
    have hc := foldlM_addImage_count hst
    have hc' := foldlM_addImage_count hst'
    simp only [List.length_cons, Nat.zero_add] at hc hc'
    -- one index was handed out per image, missing or not
    have hcount : st'.count = st.count := by
      have heq1 := congrArg (fun p : BitVec 32 × FwTable => p.1.toNat) heq
      have hlt := length_images_lt cfg
      have hle := List.length_filter_le cfg.readable cfg.images
      simp only [BitVec.toNat_ofNat] at heq1
      omega
    have hall : ∀ img ∈ cfg.images, cfg.readable img = true :=
      List.length_filter_eq_length_iff.1 (by omega)
    refine ⟨hall, ?_⟩
    have hle := foldlM_addImage_le (cfg.nandLoaderImage :: cfg.images)
      (fun img hi => (List.mem_cons.1 hi).elim (fun e => e ▸ h.found) (hall img))
      (Nat.zero_le _) hst
    omega
  · rintro ⟨hall, hlen⟩
    obtain ⟨st, hst, -⟩ := mainImages_isSome h hall hlen
    have hst' : cfg.leaveOut.mainImages = some st := by
      rw [mainImages_leaveOut h.named, List.filter_eq_self.2 hall, ← mainImages_eq cfg h.named, hst]
    exact ⟨_, by rw [Config.sysInfo, hst]; rfl, by rw [Config.sysInfo, hst']; rfl⟩

def FwUpdateInfo.covers (e : FwUpdateInfo) (b : Nat) : Prop :=
  e.startBlock.toNat ≤ b ∧ b ≤ e.endBlock.toNat

/-- No entry but `System` starts below block 4, and no block is in two ranges. -/
structure Sound (es : List FwUpdateInfo) : Prop where
  start : ∀ (i : Nat) (e : FwUpdateInfo), es[i]? = some e → e.imageFlag ≠ ImageFlag_System →
    4 ≤ e.startBlock.toNat
  apart : ∀ (i j : Nat) (a b : FwUpdateInfo), i < j → es[i]? = some a → es[j]? = some b →
    ∀ k, ¬ (a.covers k ∧ b.covers k)

/-- What `Sound` says, of the layout with its block numbers cut to 16 bits. -/
structure BlocksApart (cfg : Config) : Prop where
  start : ∀ x ∈ cfg.layout, 4 ≤ x.first % 65536
  apart : ∀ (i j : Nat) (x y : Extent), i < j → cfg.layout[i]? = some x →
    cfg.layout[j]? = some y → ∀ k, ¬ ((x.first % 65536 ≤ k ∧ k ≤ x.last % 65536) ∧
      (y.first % 65536 ≤ k ∧ k ≤ y.last % 65536))

theorem blocksApart_of_lt (hB : cfg.blockSize ≠ 0) (hlast : ∀ x ∈ cfg.layout, x.last < 65536) :
    BlocksApart cfg := by
  constructor
  · intro x hx
    obtain ⟨h1, h2, -⟩ := layout_fits hB hx
    have := hlast x hx
    omega
  · intro i j x y hij hx hy k
    have hlt := place_lt hij hx hy
    have := hlast x (List.mem_of_getElem? hx)
    have := hlast y (List.mem_of_getElem? hy)
    have := (layout_fits hB (List.mem_of_getElem? hy)).2.1
    omega

/-- The table of images that are all found is sound exactly when the layout is. -/
theorem sound_entries_iff (h : LoaderOK cfg) (hall : ∀ img ∈ cfg.images, cfg.readable img = true)
    {st : ImgSt} (hst : cfg.mainImages = some st) (hcount : st.count = 1 + cfg.images.length) :
    Sound st.entries ↔ BlocksApart cfg := by
  obtain ⟨⟨n, h0⟩, hspec⟩ := entries_spec h hall hst hcount
  have hentry : ∀ i x, cfg.layout[i]? = some x → ∃ img, img ∈ cfg.images ∧
      st.entries[i + 1]? = some (img.placed (1 + i) x) := by
    intro i x hx
    have hlt := (List.getElem?_eq_some_iff.1 hx).1
    rw [length_layout] at hlt
    exact ⟨_, List.getElem_mem hlt,
      (hspec i _).2 ⟨_, x, List.getElem?_eq_getElem hlt, hx, rfl⟩⟩
  constructor
  · intro hs
    constructor
    · intro x hx
      obtain ⟨i, hi⟩ := List.getElem?_of_mem hx
      obtain ⟨img, hm, he⟩ := hentry i x hi
      exact hs.start _ _ he (images_ne_system hm)
    · intro i j x y hij hx hy
      obtain ⟨a, -, ha⟩ := hentry i x hx
      obtain ⟨b, -, hb⟩ := hentry j y hy
      exact hs.apart _ _ _ _ (Nat.succ_lt_succ hij) ha hb
  · intro hs
    have hstart : ∀ i e, st.entries[i + 1]? = some e → 4 ≤ e.startBlock.toNat := by
      intro i e he
      obtain ⟨img, x, -, hx, rfl⟩ := (hspec i e).1 he
      exact hs.start x (List.mem_of_getElem? hx)
    constructor
    · intro i e he hf
      cases i with
      | zero =>
        rw [h0, Option.some.injEq] at he
        exact absurd (he ▸ rfl) hf
      | succ i => exact hstart i e he
    · intro i j a b hij ha hb
      obtain ⟨j, rfl⟩ : ∃ j', j = j' + 1 := ⟨j - 1, by omega⟩
      cases i with
      | zero =>
        -- the system area ends at block 3
        rw [h0, Option.some.injEq] at ha
        subst ha
        rintro k ⟨⟨-, hk⟩, hk', -⟩
        have hk : k ≤ 3 := hk
        have := hstart j b hb
        omega
      | succ i =>
        obtain ⟨-, x, -, hx, rfl⟩ := (hspec i a).1 ha
        obtain ⟨-, y, -, hy, rfl⟩ := (hspec j b).1 hb
        exact hs.apart i j x y (by omega) hx hy

/-- **A missing image.** What `main` stores is a sound table, and that of the
configuration without the missing files, exactly when no image is missing, the
images fit the table and the layout survives the cut to 16 bits, as it does with
block numbers below 65536. -/
theorem missing_image_iff (cfg : Config) (h : LoaderOK cfg) :
    (((∃ s, cfg.sysInfo = some s ∧ cfg.leaveOut.sysInfo = some s) ∧
        ∃ st, cfg.mainImages = some st ∧ Sound st.entries) ↔
      (∀ img ∈ cfg.images, cfg.readable img = true) ∧ 1 + cfg.images.length ≤ maxFWInfo ∧
        BlocksApart cfg) ∧
    ((∀ x ∈ cfg.layout, x.last < 65536) → BlocksApart cfg) := by
  refine ⟨?_, blocksApart_of_lt h.blockSize⟩
  rw [sysInfo_leaveOut_iff h]
  constructor
  · rintro ⟨⟨hall, hlen⟩, st, hst, hs⟩
    obtain ⟨st', hst', hcount⟩ := mainImages_isSome h hall hlen
    rw [hst, Option.some.injEq] at hst'
    subst hst'
    exact ⟨hall, hlen, (sound_entries_iff h hall hst hcount).1 hs⟩
  · rintro ⟨hall, hlen, hs⟩
    obtain ⟨st, hst, hcount⟩ := mainImages_isSome h hall hlen
    exact ⟨⟨hall, hlen⟩, st, hst, (sound_entries_iff h hall hst hcount).2 hs⟩

end Missing

theorem missing_image_demo :
    (∃ s, (demoCfg demoFs 1).sysInfo = some s ∧ (demoCfg demoFs 1).leaveOut.sysInfo = some s) ∧
      ∃ st, (demoCfg demoFs 1).mainImages = some st ∧ Sound st.entries := by
  obtain ⟨hiff, hlt⟩ := missing_image_iff (demoCfg demoFs 1) ⟨by decide, by decide, by decide⟩
  exact hiff.2 ⟨by decide, by decide, hlt (by decide)⟩

/-- Without the Logo file, three entries are counted where two are left, and the
Exec image is placed over the system area. -/
theorem missing_logo_corrupts :
    let cfg := demoCfg (fun path => if path = [0x47] then none else demoFs path) 1
    (cfg.sysInfo.map fun s => (s.1, (s.2.toList[2]?).map (·.startBlock))) = some (3, some 0) ∧
      (cfg.leaveOut.sysInfo.map fun s => (s.1, (s.2.toList[1]?).map (·.startBlock))) =
        some (2, some 4) ∧
      cfg.sysInfo ≠ cfg.leaveOut.sysInfo := by
  intro cfg
  have h1 : (cfg.sysInfo.map fun s => (s.1, (s.2.toList[2]?).map (·.startBlock))) =
      some (3, some 0) := by decide
  have h2 : (cfg.leaveOut.sysInfo.map fun s => (s.1, (s.2.toList[1]?).map (·.startBlock))) =
      some (2, some 4) := by decide
  refine ⟨h1, h2, fun heq => ?_⟩
  have h3 : cfg.sysInfo.map Prod.fst = some 3 := by decide
  have h4 : cfg.leaveOut.sysInfo.map Prod.fst = some 2 := by decide
  rw [heq, h4] at h3
  exact absurd h3 (by decide)

end N32905.MnWriter
