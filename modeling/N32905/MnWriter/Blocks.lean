import N32905.MnWriter.Layout

/-!
# The blocks an image claims

`write_fw_info` gives `n` bytes the blocks up to `startBlock + n / B`. That is the
block of the last byte unless `n` is a multiple of the block size: then the range
ends one block behind it. The end is cut to 16 bits as well, so a range that
crosses block 65535 ends before it starts.

`exactRange_iff` is about one entry, `blocks_claimed_iff` about the calls of
`write_fw_info` and the table `main` makes with them.
-/

namespace N32905.MnWriter

open N32905.Lib

/-! ## Exact ranges -/

/-- The range ends at the block of the last byte, so every block holds data. -/
structure FwUpdateInfo.ExactRange (B : Nat) (e : FwUpdateInfo) : Prop where
  last : e.endBlock.toNat = e.startBlock.toNat + (e.fileLen.toNat - 1) / B
  holds : ((e.endBlock.toNat : Int) - e.startBlock.toNat) * B < e.fileLen.toNat

/-- The blocks the entries claim. -/
def claimed (es : List FwUpdateInfo) : Int :=
  (es.map fun e => (e.endBlock.toNat : Int) - e.startBlock.toNat + 1).sum

namespace Config

/-- The blocks before image `j`: the system area, and the ranges of the images
before it. -/
def blocksBefore (cfg : Config) (j : Nat) : Nat :=
  uIBRAreaSize + ((cfg.images.take j).map fun img => cfg.size img / cfg.blockSize.toNat + 1).sum

abbrev extentAt (cfg : Config) (j : Nat) (img : Image) : Extent :=
  ⟨cfg.blocksBefore j, cfg.blocksBefore j + cfg.span (cfg.size img), cfg.size img⟩

/-- `ceil(fileLen / B)`. -/
def blocksOf (cfg : Config) (img : Image) : Nat :=
  (cfg.size img + cfg.blockSize.toNat - 1) / cfg.blockSize.toNat

end Config

section Arith
variable {B n start : Nat}

theorem exact_end_iff (hn : 0 < n) (hs : start < 65536) :
    (start + n / B) % 65536 = start + (n - 1) / B ↔ ¬ B ∣ n ∧ start + n / B < 65536 := by
  obtain ⟨m, rfl⟩ : ∃ m, n = m + 1 := ⟨n - 1, by omega⟩
  rw [Nat.add_sub_cancel]
  by_cases hd : B ∣ m + 1
  · rw [Nat.succ_div_of_dvd hd]
    simp only [hd, not_true_eq_false, false_and, iff_false]
    omega
  · rw [Nat.succ_div_of_not_dvd hd]
    simp only [hd, not_false_eq_true, true_and]
    generalize m / B = q
    omega

theorem last_block_lt (hn : 0 < n) : (n - 1) / B * B < n := by
  have := Nat.div_mul_le_self (n - 1) B
  omega

theorem ceil_eq_last (hB : 0 < B) (hn : 0 < n) : (n + B - 1) / B = (n - 1) / B + 1 := by
  rw [show n + B - 1 = n - 1 + B by omega, Nat.add_div_right _ hB]

end Arith

/-- One entry: the range is exact when the length is no multiple of the block size
and the last block has a 16-bit number. -/
theorem exactRange_iff {e : FwUpdateInfo} {B : Nat} (hn : 0 < e.fileLen.toNat)
    (hend : e.endBlock.toNat = (e.startBlock.toNat + e.fileLen.toNat / B) % 65536) :
    e.ExactRange B ↔
      ¬ B ∣ e.fileLen.toNat ∧ e.startBlock.toNat + e.fileLen.toNat / B < 65536 := by
  have hiff := exact_end_iff (B := B) hn e.startBlock.isLt
  rw [← hend] at hiff
  constructor
  · intro h
    exact hiff.1 h.last
  · intro h
    have hlast := hiff.2 h
    refine ⟨hlast, ?_⟩
    have := last_block_lt (B := B) hn
    rw [hlast, Nat.cast_add, add_sub_cancel_left]
    exact_mod_cast this

theorem FwUpdateInfo.ExactRange.blocks {e : FwUpdateInfo} {B : Nat} (h : e.ExactRange B)
    (hB : 0 < B) (hn : 0 < e.fileLen.toNat) :
    (e.endBlock.toNat : Int) - e.startBlock.toNat + 1 =
      ((e.fileLen.toNat + B - 1) / B : Nat) := by
  rw [h.last, ceil_eq_last hB hn, Nat.cast_add, Nat.cast_add, add_sub_cancel_left]
  rfl

/-! ## One call -/

/-- What a call of `write_fw_info` records for a Logo or Exec image behind the
entry `p`. -/
theorem writeFwInfo_end {fs : Files} {B : BitVec 32} {FWInfo FWInfo' : FwTable} {FileInfoIdx : Nat}
    {img : Image} {n : BitVec 32} {p e : FwUpdateInfo} (hf : img.imageFlag ≠ ImageFlag_System)
    (hn : fs.stat (cstr img.filename) = some n)
    (h : writeFwInfo fs B FWInfo FileInfoIdx img = some (0, FWInfo'))
    (hp : FWInfo.toList[FileInfoIdx - 1]? = some p)
    (he : FWInfo'.toList[FileInfoIdx]? = some e) :
    e.fileLen = n ∧ e.startBlock = p.endBlock + 1 ∧
      e.endBlock.toNat = (e.startBlock.toNat + e.fileLen.toNat / B.toNat) % 65536 := by
  simp only [writeFwInfo, hn, if_neg hf] at h
  split at h
  · next hi =>
    split at h
    · simp only [Option.some.injEq, Prod.mk.injEq, true_and] at h
      subst h
      rw [List.Vector.toList_set, List.getElem?_set_self (by rw [List.Vector.toList_length]; exact hi),
        Option.some.injEq] at he
      subst he
      have hget : FWInfo.get ⟨FileInfoIdx - 1, by omega⟩ = p := by
        obtain ⟨hlt, rfl⟩ := List.getElem?_eq_some_iff.1 hp
        rw [List.Vector.get_eq_get_toList]
        rfl
      refine ⟨rfl, by rw [← hget]; rfl, ?_⟩
      simp only [Image.entry, BitVec.toNat_setWidth, BitVec.toNat_add, BitVec.toNat_udiv]
      omega
    · cases h
  · cases h

/-! ## The table -/

section Table
variable {cfg : Config} {st : ImgSt}

theorem layout_getElem? {j : Nat} {img : Image} (hj : cfg.images[j]? = some img) :
    cfg.layout[j]? = some (cfg.extentAt j img) := by
  rw [Config.layout, place_getElem?, List.getElem?_map, hj, Option.map_some, Option.map_some,
    ← List.map_take, List.map_map]
  rfl

theorem placed_range (img : Image) (k : Nat) {x : Extent} (hlen : x.len < 2 ^ 32) :
    (img.placed k x).startBlock.toNat = x.first % 65536 ∧
      (img.placed k x).endBlock.toNat = x.last % 65536 ∧
      (img.placed k x).fileLen.toNat = x.len := by
  refine ⟨BitVec.toNat_ofNat .., BitVec.toNat_ofNat .., ?_⟩
  exact (BitVec.toNat_ofNat ..).trans (Nat.mod_eq_of_lt hlen)

section Main
variable (h : LoaderOK cfg) (hr : ∀ img ∈ cfg.images, cfg.readable img = true)
  (hst : cfg.mainImages = some st)
include h hr hst

omit hr in
theorem mainImages_length : st.count = 1 + cfg.images.length := by
  rw [mainImages_eq cfg h.named] at hst
  have : st.count = 0 + (cfg.images.length + 1) := foldlM_addImage_count hst
  omega

theorem entries_image {i : Nat} {e : FwUpdateInfo} : st.entries[i + 1]? = some e ↔
    ∃ img, cfg.images[i]? = some img ∧ e = img.placed (1 + i) (cfg.extentAt i img) := by
  rw [(entries_spec h hr hst (mainImages_length h hst)).2]
  constructor
  · rintro ⟨img, x, hi, hx, rfl⟩
    rw [layout_getElem? hi, Option.some.injEq] at hx
    subst hx
    exact ⟨img, hi, rfl⟩
  · rintro ⟨img, hi, rfl⟩
    exact ⟨img, _, hi, layout_getElem? hi, rfl⟩

theorem exactRange_entries_iff (hpos : ∀ img ∈ cfg.images, 0 < cfg.size img) :
    (∀ e ∈ st.entries, e.isImage → e.ExactRange cfg.blockSize.toNat) ↔
      ∀ j img, cfg.images[j]? = some img → ¬ cfg.blockSize.toNat ∣ cfg.size img ∧
        cfg.blocksBefore j % 65536 + cfg.size img / cfg.blockSize.toNat < 65536 := by
  have hentry : ∀ j img, cfg.images[j]? = some img →
      ((img.placed (1 + j) (cfg.extentAt j img)).ExactRange cfg.blockSize.toNat ↔
        ¬ cfg.blockSize.toNat ∣ cfg.size img ∧
          cfg.blocksBefore j % 65536 + cfg.size img / cfg.blockSize.toNat < 65536) := by
    intro j img hj
    have hm := hpos img (List.mem_of_getElem? hj)
    obtain ⟨h1, h2, h3⟩ := placed_range img (1 + j) (x := cfg.extentAt j img) (size_lt cfg img)
    have hend := exactRange_iff (B := cfg.blockSize.toNat) (by rw [h3]; exact hm)
      (by rw [h1, h2, h3, Nat.mod_add_mod]; rfl)
    rwa [h1, h3] at hend
  obtain ⟨n, h0⟩ := (entries_spec h hr hst (mainImages_length h hst)).1
  constructor
  · intro hall j img hj
    have he := (entries_image h hr hst).2 ⟨img, hj, rfl⟩
    exact (hentry j img hj).1 (hall _ (List.mem_of_getElem? he)
      (images_flag (List.mem_of_getElem? hj)))
  · intro hall e he himg
    obtain ⟨i, hi⟩ := List.getElem?_of_mem he
    cases i with
    | zero =>
      rw [h0, Option.some.injEq] at hi
      exact absurd (hi ▸ himg) (not_isImage_loader cfg n)
    | succ j =>
      obtain ⟨img, hj, rfl⟩ := (entries_image h hr hst).1 hi
      exact (hentry j img hj).2 (hall j img hj)

theorem entries_getElem? (i : Nat) : st.entries[i + 1]? =
    cfg.images[i]?.map fun img => img.placed (1 + i) (cfg.extentAt i img) := by
  apply Option.ext
  intro e
  rw [entries_image h hr hst, Option.map_eq_some_iff]
  exact exists_congr fun img => and_congr_right fun _ => eq_comm

theorem claimed_eq (hpos : ∀ img ∈ cfg.images, 0 < cfg.size img)
    (hall : ∀ e ∈ st.entries, e.isImage → e.ExactRange cfg.blockSize.toNat) :
    claimed st.entries = 4 + (cfg.images.map fun img => (cfg.blocksOf img : Int)).sum := by
  obtain ⟨n, h0⟩ := (entries_spec h hr hst (mainImages_length h hst)).1
  have hB : 0 < cfg.blockSize.toNat := by
    rw [Nat.pos_iff_ne_zero]
    exact fun h0 => h.blockSize (BitVec.eq_of_toNat_eq h0)
  have hmap : (st.entries.map fun e => (e.endBlock.toNat : Int) - e.startBlock.toNat + 1) =
      4 :: cfg.images.map fun img => (cfg.blocksOf img : Int) := by
    apply List.ext_getElem?
    intro i
    cases i with
    | zero =>
      rw [List.getElem?_map, h0]
      rfl
    | succ i =>
      rw [List.getElem?_map, List.getElem?_cons_succ, List.getElem?_map]
      have he := entries_getElem? h hr hst i
      cases hi : cfg.images[i]? with
      | none =>
        rw [he, hi]
        rfl
      | some img =>
        have hm := List.mem_of_getElem? hi
        have hlen := (placed_range img (1 + i) (x := cfg.extentAt i img) (size_lt cfg img)).2.2
        rw [hi, Option.map_some] at he
        have hexact := hall _ (List.mem_of_getElem? he) (images_flag hm)
        rw [he, Option.map_some, hexact.blocks hB (by rw [hlen]; exact hpos img hm), hlen]
        rfl
  rw [claimed, hmap, List.sum_cons]

end Main

end Table

/-- **The blocks an image claims.** A call of `write_fw_info` records an exact range
for a non-empty file exactly when its length is no multiple of the block size and
the range does not cross block 65535. The table of `main` claims 4 blocks and those
of the images, by exact ranges, exactly when that is so for every image. -/
theorem blocks_claimed_iff (cfg : Config) (hB : cfg.blockSize ≠ 0) :
    (∀ (FWInfo FWInfo' : FwTable) (FileInfoIdx : Nat) (img : Image) (n : BitVec 32)
        (p e : FwUpdateInfo), img.imageFlag ≠ ImageFlag_System →
      cfg.fs.stat (cstr img.filename) = some n → n ≠ 0 →
      writeFwInfo cfg.fs cfg.blockSize FWInfo FileInfoIdx img = some (0, FWInfo') →
      FWInfo.toList[FileInfoIdx - 1]? = some p → FWInfo'.toList[FileInfoIdx]? = some e →
      (e.ExactRange cfg.blockSize.toNat ↔ ¬ cfg.blockSize.toNat ∣ n.toNat ∧
        (p.endBlock + 1).toNat + n.toNat / cfg.blockSize.toNat < 65536)) ∧
    ∀ st, strlen cfg.ini.nandLoader ≠ 0 → cfg.readable cfg.nandLoaderImage = true →
      (∀ img ∈ cfg.images, cfg.readable img = true) → (∀ img ∈ cfg.images, 0 < cfg.size img) →
      cfg.mainImages = some st →
      ((∀ e ∈ st.entries, e.isImage → e.ExactRange cfg.blockSize.toNat) ∧
          claimed st.entries = 4 + (cfg.images.map fun img => (cfg.blocksOf img : Int)).sum ↔
        ∀ j img, cfg.images[j]? = some img → ¬ cfg.blockSize.toNat ∣ cfg.size img ∧
          cfg.blocksBefore j % 65536 + cfg.size img / cfg.blockSize.toNat < 65536) := by
  constructor
  · intro FWInfo FWInfo' FileInfoIdx img n p e hf hn h0 h hp he
    obtain ⟨rfl, hstart, hend⟩ := writeFwInfo_end hf hn h hp he
    rw [← hstart]
    refine exactRange_iff (Nat.pos_of_ne_zero fun h => h0 ?_) hend
    exact BitVec.eq_of_toNat_eq h
  · intro st hnamed hfound hr hpos hst
    have h : LoaderOK cfg := ⟨hB, hnamed, hfound⟩
    rw [← exactRange_entries_iff h hr hst hpos]
    exact ⟨fun hall => hall.1, fun hall => ⟨hall, claimed_eq h hr hst hpos hall⟩⟩

/-- Files of two and four bytes in blocks of 2048: one block each. -/
theorem blocks_claimed_demo : ∃ st, (demoCfg demoFs 2).mainImages = some st ∧
    (∀ e ∈ st.entries, e.isImage → e.ExactRange 2048) ∧ claimed st.entries = 7 := by
  obtain ⟨st, hst⟩ : ∃ st, (demoCfg demoFs 2).mainImages = some st :=
    Option.isSome_iff_exists.1 (by decide)
  have hiff := (blocks_claimed_iff (demoCfg demoFs 2) (by decide)).2 st (by decide) (by decide)
    (by decide) (by decide) hst
  refine ⟨st, hst, hiff.2 fun j img hj => ?_⟩
  match j, hj with
  | 0, hj | 1, hj | 2, hj =>
    cases hj
    decide

/-- The Logo has 512 bytes, a block of the smallest size. -/
def fullCfg : Config :=
  { demoCfg (fun path => if path = [0x47] then some (List.replicate 512 0) else demoFs path) 1 with
    blockSize := 512 }

/-- A Logo of exactly one block gets two. -/
theorem full_block_claims_two : ∃ st e, fullCfg.mainImages = some st ∧ e ∈ st.entries ∧
    e.imageFlag = ImageFlag_Logo ∧ e.fileLen = 512 ∧ e.startBlock = 4 ∧ e.endBlock = 5 ∧
    ¬ e.ExactRange 512 ∧
    claimed st.entries = 1 + (4 + (fullCfg.images.map fun img => (fullCfg.blocksOf img : Int)).sum) := by
  obtain ⟨st, hst⟩ : ∃ st, fullCfg.mainImages = some st :=
    Option.isSome_iff_exists.1 (by decide +kernel)
  have hentries : (fullCfg.mainImages.map fun st => (st.entries.map fun e =>
      (e.imageFlag, e.fileLen, e.startBlock, e.endBlock))) =
      some [(3, 3, 0, 3), (4, 512, 4, 5), (1, 4, 6, 6)] := by decide +kernel
  have hsum : (4 + (fullCfg.images.map fun img => (fullCfg.blocksOf img : Int)).sum) = 6 := by
    decide +kernel
  rw [hst, Option.map_some, Option.some.injEq] at hentries
  have hclaimed : claimed st.entries = ((st.entries.map fun e =>
      (e.imageFlag, e.fileLen, e.startBlock, e.endBlock)).map fun q =>
        (q.2.2.2.toNat : Int) - q.2.2.1.toNat + 1).sum := by
    rw [List.map_map]
    rfl
  have hlogo := congrArg (·[1]?) hentries
  rw [List.getElem?_map] at hlogo
  obtain ⟨e, he, hfields⟩ := Option.map_eq_some_iff.1 hlogo
  simp only [Prod.mk.injEq] at hfields
  obtain ⟨hf, hlen, hstart, hend⟩ := hfields
  refine ⟨st, e, hst, List.mem_of_getElem? he, hf, hlen, hstart, hend, fun h => ?_, ?_⟩
  · have hholds := h.holds
    rw [hlen, hstart, hend] at hholds
    exact absurd hholds (by decide)
  · rw [hclaimed, hentries, hsum]
    decide

end N32905.MnWriter
