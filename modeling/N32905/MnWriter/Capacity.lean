import N32905.MnWriter.Layout

/-!
# The capacity of the image table

`FWInfo` has 16 entries, and nothing compares the index `main` hands out with
that: the copies of the Exec file are as many as `NANDWRITER.ini` says. An image
that `stat` does not find takes an index too, but no entry.

`passed` lists the indices `main` passes to `write_fw_info` as far as it gets;
`table_capacity_iff` says when they, and those `burn_images` reads, stay in the
table and the stored count is that of the entries present.
-/

namespace N32905.MnWriter

open N32905.Lib

/-! ## Indices and entries -/

namespace Config

/-- The indices passed to `write_fw_info`. -/
def passed (cfg : Config) : ImgSt → List Image → List Nat
  | _, [] => []
  | st, img :: imgs =>
    st.count :: match cfg.addImage st img with
      | some st' => cfg.passed st' imgs
      | none => []

/-- The indices `main` passes: the NandLoader's first. -/
def mainPassed (cfg : Config) : List Nat :=
  cfg.passed ⟨0, List.Vector.replicate _ blankEntry⟩ (cfg.nandLoaderImage :: cfg.images)

end Config

/-- An entry `write_fw_info` has stored: anything but the fill of `memset`. -/
def FwUpdateInfo.present (e : FwUpdateInfo) : Bool := e ≠ blankEntry

namespace ImgSt

def present (st : ImgSt) : Nat := st.FWInfo.toList.countP FwUpdateInfo.present

/-- The indices `burn_images(gFileInfoIdx)` reads. -/
def burned (st : ImgSt) : List Nat := List.range st.count

end ImgSt

/-- Every index is one of the table's, and the stored count is right. -/
structure TableCapacity (cfg : Config) : Prop where
  passed : ∀ i ∈ cfg.mainPassed, i ≤ 15
  burned : ∀ st, cfg.mainImages = some st → ∀ i ∈ st.burned, i ≤ 15
  count : ∀ st, cfg.mainImages = some st → (BitVec.ofNat 32 st.count).toNat = st.present

/-! ## One image -/

section One
variable {cfg : Config} {st st' : ImgSt} {img : Image}

theorem entry_present (h : img.imageFlag ≠ 0xFFFF) (i : Nat) (b e : BitVec 16) (n : BitVec 32) :
    (img.entry i b e n).present = true := by
  refine decide_eq_true fun heq => h ?_
  exact congrArg FwUpdateInfo.imageFlag heq

def Blank (st : ImgSt) : Prop :=
  ∀ i e, st.count ≤ i → st.FWInfo.toList[i]? = some e → e = blankEntry

theorem addImage_present (hf : img.imageFlag ≠ 0xFFFF) (hb : Blank st)
    (h : cfg.addImage st img = some st') :
    Blank st' ∧ st'.present = st.present + if cfg.readable img then 1 else 0 := by
  cases hs : cfg.fs.stat (cstr img.filename) with
  | none =>
    have hr : cfg.readable img = false := by simp [Config.readable, hs]
    rw [addImage_missing hr, Option.some.injEq] at h
    subst h
    exact ⟨fun i e hi he => hb i e (Nat.le_of_succ_le hi) he, by simp [ImgSt.present, hr]⟩
  | some n =>
    have hr : cfg.readable img = true := by simp [Config.readable, hs]
    obtain ⟨hi, b, e, rfl⟩ := addImage_cases hs h
    have hlen : st.count < st.FWInfo.toList.length := by rw [List.Vector.toList_length]; exact hi
    constructor
    · intro i e' hle he
      have hne : st.count ≠ i := Nat.ne_of_lt hle
      rw [List.Vector.toList_set, List.getElem?_set_ne hne] at he
      exact hb i e' (Nat.le_of_succ_le hle) he
    · have hold : st.FWInfo.toList[st.count] = blankEntry :=
        hb st.count _ (Nat.le_refl _) (List.getElem?_eq_getElem hlen)
      simp only [ImgSt.present, List.Vector.toList_set, List.countP_set hlen, hold, hr, if_true,
        entry_present hf]
      rfl

/-- `main` stops at a readable Logo or Exec image that finds no entry, or no
block size. -/
theorem addImage_eq_none (hf : img.imageFlag ≠ ImageFlag_System) (hst : 0 < st.count) :
    cfg.addImage st img = none ↔
      cfg.readable img = true ∧ (maxFWInfo ≤ st.count ∨ cfg.blockSize = 0) := by
  cases hs : cfg.fs.stat (cstr img.filename) with
  | none => simp [Config.addImage, writeFwInfo, Config.readable, hs]
  | some n =>
    have hr : cfg.readable img = true := by simp [Config.readable, hs]
    by_cases hi : st.count < maxFWInfo
    · simp [Config.addImage, writeFwInfo, hs, hi, hf, hr, hst, Nat.not_le.2 hi]
    · simp [Config.addImage, writeFwInfo, hs, hi, hr, Nat.le_of_not_lt hi]

end One

/-! ## All images -/

section All
variable {cfg : Config} {imgs : List Image} {st st' : ImgSt}

theorem mem_passed_cons {img : Image} {i : Nat} : i ∈ cfg.passed st (img :: imgs) ↔
    i = st.count ∨ ∃ st1, cfg.addImage st img = some st1 ∧ i ∈ cfg.passed st1 imgs := by
  rw [Config.passed, List.mem_cons]
  cases cfg.addImage st img <;> simp

theorem mem_passed {i : Nat} (h : i ∈ cfg.passed st imgs) : i < st.count + imgs.length := by
  induction imgs generalizing st with
  | nil => cases h
  | cons img imgs ih =>
    rw [List.length_cons]
    rcases mem_passed_cons.1 h with rfl | ⟨st1, ha, h⟩
    · omega
    · have := ih h
      rw [addImage_count ha] at this
      omega

/-- A run that does not get through has passed an index outside the table, or has
found an image and no block size. -/
theorem passed_of_none (hf : ∀ img ∈ imgs, img.imageFlag ≠ ImageFlag_System) (hst : 0 < st.count)
    (h : imgs.foldlM cfg.addImage st = none) :
    (∃ i ∈ cfg.passed st imgs, maxFWInfo ≤ i) ∨
      cfg.blockSize = 0 ∧ ∃ img ∈ imgs, cfg.readable img = true := by
  induction imgs generalizing st with
  | nil => cases h
  | cons img imgs ih =>
    rw [List.foldlM_cons] at h
    cases ha : cfg.addImage st img with
    | none =>
      obtain ⟨hr, hi | hB⟩ := (addImage_eq_none (hf img List.mem_cons_self) hst).1 ha
      · exact .inl ⟨st.count, List.mem_cons_self, hi⟩
      · exact .inr ⟨hB, img, List.mem_cons_self, hr⟩
    | some st1 =>
      rw [ha] at h
      rcases ih (fun i hi => hf i (List.mem_cons_of_mem _ hi)) (by rw [addImage_count ha]; omega)
        h with ⟨i, hi, hle⟩ | ⟨hB, i, hi, hr⟩
      · exact .inl ⟨i, mem_passed_cons.2 (.inr ⟨st1, ha, hi⟩), hle⟩
      · exact .inr ⟨hB, i, List.mem_cons_of_mem _ hi, hr⟩

/-- Without a block size `main` gets no further than the first image found. -/
theorem passed_no_block {pre post : List Image} {img : Image}
    (hf : ∀ i ∈ pre ++ img :: post, i.imageFlag ≠ ImageFlag_System) (hst : 0 < st.count)
    (hB : cfg.blockSize = 0) (hr : cfg.readable img = true) :
    (pre ++ img :: post).foldlM cfg.addImage st = none ∧
      ∀ i ∈ cfg.passed st (pre ++ img :: post), i ≤ st.count + pre.length := by
  induction pre generalizing st with
  | nil =>
    have ha := (addImage_eq_none (hf img (by simp)) hst).2 ⟨hr, .inr hB⟩
    simp [Config.passed, ha]
  | cons p pre ih =>
    rw [List.cons_append, List.foldlM_cons, Config.passed]
    cases ha : cfg.addImage st p with
    | none => simp
    | some st1 =>
      have hc := addImage_count ha
      obtain ⟨h1, h2⟩ := ih (fun i hi => hf i (List.mem_cons_of_mem _ hi)) (by omega : 0 < st1.count)
      refine ⟨h1, fun i hi => ?_⟩
      rw [List.length_cons]
      rcases List.mem_cons.1 hi with rfl | hi
      · omega
      · have := h2 i hi
        omega

theorem foldlM_addImage_present (hf : ∀ img ∈ imgs, img.imageFlag ≠ 0xFFFF) (hb : Blank st)
    (h : imgs.foldlM cfg.addImage st = some st') :
    st'.present = st.present + imgs.countP cfg.readable := by
  induction imgs generalizing st with
  | nil => cases h; rfl
  | cons img imgs ih =>
    rw [List.foldlM_cons] at h
    obtain ⟨st1, h1, h2⟩ := Option.bind_eq_some_iff.1 h
    obtain ⟨hb1, hp1⟩ := addImage_present (hf img List.mem_cons_self) hb h1
    rw [ih (fun i hi => hf i (List.mem_cons_of_mem _ hi)) hb1 h2, hp1, List.countP_cons]
    omega

theorem images_flag_ne {img : Image} (h : img ∈ cfg.images) : img.imageFlag ≠ 0xFFFF := by
  rcases images_flag h with h | h <;> rw [h] <;> decide

/-- An image that is found has at most the Logo before it: the Exec images are
copies of one. -/
theorem images_split (h : ∃ img ∈ cfg.images, cfg.readable img = true) :
    ∃ pre img post, cfg.images = pre ++ img :: post ∧ pre.length ≤ 1 ∧
      cfg.readable img = true := by
  obtain ⟨img, hi, hr⟩ := h
  have hlogo : (if strlen cfg.ini.logo = 0 then [] else [cfg.logoImage]).length ≤ 1 := by
    split <;> simp
  unfold Config.images at hi ⊢
  generalize (if strlen cfg.ini.logo = 0 then [] else [cfg.logoImage]) = logos at hi hlogo ⊢
  rcases List.mem_append.1 hi with hi | hi
  · obtain ⟨pre, post, rfl⟩ := List.append_of_mem hi
    refine ⟨pre, img, _, List.append_assoc .., ?_, hr⟩
    rw [List.length_append] at hlogo
    omega
  · split at hi
    · cases hi
    · obtain ⟨hn, rfl⟩ := List.mem_replicate.1 hi
      obtain ⟨n, hn⟩ := Nat.exists_eq_succ_of_ne_zero hn
      rw [if_neg (by assumption), hn, List.replicate_succ]
      exact ⟨logos, _, _, rfl, hlogo, hr⟩

end All

/-! ## The capacity -/

section Main
variable {cfg : Config}

theorem loader_of_fopen (h : (cfg.fs.fopen (cstr cfg.ini.nandLoader)).isSome) :
    strlen cfg.ini.nandLoader ≠ 0 ∧ cfg.readable cfg.nandLoaderImage = true := by
  constructor
  · intro h0
    rw [strlen, List.length_eq_zero_iff] at h0
    rw [h0, Files.fopen, if_pos rfl] at h
    cases h
  · rw [Config.readable, Files.stat, Option.isSome_map]
    exact h

/-- After the NandLoader there is one entry, and `main` goes on with the images. -/
theorem mainImages_loader (h : (cfg.fs.fopen (cstr cfg.ini.nandLoader)).isSome) :
    ∃ st1 : ImgSt, st1.count = 1 ∧ Blank st1 ∧ st1.present = 1 ∧
      cfg.mainImages = cfg.images.foldlM cfg.addImage st1 ∧
      cfg.mainPassed = 0 :: cfg.passed st1 cfg.images := by
  obtain ⟨hnamed, hfound⟩ := loader_of_fopen h
  obtain ⟨n, st1, h1, hc, -⟩ := addImage_loader hfound
  have hblank : Blank ⟨0, List.Vector.replicate _ blankEntry⟩ := by
    intro i e _ he
    exact List.eq_of_mem_replicate (List.mem_of_getElem? he)
  obtain ⟨hb1, hp1⟩ := addImage_present (show cfg.nandLoaderImage.imageFlag ≠ 0xFFFF by
    show ImageFlag_System ≠ 0xFFFF; decide) hblank h1
  refine ⟨st1, hc, hb1, ?_, ?_, ?_⟩
  · rw [hp1, hfound]
    decide
  · rw [mainImages_eq cfg hnamed, List.foldlM_cons, h1]
    rfl
  · rw [Config.mainPassed, Config.passed, h1]

theorem mainImages_count (h : (cfg.fs.fopen (cstr cfg.ini.nandLoader)).isSome) {st : ImgSt}
    (hst : cfg.mainImages = some st) :
    st.count = 1 + cfg.images.length ∧ (BitVec.ofNat 32 st.count).toNat = st.count ∧
      st.present = 1 + cfg.images.countP cfg.readable := by
  obtain ⟨st1, hc, hb, hp, hmain, -⟩ := mainImages_loader h
  rw [hmain] at hst
  have hcount := foldlM_addImage_count hst
  have hlt := length_images_lt cfg
  rw [hc] at hcount
  refine ⟨hcount, ?_, ?_⟩
  · rw [BitVec.toNat_ofNat, Nat.mod_eq_of_lt (by omega)]
  · rw [foldlM_addImage_present (fun _ => images_flag_ne) hb hst, hp]

theorem capacity_of_few (h : (cfg.fs.fopen (cstr cfg.ini.nandLoader)).isSome)
    (hlen : cfg.images.length ≤ 15) (hall : ∀ img ∈ cfg.images, cfg.readable img = true) :
    TableCapacity cfg := by
  constructor
  · intro i hi
    have : i < 0 + (cfg.images.length + 1) := mem_passed hi
    omega
  · intro st hst i hi
    have hcount := (mainImages_count h hst).1
    have := List.mem_range.1 hi
    omega
  · intro st hst
    obtain ⟨hcount, hnat, hpresent⟩ := mainImages_count h hst
    rw [hnat, hpresent, hcount, List.countP_eq_length.2 hall]

theorem capacity_of_no_block (h : (cfg.fs.fopen (cstr cfg.ini.nandLoader)).isSome)
    (hB : cfg.blockSize = 0) (hr : ∃ img ∈ cfg.images, cfg.readable img = true) :
    TableCapacity cfg := by
  obtain ⟨st1, hc, -, -, hmain, hpassed⟩ := mainImages_loader h
  obtain ⟨pre, img, post, himgs, hpre, hri⟩ := images_split hr
  have hf : ∀ i ∈ pre ++ img :: post, i.imageFlag ≠ ImageFlag_System := by
    rw [← himgs]
    exact fun _ => images_ne_system
  obtain ⟨hnone, hle⟩ := passed_no_block hf (by omega : 0 < st1.count) hB hri
  rw [← himgs] at hnone hle
  rw [hnone] at hmain
  constructor
  · intro i hi
    rw [hpassed] at hi
    rcases List.mem_cons.1 hi with rfl | hi
    · exact Nat.zero_le _
    · have := hle i hi
      omega
  · intro st hst
    rw [hmain] at hst
    cases hst
  · intro st hst
    rw [hmain] at hst
    cases hst

end Main

/-- **The capacity of the table**: once the NandLoader is opened, the indices stay
in the table and the stored count is right exactly when there are at most 15 Logo
and Exec images and all of them are found. The other case is a block size of 0,
with which `main` dies in the division for the first image found. -/
theorem table_capacity_iff (cfg : Config)
    (hopen : (cfg.fs.fopen (cstr cfg.ini.nandLoader)).isSome) :
    TableCapacity cfg ↔
      (cfg.images.length ≤ 15 ∧ ∀ img ∈ cfg.images, cfg.readable img = true) ∨
      (cfg.blockSize = 0 ∧ ∃ img ∈ cfg.images, cfg.readable img = true) := by
  constructor
  · intro hcap
    obtain ⟨st1, hc, -, -, hmain, hpassed⟩ := mainImages_loader hopen
    cases hst : cfg.mainImages with
    | some st =>
      obtain ⟨hcount, hnat, hpresent⟩ := mainImages_count hopen hst
      have hlast := hcap.burned st hst cfg.images.length (List.mem_range.2 (by omega))
      have hright := hcap.count st hst
      exact .inl ⟨hlast, List.countP_eq_length.1 (by omega)⟩
    | none =>
      rw [hmain] at hst
      refine .inr ((passed_of_none (fun _ => images_ne_system) (by omega) hst).resolve_left ?_)
      rintro ⟨i, hi, hge⟩
      have := hcap.passed i (hpassed ▸ List.mem_cons_of_mem _ hi)
      exact absurd hge (Nat.not_le.2 (Nat.lt_succ_of_le this))
  · rintro (⟨hlen, hall⟩ | ⟨hB, hr⟩)
    · exact capacity_of_few hopen hlen hall
    · exact capacity_of_no_block hopen hB hr

/-- A Logo and two copies of the Exec file. -/
theorem table_capacity_demo : TableCapacity (demoCfg demoFs 2) :=
  (table_capacity_iff (demoCfg demoFs 2) (by decide)).2 (.inl ⟨by decide, by decide⟩)

/-- Fifteen copies of the Exec file beside a Logo: `write_fw_info` gets index 16. -/
theorem table_capacity_exceeded :
    (((demoCfg demoFs 15).fs.fopen (cstr (demoCfg demoFs 15).ini.nandLoader)).isSome = true) ∧
      16 ∈ (demoCfg demoFs 15).mainPassed ∧ ¬ TableCapacity (demoCfg demoFs 15) := by
  have h16 : 16 ∈ (demoCfg demoFs 15).mainPassed := by decide
  refine ⟨by decide, h16, fun h => ?_⟩
  exact absurd (h.passed 16 h16) (by decide)

end N32905.MnWriter
