import N32905.Lib.Programming
import N32905.MnWriter.Layout
import N32905.MnWriter.SysBlock

/-!
# Booting from the burnt flash

What `mn_writer` leaves on a chip without bad blocks, and what a boot loader makes of it
that knows the structures of `nand_sa_writer.h`: each of the four copies of the system block
leads to the NandLoader and to every image, whatever the chip held before.
-/

namespace N32905.MnWriter

open N32905.Lib

/-! ## The chip and its tools -/

/-- The bytes of the two partitions. -/
abbrev Nand := Mtd → Nat → Byte

/-- What the `mtd-utils` do to a chip without bad blocks, with pages of `page` bytes and
partitions of the given sizes. A file is programmed whole, and filled up to a page if asked to. -/
structure Tools (page : Nat) (size : Mtd → Nat) (fs : Files) (run : Cmd → Nand → Nand) : Prop where
  flashErase : ∀ dev nand, run (.flashErase dev) nand = Function.update nand dev fun _ => 0xFF
  nandwrite : ∀ dev pad start file content nand, fs.fopen file = some content →
    start.toNat % page = 0 → pad = true ∨ content.length % page = 0 →
    start.toNat + (content.length + page - 1) / page * page ≤ size dev →
    run (.nandwrite dev pad start file) nand =
      Function.update nand dev (programAt (nand dev) (start.toNat, content))
  nanddump : ∀ dev start length nand, run (.nanddump dev start length) nand = nand

def runCmds (run : Cmd → Nand → Nand) (cmds : List Cmd) (nand : Nand) : Nand :=
  cmds.foldl (fun nand c => run c nand) nand

/-- The end of `main`: the output file, and the images burnt by commands that exit with 0. -/
def Config.burnt (cfg : Config) (run : Files → Cmd → Nand → Nand) (nand : Nand) : Option Nand := do
  let blk ← cfg.outputBlock
  let st ← cfg.mainImages
  let fs := Function.update cfg.fs cfg.opOutSysFilePath (some blk)
  let s ← cfg.burnImages (fun _ => .exited 0) st.entries
  pure (runCmds (run fs) s.issued nand)

instance (e : FwUpdateInfo) : Decidable e.isImage := inferInstanceAs (Decidable (_ ∨ _))

/-- A boot loader: system block number `copy`, and the images its table lists. -/
def boot (B P : Nat) (nand : Nand) (copy : Nat) :
    Option (SysImage × List (FwUpdateInfo × List Byte)) :=
  (decodeBlock B P (readBytes (nand .mtd0) (copy * B) B)).map fun sys =>
    (sys, ((sys.table.toList.take sys.count.toNat).filter fun e => e.isImage).map fun e =>
      (e, readBytes (nand .mtd1) ((e.startBlock.toNat - uIBRAreaSize) * B) e.fileLen.toNat))

/-! ## What is programmed -/

namespace Config

def content (cfg : Config) (img : Image) : List Byte :=
  (cfg.fs.fopen (cstr img.filename)).getD []

end Config

section Commands
variable {cfg : Config} {page : Nat} {size : Mtd → Nat} {fs : Files} {run : Cmd → Nand → Nand}
  {nand : Nand} {blk : List Byte}

theorem runCmds_append (cs ds : List Cmd) (nand : Nand) :
    runCmds run (cs ++ ds) nand = runCmds run ds (runCmds run cs nand) :=
  List.foldl_append

structure SystemRoom (cfg : Config) (page : Nat) (size : Mtd → Nat) : Prop where
  pages : cfg.blockSize.toNat % page = 0
  pos : 0 < page
  offsets : uIBRAreaSize * cfg.blockSize.toNat ≤ 2 ^ 32
  fits : uIBRAreaSize * cfg.blockSize.toNat ≤ size .mtd0

theorem ceil_page_le {page n m : Nat} (hpage : 0 < page) (hm : m % page = 0) (hn : n ≤ m) :
    (n + page - 1) / page * page ≤ m := by
  obtain ⟨q, rfl⟩ := Nat.dvd_of_mod_eq_zero hm
  rw [Nat.mul_comm]
  refine Nat.mul_le_mul_left page ?_
  rw [← Nat.lt_succ_iff, Nat.div_lt_iff_lt_mul hpage, Nat.succ_mul, Nat.mul_comm q]
  omega

theorem toNat_systemStart (hroom : SystemRoom cfg page size) (hB : cfg.blockSize ≠ 0) {i : Nat}
    (hi : i < uIBRAreaSize) :
    (BitVec.ofNat 32 i * cfg.blockSize).toNat = i * cfg.blockSize.toNat := by
  have hoff := hroom.offsets
  have hpos : 0 < cfg.blockSize.toNat :=
    Nat.pos_of_ne_zero fun h0 => hB (BitVec.eq_of_toNat_eq h0)
  have hlt : i * cfg.blockSize.toNat < uIBRAreaSize * cfg.blockSize.toNat :=
    Nat.mul_lt_mul_of_pos_right hi hpos
  have hi4 : i < 4 := hi
  have hmod : i % 2 ^ 32 = i := Nat.mod_eq_of_lt (by omega)
  rw [BitVec.toNat_mul, BitVec.toNat_ofNat, hmod, Nat.mod_eq_of_lt (by omega)]

theorem run_systemRound (h : Tools page size fs run) (hroom : SystemRoom cfg page size)
    (hB : cfg.blockSize ≠ 0) (hblk : fs.fopen cfg.opOutSysFilePath = some blk)
    (hlen : blk.length = cfg.blockSize.toNat) {i : Nat} (hi : i < uIBRAreaSize) (nand : Nand) :
    runCmds run (cfg.systemRound i) nand =
      Function.update nand .mtd0 (programAt (nand .mtd0) (i * cfg.blockSize.toNat, blk)) := by
  have hle : (i + 1) * cfg.blockSize.toNat ≤ size .mtd0 :=
    Nat.le_trans (Nat.mul_le_mul_right _ hi) hroom.fits
  have hpad : (blk.length + page - 1) / page * page ≤ cfg.blockSize.toNat :=
    ceil_page_le hroom.pos hroom.pages (Nat.le_of_eq hlen)
  have hstart := toNat_systemStart hroom hB hi
  have hmod : i * cfg.blockSize.toNat % page = 0 := by
    rw [Nat.mul_mod, hroom.pages, Nat.mul_zero, Nat.zero_mod]
  have hwrite := h.nandwrite .mtd0 false (BitVec.ofNat 32 i * cfg.blockSize) _ blk nand hblk
    (by rw [hstart, hmod]) (.inr (by rw [hlen, hroom.pages])) (by
      rw [hstart]
      rw [Nat.succ_mul] at hle
      omega)
  rw [Config.systemRound, runCmds, List.foldl_cons, List.foldl_cons, List.foldl_nil, hwrite,
    h.nanddump, hstart]

theorem run_systemRounds (h : Tools page size fs run) (hroom : SystemRoom cfg page size)
    (hB : cfg.blockSize ≠ 0) (hblk : fs.fopen cfg.opOutSysFilePath = some blk)
    (hlen : blk.length = cfg.blockSize.toNat) {is : List Nat} (his : ∀ i ∈ is, i < uIBRAreaSize)
    (nand : Nand) :
    runCmds run (is.flatMap cfg.systemRound) nand = Function.update nand .mtd0
      ((is.map fun i => (i * cfg.blockSize.toNat, blk)).foldl programAt (nand .mtd0)) := by
  induction is generalizing nand with
  | nil => rw [List.map_nil, List.foldl_nil, Function.update_eq_self]; rfl
  | cons i is ih =>
    obtain ⟨hi, his⟩ := List.forall_mem_cons.1 his
    rw [List.flatMap_cons, runCmds_append, run_systemRound h hroom hB hblk hlen hi, ih his,
      Function.update_idem, Function.update_self, List.map_cons, List.foldl_cons]

/-- What the commands for an entry program into `mtd1`. -/
def Config.burns (cfg : Config) (e : FwUpdateInfo) : Nat × List Byte :=
  ((cfg.execStart e).toNat, (cfg.fs.fopen
    (if e.imageFlag = ImageFlag_Logo then cstr cfg.ini.logo else cstr cfg.ini.execFile)).getD [])

/-- `nandwrite` takes the commands for an entry. -/
structure Burnable (cfg : Config) (page : Nat) (size : Mtd → Nat) (fs : Files)
    (e : FwUpdateInfo) : Prop where
  isImage : e.isImage
  file : fs.fopen
    (if e.imageFlag = ImageFlag_Logo then cstr cfg.ini.logo else cstr cfg.ini.execFile) =
      some (cfg.burns e).2
  start : (cfg.burns e).1 % page = 0
  fits : (cfg.burns e).1 + ((cfg.burns e).2.length + page - 1) / page * page ≤ size .mtd1

theorem entryCmd_of_isImage (c : Cmd) {e : FwUpdateInfo} (he : e.isImage) :
    cfg.entryCmd c e = .nandwrite .mtd1 true (cfg.execStart e)
      (if e.imageFlag = ImageFlag_Logo then cstr cfg.ini.logo else cstr cfg.ini.execFile) := by
  rw [Config.entryCmd]
  split
  · rfl
  · rename_i hlogo
    rw [if_pos (he.resolve_left hlogo)]

theorem entryCmd_of_not_isImage (c : Cmd) {e : FwUpdateInfo} (he : ¬ e.isImage) :
    cfg.entryCmd c e = c := by
  rw [Config.entryCmd, if_neg fun hlogo => he (.inl hlogo), if_neg fun hexec => he (.inr hexec)]

theorem run_entryCmds (h : Tools page size fs run) (c : Cmd) {es : List FwUpdateInfo}
    (hes : ∀ e ∈ es, Burnable cfg page size fs e) (nand : Nand) :
    runCmds run (cfg.entryCmds c es) nand =
      Function.update nand .mtd1 ((es.map cfg.burns).foldl programAt (nand .mtd1)) := by
  induction es generalizing c nand with
  | nil => rw [List.map_nil, List.foldl_nil, Function.update_eq_self]; rfl
  | cons e es ih =>
    obtain ⟨he, hes⟩ := List.forall_mem_cons.1 hes
    have hwrite := h.nandwrite .mtd1 true (cfg.execStart e) _ _ nand he.file he.start (.inl rfl) he.fits
    have hround : runCmds run (cfg.entryCmds c (e :: es)) nand =
        runCmds run (cfg.entryCmds (cfg.dumpCmd e) es)
          (run (cfg.dumpCmd e) (run (cfg.entryCmd c e) nand)) := rfl
    rw [hround, entryCmd_of_isImage c he.isImage, hwrite, Config.dumpCmd, h.nanddump, ← Config.dumpCmd,
      ih _ hes, Function.update_idem, Function.update_self, List.map_cons, List.foldl_cons]
    rfl

/-- **What the commands leave on the chip**: the copies on the one partition, the images on the
other, and nothing else. -/
theorem run_burnCmds (h : Tools page size fs run) (hroom : SystemRoom cfg page size)
    (hB : cfg.blockSize ≠ 0) (hblk : fs.fopen cfg.opOutSysFilePath = some blk)
    (hlen : blk.length = cfg.blockSize.toNat) {loader : FwUpdateInfo}
    (hloader : ¬ loader.isImage) {es : List FwUpdateInfo}
    (hes : ∀ e ∈ es, Burnable cfg page size fs e) (nand : Nand) :
    runCmds run (cfg.burnCmds (loader :: es)) nand = fun dev => match dev with
      | .mtd0 => ((List.range uIBRAreaSize).map fun i => (i * cfg.blockSize.toNat, blk)).foldl
          programAt fun _ => 0xFF
      | .mtd1 => (es.map cfg.burns).foldl programAt fun _ => 0xFF := by
  have hentries : cfg.entryCmds (.flashErase .mtd1) (loader :: es) =
      .flashErase .mtd1 :: cfg.dumpCmd loader :: cfg.entryCmds (cfg.dumpCmd loader) es := by
    rw [Config.entryCmds, entryCmd_of_not_isImage _ hloader]
  -- the loader's entry prints no command, so that the partition is erased twice
  have hsplit : cfg.burnCmds (loader :: es) = [.flashErase .mtd0] ++ (cfg.systemCmds ++
      ([.flashErase .mtd1, .flashErase .mtd1, cfg.dumpCmd loader] ++
        cfg.entryCmds (cfg.dumpCmd loader) es)) := by
    rw [Config.burnCmds, hentries]
    rfl
  have herase : ∀ nand, runCmds run [.flashErase .mtd1, .flashErase .mtd1, cfg.dumpCmd loader] nand =
      Function.update nand .mtd1 fun _ => 0xFF := by
    intro nand
    simp only [runCmds, List.foldl_cons, List.foldl_nil, Config.dumpCmd, h.nanddump, h.flashErase,
      Function.update_idem]
  have hcopies : ∀ i ∈ List.range uIBRAreaSize, i < uIBRAreaSize := fun i hi => List.mem_range.1 hi
  have hrounds := run_systemRounds h hroom hB hblk hlen hcopies
  rw [hsplit, runCmds_append, runCmds_append, runCmds_append, run_entryCmds h _ hes, herase,
    Config.systemCmds, hrounds, runCmds, List.foldl_cons, List.foldl_nil, h.flashErase]
  funext dev
  cases dev with
  | mtd0 => simp [Function.update]
  | mtd1 => simp [Function.update]

end Commands

/-! ## What boots -/

/-- The files, the parameters and the chip agree, and the output file is none of the images. -/
structure Ready (cfg : Config) (L : List Byte) (size : Mtd → Nat) : Prop where
  params : cfg.paramsOK = true
  opens : cfg.fs.fopen (cstr cfg.ini.nandLoader) = some L
  loader : LoaderOK cfg
  readable : ∀ img ∈ cfg.images, cfg.readable img = true
  format : FitsFormat cfg
  marker : cfg.optional.optionalMarker = optionalMarkerWord
  counter : cfg.optional.counter.toNat ≤ optionalMaxNumber
  front : 16 + cfg.optionalIniSize.toNat + L.length ≤ cfg.blockSize.toNat - 2 * cfg.pageSize.toNat
  table : 784 ≤ 2 * cfg.pageSize.toNat
  pages : 2 * cfg.pageSize.toNat ≤ cfg.blockSize.toNat
  plain : cfg.optional.counter = 0 → ¬ Codec.u32.enc optionalMarkerWord <+: L
  system : SystemRoom cfg cfg.pageSize.toNat size
  images : ∀ x ∈ cfg.layout, (x.last + 1 - uIBRAreaSize) * cfg.blockSize.toNat ≤ size .mtd1
  output : cfg.opOutSysFilePath ≠ []
  apart : ∀ img ∈ cfg.images, cstr img.filename ≠ cfg.opOutSysFilePath

/-- The entry stands for the image, and its command programs the file. -/
structure Stored (cfg : Config) (e : FwUpdateInfo) (img : Image) : Prop where
  isImage : e.isImage
  flag : e.imageFlag = img.imageFlag
  addr : e.executeAddr = img.executeAddr
  start : (cfg.burns e).1 = (e.startBlock.toNat - uIBRAreaSize) * cfg.blockSize.toNat
  data : (cfg.burns e).2 = cfg.content img
  len : e.fileLen.toNat = (cfg.content img).length

section Boot
variable {cfg : Config} {L : List Byte} {size : Mtd → Nat} {st : ImgSt} {img : Image}

theorem images_path (h : img ∈ cfg.images) :
    (if img.imageFlag = ImageFlag_Logo then cstr cfg.ini.logo else cstr cfg.ini.execFile) =
      cstr img.filename := by
  rcases List.mem_append.1 h with h | h
  · split at h
    · cases h
    · rw [List.mem_singleton] at h
      subst h
      rfl
  · split at h
    · cases h
    · rw [List.eq_of_mem_replicate h]
      rfl

theorem fopen_content (h : cfg.readable img = true) :
    cfg.fs.fopen (cstr img.filename) = some (cfg.content img) := by
  rw [Config.readable, Files.stat, Option.isSome_map] at h
  obtain ⟨c, hc⟩ := Option.isSome_iff_exists.1 h
  rw [Config.content, hc, Option.getD_some]

theorem length_content (h : cfg.readable img = true) :
    (cfg.content img).length = cfg.size img := by
  have hopen := fopen_content h
  have hlt : (cfg.content img).length < 2 ^ 31 := by
    unfold Files.fopen at hopen
    split at hopen
    · cases hopen
    · have := (Option.filter_eq_some_iff.1 hopen).2
      simpa using this
  rw [Config.size, Files.stat, hopen, Option.map_some, Option.map_some, Option.getD_some,
    BitVec.toNat_ofNat, Nat.mod_eq_of_lt (by omega)]

theorem stored_of_entries (h : Ready cfg L size) (hst : cfg.mainImages = some st)
    (hcount : st.count = 1 + cfg.images.length) {i : Nat} {e : FwUpdateInfo}
    (he : st.entries[i + 1]? = some e) :
    ∃ img x, cfg.images[i]? = some img ∧ cfg.layout[i]? = some x ∧ Records cfg e x ∧
      Stored cfg e img := by
  obtain ⟨img, x, hi, hx, he⟩ := ((entries_spec h.loader h.readable hst hcount).2 i e).1 he
  obtain ⟨img', x', hi', hx', hrec, hflag, hlen⟩ := entries_records h.loader h.readable
    h.format.blocks hst hcount (((entries_spec h.loader h.readable hst hcount).2 i e).2 ⟨img, x, hi, hx, he⟩)
  rw [hi, Option.some.injEq] at hi'
  rw [hx, Option.some.injEq] at hx'
  subst hi' hx'
  have hmem := List.mem_of_getElem? hi
  refine ⟨img, x, hi, hx, hrec, ?_, hflag, by rw [he]; rfl, ?_, ?_, ?_⟩
  · rw [FwUpdateInfo.isImage, hflag]
    exact images_flag hmem
  · rw [Config.burns, hrec.offset h.loader.blockSize h.format, hrec.first]
    rfl
  · rw [Config.burns, hflag, images_path hmem]
    rfl
  · rw [hrec.len, hlen, length_content (h.readable img hmem)]

theorem Stored.length_data {e : FwUpdateInfo} (h : Stored cfg e img) :
    (cfg.burns e).2.length = e.fileLen.toNat := by
  rw [h.data, h.len]

theorem Stored.burnable {e : FwUpdateInfo} (h : Stored cfg e img) (hready : Ready cfg L size)
    (hmem : img ∈ cfg.images) {x : Extent} (hrec : Records cfg e x) (blk : List Byte) :
    Burnable cfg cfg.pageSize.toNat size
      (Function.update cfg.fs cfg.opOutSysFilePath (some blk)) e where
  isImage := h.isImage
  file := by
    rw [h.flag, images_path hmem, h.data, Files.fopen,
      Function.update_of_ne (hready.apart img hmem)]
    exact fopen_content (hready.readable img hmem)
  start := by
    rw [h.start, Nat.mul_mod, hready.system.pages, Nat.mul_zero, Nat.zero_mod]
  fits := by
    obtain ⟨h4, hle, hlen⟩ := layout_fits hready.loader.blockSize hrec.mem
    have hpage : (x.last + 1 - x.first) * cfg.blockSize.toNat % cfg.pageSize.toNat = 0 := by
      rw [Nat.mul_mod, hready.system.pages, Nat.mul_zero, Nat.zero_mod]
    have hceil : (x.len + cfg.pageSize.toNat - 1) / cfg.pageSize.toNat * cfg.pageSize.toNat ≤
        (x.last + 1 - x.first) * cfg.blockSize.toNat :=
      ceil_page_le hready.system.pos hpage hlen
    have hblocks : x.first - uIBRAreaSize + (x.last + 1 - x.first) = x.last + 1 - uIBRAreaSize := by
      have h4 : uIBRAreaSize ≤ x.first := h4
      omega
    rw [h.start, hrec.first, h.length_data, hrec.len]
    calc (x.first - uIBRAreaSize) * cfg.blockSize.toNat +
          (x.len + cfg.pageSize.toNat - 1) / cfg.pageSize.toNat * cfg.pageSize.toNat
        ≤ (x.first - uIBRAreaSize) * cfg.blockSize.toNat +
          (x.last + 1 - x.first) * cfg.blockSize.toNat := Nat.add_le_add_left hceil _
      _ = (x.last + 1 - uIBRAreaSize) * cfg.blockSize.toNat := by rw [← Nat.add_mul, hblocks]
      _ ≤ size .mtd1 := hready.images x hrec.mem

/-- The table is the NandLoader's entry and those of the images, in order and apart on the
flash. -/
theorem entries_stored (h : Ready cfg L size) (hst : cfg.mainImages = some st)
    (hcount : st.count = 1 + cfg.images.length) : ∃ loader es, st.entries = loader :: es ∧
      ¬ loader.isImage ∧ List.Forall₂ (Stored cfg) es cfg.images ∧
      (es.map cfg.burns).Pairwise Apart ∧
      ∀ e ∈ es, ∀ blk, Burnable cfg cfg.pageSize.toNat size
        (Function.update cfg.fs cfg.opOutSysFilePath (some blk)) e := by
  obtain ⟨n, h0⟩ := (entries_spec h.loader h.readable hst hcount).1
  obtain ⟨es, hes⟩ : ∃ es, st.entries = cfg.nandLoaderImage.entry 0 0 3 n :: es := by
    cases hentries : st.entries with
    | nil => rw [hentries] at h0; cases h0
    | cons e es =>
      rw [hentries, List.getElem?_cons_zero, Option.some.injEq] at h0
      exact ⟨es, by rw [h0]⟩
  have hlen : es.length = cfg.images.length := by
    have hentries := h.format.entries
    have := congrArg List.length hes
    rw [ImgSt.entries, List.length_take, List.Vector.toList_length, List.length_cons] at this
    omega
  have hstored : ∀ i (hi : i < es.length), ∃ img x, cfg.images[i]? = some img ∧
      cfg.layout[i]? = some x ∧ Records cfg es[i] x ∧ Stored cfg es[i] img := by
    intro i hi
    refine stored_of_entries h hst hcount ?_
    rw [hes, List.getElem?_cons_succ, List.getElem?_eq_getElem hi]
  refine ⟨_, es, hes, not_isImage_loader cfg n, ?_, ?_, fun e he blk => ?_⟩
  · refine List.forall₂_iff_get.2 ⟨hlen, fun i hi hi' => ?_⟩
    obtain ⟨img, x, himg, -, -, hs⟩ := hstored i hi
    obtain ⟨_, rfl⟩ := List.getElem?_eq_some_iff.1 himg
    exact hs
  · refine List.pairwise_iff_getElem.2 fun i j hi hj hij => ?_
    rw [List.length_map] at hi hj
    obtain ⟨a, x, -, hx, hra, hsa⟩ := hstored i hi
    obtain ⟨b, y, -, hy, hrb, hsb⟩ := hstored j hj
    rw [List.getElem_map, List.getElem_map, Apart, hsa.length_data]
    exact .inl (hra.before hrb h.loader.blockSize h.format (place_lt hij hx hy))
  · obtain ⟨i, hi, rfl⟩ := List.getElem_of_mem he
    obtain ⟨img, x, himg, -, hrec, hs⟩ := hstored i hi
    exact hs.burnable h (List.mem_of_getElem? himg) hrec blk

theorem read_images {es : List FwUpdateInfo} (hstored : List.Forall₂ (Stored cfg) es cfg.images)
    (hapart : (es.map cfg.burns).Pairwise Apart) :
    (es.map fun e => (e.imageFlag, e.executeAddr, readBytes
        ((es.map cfg.burns).foldl programAt fun _ => 0xFF)
        ((e.startBlock.toNat - uIBRAreaSize) * cfg.blockSize.toNat) e.fileLen.toNat)) =
      cfg.images.map fun img => (img.imageFlag, img.executeAddr, cfg.content img) := by
  have hread : ∀ e ∈ es, readBytes ((es.map cfg.burns).foldl programAt fun _ => 0xFF)
      (cfg.burns e).1 (cfg.burns e).2.length = (cfg.burns e).2 := fun e he =>
    readBytes_foldl_programAt _ hapart (fun _ _ _ _ => rfl) (List.mem_map_of_mem he)
  rw [← List.forall₂_eq_eq_eq, List.forall₂_map_left_iff, List.forall₂_map_right_iff]
  refine ((List.forall₂_and_left es cfg.images).2 ⟨hread, hstored⟩).imp fun e img h => ?_
  obtain ⟨hbytes, hs⟩ := h
  rw [hs.length_data, hs.start, hs.data] at hbytes
  rw [hbytes, hs.flag, hs.addr]

theorem read_copy {B copy : Nat} {blk : List Byte} (hlen : blk.length = B)
    (hcopy : copy < uIBRAreaSize) :
    readBytes (((List.range uIBRAreaSize).map fun i => (i * B, blk)).foldl programAt
      fun _ => 0xFF) (copy * B) B = blk := by
  have hapart : ((List.range uIBRAreaSize).map fun i => (i * B, blk)).Pairwise Apart := by
    refine List.pairwise_map.2 (List.pairwise_lt_range.imp fun {i j} hij => .inl ?_)
    rw [hlen, ← Nat.succ_mul]
    exact Nat.mul_le_mul_right _ hij
  have hmem := List.mem_map_of_mem (f := fun i => (i * B, blk)) (List.mem_range.2 hcopy)
  have hread := readBytes_foldl_programAt (fun _ => 0xFF) hapart (fun _ _ _ _ => rfl) hmem
  rwa [hlen] at hread

theorem fopen_output (h : Ready cfg L size) {blk : List Byte}
    (hlen : blk.length = cfg.blockSize.toNat) :
    (Files.fopen (Function.update cfg.fs cfg.opOutSysFilePath (some blk)) cfg.opOutSysFilePath) =
      some blk := by
  have hoff : 4 * cfg.blockSize.toNat ≤ 2 ^ 32 := h.system.offsets
  rw [Files.fopen, if_neg h.output, Function.update_self, Option.filter_some_pos]
  rw [hlen]
  exact decide_eq_true (by omega)

/-- **The burnt flash boots**: whatever the chip held before, each of the four system blocks
gives the NandLoader, the optional settings and every image, in order, with its kind, its
address and all of its bytes. -/
theorem burnt_flash_boots (h : Ready cfg L size) {run : Files → Cmd → Nand → Nand}
    (htools : ∀ fs, Tools cfg.pageSize.toNat size fs (run fs)) (nand : Nand) :
    ∃ nand', cfg.burnt run nand = some nand' ∧ ∀ copy < uIBRAreaSize, ∃ sys imgs,
      boot cfg.blockSize.toNat cfg.pageSize.toNat nand' copy = some (sys, imgs) ∧
      sys.boot.exeAddr = cfg.exeAddr ∧ sys.loader = L ∧
      sys.pairs = cfg.optional.pairs.toList.take cfg.optional.counter.toNat ∧
      imgs.map (fun p => (p.1.imageFlag, p.1.executeAddr, p.2)) =
        cfg.images.map fun img => (img.imageFlag, img.executeAddr, cfg.content img) := by
  obtain ⟨st, hst, hcount⟩ := mainImages_isSome h.loader h.readable h.format.entries
  obtain ⟨loader, es, hes, hloader, hstored, hapart, hburnable⟩ := entries_stored h hst hcount
  obtain ⟨n, k, hfits, hn⟩ := fits_of_params h.params h.counter h.front h.table h.pages
  have hblock := hfits.sysBlock_eq (BitVec.ofNat 32 st.count) st.FWInfo
  have hlen := hfits.length_areas (BitVec.ofNat 32 st.count) st.FWInfo
  have hdecode := decodeBlock_areas hfits h.marker hn h.plain (BitVec.ofNat 32 st.count) st.FWInfo
  generalize cfg.areas L n (BitVec.ofNat 32 st.count) st.FWInfo k = blk at hblock hlen hdecode
  have hout : cfg.outputBlock = some blk := by
    simp only [Config.outputBlock, h.params, guard_true, h.opens, hst, Option.bind_eq_bind,
      Option.bind_some, Option.pure_def, hblock]
  obtain ⟨s, hs⟩ := Option.isSome_iff_exists.1
    ((burnImages_isSome cfg (fun _ => .exited 0) st.entries).2 fun _ _ => by decide)
  have hburnt : cfg.burnt run nand = some (runCmds
      (run (Function.update cfg.fs cfg.opOutSysFilePath (some blk))) s.issued nand) := by
    simp only [Config.burnt, hout, hst, hs, Option.bind_eq_bind, Option.bind_some, Option.pure_def]
  refine ⟨_, hburnt, fun copy hcopy => ?_⟩
  rw [burnImages_issued hs, hes, run_burnCmds (htools _) h.system h.loader.blockSize
    (fopen_output h hlen) hlen hloader fun e he => hburnable e he blk]
  have hcount : (BitVec.ofNat 32 st.count).toNat = st.count := by
    have hle := h.format.entries
    rw [maxFWInfo] at hle
    rw [BitVec.toNat_ofNat, Nat.mod_eq_of_lt (by omega)]
  have hfilter : (loader :: es).filter (fun e => decide e.isImage) = es := by
    rw [List.filter_cons_of_neg (by simpa using hloader), List.filter_eq_self]
    exact fun e he => decide_eq_true (hburnable e he blk).isImage
  rw [boot]
  dsimp only
  rw [read_copy hlen hcopy, hdecode, Option.map_some]
  refine ⟨_, _, rfl, rfl, rfl, rfl, ?_⟩
  dsimp only
  rw [hcount, ← ImgSt.entries, hes, hfilter, List.map_map]
  exact read_images hstored hapart

end Boot

/-- Tools that check nothing. -/
def mtdUtils (fs : Files) : Cmd → Nand → Nand
  | .flashErase dev, nand => Function.update nand dev fun _ => 0xFF
  | .nandwrite dev _ start file, nand =>
    Function.update nand dev (programAt (nand dev) (start.toNat, (fs.fopen file).getD []))
  | .nanddump .., nand => nand

theorem tools_mtdUtils (page : Nat) (size : Mtd → Nat) (fs : Files) :
    Tools page size fs (mtdUtils fs) where
  flashErase _ _ := rfl
  nandwrite _ _ _ _ _ _ hopen _ _ _ := by rw [mtdUtils, hopen, Option.getD_some]
  nanddump _ _ _ _ := rfl

/-- The NandLoader, a Logo and two copies of the Exec file, on a chip of zeros. -/
theorem burnt_flash_boots_demo : ∃ nand', (demoCfg demoFs 2).burnt mtdUtils (fun _ _ => 0) = some nand' ∧
    ∀ copy < uIBRAreaSize, ∃ sys imgs, boot 2048 512 nand' copy = some (sys, imgs) ∧
      sys.boot.exeAddr = 0x00900000 ∧ sys.loader = [1, 2, 3] ∧ sys.pairs = [] ∧
      imgs.map (fun p => (p.1.imageFlag, p.1.executeAddr, p.2)) =
        [(ImageFlag_Logo, 0x500000, [4, 5]), (ImageFlag_Exec, 0, [6, 7, 8, 9]),
          (ImageFlag_Exec, 0, [6, 7, 8, 9])] := by
  have hready : Ready (demoCfg demoFs 2) [1, 2, 3] fun _ => 32768 := by
    refine ⟨by decide, by decide, ⟨by decide, by decide, by decide⟩, by decide,
      ⟨by decide, by decide, by decide⟩, rfl, by decide, by decide, by decide, by decide,
      by decide, ⟨by decide, by decide, by decide, by decide⟩, by decide, by decide, by decide⟩
  exact burnt_flash_boots hready (fun fs => tools_mtdUtils _ _ fs) fun _ _ => 0

end N32905.MnWriter
