import N32905.MnWriter.Burn

/-!
# The system block

`sysBlock` is the buffer `main` writes to the output file: boot header, optional
settings and NandLoader from the front, count and image table two pages before
the end, everything else `0xFF`. `none` is a store outside the buffer, or a copy
of more bytes than `optional_ini_file` has.

`decodeBlock` reads such a block back by the structures of `nand_sa_writer.h`
alone. `sysBlock_roundTrip` says that this returns what was written.
-/

namespace N32905.MnWriter

open N32905.Lib

/-! ## The model -/

def bootCodeMarkerWord : BitVec 32 := 0x57425AA5

namespace Config

/-- `optional_ini_size`: marker, counter and pairs, and a dummy pair after an
even number of pairs. -/
def optionalIniSize (cfg : Config) : BitVec 32 :=
  if cfg.optional.counter = 0 then 0
  else if cfg.optional.counter.toNat % 2 = 0 then 8 * (cfg.optional.counter + 1) + 8
  else 8 * (cfg.optional.counter + 1)

/-- `NandMark`, for a NandLoader of `size` bytes. -/
def nandMark (cfg : Config) (size : Nat) : IbrBoot where
  bootCodeMarker := bootCodeMarkerWord
  exeAddr := cfg.exeAddr
  imageSize := BitVec.ofNat 32 size
  reserved := 0

def sysInfoWords (count : BitVec 32) : List Byte :=
  Codec.u32.enc 0x574255AA ++ Codec.u32.enc count ++ Codec.u32.enc 0 ++ Codec.u32.enc 0x57425963

/-- The block `main` writes, for the NandLoader's content and the image table. -/
def sysBlock (cfg : Config) (loader : List Byte) (count : BitVec 32) (FWInfo : FwTable) :
    Option (List Byte) := do
  let optional := IbrBootOptional.codec.enc cfg.optional
  let optSize := cfg.optionalIniSize.toNat
  let p_uint := (cfg.blockSize - 2 * cfg.pageSize).toNat
  let buf := List.replicate cfg.blockSize.toNat 0xFF
  let buf ← memcpy buf 0 (IbrBoot.codec.enc (cfg.nandMark loader.length))
  let buf ← if optSize ≤ optional.length then memcpy buf 16 (optional.take optSize) else none
  let buf ← memcpy buf (16 + optSize) loader
  let buf ← memcpy buf p_uint (sysInfoWords count)
  memcpy buf (p_uint + 16) (FwTable.codec.enc FWInfo)

/-- The parameter check of `main`. -/
def paramsOK (cfg : Config) : Bool :=
  cfg.pageSize.toNat % 512 = 0 && cfg.blockSize.toNat % 512 = 0 && cfg.oobSize ≠ 0

/-- The block `main` writes to `opOutSysFilePath`, if it gets there. -/
def outputBlock (cfg : Config) : Option (List Byte) := do
  guard cfg.paramsOK
  let loader ← cfg.fs.fopen (cstr cfg.ini.nandLoader)
  let st ← cfg.mainImages
  cfg.sysBlock loader (BitVec.ofNat 32 st.count) st.FWInfo

end Config

/-! ## Reading a block -/

structure SysImage where
  boot : IbrBoot
  pairs : List IbrBootOptionalPair
  loaderOff : Nat
  loader : List Byte
  count : BitVec 32
  table : FwTable

def wordAt (blk : List Byte) (off : Nat) : BitVec 32 := Codec.u32.dec (blk.drop off)

/-- Read a block of `B` bytes with pages of `P` bytes. -/
def decodeBlock (B P : Nat) (blk : List Byte) : Option SysImage :=
  let boot := IbrBoot.codec.dec blk
  let counter := (wordAt blk 20).toNat
  let hasOptional := wordAt blk 16 = optionalMarkerWord
  let off := if hasOptional then 16 + (8 + 8 * counter + 15) / 16 * 16 else 16
  let info := B - 2 * P
  if boot.bootCodeMarker = bootCodeMarkerWord ∧ wordAt blk info = 0x574255AA ∧
      wordAt blk (info + 8) = 0 ∧ wordAt blk (info + 12) = 0x57425963 then
    some {
      boot := boot
      pairs := if hasOptional then IbrBootOptionalPair.codec.decList counter (blk.drop 24) else []
      loaderOff := off
      loader := (blk.drop off).take boot.imageSize.toNat
      count := wordAt blk (info + 4)
      table := FwTable.codec.dec (blk.drop (info + 16)) }
  else none

/-! ## The areas of a block -/

section Areas
variable {cfg : Config}

@[simp] theorem length_sysInfoWords (count : BitVec 32) :
    (Config.sysInfoWords count).length = 16 := by
  simp only [Config.sysInfoWords, List.length_append, Codec.length_enc]
  rfl

theorem length_optional (o : IbrBootOptional) : (IbrBootOptional.codec.enc o).length = 512 :=
  IbrBootOptional.codec.length_enc o

theorem length_table (t : FwTable) : (FwTable.codec.enc t).length = 768 :=
  FwTable.codec.length_enc t

theorem length_boot (b : IbrBoot) : (IbrBoot.codec.enc b).length = 16 := IbrBoot.codec.length_enc b

/-- The padded size is the marker, the counter and the pairs, rounded up to 16. -/
theorem optionalIniSize_toNat (h : cfg.optional.counter.toNat ≤ optionalMaxNumber) :
    cfg.optionalIniSize.toNat = if cfg.optional.counter = 0 then 0
      else (8 + 8 * cfg.optional.counter.toNat + 15) / 16 * 16 := by
  have h1 : (1 : BitVec 32).toNat = 1 := rfl
  have h8 : (8 : BitVec 32).toNat = 8 := rfl
  have h63 : cfg.optional.counter.toNat ≤ 63 := h
  unfold Config.optionalIniSize
  split
  · rfl
  · split
    · simp only [BitVec.toNat_add, BitVec.toNat_mul, h1, h8]
      omega
    · simp only [BitVec.toNat_add, BitVec.toNat_mul, h1, h8]
      omega

/-- The copied part of `optional_ini_file`: marker, counter, the pairs in use
and the padding. -/
theorem optional_take (hm : cfg.optional.optionalMarker = optionalMarkerWord)
    (h : cfg.optional.counter.toNat ≤ optionalMaxNumber) (h0 : cfg.optional.counter ≠ 0) :
    ∃ pad, (IbrBootOptional.codec.enc cfg.optional).take cfg.optionalIniSize.toNat =
      Codec.u32.enc optionalMarkerWord ++ (Codec.u32.enc cfg.optional.counter ++
        ((cfg.optional.pairs.toList.take cfg.optional.counter.toNat).flatMap
          IbrBootOptionalPair.codec.enc ++ pad)) := by
  have hsz := optionalIniSize_toNat h
  rw [if_neg h0] at hsz
  have hu : ∀ w, (Codec.u32.enc w).length = 4 := Codec.u32.length_enc
  have henc : IbrBootOptional.codec.enc cfg.optional =
      Codec.u32.enc optionalMarkerWord ++ (Codec.u32.enc cfg.optional.counter ++
        ((cfg.optional.pairs.toList.take cfg.optional.counter.toNat).flatMap
            IbrBootOptionalPair.codec.enc ++
          (cfg.optional.pairs.toList.drop cfg.optional.counter.toNat).flatMap
            IbrBootOptionalPair.codec.enc)) := by
    rw [← List.flatMap_append, List.take_append_drop, ← hm]
    rfl
  have hpairs : ((cfg.optional.pairs.toList.take cfg.optional.counter.toNat).flatMap
      IbrBootOptionalPair.codec.enc).length = 8 * cfg.optional.counter.toNat := by
    rw [Codec.length_flatMap_enc, List.length_take, List.Vector.toList_length, Nat.min_eq_left h]
    rfl
  refine ⟨((cfg.optional.pairs.toList.drop cfg.optional.counter.toNat).flatMap
    IbrBootOptionalPair.codec.enc).take
      (cfg.optionalIniSize.toNat - (8 + 8 * cfg.optional.counter.toNat)), ?_⟩
  rw [henc, List.take_append, List.take_append, List.take_append, hu, hu, hpairs,
    List.take_of_length_le (by rw [hu]; omega), List.take_of_length_le (by rw [hu]; omega),
    List.take_of_length_le (by rw [hpairs]; omega)]
  congr 4
  omega

theorem optionalIniSize_le (hc : cfg.optional.counter.toNat ≤ optionalMaxNumber) :
    cfg.optionalIniSize.toNat ≤ 512 := by
  have h63 : cfg.optional.counter.toNat ≤ 63 := hc
  rw [optionalIniSize_toNat hc]
  split <;> omega

theorem length_optional_take (hc : cfg.optional.counter.toNat ≤ optionalMaxNumber) :
    ((IbrBootOptional.codec.enc cfg.optional).take cfg.optionalIniSize.toNat).length =
      cfg.optionalIniSize.toNat := by
  rw [List.length_take, length_optional, Nat.min_eq_left (optionalIniSize_le hc)]

/-- The front of a block: header, optional settings, NandLoader. -/
def Config.front (cfg : Config) (L : List Byte) : List Byte :=
  IbrBoot.codec.enc (cfg.nandMark L.length) ++
    (IbrBootOptional.codec.enc cfg.optional).take cfg.optionalIniSize.toNat ++ L

theorem length_front (hc : cfg.optional.counter.toNat ≤ optionalMaxNumber) (L : List Byte) :
    (cfg.front L).length = 16 + cfg.optionalIniSize.toNat + L.length := by
  simp only [Config.front, List.length_append, length_boot, length_optional_take hc]

/-- The areas of a block, with gaps of `n` and `k` bytes. -/
def Config.areas (cfg : Config) (L : List Byte) (n : Nat) (count : BitVec 32) (t : FwTable)
    (k : Nat) : List Byte :=
  cfg.front L ++ (List.replicate n 0xFF ++
    (Config.sysInfoWords count ++ (FwTable.codec.enc t ++ List.replicate k 0xFF)))

/-- The areas fit the block, with gaps of `n` and `k` bytes. -/
structure Fits (cfg : Config) (L : List Byte) (n k : Nat) : Prop where
  counter : cfg.optional.counter.toNat ≤ optionalMaxNumber
  front : 16 + cfg.optionalIniSize.toNat + L.length + n =
    cfg.blockSize.toNat - 2 * cfg.pageSize.toNat
  table : 784 + k = 2 * cfg.pageSize.toNat
  pages : 2 * cfg.pageSize.toNat ≤ cfg.blockSize.toNat

section Fits
variable {L : List Byte} {n k : Nat} (h : Fits cfg L n k) (count : BitVec 32) (t : FwTable)
include h

theorem Fits.length_areas : (cfg.areas L n count t k).length = cfg.blockSize.toNat := by
  have h1 := h.front
  have h2 := h.table
  have h3 := h.pages
  simp only [Config.areas, List.length_append, List.length_replicate, length_sysInfoWords,
    length_table, length_front h.counter]
  omega

/-- **The block `main` writes** consists of its areas. -/
theorem Fits.sysBlock_eq : cfg.sysBlock L count t = some (cfg.areas L n count t k) := by
  have hlt := cfg.blockSize.isLt
  have h1 := h.front
  have h2 := h.table
  have h3 := h.pages
  have hinfo : (cfg.blockSize - 2 * cfg.pageSize).toNat =
      cfg.blockSize.toNat - 2 * cfg.pageSize.toNat := by
    have h2 : (2 : BitVec 32).toNat = 2 := rfl
    simp only [BitVec.toNat_sub, BitVec.toNat_mul, h2]
    omega
  have htake := length_optional_take h.counter
  have hboot := length_boot (cfg.nandMark L.length)
  have htab := length_table t
  have hfirst : memcpy (List.replicate cfg.blockSize.toNat 0xFF) 0
      (IbrBoot.codec.enc (cfg.nandMark L.length)) =
      some (IbrBoot.codec.enc (cfg.nandMark L.length) ++
        List.replicate (cfg.blockSize.toNat - 16) 0xFF) := by
    rw [← List.nil_append (List.replicate cfg.blockSize.toNat 0xFF),
      memcpy_next (List.length_nil).symm (by rw [hboot]; omega), hboot, List.nil_append]
  simp only [Config.sysBlock, Option.bind_eq_bind, hinfo]
  rw [hfirst, Option.bind_some, if_pos (by rw [length_optional]; exact optionalIniSize_le h.counter),
    memcpy_next hboot.symm (by rw [htake]; omega), Option.bind_some,
    memcpy_next (by rw [List.length_append, hboot, htake]) (by rw [htake]; omega),
    Option.bind_some, memcpy_fill (by simp only [List.length_append, hboot, htake]; omega)
      (by simp only [List.length_append, hboot, htake, length_sysInfoWords]; omega),
    Option.bind_some, memcpy_next
      (by simp only [List.length_append, hboot, htake, List.length_replicate, length_sysInfoWords]
          omega)
      (by simp only [List.length_append, hboot, htake, length_sysInfoWords, htab]; omega)]
  simp only [Config.areas, Config.front, List.length_append, hboot, htake, length_sysInfoWords,
    htab, List.append_assoc]
  rw [show cfg.blockSize.toNat - 2 * cfg.pageSize.toNat -
      (16 + (cfg.optionalIniSize.toNat + L.length)) = n by omega,
    show 16 + (cfg.optionalIniSize.toNat + L.length) + (cfg.blockSize.toNat - 16 -
      cfg.optionalIniSize.toNat - L.length) - (cfg.blockSize.toNat - 2 * cfg.pageSize.toNat + 16) -
      768 = k by omega]

/-- Everything behind the front and outside the system information is `FF`. -/
theorem Fits.getElem_areas {i : Nat} (hi : i < cfg.blockSize.toNat)
    (hfront : 16 + cfg.optionalIniSize.toNat + L.length ≤ i)
    (hout : i < cfg.blockSize.toNat - 2 * cfg.pageSize.toNat ∨
      cfg.blockSize.toNat - 2 * cfg.pageSize.toNat + 784 ≤ i) :
    (cfg.areas L n count t k)[i]? = some 0xFF := by
  have h1 := h.front
  have h2 := h.table
  have h3 := h.pages
  have hlen := length_front h.counter L
  rw [Config.areas, List.getElem?_append_right (by omega)]
  rcases hout with hout | hout
  · rw [List.getElem?_append_left (by rw [List.length_replicate]; omega),
      List.getElem?_replicate_of_lt (by omega)]
  · rw [List.getElem?_append_right (by rw [List.length_replicate]; omega),
      List.getElem?_append_right (by rw [List.length_replicate, length_sysInfoWords]; omega),
      List.getElem?_append_right (by
        rw [List.length_replicate, length_sysInfoWords, length_table]; omega),
      List.getElem?_replicate_of_lt (by
        rw [List.length_replicate, length_sysInfoWords, length_table]; omega)]

end Fits

end Areas

/-! ## The round trip -/

theorem sysInfoWords_dec (count : BitVec 32) (rest : List Byte) :
    Codec.u32.dec (Config.sysInfoWords count ++ rest) = 0x574255AA ∧
      Codec.u32.dec ((Config.sysInfoWords count ++ rest).drop 4) = count ∧
      Codec.u32.dec ((Config.sysInfoWords count ++ rest).drop 8) = 0 ∧
      Codec.u32.dec ((Config.sysInfoWords count ++ rest).drop 12) = 0x57425963 ∧
      (Config.sysInfoWords count ++ rest).drop 16 = rest := by
  have hu : ∀ w, (Codec.u32.enc w).length = 4 := Codec.u32.length_enc
  have h4 : ∀ w l, (Codec.u32.enc w ++ l).drop 4 = l := fun w l => List.drop_left' (hu w)
  simp only [Config.sysInfoWords, List.append_assoc]
  refine ⟨Codec.u32.dec_enc .., ?_, ?_, ?_, ?_⟩
  · rw [h4, Codec.u32.dec_enc]
  · rw [← List.drop_drop (i := 4) (j := 4), h4, h4, Codec.u32.dec_enc]
  · rw [← List.drop_drop (i := 8) (j := 4), ← List.drop_drop (i := 4) (j := 4), h4, h4, h4,
      Codec.u32.dec_enc]
  · rw [← List.drop_drop (i := 12) (j := 4), ← List.drop_drop (i := 8) (j := 4),
      ← List.drop_drop (i := 4) (j := 4), h4, h4, h4, h4]

/-- Without optional settings the word after the header is not the marker: it
comes from the loader, or from the `0xFF` bytes after a loader too short for a
word. -/
theorem word_ne_marker {L rest : List Byte} {n : Nat} (hn : 4 ≤ L.length + n)
    (hL : ¬ Codec.u32.enc optionalMarkerWord <+: L) :
    Codec.u32.dec (L ++ (List.replicate n 0xFF ++ rest)) ≠ optionalMarkerWord := by
  intro h
  have htake := Codec.word_enc_dec 4 (l := L ++ (List.replicate n 0xFF ++ rest))
    (by simp only [List.length_append, List.length_replicate]; omega)
  rw [show (Codec.word 4).dec (L ++ (List.replicate n 0xFF ++ rest)) = optionalMarkerWord from h]
    at htake
  rcases Nat.lt_or_ge L.length 4 with hlt | hge
  · -- the last byte of the marker would be one of the `0xFF` bytes
    have h3 := congrArg (fun l => l[3]?) htake
    simp only [List.getElem?_take_of_lt (show 3 < 4 by decide)] at h3
    rw [List.getElem?_append_right (by omega), List.getElem?_append_left (by simp; omega),
      List.getElem?_replicate_of_lt (by omega)] at h3
    exact absurd h3 (by decide)
  · apply hL
    rw [List.take_append_of_le_length hge] at htake
    exact ⟨L.drop 4, by
      rw [show Codec.u32.enc optionalMarkerWord = L.take 4 from htake, List.take_append_drop]⟩

section RoundTrip
variable {cfg : Config} {L : List Byte}

/-- What the words after the header say: the pairs, and where the loader starts. -/
theorem front_optional (hm : cfg.optional.optionalMarker = optionalMarkerWord)
    (hc : cfg.optional.counter.toNat ≤ optionalMaxNumber) {n : Nat} (rest : List Byte)
    (hn : cfg.optional.counter = 0 → 4 ≤ L.length + n)
    (hL : cfg.optional.counter = 0 → ¬ Codec.u32.enc optionalMarkerWord <+: L) :
    let blk := cfg.front L ++ (List.replicate n 0xFF ++ rest)
    let counter := (wordAt blk 20).toNat
    (if wordAt blk 16 = optionalMarkerWord then
        IbrBootOptionalPair.codec.decList counter (blk.drop 24) else []) =
      cfg.optional.pairs.toList.take cfg.optional.counter.toNat ∧
    (if wordAt blk 16 = optionalMarkerWord then 16 + (8 + 8 * counter + 15) / 16 * 16 else 16) =
      16 + cfg.optionalIniSize.toNat := by
  intro blk counter
  have h16 : blk.drop 16 = (IbrBootOptional.codec.enc cfg.optional).take
      cfg.optionalIniSize.toNat ++ (L ++ (List.replicate n 0xFF ++ rest)) := by
    simp only [blk, Config.front, List.append_assoc]
    exact List.drop_left' (length_boot _)
  have hsz := optionalIniSize_toNat hc
  by_cases h0 : cfg.optional.counter = 0
  · rw [if_pos h0] at hsz
    rw [hsz, List.take_zero, List.nil_append] at h16
    have hne : wordAt blk 16 ≠ optionalMarkerWord := by
      rw [wordAt, h16]
      exact word_ne_marker (hn h0) (hL h0)
    rw [if_neg hne, if_neg hne, h0, hsz]
    exact ⟨rfl, rfl⟩
  · rw [if_neg h0] at hsz
    obtain ⟨pad, hpad⟩ := optional_take hm hc h0
    rw [hpad, List.append_assoc, List.append_assoc, List.append_assoc] at h16
    have hu : ∀ w, (Codec.u32.enc w).length = 4 := Codec.u32.length_enc
    have h20 : blk.drop 20 = Codec.u32.enc cfg.optional.counter ++
        ((cfg.optional.pairs.toList.take cfg.optional.counter.toNat).flatMap
          IbrBootOptionalPair.codec.enc ++ (pad ++ (L ++ (List.replicate n 0xFF ++ rest)))) := by
      rw [← List.drop_drop (i := 4) (j := 16), h16, List.drop_left' (hu _)]
    have h24 : blk.drop 24 = (cfg.optional.pairs.toList.take cfg.optional.counter.toNat).flatMap
          IbrBootOptionalPair.codec.enc ++ (pad ++ (L ++ (List.replicate n 0xFF ++ rest))) := by
      rw [← List.drop_drop (i := 4) (j := 20), h20, List.drop_left' (hu _)]
    have hw16 : wordAt blk 16 = optionalMarkerWord := by rw [wordAt, h16, Codec.u32.dec_enc]
    have hw20 : wordAt blk 20 = cfg.optional.counter := by rw [wordAt, h20, Codec.u32.dec_enc]
    have hlen : (cfg.optional.pairs.toList.take cfg.optional.counter.toNat).length =
        cfg.optional.counter.toNat := by
      rw [List.length_take, List.Vector.toList_length, Nat.min_eq_left hc]
    rw [if_pos hw16, if_pos hw16, hsz, h24]
    simp only [counter, hw20]
    refine ⟨?_, trivial⟩
    have := IbrBootOptionalPair.codec.decList_enc
      (cfg.optional.pairs.toList.take cfg.optional.counter.toNat)
      (pad ++ (L ++ (List.replicate n 0xFF ++ rest)))
    rwa [hlen] at this

theorem front_loader (hc : cfg.optional.counter.toNat ≤ optionalMaxNumber) (hlt : L.length < 2 ^ 32)
    (rest : List Byte) :
    IbrBoot.codec.dec (cfg.front L ++ rest) = cfg.nandMark L.length ∧
      ((cfg.front L ++ rest).drop (16 + cfg.optionalIniSize.toNat)).take
        (cfg.nandMark L.length).imageSize.toNat = L := by
  have hlen : (cfg.nandMark L.length).imageSize.toNat = L.length := by
    simp only [Config.nandMark, BitVec.toNat_ofNat]
    exact Nat.mod_eq_of_lt hlt
  constructor
  · simp only [Config.front, List.append_assoc]
    exact IbrBoot.codec.dec_enc ..
  · rw [hlen, Config.front, List.append_assoc, List.drop_left' (by
      rw [List.length_append, length_boot, length_optional_take hc]), List.take_left']
    rfl

/-- Inside the limits there are gaps that fill the block. Its size is a multiple of
512, so a short loader without optional settings has a word behind the header. -/
theorem fits_of_params (hparams : cfg.paramsOK = true)
    (hc : cfg.optional.counter.toNat ≤ optionalMaxNumber)
    (hfit : 16 + cfg.optionalIniSize.toNat + L.length ≤
      cfg.blockSize.toNat - 2 * cfg.pageSize.toNat)
    (hP : 784 ≤ 2 * cfg.pageSize.toNat) (hB : 2 * cfg.pageSize.toNat ≤ cfg.blockSize.toNat) :
    ∃ n k, Fits cfg L n k ∧ (cfg.optional.counter = 0 → 4 ≤ L.length + n) := by
  have h512 : 512 ≤ cfg.blockSize.toNat - 2 * cfg.pageSize.toNat := by
    simp only [Config.paramsOK, Bool.and_eq_true, decide_eq_true_eq] at hparams
    omega
  refine ⟨_, _, ⟨hc, Nat.add_sub_of_le hfit, Nat.add_sub_of_le hP, hB⟩, fun h0 => ?_⟩
  rw [optionalIniSize_toNat hc, if_pos h0]
  omega

/-- **Reading the areas of a block** returns what they were made from. -/
theorem decodeBlock_areas {n k : Nat} (h : Fits cfg L n k)
    (hm : cfg.optional.optionalMarker = optionalMarkerWord)
    (hn : cfg.optional.counter = 0 → 4 ≤ L.length + n)
    (hL : cfg.optional.counter = 0 → ¬ Codec.u32.enc optionalMarkerWord <+: L)
    (count : BitVec 32) (t : FwTable) :
    decodeBlock cfg.blockSize.toNat cfg.pageSize.toNat (cfg.areas L n count t k) = some {
      boot := cfg.nandMark L.length
      pairs := cfg.optional.pairs.toList.take cfg.optional.counter.toNat
      loaderOff := 16 + cfg.optionalIniSize.toNat
      loader := L
      count := count
      table := t } := by
  have hlt := cfg.blockSize.isLt
  have hsize := h.front
  obtain ⟨hboot, hload⟩ := front_loader (L := L) h.counter (by omega)
    (List.replicate n 0xFF ++ (Config.sysInfoWords count ++
      (FwTable.codec.enc t ++ List.replicate k 0xFF)))
  obtain ⟨hpairs, hoff⟩ := front_optional (n := n) (L := L) hm h.counter
    (Config.sysInfoWords count ++ (FwTable.codec.enc t ++ List.replicate k 0xFF)) hn hL
  obtain ⟨w0, w4, w8, w12, w16⟩ := sysInfoWords_dec count
    (FwTable.codec.enc t ++ List.replicate k 0xFF)
  have hinfo : (cfg.areas L n count t k).drop (cfg.blockSize.toNat - 2 * cfg.pageSize.toNat) =
      Config.sysInfoWords count ++ (FwTable.codec.enc t ++ List.replicate k 0xFF) := by
    rw [Config.areas, ← List.append_assoc]
    exact List.drop_left' (by rw [List.length_append, List.length_replicate, length_front h.counter,
      hsize])
  have hword : ∀ j, wordAt (cfg.areas L n count t k)
        (cfg.blockSize.toNat - 2 * cfg.pageSize.toNat + j) =
      Codec.u32.dec ((Config.sysInfoWords count ++
        (FwTable.codec.enc t ++ List.replicate k 0xFF)).drop j) := by
    intro j
    rw [wordAt, ← List.drop_drop, hinfo]
  have hword0 := hword 0
  rw [Nat.add_zero, List.drop_zero] at hword0
  have htab : FwTable.codec.dec ((cfg.areas L n count t k).drop
      (cfg.blockSize.toNat - 2 * cfg.pageSize.toNat + 16)) = t := by
    rw [← List.drop_drop, hinfo, w16, FwTable.codec.dec_enc]
  rw [← Config.areas] at hboot hpairs hoff hload
  unfold decodeBlock
  dsimp only
  rw [if_pos ⟨by rw [hboot]; rfl, by rw [hword0, w0], by rw [hword, w8], by rw [hword, w12]⟩,
    hpairs, hoff, hboot, hload, hword, w4, htab]

/-- **Writing and reading a system block**: the block `main` writes reads back
as the header, the optional pairs, the NandLoader, the count and the table it
was made from; the loader is 16-byte aligned and every byte outside these areas
is `0xFF`. -/
theorem sysBlock_roundTrip (cfg : Config) (L : List Byte) (count : BitVec 32) (t : FwTable)
    (hparams : cfg.paramsOK = true) (hm : cfg.optional.optionalMarker = optionalMarkerWord)
    (hc : cfg.optional.counter.toNat ≤ optionalMaxNumber)
    (hfit : 16 + cfg.optionalIniSize.toNat + L.length ≤
      cfg.blockSize.toNat - 2 * cfg.pageSize.toNat)
    (hP : 784 ≤ 2 * cfg.pageSize.toNat) (hB : 2 * cfg.pageSize.toNat ≤ cfg.blockSize.toNat)
    (hL : cfg.optional.counter = 0 → ¬ Codec.u32.enc optionalMarkerWord <+: L) :
    ∃ blk, cfg.sysBlock L count t = some blk ∧ blk.length = cfg.blockSize.toNat ∧
      decodeBlock cfg.blockSize.toNat cfg.pageSize.toNat blk = some {
        boot := cfg.nandMark L.length
        pairs := cfg.optional.pairs.toList.take cfg.optional.counter.toNat
        loaderOff := 16 + cfg.optionalIniSize.toNat
        loader := L
        count := count
        table := t } ∧
      (16 + cfg.optionalIniSize.toNat) % 16 = 0 ∧
      ∀ i < cfg.blockSize.toNat, 16 + cfg.optionalIniSize.toNat + L.length ≤ i →
        (i < cfg.blockSize.toNat - 2 * cfg.pageSize.toNat ∨
          cfg.blockSize.toNat - 2 * cfg.pageSize.toNat + 784 ≤ i) → blk[i]? = some 0xFF := by
  obtain ⟨n, k, h, hn⟩ := fits_of_params hparams hc hfit hP hB
  refine ⟨_, h.sysBlock_eq count t, h.length_areas count t, decodeBlock_areas h hm hn hL count t,
    ?_, fun i hi hfront hout => h.getElem_areas count t hi hfront hout⟩
  rw [optionalIniSize_toNat hc]
  split <;> omega

end RoundTrip

/-- Two optional pairs, so one dummy pair before a loader of three bytes. -/
def pairsCfg : Config :=
  { demoCfg (fun _ => some [1, 2, 3]) 1 with
    optional := ⟨optionalMarkerWord, 2, List.Vector.replicate _ ⟨0xB0000220, 0x01000000⟩⟩ }

theorem sysBlock_roundTrip_pairs : pairsCfg.optionalIniSize = 32 ∧
    ∃ blk, pairsCfg.sysBlock [1, 2, 3] 1 (List.Vector.replicate _ blankEntry) = some blk ∧
      blk.length = 2048 ∧ ∃ img, decodeBlock 2048 512 blk = some img ∧
        img.loader = [1, 2, 3] ∧ img.loaderOff = 48 ∧ img.pairs.length = 2 := by
  refine ⟨by decide, ?_⟩
  obtain ⟨blk, h1, h2, h3, -⟩ := sysBlock_roundTrip pairsCfg [1, 2, 3] 1
    (List.Vector.replicate _ blankEntry) (by decide) rfl (by decide) (by decide) (by decide)
    (by decide) (by decide)
  exact ⟨blk, h1, h2, _, h3, rfl, rfl, rfl⟩

end N32905.MnWriter
