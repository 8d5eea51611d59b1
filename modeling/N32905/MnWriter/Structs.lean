import N32905.Lib.Codec

/-!
# The structures of `nand_sa_writer.h`

The C structures `mn_writer` fills, with the codecs of their memory layout
(little-endian, no padding: every field is aligned). A `char[n]` is all of its
`n` bytes; `cstr` is the string it holds.

Files are seen through `stat` and `fopen` only. `st_size` is a 32-bit `off_t`,
so `stat` fails on a file of 2 GiB or more, and both calls fail on the empty
path.
-/

namespace N32905.MnWriter

open N32905.Lib

/-! ## Structures -/

def ImageFlag_Exec : BitVec 16 := 1
def ImageFlag_System : BitVec 16 := 3
def ImageFlag_Logo : BitVec 16 := 4

/-- `FW_UPDATE_INFO_T`: one image of the system area's table. -/
structure FwUpdateInfo where
  imageNo : BitVec 16
  imageFlag : BitVec 16
  startBlock : BitVec 16
  endBlock : BitVec 16
  executeAddr : BitVec 32
  fileLen : BitVec 32
  imageName : List.Vector Byte 32
  deriving DecidableEq

def maxFWInfo : Nat := 16

/-- `FWInfo[MAX_FWInfo]`. -/
abbrev FwTable := List.Vector FwUpdateInfo maxFWInfo

/-- `IBR_BOOT_STRUCT_T`: the header the boot ROM reads. -/
structure IbrBoot where
  bootCodeMarker : BitVec 32
  exeAddr : BitVec 32
  imageSize : BitVec 32
  reserved : BitVec 32
  deriving DecidableEq

/-- `IBR_BOOT_OPTIONAL_PAIRS_STRUCT_T`. -/
structure IbrBootOptionalPair where
  address : BitVec 32
  value : BitVec 32
  deriving DecidableEq

/-- `IBR_BOOT_CODE_OPTIONAL_MARKER`. -/
def optionalMarkerWord : BitVec 32 := 0xAA55AA55

def optionalMaxNumber : Nat := 63

/-- `IBR_BOOT_OPTIONAL_STRUCT_T`: the optional settings of `TurboWriter.ini`. -/
structure IbrBootOptional where
  optionalMarker : BitVec 32
  counter : BitVec 32
  pairs : List.Vector IbrBootOptionalPair optionalMaxNumber
  deriving DecidableEq

/-- `INI_INFO_T`: the settings of `NANDWRITER.ini`. `execFileNum` is a C `int`. -/
structure IniInfo where
  nandLoader : List.Vector Byte 512
  logo : List.Vector Byte 512
  execFile : List.Vector Byte 512
  execFileNum : BitVec 32
  execAddress : BitVec 32
  deriving DecidableEq

/-! ## Memory layout -/

def FwUpdateInfo.codec : Codec FwUpdateInfo :=
  (Codec.u16.seq (Codec.u16.seq (Codec.u16.seq (Codec.u16.seq (Codec.u32.seq
    (Codec.u32.seq (Codec.byte.vec 32))))))).imap
    (fun e => (e.imageNo, e.imageFlag, e.startBlock, e.endBlock, e.executeAddr, e.fileLen,
      e.imageName))
    (fun p => ⟨p.1, p.2.1, p.2.2.1, p.2.2.2.1, p.2.2.2.2.1, p.2.2.2.2.2.1, p.2.2.2.2.2.2⟩)
    (fun _ => rfl)

/-- The whole `FWInfo` array, 768 bytes. -/
def FwTable.codec : Codec FwTable := FwUpdateInfo.codec.vec maxFWInfo

def IbrBoot.codec : Codec IbrBoot :=
  (Codec.u32.seq (Codec.u32.seq (Codec.u32.seq Codec.u32))).imap
    (fun b => (b.bootCodeMarker, b.exeAddr, b.imageSize, b.reserved))
    (fun p => ⟨p.1, p.2.1, p.2.2.1, p.2.2.2⟩)
    (fun _ => rfl)

def IbrBootOptionalPair.codec : Codec IbrBootOptionalPair :=
  (Codec.u32.seq Codec.u32).imap (fun p => (p.address, p.value)) (fun p => ⟨p.1, p.2⟩)
    (fun _ => rfl)

def IbrBootOptional.codec : Codec IbrBootOptional :=
  (Codec.u32.seq (Codec.u32.seq (IbrBootOptionalPair.codec.vec optionalMaxNumber))).imap
    (fun o => (o.optionalMarker, o.counter, o.pairs)) (fun p => ⟨p.1, p.2.1, p.2.2⟩)
    (fun _ => rfl)

/-! ## Strings and files -/

/-- The C string a `char` array holds. -/
def cstr (a : List.Vector Byte 512) : List Byte := a.toList.takeWhile (· ≠ 0)

def strlen (a : List.Vector Byte 512) : Nat := (cstr a).length

/-- The string `s` in a `char[512]`, the bytes after it zero. -/
def charArray (s : List Byte) (h : s.length ≤ 512) : List.Vector Byte 512 :=
  ⟨s ++ List.replicate (512 - s.length) 0, by simp; omega⟩

/-- The contents of the files that can be opened, by path. -/
abbrev Files := List Byte → Option (List Byte)

/-- What `fopen(path, "r")` opens. -/
def Files.fopen (fs : Files) (path : List Byte) : Option (List Byte) :=
  if path = [] then none
  else (fs path).filter fun c => c.length < 2 ^ 31

/-- The `st_size` of `stat(path)`; `none` is the result `-1`. -/
def Files.stat (fs : Files) (path : List Byte) : Option (BitVec 32) :=
  (fs.fopen path).map fun c => BitVec.ofNat 32 c.length

end N32905.MnWriter
