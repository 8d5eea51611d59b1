import N32905.Lib.Codec
import Mathlib.Data.BitVec
import Mathlib.Data.Vector.Basic

/-!
# DHCP packets and their options

`options.c` and the packet header of `packet.c`. An options area that the server has built is
a list of options with `DHCP_END` behind (`HasOptions`); `getOption_of_hasOptions` reads it
back, as the client's `get_option` does.
-/

namespace N32905.Udhcp

open N32905.Lib

/-! ## Packets -/

def DHCP_OPTIONS_BUFSIZE : Nat := 308
def CONFIG_UDHCPC_SLACK_FOR_BUGGY_SERVERS : Nat := 80

/-- `sizeof(packet->options)`. -/
abbrev OPTIONS_SIZE : Nat := DHCP_OPTIONS_BUFSIZE + CONFIG_UDHCPC_SLACK_FOR_BUGGY_SERVERS

def swapBytes (w : Nat) (x : BitVec (8 * w)) : BitVec (8 * w) :=
  (Codec.word w).dec ((Codec.word w).enc x).reverse

theorem swapBytes_swapBytes {w : Nat} (x : BitVec (8 * w)) : swapBytes w (swapBytes w x) = x := by
  have hlen : ((Codec.word w).enc x).reverse.length = w := by
    rw [List.length_reverse, Codec.length_enc]
    rfl
  have henc : (Codec.word w).enc (swapBytes w x) = ((Codec.word w).enc x).reverse := by
    have h := Codec.word_enc_dec w (Nat.le_of_eq hlen.symm)
    rwa [List.take_of_length_le (Nat.le_of_eq hlen)] at h
  have hdec := (Codec.word w).dec_enc x []
  rw [List.append_nil] at hdec
  rw [swapBytes, henc, List.reverse_reverse, hdec]

/-- `htonl` and `ntohl` of a little-endian machine. -/
def ntohl (x : BitVec 32) : BitVec 32 := swapBytes 4 x

theorem ntohl_ntohl (x : BitVec 32) : ntohl (ntohl x) = x :=
  swapBytes_swapBytes (w := 4) x

abbrev Mac := List.Vector Byte 6

instance (n : Nat) : Zero (List.Vector Byte n) := ⟨List.Vector.replicate n 0⟩

structure DhcpPacket where
  op : Byte
  htype : Byte
  hlen : Byte
  hops : Byte
  xid : BitVec 32
  secs : BitVec 16
  flags : BitVec 16
  ciaddr : BitVec 32
  yiaddr : BitVec 32
  siaddrNip : BitVec 32
  gatewayNip : BitVec 32
  chaddr : List.Vector Byte 16
  sname : List.Vector Byte 64
  file : List.Vector Byte 128
  cookie : BitVec 32
  options : List.Vector Byte OPTIONS_SIZE

/-- The six bytes of `chaddr` that count. -/
def macOf (chaddr : List.Vector Byte 16) : Mac := chaddr.take 6

def DhcpPacket.mac (p : DhcpPacket) : Mac := macOf p.chaddr

def DHCP_MAGIC : BitVec 32 := 0x63825363

def DHCP_PADDING : Byte := 0x00
def DHCP_HOST_NAME : Byte := 0x0c
def DHCP_REQUESTED_IP : Byte := 0x32
def DHCP_LEASE_TIME : Byte := 0x33
def DHCP_OPTION_OVERLOAD : Byte := 0x34
def DHCP_MESSAGE_TYPE : Byte := 0x35
def DHCP_SERVER_ID : Byte := 0x36
def DHCP_VENDOR : Byte := 0x3c
def DHCP_END : Byte := 0xFF

def DHCPDISCOVER : Byte := 1
def DHCPOFFER : Byte := 2
def DHCPREQUEST : Byte := 3
def DHCPDECLINE : Byte := 4
def DHCPACK : Byte := 5
def DHCPNAK : Byte := 6
def DHCPRELEASE : Byte := 7
def DHCPINFORM : Byte := 8

/-- `flags & TYPE_MASK` of a `struct dhcp_option`, and its length. -/
inductive OptionType
  | ip | ipPair | string | str1035 | boolean | u8 | u16 | s16 | u32 | s32 | staticRoutes
  deriving DecidableEq

def dhcpOptionLengths : OptionType → Nat
  | .ip => 4
  | .ipPair => 8
  | .boolean => 1
  | .string => 1
  | .str1035 => 1
  | .u8 => 1
  | .u16 => 2
  | .s16 => 2
  | .u32 => 4
  | .s32 => 4
  | .staticRoutes => 5

/-- `dhcp_options` with RFC 3397, without the flags for the client. -/
def dhcpOptions : List (OptionType × Byte) :=
  [(.ip, 0x01), (.s32, 0x02), (.ip, 0x03), (.ip, 0x04), (.ip, 0x05), (.ip, 0x06), (.ip, 0x07),
    (.ip, 0x08), (.ip, 0x09), (.string, 0x0c), (.u16, 0x0d), (.string, 0x0f), (.ip, 0x10),
    (.string, 0x11), (.u8, 0x17), (.u16, 0x1a), (.ip, 0x1c), (.string, 0x28), (.ip, 0x29),
    (.ip, 0x2a), (.ip, 0x2c), (.ip, 0x32), (.u32, 0x33), (.u8, 0x35), (.ip, 0x36), (.string, 0x38),
    (.string, 0x3C), (.string, 0x3D), (.string, 0x42), (.string, 0x43), (.string, 0x4D),
    (.str1035, 0x77), (.staticRoutes, 0x79), (.string, 0xfc), (.u16, 0x39)]

/-! ## Reading options -/

/-- What `get_option` points to: the data and all that follows, behind the length byte. -/
structure OptionAt where
  len : Byte
  data : List Byte

inductive Scan
  | bogus
  | found (o : OptionAt)
  | ended (overload : BitVec 16)

/-- The loop of `get_option` in one field: `rem` bytes are left of it, and `ptr` is all that is in
memory from there on. Every pass takes at least one byte of `rem`. -/
def scanField (code : Byte) : Nat → Nat → List Byte → BitVec 16 → Scan
  | 0, _, _, _ => .bogus
  | fuel + 1, rem, ptr, overload =>
    if rem = 0 then .bogus
    else if ptr.getD 0 0 = DHCP_PADDING then scanField code fuel (rem - 1) (ptr.drop 1) overload
    else if ptr.getD 0 0 = DHCP_END then .ended overload
    else
      let len := 2 + (ptr.getD 1 0).toNat
      if rem < len then .bogus
      else if ptr.getD 0 0 = code then .found ⟨ptr.getD 1 0, ptr.drop 2⟩
      else
        let overload := if ptr.getD 0 0 = DHCP_OPTION_OVERLOAD then
          overload ||| (ptr.getD 2 0).setWidth 16 else overload
        scanField code fuel (rem - len) (ptr.drop len) overload

/-- The memory from `packet->file` on. -/
def DhcpPacket.fromFile (p : DhcpPacket) : List Byte :=
  p.file.toList ++ Codec.u32.enc p.cookie ++ p.options.toList

/-- The fields that `get_option` goes through, each of them once at most. -/
def scanFields (p : DhcpPacket) (code : Byte) : Nat → Nat → List Byte → BitVec 16 → Option OptionAt
  | 0, _, _, _ => none
  | fields + 1, rem, ptr, overload =>
    match scanField code rem rem ptr overload with
    | .bogus => none
    | .found o => some o
    | .ended overload =>
      if overload &&& 0x101 = 1 then scanFields p code fields 128 p.fromFile (overload ||| 0x101)
      else if overload &&& 0x202 = 2 then
        scanFields p code fields 64 (p.sname.toList ++ p.fromFile) (overload ||| 0x202)
      else none

def DhcpPacket.getOption (p : DhcpPacket) (code : Byte) : Option OptionAt :=
  scanFields p code 3 OPTIONS_SIZE p.options.toList 0

/-- `move_from_unaligned32`. -/
def OptionAt.u32 (o : OptionAt) : BitVec 32 := Codec.u32.dec o.data

/-- `state[0]` of the main loop. -/
def DhcpPacket.messageType (p : DhcpPacket) : Option Byte :=
  (p.getOption DHCP_MESSAGE_TYPE).map fun o => o.data.getD 0 0

/-! ## Writing options -/

/-- `end_option`, in an area of `fuel` bytes at most. -/
def endOption : Nat → List Byte → Nat → Nat
  | 0, _, i => i
  | fuel + 1, ptr, i =>
    if ptr.getD i 0 = DHCP_END then i
    else if ptr.getD i 0 = DHCP_PADDING then endOption fuel ptr (i + 1)
    else endOption fuel ptr (i + (ptr.getD (i + 1) 0).toNat + 2)

theorem length_blit {buf data : List Byte} {off : Nat} (h : off + data.length ≤ buf.length) :
    (blit buf off data).length = buf.length := by
  simp only [blit, List.length_append, List.length_take, List.length_drop]
  omega

/-- `add_option_string`, with the number of bytes it returns. -/
def addOptionString (options : List.Vector Byte OPTIONS_SIZE) (string : List Byte) :
    List.Vector Byte OPTIONS_SIZE × Nat :=
  let len := (string.getD 1 0).toNat
  let fin := endOption OPTIONS_SIZE options.toList 0
  if h : fin + len + 2 + 1 ≥ DHCP_OPTIONS_BUFSIZE then (options, 0)
  else (⟨blit (blit options.toList fin (string.take (len + 2))) (fin + len + 2) [DHCP_END], by
    have hsize : DHCP_OPTIONS_BUFSIZE ≤ OPTIONS_SIZE := Nat.le_add_right _ _
    have htake : (string.take (len + 2)).length ≤ len + 2 := List.length_take_le _ _
    have hblit : (blit options.toList fin (string.take (len + 2))).length = OPTIONS_SIZE := by
      rw [length_blit (by rw [options.toList_length]; omega), options.toList_length]
    rw [length_blit (by rw [hblit, List.length_singleton]; omega), hblit]⟩, len + 2)

def addSimpleOption (options : List.Vector Byte OPTIONS_SIZE) (code : Byte) (data : BitVec 32) :
    List.Vector Byte OPTIONS_SIZE × Nat :=
  match dhcpOptions.find? fun dh => dh.2 = code with
  | some dh =>
    let len := dhcpOptionLengths dh.1
    addOptionString options (code :: BitVec.ofNat 8 len :: Codec.u32.enc data)
  | none => (options, 0)

def initHeader (type : Byte) : DhcpPacket where
  op := if type = DHCPOFFER ∨ type = DHCPACK ∨ type = DHCPNAK then 2 else 1
  htype := 1
  hlen := 6
  hops := 0
  xid := 0
  secs := 0
  flags := 0
  ciaddr := 0
  yiaddr := 0
  siaddrNip := 0
  gatewayNip := 0
  chaddr := 0
  sname := 0
  file := 0
  cookie := ntohl DHCP_MAGIC
  options := (addSimpleOption ((0 : List.Vector Byte OPTIONS_SIZE).set ⟨0, by decide⟩ DHCP_END)
    DHCP_MESSAGE_TYPE (type.setWidth 32)).1

/-! ## An area the server has written -/

/-- The data of a `struct option_set`: an option of the table, of less than 256 bytes. -/
structure OptionSet where
  code : Byte
  data : List Byte
  known : (dhcpOptions.any fun dh => dh.2 = code) = true
  short : data.length < 256

namespace OptionSet

def bytes (o : OptionSet) : List Byte := o.code :: BitVec.ofNat 8 o.data.length :: o.data

theorem code_ne (o : OptionSet) :
    o.code ≠ DHCP_PADDING ∧ o.code ≠ DHCP_END ∧ o.code ≠ DHCP_OPTION_OVERLOAD := by
  have h : ∀ c : Byte, (dhcpOptions.any fun dh => dh.2 = c) = true →
      c ≠ DHCP_PADDING ∧ c ≠ DHCP_END ∧ c ≠ DHCP_OPTION_OVERLOAD := by
    decide
  exact h o.code o.known

@[simp] theorem length_bytes (o : OptionSet) : o.bytes.length = o.data.length + 2 := rfl

theorem toNat_len (o : OptionSet) : (BitVec.ofNat 8 o.data.length).toNat = o.data.length := by
  rw [BitVec.toNat_ofNat]
  exact Nat.mod_eq_of_lt o.short

end OptionSet

def optionBytes (os : List OptionSet) : List Byte := os.flatMap OptionSet.bytes

@[simp] theorem optionBytes_nil : optionBytes [] = [] := rfl

@[simp] theorem optionBytes_cons (o : OptionSet) (os : List OptionSet) :
    optionBytes (o :: os) = o.bytes ++ optionBytes os := List.flatMap_cons

@[simp] theorem optionBytes_append (os os' : List OptionSet) :
    optionBytes (os ++ os') = optionBytes os ++ optionBytes os' := List.flatMap_append

/-- The area holds `os`, then `DHCP_END`, within the bytes that may be sent. -/
structure HasOptions (options : List.Vector Byte OPTIONS_SIZE) (os : List OptionSet) : Prop where
  bytes : ∃ rest, options.toList = optionBytes os ++ DHCP_END :: rest
  fits : (optionBytes os).length < DHCP_OPTIONS_BUFSIZE

theorem endOption_optionBytes (os : List OptionSet) (done rest : List Byte) {fuel : Nat}
    (h : (optionBytes os).length < fuel) :
    endOption fuel (done ++ optionBytes os ++ DHCP_END :: rest) done.length =
      (done ++ optionBytes os).length := by
  induction os generalizing done fuel with
  | nil =>
    obtain ⟨fuel, rfl⟩ := Nat.exists_eq_add_of_lt h
    simp [endOption]
  | cons o os ih =>
    obtain ⟨fuel, rfl⟩ := Nat.exists_eq_add_of_lt h
    obtain ⟨hpad, hend, -⟩ := o.code_ne
    have hih := ih (done ++ o.bytes) (show _ < (optionBytes (o :: os)).length + fuel by
      simp only [optionBytes_cons, List.length_append, OptionSet.length_bytes]
      omega)
    rw [endOption]
    simp only [optionBytes_cons, List.append_assoc] at hih ⊢
    have hcode : (done ++ (o.bytes ++ (optionBytes os ++ DHCP_END :: rest))).getD done.length 0 =
        o.code := by
      simp [OptionSet.bytes]
    have hlen : (done ++ (o.bytes ++ (optionBytes os ++ DHCP_END :: rest))).getD
        (done.length + 1) 0 = BitVec.ofNat 8 o.data.length := by
      simp [OptionSet.bytes]
    have hnext : (done ++ o.bytes).length = done.length + o.data.length + 2 := by
      rw [List.length_append, OptionSet.length_bytes, Nat.add_assoc]
    rw [hnext] at hih
    rw [hcode, hlen, if_neg hend, if_neg hpad, o.toNat_len]
    exact hih

/-- What still fits: `add_option_string` drops the rest. -/
def addOption (os : List OptionSet) (o : OptionSet) : List OptionSet :=
  if (optionBytes os).length + o.data.length + 3 < DHCP_OPTIONS_BUFSIZE then os ++ [o] else os

section HasOptions
variable {options : List.Vector Byte OPTIONS_SIZE} {os : List OptionSet}

theorem HasOptions.endOption_eq (h : HasOptions options os) :
    endOption OPTIONS_SIZE options.toList 0 = (optionBytes os).length := by
  obtain ⟨rest, hbytes⟩ := h.bytes
  have hfits : (optionBytes os).length < OPTIONS_SIZE :=
    Nat.lt_of_lt_of_le h.fits (Nat.le_add_right _ _)
  have hend := endOption_optionBytes os [] rest hfits
  rw [List.nil_append, ← hbytes] at hend
  exact hend

/-- **One more option**, if it fits. What follows the string does not matter. -/
theorem HasOptions.addOptionString (h : HasOptions options os) (o : OptionSet) (tail : List Byte) :
    HasOptions (addOptionString options (o.bytes ++ tail)).1 (addOption os o) := by
  have hlen : ((o.bytes ++ tail).getD 1 0).toNat = o.data.length := o.toNat_len
  unfold Udhcp.addOptionString addOption
  simp only [h.endOption_eq, hlen]
  split
  · rename_i hfull
    rw [if_neg (by omega)]
    exact h
  · rename_i hroom
    rw [if_pos (by omega)]
    obtain ⟨rest, hbytes⟩ := h.bytes
    refine ⟨⟨rest.drop (o.data.length + 2), ?_⟩, ?_⟩
    · change blit (blit options.toList _ _) _ _ = _
      have htake : (o.bytes ++ tail).take (o.data.length + 2) = o.bytes :=
        List.take_left' o.length_bytes
      have hfirst : blit options.toList (optionBytes os).length o.bytes =
          optionBytes os ++ o.bytes ++ (DHCP_END :: rest).drop (o.data.length + 2) := by
        rw [blit, hbytes, List.take_left' rfl, ← List.drop_drop, List.drop_left' rfl,
          OptionSet.length_bytes]
      have hat : (optionBytes os).length + o.data.length + 2 =
          (optionBytes os ++ o.bytes).length := by
        rw [List.length_append, OptionSet.length_bytes, Nat.add_assoc]
      rw [htake, hfirst, hat, blit, List.take_left' rfl, ← List.drop_drop, List.drop_left' rfl,
        List.drop_drop, List.length_singleton, List.drop_succ_cons]
      simp
    · simp only [optionBytes_append, optionBytes_cons, optionBytes_nil, List.append_nil,
        List.length_append, OptionSet.length_bytes]
      omega

theorem HasOptions.addSimpleOption (h : HasOptions options os) {t : OptionType} {code : Byte}
    {data : BitVec 32} (hfind : (dhcpOptions.find? fun dh => dh.2 = code) = some (t, code))
    {o : OptionSet} (hcode : o.code = code)
    (hdata : o.data = (Codec.u32.enc data).take (dhcpOptionLengths t))
    (hlen : dhcpOptionLengths t ≤ 4) :
    HasOptions (addSimpleOption options code data).1 (addOption os o) := by
  have hlength : o.data.length = dhcpOptionLengths t := by
    rw [hdata, List.length_take, Codec.u32.length_enc]
    exact Nat.min_eq_left hlen
  have hstring : code :: BitVec.ofNat 8 (dhcpOptionLengths t) :: Codec.u32.enc data =
      o.bytes ++ (Codec.u32.enc data).drop (dhcpOptionLengths t) := by
    rw [OptionSet.bytes, hcode, hlength, hdata, List.cons_append, List.cons_append,
      List.take_append_drop]
  unfold Udhcp.addSimpleOption
  simp only [hfind]
  rw [hstring]
  exact h.addOptionString o _

theorem scanField_optionBytes (code : Byte) (os : List OptionSet) (rest : List Byte)
    (overload : BitVec 16) {fuel rem : Nat} (hrem : (optionBytes os).length < rem)
    (hfuel : rem ≤ fuel) :
    (∀ o, os.find? (fun o => o.code = code) = some o → ∃ tail,
      scanField code fuel rem (optionBytes os ++ DHCP_END :: rest) overload =
        .found ⟨BitVec.ofNat 8 o.data.length, o.data ++ tail⟩) ∧
    (os.find? (fun o => o.code = code) = none →
      scanField code fuel rem (optionBytes os ++ DHCP_END :: rest) overload = .ended overload) := by
  induction os generalizing fuel rem with
  | nil =>
    obtain ⟨fuel, rfl⟩ := Nat.exists_eq_add_of_lt (Nat.lt_of_lt_of_le hrem hfuel)
    refine ⟨fun o ho => (by simp at ho), fun _ => ?_⟩
    rw [scanField, if_neg (by simp only [optionBytes_nil, List.length_nil] at hrem; omega)]
    simp [DHCP_END, DHCP_PADDING]
  | cons o os ih =>
    obtain ⟨fuel, rfl⟩ := Nat.exists_eq_add_of_lt (Nat.lt_of_lt_of_le hrem hfuel)
    obtain ⟨hpad, hend, hover⟩ := o.code_ne
    have hcode : (optionBytes (o :: os) ++ DHCP_END :: rest).getD 0 0 = o.code := by
      simp [OptionSet.bytes]
    have hlen : (optionBytes (o :: os) ++ DHCP_END :: rest).getD 1 0 =
        BitVec.ofNat 8 o.data.length := by
      simp [OptionSet.bytes]
    have hnext : (optionBytes (o :: os) ++ DHCP_END :: rest).drop (2 + o.data.length) =
        optionBytes os ++ DHCP_END :: rest := by
      rw [optionBytes_cons, List.append_assoc]
      exact List.drop_left' (by rw [OptionSet.length_bytes, Nat.add_comm])
    have hdata : (optionBytes (o :: os) ++ DHCP_END :: rest).drop 2 =
        o.data ++ (optionBytes os ++ DHCP_END :: rest) := by
      simp [OptionSet.bytes]
    have hsize : (optionBytes (o :: os)).length = o.data.length + 2 + (optionBytes os).length := by
      rw [optionBytes_cons, List.length_append, OptionSet.length_bytes]
    rw [scanField, if_neg (by omega), hcode, hlen, if_neg hpad, if_neg hend, o.toNat_len,
      if_neg (by omega), List.find?_cons]
    by_cases hfound : o.code = code
    · simp only [hfound, decide_true, if_true, hdata]
      exact ⟨fun o' ho => ⟨_, by cases ho; rfl⟩, fun h => nomatch h⟩
    · simp only [hfound, decide_false, if_false, if_neg hover, hnext]
      exact ih (by omega) (by omega)

/-- **What `get_option` reads** from an area the server has written: the first option of the code,
whatever the other fields hold. -/
theorem getOption_of_hasOptions {p : DhcpPacket} (h : HasOptions p.options os) (code : Byte) :
    (p.getOption code).map (fun o => o.data.take o.len.toNat) =
      (os.find? fun o => o.code = code).map OptionSet.data := by
  obtain ⟨rest, hbytes⟩ := h.bytes
  have hrem : (optionBytes os).length < OPTIONS_SIZE :=
    Nat.lt_of_lt_of_le h.fits (Nat.le_add_right _ _)
  obtain ⟨hsome, hnone⟩ := scanField_optionBytes code os rest 0 hrem (Nat.le_refl _)
  unfold DhcpPacket.getOption scanFields
  rw [hbytes]
  cases hfind : os.find? fun o => o.code = code with
  | none =>
    rw [hnone hfind]
    rfl
  | some o =>
    obtain ⟨tail, hscan⟩ := hsome o hfind
    rw [hscan]
    simp only [Option.map_some, o.toNat_len, List.take_left' rfl]

theorem getOption_u32 {p : DhcpPacket} (h : HasOptions p.options os) {code : Byte} {o : OptionSet}
    (hfind : (os.find? fun o => o.code = code) = some o) {x : BitVec 32}
    (hx : o.data = Codec.u32.enc x) : (p.getOption code).map OptionAt.u32 = some x := by
  have hread := getOption_of_hasOptions h code
  rw [hfind, Option.map_some] at hread
  obtain ⟨a, ha, htake⟩ := Option.map_eq_some_iff.1 hread
  have hdata : a.data = Codec.u32.enc x ++ a.data.drop a.len.toNat := by
    rw [← hx, ← htake, List.take_append_drop]
  rw [ha, Option.map_some, OptionAt.u32, hdata, Codec.dec_enc]

end HasOptions

end N32905.Udhcp
