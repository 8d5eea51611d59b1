import N32905.Udhcp.Options

/-!
# The lease table

`leases.c` and `static_leases.c`. What the outside world answers is a `World`: the readings of the
clock, the ARP replies, and whether a packet could be sent, each by its number.
-/

namespace N32905.Udhcp

open N32905.Lib

/-! ## The state of the server -/

structure DynLease where
  expires : Nat
  leaseNip : BitVec 32
  leaseMac : Mac
  hostname : List.Vector Byte 20

instance : Zero DynLease := ⟨⟨0, 0, 0, 0⟩⟩

structure StaticLease where
  mac : Mac
  nip : BitVec 32

/-- The fields of `server_config` that a reply or the table depends on, and
`ENABLE_FEATURE_UDHCPD_WRITE_LEASES_EARLY`. A pool that ends at 255.255.255.255 is left out: the
`addr` of `find_free_or_expired_nip` never gets past it. -/
structure ServerConfig where
  serverNip : BitVec 32
  options : List OptionSet
  startIp : BitVec 32
  endIp : BitVec 32
  minLeaseSec : Nat
  maxLeases : Nat
  declineTime : Nat
  conflictTime : Nat
  offerTime : Nat
  siaddrNip : BitVec 32
  sname : Option (List Byte)
  bootFile : Option (List Byte)
  staticLeases : List StaticLease
  writeLeasesEarly : Bool
  endIp_lt : endIp < 0xFFFFFFFF
  minLeaseSec_lt : minLeaseSec < 2 ^ 32

/-- What the calls to the outside return. -/
structure World where
  time : Nat → Nat
  arpping : Nat → BitVec 32 → Mac → Bool
  sent : Nat → Bool

inductive Destination
  | relay (gatewayNip : BitVec 32)
  | broadcast
  | client (ciaddr : BitVec 32) (chaddr : List.Vector Byte 16)

/-- What happens on the wire. A reply is marked with the number of clock readings before it. -/
inductive Event
  | received (p : DhcpPacket)
  | sent (p : DhcpPacket) (dest : Destination) (readings : Nat)
  | restarted

structure Server where
  gLeases : List DynLease
  leaseFile : Option (List Byte)
  readings : Nat
  probes : Nat
  packets : Nat
  history : List Event

namespace Server

def lease (s : Server) (i : Nat) : DynLease := s.gLeases.getD i 0

def setLease (s : Server) (i : Nat) (f : DynLease → DynLease) : Server :=
  { s with gLeases := s.gLeases.modify i f }

end Server

def leasetime (t : Nat) : Nat := t % 2 ^ 32

def time (w : World) : StateM Server Nat :=
  modifyGet fun s => (w.time s.readings, { s with readings := s.readings + 1 })

/-! ## Static leases -/

def getStaticNipByMac (leases : List StaticLease) (mac : Mac) : BitVec 32 :=
  match leases.find? fun l => l.mac = mac with
  | some l => l.nip
  | none => 0

def isNipReserved (leases : List StaticLease) (nip : BitVec 32) : Bool :=
  leases.any fun l => l.nip = nip

/-! ## `leases.c` -/

/-- The loop of `oldest_expired_lease`, from `oldest_time` on. -/
def oldestExpired (now : Nat) (leases : List DynLease) : Option Nat :=
  (leases.zipIdx.foldl (fun (acc : Nat × Option Nat) p =>
    if p.1.expires < acc.1 then (p.1.expires, some p.2) else acc) (now, none)).2

def oldestExpiredLease (w : World) : StateM Server (Option Nat) := do
  let now ← time w
  let s ← get
  pure (oldestExpired (leasetime now) s.gLeases)

def clearLease (chaddr : List.Vector Byte 16) (yiaddr : BitVec 32) (leases : List DynLease) :
    List DynLease :=
  leases.map fun l =>
    if ((chaddr.toList.any fun b => b ≠ 0) ∧ l.leaseMac = macOf chaddr) ∨
      (yiaddr ≠ 0 ∧ l.leaseNip = yiaddr) then 0 else l

/-- `safe_strncpy` into the 20 bytes of a host name, for `size` up to 20. -/
def safeStrncpy (dst src : List Byte) (size : Nat) : List Byte :=
  if size = 0 then dst
  else
    let s := (src.takeWhile fun b => b ≠ 0).take (size - 1)
    s ++ List.replicate (size - s.length) 0 ++ dst.drop size

/-- What is not printable in the string becomes `^`. -/
def sanitize (s : List Byte) : List Byte :=
  (s.takeWhile fun b => b ≠ 0).map (fun b => if b < 32 ∨ 126 < b then 0x5E else b) ++
    s.dropWhile fun b => b ≠ 0

theorem length_sanitize (s : List Byte) : (sanitize s).length = s.length := by
  rw [sanitize, List.length_append, List.length_map, ← List.length_append,
    List.takeWhile_append_dropWhile]

theorem length_safeStrncpy {dst src : List Byte} {size : Nat} (h : size ≤ dst.length) :
    (safeStrncpy dst src size).length = dst.length := by
  unfold safeStrncpy
  split
  · rfl
  · simp only [List.length_append, List.length_take, List.length_replicate, List.length_drop]
    omega

/-- What `add_lease` leaves in `hostname`. -/
def setHostname (old : List.Vector Byte 20) (hostname : Option (List Byte)) (hostnameLen : Nat) :
    List.Vector Byte 20 :=
  let blank := old.set 0 0
  match hostname with
  | none => blank
  | some src => ⟨sanitize (safeStrncpy blank.toList src (min hostnameLen 20)), by
      rw [length_sanitize, length_safeStrncpy (by rw [blank.toList_length]; omega),
        blank.toList_length]⟩

def addLease (w : World) (chaddr : List.Vector Byte 16) (yiaddr : BitVec 32) (leaseTime : Nat)
    (hostname : Option (List Byte)) (hostnameLen : Nat) : StateM Server (Option Nat) := do
  modify fun s => { s with gLeases := clearLease chaddr yiaddr s.gLeases }
  match ← oldestExpiredLease w with
  | none => pure none
  | some oldest => do
    let now ← time w
    modify fun s => s.setLease oldest fun l =>
      { expires := leasetime (now + leaseTime)
        leaseNip := yiaddr
        leaseMac := macOf chaddr
        hostname := setHostname l.hostname hostname hostnameLen }
    pure (some oldest)

def isExpiredLease (w : World) (lease : Nat) : StateM Server Bool := do
  let now ← time w
  let s ← get
  pure ((s.lease lease).expires < leasetime now)

def findLeaseByMac (leases : List DynLease) (mac : Mac) : Option Nat :=
  leases.findIdx? fun l => l.leaseMac = mac

def findLeaseByNip (leases : List DynLease) (nip : BitVec 32) : Option Nat :=
  leases.findIdx? fun l => l.leaseNip = nip

def nobodyRespondsToArp (w : World) (cfg : ServerConfig) (nip : BitVec 32) (safeMac : Mac) :
    StateM Server Bool := do
  let r ← modifyGet fun s => (w.arpping s.probes nip safeMac, { s with probes := s.probes + 1 })
  if r then pure true
  else do
    let _ ← addLease w 0 nip cfg.conflictTime none 0
    pure false

/-- What is left of `find_free_or_expired_nip` behind its loop. -/
def reuseOldest (w : World) (cfg : ServerConfig) (safeMac : Mac) :
    Option Nat → StateM Server (BitVec 32)
  | none => pure 0
  | some oldest => do
    if ← isExpiredLease w oldest then
      let s ← get
      if ← nobodyRespondsToArp w cfg (s.lease oldest).leaseNip safeMac then
        let s ← get
        pure (s.lease oldest).leaseNip
      else pure 0
    else pure 0

/-- The loop of `find_free_or_expired_nip`, with `n` addresses from `addr` on. -/
def findFreeFrom (w : World) (cfg : ServerConfig) (safeMac : Mac) :
    Nat → Nat → Option Nat → StateM Server (BitVec 32)
  | 0, _, oldest => reuseOldest w cfg safeMac oldest
  | n + 1, addr, oldest =>
    if addr &&& 0xff = 0 then findFreeFrom w cfg safeMac n (addr + 1) oldest
    else if addr &&& 0xff = 0xff then findFreeFrom w cfg safeMac n (addr + 1) oldest
    else
      let nip := ntohl (BitVec.ofNat 32 addr)
      if isNipReserved cfg.staticLeases nip then findFreeFrom w cfg safeMac n (addr + 1) oldest
      else do
        let s ← get
        match findLeaseByNip s.gLeases nip with
        | none => do
          if ← nobodyRespondsToArp w cfg nip safeMac then pure nip
          else findFreeFrom w cfg safeMac n (addr + 1) oldest
        | some lease =>
          let older := match oldest with
            | none => true
            | some oldest => decide ((s.lease lease).expires < (s.lease oldest).expires)
          findFreeFrom w cfg safeMac n (addr + 1) (if older then some lease else oldest)

def findFreeOrExpiredNip (w : World) (cfg : ServerConfig) (safeMac : Mac) :
    StateM Server (BitVec 32) :=
  findFreeFrom w cfg safeMac (cfg.endIp.toNat + 1 - cfg.startIp.toNat) cfg.startIp.toNat none

end N32905.Udhcp
