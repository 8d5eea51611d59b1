import N32905.Udhcp.Leases

/-!
# The DHCP server

The replies of `serverpacket.c`, the lease file of `files.c` and the main loop of `dhcpd.c`. The
server is what remains after some `Input`s, and its history what went over the wire.
-/

namespace N32905.Udhcp

open N32905.Lib

def LEASE_TIME : Nat := 60 * 60 * 24 * 10

/-- The maximum lease time: the option `lease`, if it is configured. -/
def ServerConfig.maxLeaseSec (cfg : ServerConfig) : Nat :=
  match cfg.options.find? fun o => o.code = DHCP_LEASE_TIME with
  | some o => (ntohl (Codec.u32.dec o.data)).toNat
  | none => LEASE_TIME

def ServerConfig.slots (cfg : ServerConfig) : Nat :=
  min cfg.maxLeases (cfg.endIp - cfg.startIp + 1).toNat

def staticNip (cfg : ServerConfig) (mac : Mac) : BitVec 32 := getStaticNipByMac cfg.staticLeases mac

/-! ## Replies -/

def initPacket (cfg : ServerConfig) (oldpacket : DhcpPacket) (type : Byte) : DhcpPacket :=
  let packet := initHeader type
  { packet with
    xid := oldpacket.xid
    chaddr := oldpacket.chaddr
    flags := oldpacket.flags
    gatewayNip := oldpacket.gatewayNip
    ciaddr := oldpacket.ciaddr
    options := (addSimpleOption packet.options DHCP_SERVER_ID cfg.serverNip).1 }

/-- `strncpy` into a field of zeros, all but its last byte. -/
def strncpyField (n : Nat) (s : List Byte) : List.Vector Byte n :=
  let s := (s.takeWhile fun b => b ≠ 0).take (n - 1)
  ⟨s ++ List.replicate (n - s.length) 0, by
    rw [List.length_append, List.length_replicate, List.length_take]
    omega⟩

def addBootpOptions (cfg : ServerConfig) (packet : DhcpPacket) : DhcpPacket :=
  { packet with
    siaddrNip := cfg.siaddrNip
    sname := match cfg.sname with
      | some s => strncpyField 64 s
      | none => packet.sname
    file := match cfg.bootFile with
      | some s => strncpyField 128 s
      | none => packet.file }

def addServerOptions (cfg : ServerConfig) (packet : DhcpPacket) : DhcpPacket :=
  { packet with
    options := cfg.options.foldl (fun options curr =>
      if curr.code ≠ DHCP_LEASE_TIME then (addOptionString options curr.bytes).1 else options)
      packet.options }

def addLeaseTime (packet : DhcpPacket) (leaseTimeSec : Nat) : DhcpPacket :=
  { packet with
    options := (addSimpleOption packet.options DHCP_LEASE_TIME
      (ntohl (BitVec.ofNat 32 leaseTimeSec))).1 }

def selectLeaseTime (cfg : ServerConfig) (packet : DhcpPacket) : Nat :=
  match packet.getOption DHCP_LEASE_TIME with
  | none => cfg.maxLeaseSec
  | some o =>
    let leaseTimeSec := (ntohl o.u32).toNat
    let leaseTimeSec := if cfg.maxLeaseSec < leaseTimeSec then cfg.maxLeaseSec else leaseTimeSec
    if leaseTimeSec < cfg.minLeaseSec then cfg.minLeaseSec else leaseTimeSec

def BROADCAST_FLAG : BitVec 16 := 0x8000

/-- `htons` of a little-endian machine. -/
def htons (x : BitVec 16) : BitVec 16 := swapBytes 2 x

def destination (packet : DhcpPacket) (forceBroadcast : Bool) : Destination :=
  if packet.gatewayNip ≠ 0 then .relay packet.gatewayNip
  else if forceBroadcast ∨ packet.flags &&& htons BROADCAST_FLAG ≠ 0 ∨ packet.ciaddr = 0 then
    .broadcast
  else .client packet.ciaddr packet.chaddr

/-- `send_packet`: what could be sent goes into the history. -/
def sendPacket (w : World) (packet : DhcpPacket) (forceBroadcast : Bool) : StateM Server Bool :=
  modifyGet fun s =>
    (w.sent s.packets,
      { s with
        packets := s.packets + 1
        history := if w.sent s.packets then
          s.history ++ [.sent packet (destination packet forceBroadcast) s.readings]
          else s.history })

/-- `p_host_name` and the length in front of it, as `add_lease` gets them. -/
def DhcpPacket.hostname (p : DhcpPacket) : Option (List Byte) :=
  (p.getOption DHCP_HOST_NAME).map OptionAt.data

def DhcpPacket.hostnameLen (p : DhcpPacket) : Nat :=
  match p.getOption DHCP_HOST_NAME with
  | some o => o.len.toNat
  | none => 0

/-- The address of a client that has no static lease, 0 if there is none. -/
def chooseNip (w : World) (cfg : ServerConfig) (oldpacket : DhcpPacket) :
    StateM Server (BitVec 32) := do
  let s ← get
  match findLeaseByMac s.gLeases oldpacket.mac with
  | some lease => do
    -- the lease time computed from this reading is overwritten before it is sent
    let _ ← time w
    pure (s.lease lease).leaseNip
  | none =>
    match oldpacket.getOption DHCP_REQUESTED_IP with
    | none => findFreeOrExpiredNip w cfg oldpacket.mac
    | some reqIpOpt =>
      let reqNip := reqIpOpt.u32
      if cfg.startIp ≤ ntohl reqNip ∧ ntohl reqNip ≤ cfg.endIp then
        match findLeaseByNip s.gLeases reqNip with
        | none => pure reqNip
        | some lease => do
          if ← isExpiredLease w lease then pure reqNip
          else findFreeOrExpiredNip w cfg oldpacket.mac
      else findFreeOrExpiredNip w cfg oldpacket.mac

/-- The end of `send_offer`. -/
def offerPacket (cfg : ServerConfig) (oldpacket : DhcpPacket) (yiaddr : BitVec 32)
    (leaseTimeSec : Nat) : DhcpPacket :=
  addBootpOptions cfg (addServerOptions cfg (addLeaseTime
    { initPacket cfg oldpacket DHCPOFFER with yiaddr := yiaddr } leaseTimeSec))

def sendOffer (w : World) (cfg : ServerConfig) (oldpacket : DhcpPacket) : StateM Server Bool := do
  let staticLeaseIp := staticNip cfg oldpacket.mac
  if staticLeaseIp ≠ 0 then
    sendPacket w (offerPacket cfg oldpacket staticLeaseIp cfg.maxLeaseSec) false
  else
    let yiaddr ← chooseNip w cfg oldpacket
    if yiaddr = 0 then pure false
    else
      match ← addLease w oldpacket.chaddr yiaddr cfg.offerTime oldpacket.hostname
        oldpacket.hostnameLen with
      | none => pure false
      | some _ =>
        sendPacket w (offerPacket cfg oldpacket yiaddr (selectLeaseTime cfg oldpacket)) false

def sendNak (w : World) (cfg : ServerConfig) (oldpacket : DhcpPacket) : StateM Server Bool :=
  sendPacket w (initPacket cfg oldpacket DHCPNAK) true

/-! ## The lease file -/

/-- What the file holds: the time it was written at, and leases that `expires` counts from there. -/
structure LeaseFile where
  writtenAt : Nat
  leases : List DynLease

/-- The bytes of a `struct dyn_lease`, with its time in network order. -/
def leaseCodec : Codec (BitVec 32 × BitVec 32 × Mac × List.Vector Byte 20 × List.Vector Byte 2) :=
  (Codec.u32.imap ntohl ntohl ntohl_ntohl).seq
    (Codec.u32.seq ((Codec.byte.vec 6).seq ((Codec.byte.vec 20).seq (Codec.byte.vec 2))))

/-- `hton64` and `ntoh64` of a little-endian machine. -/
def ntoh64 (x : BitVec 64) : BitVec 64 := swapBytes 8 x

theorem ntoh64_ntoh64 (x : BitVec 64) : ntoh64 (ntoh64 x) = x := swapBytes_swapBytes (w := 8) x

def DynLease.bytes (l : DynLease) : List Byte :=
  leaseCodec.enc (BitVec.ofNat 32 l.expires, l.leaseNip, l.leaseMac, l.hostname, 0)

def LeaseFile.bytes (f : LeaseFile) : List Byte :=
  (Codec.word 8).enc (ntoh64 (BitVec.ofNat 64 f.writtenAt)) ++ f.leases.flatMap DynLease.bytes

/-- The reads of `read_leases`, up to the first that gets too little. -/
def LeaseFile.ofBytes (bytes : List Byte) : Option LeaseFile :=
  if bytes.length < 8 then none
  else some
    { writtenAt := (ntoh64 ((Codec.word 8).dec bytes)).toNat
      leases := (leaseCodec.decList ((bytes.length - 8) / leaseCodec.size) (bytes.drop 8)).map fun r =>
        { expires := r.1.toNat, leaseNip := r.2.1, leaseMac := r.2.2.1, hostname := r.2.2.2.1 } }

/-- The file, if there is one and it is long enough. -/
def Server.file (s : Server) : Option LeaseFile := s.leaseFile.bind LeaseFile.ofBytes

/-- What the file keeps of a lease: the rest of its time, as a signed number. -/
def DynLease.remaining (curr : Nat) (l : DynLease) : DynLease :=
  { l with
    expires :=
      let left := BitVec.ofNat 32 l.expires - BitVec.ofNat 32 curr
      if left.slt 0 then 0 else left.toNat }

def writeLeases (w : World) : StateM Server Unit := do
  let curr ← time w
  modify fun s =>
    { s with
      leaseFile := some <| LeaseFile.bytes
        { writtenAt := curr
          leases := (s.gLeases.filter fun l => l.leaseNip ≠ 0).map fun l =>
            l.remaining (leasetime curr) } }

/-- The 16 bytes that `read_leases` passes as a hardware address: the MAC address and what the
structure holds behind it. -/
def DynLease.chaddr (l : DynLease) : List.Vector Byte 16 :=
  ⟨l.leaseMac.toList ++ l.hostname.toList.take 10, by
    rw [List.length_append, List.length_take, l.leaseMac.toList_length, l.hostname.toList_length]
    rfl⟩

/-- The loop of `read_leases`. -/
def readLeasesFrom (w : World) (cfg : ServerConfig) (timePassed : Int) :
    List DynLease → StateM Server Unit
  | [] => pure ()
  | lease :: leases =>
    let y := ntohl lease.leaseNip
    if cfg.startIp ≤ y ∧ y ≤ cfg.endIp then
      let expires := (BitVec.ofNat 32 lease.expires - BitVec.ofInt 32 timePassed).toInt
      if expires ≤ 0 then readLeasesFrom w cfg timePassed leases
      else do
        match ← addLease w lease.chaddr lease.leaseNip expires.toNat
          (some lease.hostname.toList) 20 with
        | none => pure ()
        | some _ => readLeasesFrom w cfg timePassed leases
    else readLeasesFrom w cfg timePassed leases

def readLeases (w : World) (cfg : ServerConfig) : StateM Server Unit := do
  let s ← get
  match s.file with
  | none => pure ()
  | some file => do
    let now ← time w
    let timePassed : Int := now - file.writtenAt
    if 12 * 60 * 60 < (BitVec.ofInt 64 timePassed).toNat then pure ()
    else readLeasesFrom w cfg timePassed file.leases

/-! ## Requests -/

def ackPacket (cfg : ServerConfig) (oldpacket : DhcpPacket) (yiaddr : BitVec 32) : DhcpPacket :=
  addBootpOptions cfg (addServerOptions cfg (addLeaseTime
    { initPacket cfg oldpacket DHCPACK with yiaddr := yiaddr } (selectLeaseTime cfg oldpacket)))

def sendAck (w : World) (cfg : ServerConfig) (oldpacket : DhcpPacket) (yiaddr : BitVec 32) :
    StateM Server Bool := do
  if ← sendPacket w (ackPacket cfg oldpacket yiaddr) false then
    let _ ← addLease w oldpacket.chaddr yiaddr (selectLeaseTime cfg oldpacket) oldpacket.hostname
      oldpacket.hostnameLen
    if cfg.writeLeasesEarly then writeLeases w
    pure true
  else pure false

def sendInform (w : World) (cfg : ServerConfig) (oldpacket : DhcpPacket) : StateM Server Bool :=
  sendPacket w (addBootpOptions cfg (addServerOptions cfg (initPacket cfg oldpacket DHCPACK))) false

/-- `lease` of the main loop: the fake lease of a static one, or an entry of the table. -/
inductive LeasePtr
  | fake (nip : BitVec 32)
  | entry (i : Nat)

def LeasePtr.nip (s : Server) : LeasePtr → BitVec 32
  | .fake nip => nip
  | .entry i => (s.lease i).leaseNip

/-- A store through `lease`; what is stored in the fake lease is not read again. -/
def LeasePtr.store (f : DynLease → DynLease) : LeasePtr → StateM Server Unit
  | .fake _ => pure ()
  | .entry i => modify fun s => s.setLease i f

def lookupLease (cfg : ServerConfig) (s : Server) (mac : Mac) : Option LeasePtr :=
  let staticLeaseIp := staticNip cfg mac
  if staticLeaseIp ≠ 0 then some (.fake staticLeaseIp)
  else (findLeaseByMac s.gLeases mac).map .entry

def handleRequest (w : World) (cfg : ServerConfig) (packet : DhcpPacket) (lease : Option LeasePtr) :
    StateM Server Unit := do
  let s ← get
  let requestedNip := (packet.getOption DHCP_REQUESTED_IP).map OptionAt.u32
  let serverIdNet := (packet.getOption DHCP_SERVER_ID).map OptionAt.u32
  match lease, serverIdNet, requestedNip with
  | some lease, some serverIdNet, requestedNip =>
    -- SELECTING
    if serverIdNet = cfg.serverNip ∧ requestedNip = some (lease.nip s) then
      discard <| sendAck w cfg packet (lease.nip s)
  | some lease, none, some requestedNip =>
    -- INIT-REBOOT
    if lease.nip s = requestedNip then discard <| sendAck w cfg packet (lease.nip s)
    else discard <| sendNak w cfg packet
  | some lease, none, none =>
    -- RENEWING or REBINDING
    if lease.nip s = packet.ciaddr then discard <| sendAck w cfg packet (lease.nip s)
    else discard <| sendNak w cfg packet
  | none, some _, _ => pure ()
  | none, none, some requestedNip =>
    match findLeaseByNip s.gLeases requestedNip with
    | some lease =>
      if ← isExpiredLease w lease then modify fun s => s.setLease lease fun l => { l with leaseMac := 0 }
      else discard <| sendNak w cfg packet
    | none =>
      let r := ntohl requestedNip
      if r < cfg.startIp ∨ cfg.endIp < r then discard <| sendNak w cfg packet
  | none, none, none => pure ()

/-- `udhcp_recv_kernel_packet`: `none` for bad magic. -/
def recvKernelPacket (packet : DhcpPacket) : Option DhcpPacket :=
  if packet.cookie ≠ ntohl DHCP_MAGIC then none
  else some <|
    match packet.getOption DHCP_VENDOR with
    | some vendor =>
      -- "MSFT 98"
      if packet.op = 1 ∧ vendor.len = 7 ∧
          vendor.data.take 7 = [0x4D, 0x53, 0x46, 0x54, 0x20, 0x39, 0x38] then
        { packet with flags := packet.flags ||| htons BROADCAST_FLAG }
      else packet
    | none => packet

/-- The `switch` of the main loop. -/
def handleMessage (w : World) (cfg : ServerConfig) (packet : DhcpPacket) (state : Byte) :
    StateM Server Unit := do
  let s ← get
  let lease := lookupLease cfg s packet.mac
  if state = DHCPDISCOVER then discard <| sendOffer w cfg packet
  else if state = DHCPREQUEST then handleRequest w cfg packet lease
  else if state = DHCPDECLINE then
    match lease with
    | some lease => do
      let now ← time w
      lease.store fun l => { l with leaseMac := 0, expires := leasetime (now + cfg.declineTime) }
    | none => pure ()
  else if state = DHCPRELEASE then
    match lease with
    | some lease => do
      let now ← time w
      lease.store fun l => { l with expires := leasetime now }
    | none => pure ()
  else if state = DHCPINFORM then discard <| sendInform w cfg packet
  else pure ()

def handlePacket (w : World) (cfg : ServerConfig) (packet : DhcpPacket) : StateM Server Unit := do
  modify fun s => { s with history := s.history ++ [.received packet] }
  match recvKernelPacket packet with
  | none => pure ()
  | some packet =>
    if packet.hlen ≠ 6 then pure ()
    else
      match packet.messageType with
      | none => pure ()
      | some state => handleMessage w cfg packet state

/-! ## Runs -/

/-- What the main loop waits for: a packet; the timeout or `SIGUSR1`; the end of the server, and
its next start. -/
inductive Input
  | packet (p : DhcpPacket)
  | writeLeases
  | restart

def start (w : World) (cfg : ServerConfig) : StateM Server Unit := do
  modify fun s => { s with gLeases := List.replicate cfg.slots 0 }
  readLeases w cfg

def handle (w : World) (cfg : ServerConfig) : Input → StateM Server Unit
  | .packet p => handlePacket w cfg p
  | .writeLeases => Udhcp.writeLeases w
  | .restart => do
    modify fun s => { s with history := s.history ++ [.restarted] }
    start w cfg

/-- Before the first start, without a lease file. -/
def Server.initial : Server := ⟨[], none, 0, 0, 0, []⟩

/-- The server that has been started and has handled `inputs`. -/
def serve (w : World) (cfg : ServerConfig) (inputs : List Input) : Server :=
  inputs.foldl (fun s i => ((handle w cfg i).run s).2) ((start w cfg).run .initial).2

end N32905.Udhcp
