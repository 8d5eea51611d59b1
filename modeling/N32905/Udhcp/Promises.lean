import N32905.Lib.Hoare
import N32905.Lib.Slots
import N32905.Udhcp.Replies

/-!
# What a client has been promised

A client counts on the address of the last offer or acknowledgement it was sent, until the lease
runs out or it sends a `DISCOVER`, `DECLINE` or `RELEASE`. The lease table stands for these
promises: each one that is still good has an entry of its own.
-/

namespace N32905.Udhcp

open N32905.Lib

/-! ## Promises -/

/-- An address until a time, as a lease if it has been acknowledged. -/
structure Promise where
  nip : BitVec 32
  until_ : Nat
  acked : Bool

/-- What an event makes of the promise that the client `mac` has. An offer is held for
`offer_time`, and a lease runs from the first clock reading behind the acknowledgement. -/
def note (w : World) (cfg : ServerConfig) (mac : Mac) (held : Option Promise) :
    Event → Option Promise
  | .received p =>
    if p.mac = mac ∧ (p.messageType = some DHCPDISCOVER ∨ p.messageType = some DHCPDECLINE ∨
      p.messageType = some DHCPRELEASE) then none else held
  | .sent p _ k =>
    if p.mac = mac then
      if p.messageType = some DHCPOFFER then
        some ⟨p.yiaddr, w.time (k - 1) + cfg.offerTime, false⟩
      else if p.messageType = some DHCPACK then
        match p.getOption DHCP_LEASE_TIME with
        | some o => some ⟨p.yiaddr, w.time k + (ntohl o.u32).toNat, true⟩
        | none => held
      else if p.messageType = some DHCPNAK then none
      else held
    else held
  | .restarted => held.filter Promise.acked

def Server.promised (w : World) (cfg : ServerConfig) (s : Server) (mac : Mac) : Option Promise :=
  s.history.foldl (note w cfg mac) none

/-- Some reading of the clock has reached `t`. -/
def Server.Past (w : World) (s : Server) (t : Nat) : Prop := ∃ k < s.readings, t ≤ w.time k

/-! ## What is assumed -/

/-- The clock does not go back, and it is between 1970 and 2038. -/
structure World.Regular (w : World) : Prop where
  mono : Monotone w.time
  pos : ∀ k, 0 < w.time k
  lt : ∀ k, w.time k < 2 ^ 31

/-- Lease times are signed numbers, and no two clients have the same static lease. -/
structure ServerConfig.Regular (cfg : ServerConfig) : Prop where
  maxLeaseSec : cfg.maxLeaseSec < 2 ^ 31
  minLeaseSec : cfg.minLeaseSec < 2 ^ 31
  offerTime : cfg.offerTime < 2 ^ 31
  declineTime : cfg.declineTime < 2 ^ 31
  conflictTime : cfg.conflictTime < 2 ^ 31
  statics : ∀ c d, staticNip cfg c = staticNip cfg d → staticNip cfg c ≠ 0 → c = d

def ServerConfig.InPool (cfg : ServerConfig) (nip : BitVec 32) : Prop :=
  cfg.startIp ≤ ntohl nip ∧ ntohl nip ≤ cfg.endIp

/-- A packet of a client that has a MAC address, and does not ask for an address of the pool that
is reserved for another client: `send_offer` would not notice. -/
structure Fair (cfg : ServerConfig) (p : DhcpPacket) : Prop where
  mac : p.mac ≠ 0
  requested : p.messageType = some DHCPDISCOVER → staticNip cfg p.mac = 0 →
    ∀ o, p.getOption DHCP_REQUESTED_IP = some o → cfg.InPool o.u32 →
      isNipReserved cfg.staticLeases o.u32 = false

/-! ## The table -/

/-- An address that the client `mac` may have. -/
structure MayHave (cfg : ServerConfig) (mac : Mac) (nip : BitVec 32) : Prop where
  ne : nip ≠ 0
  pool : staticNip cfg mac = 0 → cfg.InPool nip
  reserved : isNipReserved cfg.staticLeases nip = true → staticNip cfg mac = nip

structure TableOk (cfg : ServerConfig) (leases : List DynLease) : Prop where
  nips : Distinct DynLease.leaseNip 0 leases
  macs : Distinct DynLease.leaseMac 0 leases
  owned : ∀ l ∈ leases, l.leaseMac ≠ 0 → MayHave cfg l.leaseMac l.leaseNip

/-- An entry for the address, at least until `t`. -/
def Covers (leases : List DynLease) (mac : Mac) (nip : BitVec 32) (t : Nat) : Prop :=
  ∃ l ∈ leases, l.leaseMac = mac ∧ l.leaseNip = nip ∧ t ≤ l.expires

/-- The table stands for the promises, but for those to the clients `ex`. -/
structure TableInv (w : World) (cfg : ServerConfig) (ex : Mac → Prop) (s : Server) : Prop where
  ok : TableOk cfg s.gLeases
  length : s.gLeases.length = cfg.slots
  bounded : ∀ l ∈ s.gLeases, ∀ k, s.readings ≤ k → l.expires < w.time k + 2 ^ 31
  clients : ∀ c p, s.promised w cfg c = some p → c ≠ 0
  statics : ∀ c p, s.promised w cfg c = some p → staticNip cfg c ≠ 0 → p.nip = staticNip cfg c
  covers : ∀ c p, ¬ ex c → s.promised w cfg c = some p → staticNip cfg c = 0 →
    ¬ s.Past w p.until_ → Covers s.gLeases c p.nip p.until_

/-- **The file is read back** as it was written, if the times are of their types. -/
theorem LeaseFile.ofBytes_bytes {f : LeaseFile} (hwritten : f.writtenAt < 2 ^ 64)
    (hexpires : ∀ l ∈ f.leases, l.expires < 2 ^ 32) : LeaseFile.ofBytes f.bytes = some f := by
  have hwlen : ((Codec.word 8).enc (ntoh64 (BitVec.ofNat 64 f.writtenAt))).length = 8 :=
    (Codec.word 8).length_enc _
  have hflat : f.leases.flatMap DynLease.bytes = (f.leases.map fun l =>
      (BitVec.ofNat 32 l.expires, l.leaseNip, l.leaseMac, l.hostname,
        (0 : List.Vector Byte 2))).flatMap leaseCodec.enc := by
    rw [List.flatMap_map]
    rfl
  have hflen : (f.leases.flatMap DynLease.bytes).length = leaseCodec.size * f.leases.length := by
    rw [hflat, Codec.length_flatMap_enc, List.length_map]
  have hcount : (f.bytes.length - 8) / leaseCodec.size = f.leases.length := by
    rw [LeaseFile.bytes, List.length_append, hwlen, hflen, Nat.add_sub_cancel_left]
    exact Nat.mul_div_cancel_left _ (by decide)
  have hdec := leaseCodec.decList_enc (f.leases.map fun l => (BitVec.ofNat 32 l.expires, l.leaseNip,
    l.leaseMac, l.hostname, (0 : List.Vector Byte 2))) []
  rw [List.length_map, List.append_nil, ← hflat] at hdec
  have hleases : (leaseCodec.decList ((f.bytes.length - 8) / leaseCodec.size)
      (f.bytes.drop 8)).map (fun r => ({
        expires := r.1.toNat, leaseNip := r.2.1, leaseMac := r.2.2.1, hostname := r.2.2.2.1 } :
        DynLease)) = f.leases := by
    rw [hcount, LeaseFile.bytes, List.drop_left' hwlen, hdec, List.map_map]
    refine (List.map_congr_left fun l hl => ?_).trans (List.map_id _)
    have hnat : (BitVec.ofNat 32 l.expires).toNat = l.expires :=
      Nat.mod_eq_of_lt (hexpires l hl)
    simp only [Function.comp_apply, hnat, id]
  have htime : (ntoh64 ((Codec.word 8).dec f.bytes)).toNat = f.writtenAt := by
    rw [LeaseFile.bytes, Codec.dec_enc, ntoh64_ntoh64, BitVec.toNat_ofNat]
    exact Nat.mod_eq_of_lt hwritten
  have hlong : ¬ f.bytes.length < 8 := by
    rw [LeaseFile.bytes, List.length_append, hwlen]
    omega
  rw [LeaseFile.ofBytes, if_neg hlong, htime, hleases]

/-- The lease file stands for the leases, but for those of the clients `ex`. -/
structure FileInv (w : World) (cfg : ServerConfig) (ex : Mac → Prop) (s : Server) : Prop where
  ok : ∀ f, s.file = some f → TableOk cfg f.leases
  length : ∀ f, s.file = some f → f.leases.length ≤ cfg.slots
  used : ∀ f, s.file = some f → ∀ l ∈ f.leases, l.leaseNip ≠ 0 ∧ l.expires < 2 ^ 31
  written : ∀ f, s.file = some f → ∀ k, s.readings ≤ k → f.writtenAt ≤ w.time k
  covers : ∀ c p, ¬ ex c → s.promised w cfg c = some p → p.acked = true → staticNip cfg c = 0 →
    ¬ s.Past w p.until_ → ∃ f, s.file = some f ∧
      ∃ l ∈ f.leases, l.leaseMac = c ∧ l.leaseNip = p.nip ∧ p.until_ ≤ f.writtenAt + l.expires

structure Inv (w : World) (cfg : ServerConfig) (s : Server) : Prop where
  table : TableInv w cfg (fun _ => False) s
  file : cfg.writeLeasesEarly = true → FileInv w cfg (fun _ => False) s

section Table
variable {cfg : ServerConfig} {leases : List DynLease} {l : DynLease} {i : Nat} {mac : Mac}
  {nip : BitVec 32} {chaddr : List.Vector Byte 16} {now : Nat}

/-! ### Searching -/

theorem findLeaseByMac_eq_some (h : findLeaseByMac leases mac = some i) :
    ∃ l, leases[i]? = some l ∧ l.leaseMac = mac := by
  obtain ⟨hi, hl, -⟩ := List.findIdx?_eq_some_iff_getElem.1 h
  exact ⟨_, List.getElem?_eq_getElem hi, of_decide_eq_true hl⟩

theorem findLeaseByNip_eq_some (h : findLeaseByNip leases nip = some i) :
    ∃ l, leases[i]? = some l ∧ l.leaseNip = nip := by
  obtain ⟨hi, hl, -⟩ := List.findIdx?_eq_some_iff_getElem.1 h
  exact ⟨_, List.getElem?_eq_getElem hi, of_decide_eq_true hl⟩

theorem findLeaseByNip_eq_none (h : findLeaseByNip leases nip = none) (hl : l ∈ leases) :
    l.leaseNip ≠ nip := by
  have := List.findIdx?_eq_none_iff.1 h l hl
  simpa using this

theorem Server.lease_eq {s : Server} (h : s.gLeases[i]? = some l) : s.lease i = l := by
  rw [Server.lease, List.getD_eq_getElem?_getD, h]
  rfl

theorem oldestExpired_loop (leases : List DynLease) (n : Nat) (acc : Nat × Option Nat)
    (P : Nat → Prop) (hacc : ∀ j, acc.2 = some j → P j) (hle : acc.1 ≤ now)
    (hP : ∀ i l, leases[i]? = some l → l.expires < now → P (n + i)) :
    let r := (leases.zipIdx n).foldl (fun (acc : Nat × Option Nat) p =>
      if p.1.expires < acc.1 then (p.1.expires, some p.2) else acc) acc
    (∀ j, r.2 = some j → P j) ∧ (r.2 = none → acc.2 = none ∧ ∀ l ∈ leases, acc.1 ≤ l.expires) := by
  induction leases generalizing n acc with
  | nil => exact ⟨hacc, fun h => ⟨h, by simp⟩⟩
  | cons l leases ih =>
    rw [List.zipIdx_cons, List.foldl_cons]
    have hrest : ∀ i l', leases[i]? = some l' → l'.expires < now → P (n + 1 + i) := by
      intro i l' hl' hlt
      have := hP (i + 1) l' hl' hlt
      rwa [show n + 1 + i = n + (i + 1) by omega]
    split
    · rename_i hlt
      have hhere : P n := hP 0 l rfl (Nat.lt_of_lt_of_le hlt hle)
      obtain ⟨hsome, hnone⟩ := ih (n + 1) (l.expires, some n) (fun j hj => by cases hj; exact hhere)
        (Nat.le_of_lt (Nat.lt_of_lt_of_le hlt hle)) hrest
      exact ⟨hsome, fun h => nomatch (hnone h).1⟩
    · rename_i hge
      obtain ⟨hsome, hnone⟩ := ih (n + 1) acc hacc hle hrest
      exact ⟨hsome, fun h => ⟨(hnone h).1, List.forall_mem_cons.2 ⟨Nat.not_lt.1 hge, (hnone h).2⟩⟩⟩

theorem oldestExpired_eq_some (h : oldestExpired now leases = some i) :
    ∃ l, leases[i]? = some l ∧ l.expires < now :=
  (oldestExpired_loop leases 0 (now, none) (fun i => ∃ l, leases[i]? = some l ∧ l.expires < now)
    (fun _ h => nomatch h) (Nat.le_refl _)
    (fun i l hl hlt => ⟨l, by rwa [Nat.zero_add], hlt⟩)).1 i h

theorem oldestExpired_eq_none (h : oldestExpired now leases = none) (hl : l ∈ leases) :
    now ≤ l.expires :=
  ((oldestExpired_loop leases 0 (now, none) (fun _ => True) (fun _ _ => trivial) (Nat.le_refl _)
    (fun _ _ _ _ => trivial)).2 h).2 l hl

/-! ### Clearing and adding -/

theorem any_ne_zero_of_macOf (h : macOf chaddr ≠ 0) :
    (chaddr.toList.any fun b => b ≠ 0) = true := by
  by_contra hall
  have hzero : ∀ b ∈ chaddr.toList.take 6, b = 0 := fun b hb => by
    by_contra hne
    exact hall (List.any_eq_true.2 ⟨b, List.mem_of_mem_take hb, decide_eq_true hne⟩)
  have hlen : (chaddr.toList.take 6).length = 6 := by
    rw [List.length_take, chaddr.toList_length]
    rfl
  apply h
  apply List.Vector.eq
  exact List.eq_replicate_iff.2 ⟨hlen, hzero⟩

theorem mem_clearLease (h : l ∈ clearLease chaddr nip leases) : l = 0 ∨ l ∈ leases ∧
    (macOf chaddr ≠ 0 → l.leaseMac ≠ macOf chaddr) ∧ (nip ≠ 0 → l.leaseNip ≠ nip) := by
  obtain ⟨a, ha, rfl⟩ := List.mem_map.1 h
  split
  · exact .inl rfl
  · rename_i hkeep
    rw [not_or, not_and, not_and] at hkeep
    exact .inr ⟨ha, fun hmac => hkeep.1 (any_ne_zero_of_macOf hmac), hkeep.2⟩

theorem mem_clearLease_of_ne (h : l ∈ leases) (hmac : l.leaseMac ≠ macOf chaddr)
    (hnip : l.leaseNip ≠ nip) : l ∈ clearLease chaddr nip leases :=
  List.mem_map.2 ⟨l, h, if_neg (by rintro (⟨-, h⟩ | ⟨-, h⟩) <;> contradiction)⟩

theorem TableOk.map (h : TableOk cfg leases) {f : DynLease → DynLease}
    (hf : ∀ l, ((f l).leaseNip = l.leaseNip ∧ (f l).leaseMac = l.leaseMac) ∨
      ((f l).leaseNip = 0 ∧ (f l).leaseMac = 0)) : TableOk cfg (leases.map f) where
  nips := h.nips.map fun l _ => (hf l).imp (fun h => h.1) fun h => h.1
  macs := h.macs.map fun l _ => (hf l).imp (fun h => h.2) fun h => h.2
  owned l hl hmac := by
    obtain ⟨l, hmem, rfl⟩ := List.mem_map.1 hl
    rcases hf l with ⟨hn, hm⟩ | ⟨-, hm⟩
    · rw [hm] at hmac ⊢
      rw [hn]
      exact h.owned l hmem hmac
    · exact absurd hm hmac

theorem TableOk.clearLease (h : TableOk cfg leases) (chaddr : List.Vector Byte 16)
    (nip : BitVec 32) : TableOk cfg (clearLease chaddr nip leases) :=
  h.map fun l => by
    split
    · exact .inr ⟨rfl, rfl⟩
    · exact .inl ⟨rfl, rfl⟩

theorem tableOk_replicate (n : Nat) : TableOk cfg (List.replicate n 0) where
  nips := distinct_replicate rfl
  macs := distinct_replicate rfl
  owned l hl hmac := by
    rw [List.eq_of_mem_replicate hl] at hmac
    exact absurd rfl hmac

theorem TableOk.add (h : TableOk cfg leases) (hmay : macOf chaddr ≠ 0 → MayHave cfg (macOf chaddr) nip)
    {f : DynLease → DynLease} (hf : ∀ l, (f l).leaseNip = nip ∧ (f l).leaseMac = macOf chaddr) :
    TableOk cfg ((Udhcp.clearLease chaddr nip leases).modify i f) where
  nips := (h.clearLease chaddr nip).nips.modify fun l _ => by
    rw [(hf l).1]
    by_cases hnip : nip = 0
    · exact .inl hnip
    · refine .inr fun j b hb _ heq => ?_
      rcases mem_clearLease (List.mem_of_getElem? hb) with rfl | ⟨-, -, hne⟩
      · exact hnip heq.symm
      · exact hne hnip heq
  macs := (h.clearLease chaddr nip).macs.modify fun l _ => by
    rw [(hf l).2]
    by_cases hmac : macOf chaddr = 0
    · exact .inl hmac
    · refine .inr fun j b hb _ heq => ?_
      rcases mem_clearLease (List.mem_of_getElem? hb) with rfl | ⟨-, hne, -⟩
      · exact hmac heq.symm
      · exact hne hmac heq
  owned l hl hmac := by
    rcases mem_modify hl with hl | ⟨a, -, rfl⟩
    · exact (h.clearLease chaddr nip).owned l hl hmac
    · rw [(hf a).2] at hmac ⊢
      rw [(hf a).1]
      exact hmay hmac

theorem TableOk.modify (h : TableOk cfg leases) {f : DynLease → DynLease}
    (hnip : ∀ l, (f l).leaseNip = l.leaseNip)
    (hmac : ∀ l, (f l).leaseMac = l.leaseMac ∨ (f l).leaseMac = 0) :
    TableOk cfg (leases.modify i f) where
  nips := h.nips.modify fun l hl => by
    rw [hnip l]
    by_cases hzero : l.leaseNip = 0
    · exact .inl hzero
    · exact .inr fun j b hb hne heq => hne (h.nips.eq_of_key_eq hl hb heq.symm hzero).symm
  macs := h.macs.modify fun l hl => by
    rcases hmac l with hsame | hzero
    · rw [hsame]
      by_cases hzero : l.leaseMac = 0
      · exact .inl hzero
      · exact .inr fun j b hb hne heq => hne (h.macs.eq_of_key_eq hl hb heq.symm hzero).symm
    · exact .inl hzero
  owned l hl hne := by
    rcases mem_modify hl with hl | ⟨a, ha, rfl⟩
    · exact h.owned l hl hne
    · rw [hnip a]
      rcases hmac a with hsame | hzero
      · rw [hsame] at hne ⊢
        exact h.owned a (List.mem_of_getElem? ha) hne
      · exact absurd hzero hne

end Table

/-! ## What the calls do -/

section Calls
variable {w : World} {cfg : ServerConfig} {ex ex' : Mac → Prop} {s s' : Server} {mac : Mac}
  {chaddr : List.Vector Byte 16} {nip : BitVec 32} {leaseTime : Nat} {hostname : Option (List Byte)}
  {hostnameLen : Nat} {t : Nat}

theorem Server.Past.mono (h : s.Past w t) (hle : s.readings ≤ s'.readings) : s'.Past w t := by
  obtain ⟨k, hk, ht⟩ := h
  exact ⟨k, Nat.lt_of_lt_of_le hk hle, ht⟩

theorem Server.Past.of_le {t' : Nat} (h : s.Past w t) (hle : t' ≤ t) : s.Past w t' := by
  obtain ⟨k, hk, ht⟩ := h
  exact ⟨k, hk, Nat.le_trans hle ht⟩

theorem leasetime_time (hw : w.Regular) (k : Nat) : leasetime (w.time k) = w.time k :=
  Nat.mod_eq_of_lt (Nat.lt_trans (hw.lt k) (by decide))

theorem leasetime_time_add (hw : w.Regular) (k : Nat) (hlt : leaseTime < 2 ^ 31) :
    leasetime (w.time k + leaseTime) = w.time k + leaseTime := by
  have := hw.lt k
  exact Nat.mod_eq_of_lt (by omega)

theorem run_sendPacket (w : World) (p : DhcpPacket) (force : Bool) (s : Server) :
    (sendPacket w p force).run s = (w.sent s.packets, { s with
      packets := s.packets + 1
      history := if w.sent s.packets then s.history ++ [.sent p (destination p force) s.readings]
        else s.history }) := rfl

/-- What `add_lease` can do: clear only, or take the place of an expired entry too. -/
theorem addLease_cases (w : World) (chaddr : List.Vector Byte 16) (nip : BitVec 32)
    (leaseTime : Nat) (hostname : Option (List Byte)) (hostnameLen : Nat) (s : Server) :
    ((addLease w chaddr nip leaseTime hostname hostnameLen).run s = (none, { s with
        gLeases := clearLease chaddr nip s.gLeases
        readings := s.readings + 1 }) ∧
      ∀ l ∈ clearLease chaddr nip s.gLeases, leasetime (w.time s.readings) ≤ l.expires) ∨
    ∃ i l, (clearLease chaddr nip s.gLeases)[i]? = some l ∧
      l.expires < leasetime (w.time s.readings) ∧
      (addLease w chaddr nip leaseTime hostname hostnameLen).run s = (some i, { s with
        gLeases := (clearLease chaddr nip s.gLeases).modify i fun l =>
          { expires := leasetime (w.time (s.readings + 1) + leaseTime)
            leaseNip := nip
            leaseMac := macOf chaddr
            hostname := setHostname l.hostname hostname hostnameLen }
        readings := s.readings + 2 }) := by
  cases h : oldestExpired (leasetime (w.time s.readings)) (clearLease chaddr nip s.gLeases) with
  | none =>
    refine .inl ⟨?_, fun l hl => oldestExpired_eq_none h hl⟩
    simp [addLease, oldestExpiredLease, time, h]
    rfl
  | some i =>
    obtain ⟨l, hl, hlt⟩ := oldestExpired_eq_some h
    refine .inr ⟨i, l, hl, hlt, ?_⟩
    simp [addLease, oldestExpiredLease, time, h, Server.setLease]
    rfl

/-- Nobody else counts on the address: its entry is the client's, or nobody's, or has expired. -/
def Claimable (w : World) (s : Server) (mac : Mac) (nip : BitVec 32) : Prop :=
  ∀ l ∈ s.gLeases, l.leaseNip = nip → l.leaseMac = mac ∨ l.leaseMac = 0 ∨ s.Past w l.expires

theorem TableInv.weaken (h : TableInv w cfg ex s) (hex : ∀ c, ex c → ex' c) :
    TableInv w cfg ex' s :=
  { h with covers := fun c p hc => h.covers c p fun hc' => hc (hex c hc') }

/-- A table of the same clients and addresses, less entries that do not count any more. -/
theorem TableInv.step (h : TableInv w cfg ex s) (hhist : s'.history = s.history)
    (hread : s.readings ≤ s'.readings) (hok : TableOk cfg s'.gLeases)
    (hlength : s'.gLeases.length = s.gLeases.length)
    (hnew : ∀ l ∈ s'.gLeases, l ∈ s.gLeases ∨ ∀ k, s'.readings ≤ k → l.expires < w.time k + 2 ^ 31)
    (hkept : ∀ l ∈ s.gLeases, l.leaseMac ≠ 0 → ¬ ex' l.leaseMac → ¬ s'.Past w l.expires →
      Covers s'.gLeases l.leaseMac l.leaseNip l.expires)
    (hex : ∀ c, ex c → ex' c) : TableInv w cfg ex' s' := by
  have hsame : ∀ c, s'.promised w cfg c = s.promised w cfg c := fun c => by
    rw [Server.promised, hhist]
    rfl
  refine ⟨hok, by rw [hlength, h.length], fun l hl k hk => ?_, fun c p hp => ?_, fun c p hp => ?_,
    fun c p hc hp hstatic hlive => ?_⟩
  · rcases hnew l hl with hl | hl
    · exact h.bounded l hl k (Nat.le_trans hread hk)
    · exact hl k hk
  · rw [hsame] at hp
    exact h.clients c p hp
  · rw [hsame] at hp
    exact h.statics c p hp
  · rw [hsame] at hp
    obtain ⟨l, hl, rfl, hnip, hle⟩ := h.covers c p (fun hc' => hc (hex c hc')) hp hstatic
      fun hpast => hlive (hpast.mono hread)
    obtain ⟨l', hl', hmac', hnip', hle'⟩ := hkept l hl (h.clients _ p hp) hc
      fun hpast => hlive (hpast.of_le hle)
    exact ⟨l', hl', hmac', hnip'.trans hnip, Nat.le_trans hle hle'⟩

theorem TableInv.tick (h : TableInv w cfg ex s) :
    TableInv w cfg ex { s with readings := s.readings + 1 } :=
  h.step rfl (Nat.le_succ _) h.ok rfl (fun _ hl => .inl hl)
    (fun l hl _ _ _ => ⟨l, hl, rfl, rfl, Nat.le_refl _⟩) fun _ hc => hc

/-- An entry of another client, for another address, that has not expired. -/
theorem mem_addLease (hw : w.Regular) {l : DynLease} (hl : l ∈ s.gLeases)
    (hmac : l.leaseMac ≠ macOf chaddr) (hnip : l.leaseNip ≠ nip)
    (hlive : ¬ ((addLease w chaddr nip leaseTime hostname hostnameLen).run s).2.Past w l.expires) :
    l ∈ ((addLease w chaddr nip leaseTime hostname hostnameLen).run s).2.gLeases := by
  have hclear := mem_clearLease_of_ne hl hmac hnip
  rcases addLease_cases w chaddr nip leaseTime hostname hostnameLen s with
    ⟨hrun, -⟩ | ⟨i, l', hl', hexp, hrun⟩
  · rw [hrun]
    exact hclear
  · rw [hrun] at hlive ⊢
    refine mem_modify_of_ne hclear fun heq => hlive ?_
    rw [hl'] at heq
    cases heq
    rw [leasetime_time hw] at hexp
    exact ⟨s.readings, Nat.lt_add_of_pos_right (by decide), Nat.le_of_lt hexp⟩

theorem mem_of_mem_addLease {l : DynLease}
    (hl : l ∈ ((addLease w chaddr nip leaseTime hostname hostnameLen).run s).2.gLeases) :
    l = 0 ∨ l ∈ s.gLeases ∨
      l.leaseNip = nip ∧ l.leaseMac = macOf chaddr ∧
        l.expires = leasetime (w.time (((addLease w chaddr nip leaseTime hostname
          hostnameLen).run s).2.readings - 1) + leaseTime) := by
  rcases addLease_cases w chaddr nip leaseTime hostname hostnameLen s with
    ⟨hrun, -⟩ | ⟨i, l', -, -, hrun⟩
  · rw [hrun] at hl
    exact (mem_clearLease hl).imp_right fun h => .inl h.1
  · rw [hrun] at hl ⊢
    rcases mem_modify hl with hl | ⟨a, -, rfl⟩
    · exact (mem_clearLease hl).imp_right fun h => .inl h.1
    · exact .inr (.inr ⟨rfl, rfl, rfl⟩)

theorem tableOk_addLease (w : World) (leaseTime : Nat) (hostname : Option (List Byte))
    (hostnameLen : Nat) (h : TableOk cfg s.gLeases)
    (hmay : macOf chaddr ≠ 0 → MayHave cfg (macOf chaddr) nip) :
    TableOk cfg ((addLease w chaddr nip leaseTime hostname hostnameLen).run s).2.gLeases ∧
      ((addLease w chaddr nip leaseTime hostname hostnameLen).run s).2.gLeases.length =
        s.gLeases.length := by
  rcases addLease_cases w chaddr nip leaseTime hostname hostnameLen s with
    ⟨hrun, -⟩ | ⟨i, l', -, -, hrun⟩
  · rw [hrun]
    exact ⟨h.clearLease chaddr nip, List.length_map _⟩
  · rw [hrun]
    exact ⟨h.add hmay fun _ => ⟨rfl, rfl⟩, (List.length_modify _ _ _).trans (List.length_map _)⟩

theorem readings_addLease (w : World) (chaddr : List.Vector Byte 16) (nip : BitVec 32)
    (leaseTime : Nat) (hostname : Option (List Byte)) (hostnameLen : Nat) (s : Server) :
    s.readings < ((addLease w chaddr nip leaseTime hostname hostnameLen).run s).2.readings := by
  rcases addLease_cases w chaddr nip leaseTime hostname hostnameLen s with
    ⟨hrun, -⟩ | ⟨i, l', -, -, hrun⟩
  · rw [hrun]
    exact Nat.lt_succ_self _
  · rw [hrun]
    exact Nat.lt_add_of_pos_right (by decide)

theorem history_addLease (w : World) (chaddr : List.Vector Byte 16) (nip : BitVec 32)
    (leaseTime : Nat) (hostname : Option (List Byte)) (hostnameLen : Nat) (s : Server) :
    ((addLease w chaddr nip leaseTime hostname hostnameLen).run s).2.history = s.history ∧
      ((addLease w chaddr nip leaseTime hostname hostnameLen).run s).2.leaseFile = s.leaseFile := by
  rcases addLease_cases w chaddr nip leaseTime hostname hostnameLen s with
    ⟨hrun, -⟩ | ⟨i, l', -, -, hrun⟩
  · rw [hrun]
    exact ⟨rfl, rfl⟩
  · rw [hrun]
    exact ⟨rfl, rfl⟩

/-- **`add_lease`** takes nothing from the other clients. -/
theorem TableInv.addLease (hw : w.Regular) (h : TableInv w cfg ex s)
    (chaddr : List.Vector Byte 16) (hostname : Option (List Byte)) (hostnameLen : Nat)
    (hmay : macOf chaddr ≠ 0 → MayHave cfg (macOf chaddr) nip)
    (hclaim : Claimable w s (macOf chaddr) nip) (hlt : leaseTime < 2 ^ 31) :
    TableInv w cfg (fun c => ex c ∨ c = macOf chaddr)
      ((addLease w chaddr nip leaseTime hostname hostnameLen).run s).2 := by
  have hread := readings_addLease w chaddr nip leaseTime hostname hostnameLen s
  obtain ⟨hok, hlength⟩ := tableOk_addLease w leaseTime hostname hostnameLen h.ok hmay
  refine h.step (history_addLease ..).1 (Nat.le_of_lt hread) hok hlength ?_ ?_ fun c hc => .inl hc
  · intro l hl
    rcases mem_of_mem_addLease hl with rfl | hl | ⟨-, -, hexp⟩
    · exact .inr fun k _ => Nat.lt_of_lt_of_le (hw.pos k) (Nat.le_add_right _ _)
    · exact .inl hl
    · refine .inr fun k hk => ?_
      have hmono := hw.mono (Nat.le_trans (Nat.sub_le _ 1) hk)
      rw [hexp, leasetime_time_add hw _ hlt]
      omega
  · intro l hl hzero hex hlive
    have hmac : l.leaseMac ≠ macOf chaddr := fun hmac => hex (.inr hmac)
    refine ⟨l, mem_addLease hw hl hmac (fun hnip => ?_) hlive, rfl, rfl, Nat.le_refl _⟩
    rcases hclaim l hl hnip with h' | h' | h'
    · exact hmac h'
    · exact hzero h'
    · exact hlive (h'.mono (Nat.le_of_lt hread))

structure Later (s s' : Server) : Prop where
  history : s'.history = s.history
  leaseFile : s'.leaseFile = s.leaseFile
  readings : s.readings ≤ s'.readings

theorem Later.refl (s : Server) : Later s s := ⟨rfl, rfl, Nat.le_refl _⟩

theorem Later.trans {s'' : Server} (h : Later s s') (h' : Later s' s'') : Later s s'' :=
  ⟨h'.history.trans h.history, h'.leaseFile.trans h.leaseFile,
    Nat.le_trans h.readings h'.readings⟩

theorem Later.promised_eq (h : Later s s') (c : Mac) :
    s'.promised w cfg c = s.promised w cfg c := by
  rw [Server.promised, h.history]
  rfl

theorem Later.file_eq (h : Later s s') : s'.file = s.file := by
  rw [Server.file, h.leaseFile]
  rfl

theorem FileInv.later (h : FileInv w cfg ex s) (hl : Later s s') : FileInv w cfg ex s' := by
  refine ⟨fun f hf => ?_, fun f hf => ?_, fun f hf => ?_, fun f hf k hk => ?_,
    fun c p hc hp hacked hstatic hlive => ?_⟩
  · exact h.ok f (hl.file_eq ▸ hf)
  · exact h.length f (hl.file_eq ▸ hf)
  · exact h.used f (hl.file_eq ▸ hf)
  · exact h.written f (hl.file_eq ▸ hf) k (Nat.le_trans hl.readings hk)
  · rw [hl.promised_eq] at hp
    rw [hl.file_eq]
    exact h.covers c p hc hp hacked hstatic fun hpast => hlive (hpast.mono hl.readings)

theorem later_addLease (w : World) (chaddr : List.Vector Byte 16) (nip : BitVec 32)
    (leaseTime : Nat) (hostname : Option (List Byte)) (hostnameLen : Nat) (s : Server) :
    Later s ((addLease w chaddr nip leaseTime hostname hostnameLen).run s).2 :=
  ⟨(history_addLease ..).1, (history_addLease ..).2, Nat.le_of_lt (readings_addLease ..)⟩

theorem addLease_covers (hw : w.Regular) (hlt : leaseTime < 2 ^ 31)
    (h : ((addLease w chaddr nip leaseTime hostname hostnameLen).run s).1 ≠ none) :
    let s' := ((addLease w chaddr nip leaseTime hostname hostnameLen).run s).2
    s.readings < s'.readings - 1 ∧
      Covers s'.gLeases (macOf chaddr) nip (w.time (s'.readings - 1) + leaseTime) := by
  rcases addLease_cases w chaddr nip leaseTime hostname hostnameLen s with
    ⟨hrun, -⟩ | ⟨i, l, hl, -, hrun⟩
  · rw [hrun] at h
    exact absurd rfl h
  · rw [hrun]
    refine ⟨Nat.lt_succ_self _, _, mem_modify_self hl, rfl, rfl, ?_⟩
    exact Nat.le_of_eq (leasetime_time_add hw _ hlt).symm

theorem addLease_ne_none {l : DynLease} (hw : w.Regular) (hl : l ∈ s.gLeases)
    (hmac : l.leaseMac = macOf chaddr) (hzero : macOf chaddr ≠ 0) :
    ((addLease w chaddr nip leaseTime hostname hostnameLen).run s).1 ≠ none := by
  rcases addLease_cases w chaddr nip leaseTime hostname hostnameLen s with
    ⟨hrun, hfull⟩ | ⟨i, l, -, -, hrun⟩
  · have hblank : (0 : DynLease) ∈ clearLease chaddr nip s.gLeases :=
      List.mem_map.2 ⟨l, hl, if_pos (.inl ⟨any_ne_zero_of_macOf hzero, hmac⟩)⟩
    have hle : leasetime (w.time s.readings) ≤ 0 := hfull 0 hblank
    rw [leasetime_time hw] at hle
    exact absurd (hw.pos s.readings) (Nat.not_lt.2 hle)
  · rw [hrun]
    exact Option.some_ne_none i

/-! ### Searching for an address -/

structure Spare (cfg : ServerConfig) (nip : BitVec 32) : Prop where
  ne : nip ≠ 0
  pool : cfg.InPool nip
  unreserved : isNipReserved cfg.staticLeases nip = false

theorem Spare.mayHave (h : Spare cfg nip) (mac : Mac) : MayHave cfg mac nip :=
  ⟨h.ne, fun _ => h.pool, fun hr => nomatch h.unreserved.symm.trans hr⟩

theorem clearLease_zero {leases : List DynLease} (h : ∀ l ∈ leases, l.leaseNip ≠ nip) :
    clearLease 0 nip leases = leases := by
  refine (List.map_congr_left fun l hl => if_neg ?_).trans (List.map_id leases)
  rintro (⟨hany, -⟩ | ⟨-, heq⟩)
  · obtain ⟨b, hb, hne⟩ := List.any_eq_true.1 hany
    exact of_decide_eq_true hne (List.eq_of_mem_replicate hb)
  · exact h l hl heq

/-- A reservation for an address that is not in the table leaves the other addresses. -/
theorem leaseNip_addLease_zero (h : ∀ l ∈ s.gLeases, l.leaseNip ≠ nip) (i : Nat)
    (hi : i < s.gLeases.length) :
    let s' := ((addLease w 0 nip leaseTime none 0).run s).2
    (s'.lease i).leaseNip = (s.lease i).leaseNip ∨ (s'.lease i).leaseNip = nip := by
  rcases addLease_cases w 0 nip leaseTime none 0 s with ⟨hrun, -⟩ | ⟨j, l, -, -, hrun⟩
  · rw [hrun, clearLease_zero h]
    exact .inl rfl
  · rw [hrun, clearLease_zero h]
    have hget := List.getElem?_eq_getElem hi
    by_cases hij : j = i
    · refine .inr ?_
      rw [Server.lease_eq (getElem?_modify_eq_some.2 ⟨_, hget, if_pos hij⟩)]
    · refine .inl ?_
      rw [Server.lease_eq (getElem?_modify_eq_some.2 ⟨_, hget, if_neg hij⟩), Server.lease_eq hget]

theorem macOf_zero : macOf 0 = 0 := rfl

theorem TableInv.of_zero (h : TableInv w cfg (fun c => ex c ∨ c = 0) s) : TableInv w cfg ex s :=
  { h with covers := fun c p hc hp => h.covers c p (by
      rintro (h' | h')
      · exact hc h'
      · exact h.clients c p hp h') hp }

theorem TableInv.probe (h : TableInv w cfg ex s) (n : Nat) :
    TableInv w cfg ex { s with probes := n } :=
  h.step rfl (Nat.le_refl _) h.ok rfl (fun _ hl => .inl hl)
    (fun l hl _ _ _ => ⟨l, hl, rfl, rfl, Nat.le_refl _⟩) fun _ hc => hc

theorem TableInv.reserve (hw : w.Regular) (hcfg : cfg.Regular) (h : TableInv w cfg ex s)
    (hclaim : ∀ l ∈ s.gLeases, l.leaseNip = nip → s.Past w l.expires) :
    TableInv w cfg ex ((Udhcp.addLease w 0 nip cfg.conflictTime none 0).run s).2 := by
  have hadd := TableInv.addLease hw h 0 none 0
    (fun hne => absurd macOf_zero hne) (fun l hl hnip => .inr (.inr (hclaim l hl hnip)))
    hcfg.conflictTime
  rw [macOf_zero] at hadd
  exact hadd.of_zero

theorem triple_isExpiredLease (hw : w.Regular) (s₀ : Server) (i : Nat) (hs₀ : TableInv w cfg ex s₀) :
    Triple (· = s₀) (isExpiredLease w i) fun b s => TableInv w cfg ex s ∧ Later s₀ s ∧
      s.gLeases = s₀.gLeases ∧ (b = true → s.Past w (s.lease i).expires) := by
  rintro s rfl
  refine ⟨hs₀.tick, ⟨rfl, rfl, Nat.le_succ _⟩, rfl, fun h => ?_⟩
  have hlt : (s.lease i).expires < leasetime (w.time s.readings) := of_decide_eq_true h
  rw [leasetime_time hw] at hlt
  exact ⟨s.readings, Nat.lt_succ_self _, Nat.le_of_lt hlt⟩

end Calls

end N32905.Udhcp
