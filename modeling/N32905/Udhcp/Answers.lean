import N32905.Udhcp.Restart

/-!
# What is answered

An address a client counts on is one it may have, and the server stands by it: a `REQUEST` for it
is acknowledged, and a new `DISCOVER` is offered it again.
-/

namespace N32905.Udhcp

open N32905.Lib

/-- A packet that `udhcpd` does not drop. -/
structure WellFormed (p : DhcpPacket) (type : Byte) : Prop where
  cookie : p.cookie = ntohl DHCP_MAGIC
  hlen : p.hlen = 6
  type : p.messageType = some type

/-- The reply `q` to `p`, with the address `nip`. -/
structure Grants (cfg : ServerConfig) (p q : DhcpPacket) (type : Byte) (nip : BitVec 32)
    (leaseTimeSec : Nat) : Prop where
  xid : q.xid = p.xid
  chaddr : q.chaddr = p.chaddr
  yiaddr : q.yiaddr = nip
  reply : Says cfg q type (some leaseTimeSec)

section Answers
variable {w : World} {cfg : ServerConfig} {inputs : List Input} {s : Server} {mac : Mac}
  {nip : BitVec 32} {p p' : DhcpPacket} {type : Byte} {ex : Mac → Prop}

/-! ## Packets -/

structure SameRequest (p p' : DhcpPacket) : Prop where
  xid : p'.xid = p.xid
  chaddr : p'.chaddr = p.chaddr
  ciaddr : p'.ciaddr = p.ciaddr
  getOption : ∀ code, p'.getOption code = p.getOption code

theorem SameRequest.mac_eq (h : SameRequest p p') : p'.mac = p.mac := congrArg macOf h.chaddr

theorem SameRequest.selectLeaseTime (h : SameRequest p p') :
    Udhcp.selectLeaseTime cfg p' = Udhcp.selectLeaseTime cfg p := by
  rw [Udhcp.selectLeaseTime, h.getOption]
  rfl

theorem WellFormed.recvKernelPacket (h : WellFormed p type) :
    ∃ p', Udhcp.recvKernelPacket p = some p' ∧ p'.hlen = 6 ∧ SameRequest p p' := by
  cases hrecv : Udhcp.recvKernelPacket p with
  | none =>
    rw [Udhcp.recvKernelPacket, if_neg (not_not.2 h.cookie)] at hrecv
    cases hrecv
  | some p' =>
    have hopt := (recvKernelPacket_eq_some hrecv).2
    obtain ⟨f, rfl⟩ := recvKernelPacket_flags hrecv
    exact ⟨_, rfl, h.hlen, rfl, rfl, rfl, hopt⟩

theorem WellFormed.run_handlePacket (h : WellFormed p type) (w : World) (cfg : ServerConfig)
    (s : Server) : ∃ p', SameRequest p p' ∧ (handlePacket w cfg p).run s =
      (handleMessage w cfg p' type).run { s with history := s.history ++ [.received p] } := by
  obtain ⟨p', hrecv, hhlen, hsame⟩ := h.recvKernelPacket
  have htype := (DhcpPacket.messageType_congr hsame.getOption).trans h.type
  refine ⟨p', hsame, ?_⟩
  unfold handlePacket
  simp only [hrecv, htype, if_neg (not_not.2 hhlen)]
  rfl

theorem Grants.note_ack {q : DhcpPacket} {leaseTimeSec : Nat}
    (h : Grants cfg p q DHCPACK nip leaseTimeSec) (w : World) (held : Option Promise)
    (dest : Destination) (k : Nat) :
    note w cfg p.mac held (.sent q dest k) = some ⟨nip, w.time k + leaseTimeSec, true⟩ := by
  obtain ⟨o, ho, htime⟩ := Option.map_eq_some_iff.1 h.reply.leaseTime
  have hmac : q.mac = p.mac := congrArg macOf h.chaddr
  rw [note, h.reply.type, ho, if_pos hmac]
  simp only [DHCPACK, DHCPOFFER, Option.some.injEq, BitVec.reduceEq, if_false, if_true, htime,
    h.yiaddr]

/-! ## The entry of a client -/

theorem findLeaseByMac_of_mem (hok : TableOk cfg s.gLeases) {l : DynLease} (hl : l ∈ s.gLeases)
    (hmac : l.leaseMac ≠ 0) :
    ∃ i, findLeaseByMac s.gLeases l.leaseMac = some i ∧ s.lease i = l := by
  cases hfind : findLeaseByMac s.gLeases l.leaseMac with
  | none =>
    have hnot := List.findIdx?_eq_none_iff.1 hfind l hl
    exact absurd rfl (of_decide_eq_false hnot)
  | some i =>
    obtain ⟨l', hl', hmac'⟩ := findLeaseByMac_eq_some hfind
    have heq := hok.macs.eq_of_mem (List.mem_of_getElem? hl') hl hmac' (hmac'.symm ▸ hmac)
    exact ⟨i, rfl, (Server.lease_eq hl').trans heq⟩

theorem HasLease.lookupLease (h : HasLease cfg s mac nip) (hok : TableOk cfg s.gLeases)
    (hmac : mac ≠ 0) : ∃ lease, Udhcp.lookupLease cfg s mac = some lease ∧ lease.nip s = nip := by
  unfold HasLease at h
  unfold Udhcp.lookupLease
  dsimp only
  split at h
  · rename_i hst
    exact ⟨.fake (staticNip cfg mac), if_pos hst, h.symm⟩
  · rename_i hst
    obtain ⟨l, hl, rfl, rfl⟩ := h
    obtain ⟨i, hi, hlease⟩ := findLeaseByMac_of_mem hok hl hmac
    refine ⟨.entry i, ?_, congrArg DynLease.leaseNip hlease⟩
    rw [if_neg hst, hi]
    rfl

theorem packets_addLease (w : World) (chaddr : List.Vector Byte 16) (nip : BitVec 32)
    (leaseTime : Nat) (hostname : Option (List Byte)) (hostnameLen : Nat) (s : Server) :
    ((addLease w chaddr nip leaseTime hostname hostnameLen).run s).2.packets = s.packets := by
  rcases addLease_cases w chaddr nip leaseTime hostname hostnameLen s with
    ⟨hrun, -⟩ | ⟨i, l, -, -, hrun⟩
  · rw [hrun]
  · rw [hrun]

/-- The lease time of an offer. -/
def offeredTime (cfg : ServerConfig) (p : DhcpPacket) : Nat :=
  if staticNip cfg p.mac ≠ 0 then cfg.maxLeaseSec else selectLeaseTime cfg p

theorem offeredTime_lt (cfg : ServerConfig) (p : DhcpPacket) : offeredTime cfg p < 2 ^ 32 := by
  unfold offeredTime
  split
  · exact cfg.maxLeaseSec_lt
  · exact selectLeaseTime_lt_word cfg p

theorem SameRequest.offeredTime (h : SameRequest p p') :
    Udhcp.offeredTime cfg p' = Udhcp.offeredTime cfg p := by
  unfold Udhcp.offeredTime
  rw [h.mac_eq, h.selectLeaseTime]

theorem triple_chooseNip_of_mem (hok : TableOk cfg s.gLeases) {l : DynLease} (hl : l ∈ s.gLeases)
    (hlmac : l.leaseMac = p.mac) (hmac : p.mac ≠ 0) :
    Triple (· = s) (chooseNip w cfg p) fun yiaddr s' => yiaddr = l.leaseNip ∧
      s' = { s with readings := s.readings + 1 } := by
  obtain ⟨i, hfind, hlease⟩ := findLeaseByMac_of_mem hok hl (hlmac.symm ▸ hmac)
  rw [hlmac] at hfind
  refine triple_get_bind ?_
  rintro s' rfl
  rw [hfind]
  rintro s rfl
  exact ⟨congrArg DynLease.leaseNip hlease, rfl⟩

/-- **`send_offer`** to a client that has an address. -/
theorem triple_sendOffer_history (hw : w.Regular) (hok : TableOk cfg s.gLeases) (hmac : p.mac ≠ 0)
    (hlease : HasLease cfg s p.mac nip) (hne : nip ≠ 0) (hsent : w.sent s.packets = true) :
    Triple (· = s) (sendOffer w cfg p) fun _ s' => ∃ dest k, s'.history =
      s.history ++ [.sent (offerPacket cfg p nip (offeredTime cfg p)) dest k] := by
  unfold HasLease at hlease
  unfold sendOffer
  dsimp only
  split at hlease
  · rename_i hst
    subst hlease
    rw [if_pos hst, offeredTime, if_pos hst]
    rintro s rfl
    exact ⟨_, _, history_sendPacket hsent _ _⟩
  · rename_i hst
    rw [if_neg hst, offeredTime, if_neg hst]
    obtain ⟨l, hl, hlmac, rfl⟩ := hlease
    refine Triple.bind (triple_chooseNip_of_mem hok hl hlmac hmac) fun yiaddr =>
      Triple.intro fun hnip => ?_
    subst hnip
    rw [if_neg hne]
    refine Triple.bind (Q := fun r s' => r ≠ none ∧ s'.history = s.history ∧
      s'.packets = s.packets) ?_ fun r => Triple.intro fun hr => ?_
    · rintro s' rfl
      exact ⟨addLease_ne_none hw hl hlmac hmac, (history_addLease ..).1, packets_addLease ..⟩
    · cases r with
      | none => exact absurd rfl hr
      | some i =>
        rintro s' ⟨hhist, hpackets⟩
        have hsend := history_sendPacket (hpackets.symm ▸ hsent)
          (offerPacket cfg p l.leaseNip (selectLeaseTime cfg p)) false
        rw [hhist] at hsend
        exact ⟨_, _, hsend⟩

end Answers

/-! ## A client of the pool -/

theorem fair_discover_two (p : DhcpPacket) (hp : .packet p ∈ [Input.packet (discover 2)]) :
    Fair poolConfig p := by
  cases List.mem_singleton.1 hp
  exact fair_discover (by decide)

theorem prompt_discover_two : Prompt quietWorld poolConfig [.packet (discover 2)] := by
  rintro pre post hpre
  cases pre with
  | nil => cases hpre
  | cons i pre =>
    cases pre with
    | nil => cases hpre
    | cons j pre => cases hpre

end N32905.Udhcp
