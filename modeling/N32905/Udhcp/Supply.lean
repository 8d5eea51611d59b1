import N32905.Udhcp.Wire

/-!
# A free address is offered

While the pool has an address that nobody uses, and the table has room, no `DISCOVER` goes without
an offer.
-/

namespace N32905.Udhcp

open N32905.Lib

/-- An address that the loop of `find_free_or_expired_nip` does not pass by. -/
structure Free (cfg : ServerConfig) (leases : List DynLease) (addr : Nat) : Prop where
  start : cfg.startIp.toNat ≤ addr
  stop : addr ≤ cfg.endIp.toNat
  net : addr &&& 0xff ≠ 0
  broadcast : addr &&& 0xff ≠ 0xff
  reserved : isNipReserved cfg.staticLeases (ntohl (BitVec.ofNat 32 addr)) = false
  unused : findLeaseByNip leases (ntohl (BitVec.ofNat 32 addr)) = none

/-- An entry that is blank or has expired. -/
def Room (w : World) (s : Server) : Prop := ∃ l ∈ s.gLeases, l.expires < w.time s.readings

/-- The next probe is not answered, if it is for an address outside the table. -/
def QuietProbe (w : World) (s : Server) (mac : Mac) : Prop :=
  ∀ nip, findLeaseByNip s.gLeases nip = none → w.arpping s.probes nip mac = true

structure Found (s : Server) (nip : BitVec 32) (s' : Server) : Prop where
  ne : nip ≠ 0
  gLeases : s'.gLeases = s.gLeases
  packets : s'.packets = s.packets
  readings : s.readings ≤ s'.readings

section Supply
variable {w : World} {cfg : ServerConfig} {inputs : List Input} {s s' : Server} {nip : BitVec 32}
  {p : DhcpPacket} {addr free n : Nat} {oldest : Option Nat} {mac : Mac}

theorem triple_nobodyRespondsToArp_quiet (harp : w.arpping s.probes nip mac = true) :
    Triple (· = s) (nobodyRespondsToArp w cfg nip mac)
      fun r s' => r = true ∧ s' = { s with probes := s.probes + 1 } := by
  refine Triple.bind (Q := fun r s' => r = true ∧ s' = { s with probes := s.probes + 1 }) ?_
    fun r => Triple.intro fun hr => ?_
  · rintro s rfl
    exact ⟨harp, rfl⟩
  · subst hr
    rw [if_pos rfl]
    exact triple_pure fun s' hs' => ⟨rfl, hs'⟩

/-- The loop comes to the free address, if it does not take one before it. -/
theorem triple_findFreeFrom_found (harp : QuietProbe w s mac)
    (hfree : Free cfg s.gLeases free) (hstart : cfg.startIp.toNat ≤ addr) (hle : addr ≤ free)
    (hlt : free < addr + n) (hend : addr + n ≤ cfg.endIp.toNat + 1) :
    Triple (· = s) (findFreeFrom w cfg mac n addr oldest) (Found s) := by
  induction n generalizing addr oldest with
  | zero => omega
  | succ n ih =>
    have hnext : addr ≠ free → ∀ oldest,
        Triple (· = s) (findFreeFrom w cfg mac n (addr + 1) oldest) (Found s) :=
      fun _ _ => ih (by omega) (by omega) (by omega) (by omega)
    rw [findFreeFrom]
    split
    · rename_i hnet
      exact hnext (fun heq => hfree.net (heq ▸ hnet)) _
    rename_i hnet
    split
    · rename_i hbroad
      exact hnext (fun heq => hfree.broadcast (heq ▸ hbroad)) _
    dsimp only
    cases hres : isNipReserved cfg.staticLeases (ntohl (BitVec.ofNat 32 addr)) with
    | true =>
      have hne : addr ≠ free := by
        rintro rfl
        exact Bool.false_ne_true (hfree.reserved.symm.trans hres)
      exact hnext hne _
    | false =>
      refine triple_get_bind ?_
      rintro s' rfl
      cases hfind : findLeaseByNip s'.gLeases (ntohl (BitVec.ofNat 32 addr)) with
      | none =>
        have hne := (spare_ntohl hstart (by omega) hnet hres).ne
        refine Triple.bind (triple_nobodyRespondsToArp_quiet (harp _ hfind)) fun r =>
          Triple.intro fun hr => ?_
        subst hr
        rw [if_pos rfl]
        refine triple_pure ?_
        rintro s rfl
        exact ⟨hne, rfl, rfl, Nat.le_refl _⟩
      | some i =>
        have hne : addr ≠ free := by
          rintro rfl
          exact Option.some_ne_none i (hfind.symm.trans hfree.unused)
        exact hnext hne _

theorem Found.tick (h : Found { s with readings := s.readings + 1 } nip s') : Found s nip s' :=
  ⟨h.ne, h.gLeases, h.packets, Nat.le_trans (Nat.le_succ _) h.readings⟩

theorem triple_chooseNip_found (harp : QuietProbe w s p.mac)
    (hpos : 0 < cfg.startIp) (hfree : Free cfg s.gLeases free)
    (hnone : findLeaseByMac s.gLeases p.mac = none) :
    Triple (· = s) (chooseNip w cfg p) (Found s) := by
  have hfind : ∀ s₁ : Server, s₁.gLeases = s.gLeases → s₁.probes = s.probes →
      Triple (· = s₁) (findFreeOrExpiredNip w cfg p.mac) (Found s₁) := by
    intro s₁ h₁ hprobes
    have hstart := hfree.start
    have hstop := hfree.stop
    have harp₁ : QuietProbe w s₁ p.mac := by
      rw [QuietProbe, h₁, hprobes]
      exact harp
    exact triple_findFreeFrom_found harp₁ (h₁.symm ▸ hfree) (Nat.le_refl _) hstart (by omega)
      (by omega)
  refine triple_get_bind ?_
  rintro s' rfl
  rw [hnone]
  cases p.getOption DHCP_REQUESTED_IP with
  | none => exact hfind s' rfl rfl
  | some o =>
    dsimp only
    split
    · rename_i hpool
      have hne : o.u32 ≠ 0 := by
        intro hzero
        rw [hzero] at hpool
        exact absurd (Nat.lt_of_lt_of_le (BitVec.lt_def.1 hpos) (BitVec.le_def.1 hpool.1)) (by decide)
      cases findLeaseByNip s'.gLeases o.u32 with
      | none => exact triple_pure fun s hs => hs ▸ ⟨hne, rfl, rfl, Nat.le_refl _⟩
      | some lease =>
        refine Triple.bind (Q := fun _ s₁ => s₁ = { s' with readings := s'.readings + 1 }) ?_
          fun expired => ?_
        · rintro s rfl
          rfl
        · split
          · refine triple_pure ?_
            rintro s rfl
            exact ⟨hne, rfl, rfl, Nat.le_succ _⟩
          · exact (hfind { s' with readings := s'.readings + 1 } rfl rfl).mono (fun _ hs => hs)
              fun _ _ hfound => hfound.tick
    · exact hfind s' rfl rfl

theorem Room.addLease_ne_none (hw : w.Regular) (h : Room w s) (chaddr : List.Vector Byte 16)
    (leaseTime : Nat) (hostname : Option (List Byte)) (hostnameLen : Nat) :
    ((addLease w chaddr nip leaseTime hostname hostnameLen).run s).1 ≠ none := by
  rcases addLease_cases w chaddr nip leaseTime hostname hostnameLen s with
    ⟨hrun, hfull⟩ | ⟨i, l, -, -, hrun⟩
  · obtain ⟨l, hl, hexpired⟩ := h
    have hle := hfull _ (List.mem_map.2 ⟨l, hl, rfl⟩)
    rw [leasetime_time hw] at hle
    split at hle
    · exact absurd (hw.pos s.readings) (Nat.not_lt.2 hle)
    · exact absurd hexpired (Nat.not_lt.2 hle)
  · rw [hrun]
    exact Option.some_ne_none i

theorem triple_sendOffer_found (hw : w.Regular) (harp : QuietProbe w s p.mac)
    (hpos : 0 < cfg.startIp) (hok : TableOk cfg s.gLeases) (hmac : p.mac ≠ 0)
    (hfree : Free cfg s.gLeases free) (hroom : Room w s) (hsent : w.sent s.packets = true) :
    Triple (· = s) (sendOffer w cfg p) fun _ s' => ∃ nip dest k, s'.history =
      s.history ++ [.sent (offerPacket cfg p nip (offeredTime cfg p)) dest k] := by
  by_cases hst : staticNip cfg p.mac ≠ 0
  · have hlease : HasLease cfg s p.mac (staticNip cfg p.mac) := by
      rw [HasLease, if_pos hst]
    exact (triple_sendOffer_history hw hok hmac hlease hst hsent).mono (fun _ hs => hs)
      fun _ _ h => ⟨_, h⟩
  cases hfind : findLeaseByMac s.gLeases p.mac with
  | some i =>
    obtain ⟨l, hl, hlmac⟩ := findLeaseByMac_eq_some hfind
    have hmem := List.mem_of_getElem? hl
    have hlease : HasLease cfg s p.mac l.leaseNip := by
      rw [HasLease, if_neg hst]
      exact ⟨l, hmem, hlmac, rfl⟩
    have hne := (hok.owned l hmem (hlmac.symm ▸ hmac)).ne
    exact (triple_sendOffer_history hw hok hmac hlease hne hsent).mono (fun _ hs => hs)
      fun _ _ h => ⟨_, h⟩
  | none =>
    unfold sendOffer
    dsimp only
    rw [if_neg hst, offeredTime, if_neg hst]
    have hchoose : Triple (· = s) (chooseNip w cfg p) fun nip s' => Found s nip s' ∧
        s'.history = s.history := by
      rintro s rfl
      exact ⟨triple_chooseNip_found harp hpos hfree hfind s rfl, quiet_chooseNip p s⟩
    refine Triple.bind hchoose fun nip => ?_
    rintro s₁ ⟨hfound, hhist⟩
    rw [if_neg hfound.ne]
    have hroom₁ : Room w s₁ := by
      obtain ⟨l, hl, hexpired⟩ := hroom
      exact ⟨l, hfound.gLeases.symm ▸ hl, Nat.lt_of_lt_of_le hexpired (hw.mono hfound.readings)⟩
    refine Triple.bind (P := (· = s₁)) (Q := fun r s' => r ≠ none ∧ s'.history = s.history ∧
      s'.packets = s.packets) (R := fun _ s' => ∃ nip dest k, s'.history =
        s.history ++ [.sent (offerPacket cfg p nip (selectLeaseTime cfg p)) dest k]) ?_
      (fun r => Triple.intro fun hr => ?_) s₁ rfl
    · rintro s' rfl
      exact ⟨hroom₁.addLease_ne_none hw _ _ _ _, (history_addLease ..).1.trans hhist,
        (packets_addLease ..).trans hfound.packets⟩
    · cases r with
      | none => exact absurd rfl hr
      | some i =>
        rintro s' ⟨hhist', hpackets⟩
        have hsend := history_sendPacket (hpackets.symm ▸ hsent)
          (offerPacket cfg p nip (selectLeaseTime cfg p)) false
        rw [hhist'] at hsend
        exact ⟨nip, _, _, hsend⟩

/-- **A free address is offered**: a `DISCOVER` gets an offer as long as an address is free and the
table has room, if nobody answers the probe for an address outside the table. -/
theorem free_address_offered (hw : w.Regular) (hcfg : cfg.Regular)
    (hfair : ∀ p, .packet p ∈ inputs → Fair cfg p) (hprompt : Prompt w cfg inputs)
    (harp : QuietProbe w (serve w cfg inputs) p.mac) (hpos : 0 < cfg.startIp)
    (h : WellFormed p DHCPDISCOVER) (hmac : p.mac ≠ 0)
    (hfree : Free cfg (serve w cfg inputs).gLeases free) (hroom : Room w (serve w cfg inputs))
    (hsent : w.sent (serve w cfg inputs).packets = true) :
    ∃ nip q dest k, (serve w cfg (inputs ++ [.packet p])).history =
        (serve w cfg inputs).history ++ [.received p, .sent q dest k] ∧
      Grants cfg p q DHCPOFFER nip (offeredTime cfg p) := by
  have hinv := inv_serve hw hcfg hfair hprompt
  rw [serve_concat]
  generalize serve w cfg inputs = s at hinv harp hfree hroom hsent ⊢
  obtain ⟨p', hsame, hrun⟩ := h.run_handlePacket w cfg s
  have hmac' : p'.mac ≠ 0 := hsame.mac_eq ▸ hmac
  have harp' : QuietProbe w s p'.mac := hsame.mac_eq.symm ▸ harp
  have hoffer := @triple_sendOffer_found w cfg { s with history := s.history ++ [.received p] }
    p' free hw harp' hpos hinv.table.ok hmac' hfree hroom hsent _ rfl
  obtain ⟨nip, dest, k, hhist⟩ := hoffer
  have hreply : Says cfg (offerPacket cfg p' nip (offeredTime cfg p')) DHCPOFFER _ :=
    says_offerPacket nip (offeredTime_lt cfg p')
  refine ⟨nip, offerPacket cfg p' nip (offeredTime cfg p'), dest, k, ?_, hsame.xid, hsame.chaddr, rfl,
    hsame.offeredTime ▸ hreply⟩
  change ((handlePacket w cfg p).run s).2.history = _
  rw [hrun]
  exact hhist.trans (List.append_assoc _ _ _)

end Supply

theorem free_discover_two : Free poolConfig
    (serve quietWorld poolConfig [.packet (discover 2)]).gLeases 0xC0A80015 where
  start := by decide
  stop := by decide
  net := by decide
  broadcast := by decide
  reserved := by decide
  unused := by decide +kernel

theorem room_discover_two : Room quietWorld (serve quietWorld poolConfig [.packet (discover 2)]) := by
  have hany : (serve quietWorld poolConfig [.packet (discover 2)]).gLeases.any (fun l =>
      decide (l.expires < quietWorld.time
        (serve quietWorld poolConfig [.packet (discover 2)]).readings)) = true := by decide +kernel
  obtain ⟨l, hl, hexpired⟩ := List.any_eq_true.1 hany
  exact ⟨l, hl, of_decide_eq_true hexpired⟩

/-- A second client, while the first has the pool's first address. -/
theorem free_address_offered_five : ∃ nip q dest k,
    (serve quietWorld poolConfig ([.packet (discover 2)] ++ [.packet (discover 5)])).history =
        (serve quietWorld poolConfig [.packet (discover 2)]).history ++
          [.received (discover 5), .sent q dest k] ∧
      Grants poolConfig (discover 5) q DHCPOFFER nip (offeredTime poolConfig (discover 5)) :=
  free_address_offered quietWorld_regular poolConfig_regular fair_discover_two prompt_discover_two
    (fun _ _ => rfl) (by decide) ⟨rfl, rfl, by decide +kernel⟩ (by decide)
    free_discover_two room_discover_two rfl

end N32905.Udhcp
