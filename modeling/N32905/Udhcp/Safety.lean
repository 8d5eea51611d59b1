import N32905.Udhcp.Choosing

/-!
# No address for two clients

What each input does to the table, the file and the promises, and from it what a run keeps:
`promises_exclusive`, for any order of packets, ARP replies, lost replies, writes and restarts.
-/

namespace N32905.Udhcp

open N32905.Lib

section Steps
variable {w : World} {cfg : ServerConfig} {ex ex' : Mac → Prop} {s s' : Server} {mac : Mac}
  {e : Event} {p packet oldpacket : DhcpPacket} {yiaddr nip : BitVec 32} {i : Nat} {dest : Destination}

/-! ## Events -/

theorem promised_concat (hhist : s'.history = s.history ++ [e]) (c : Mac) :
    s'.promised w cfg c = note w cfg c (s.promised w cfg c) e := by
  rw [Server.promised, hhist, List.foldl_append]
  rfl

def Event.Silent (w : World) (cfg : ServerConfig) (e : Event) : Prop :=
  ∀ c held q, note w cfg c held e = some q → held = some q ∧ (e = .restarted → q.acked = true)

theorem silent_received (p : DhcpPacket) : (Event.received p).Silent w cfg := by
  intro c held q hq
  rw [note] at hq
  split at hq
  · cases hq
  · exact ⟨hq, fun h => nomatch h⟩

theorem silent_restarted : Event.restarted.Silent w cfg := by
  intro c held q hq
  obtain ⟨hheld, hacked⟩ := Option.filter_eq_some_iff.1 hq
  exact ⟨hheld, fun _ => hacked⟩

theorem silent_nak : (Event.sent (initPacket cfg oldpacket DHCPNAK) dest i).Silent w cfg := by
  intro c held q hq
  have hsays : Says cfg (initPacket cfg oldpacket DHCPNAK) DHCPNAK none := says_nak
  rw [note, hsays.type] at hq
  split at hq
  · simp [DHCPNAK, DHCPOFFER, DHCPACK] at hq
  · exact ⟨hq, fun h => nomatch h⟩

theorem silent_inform : (Event.sent (informPacket cfg oldpacket) dest i).Silent w cfg := by
  intro c held q hq
  have hsays : Says cfg (informPacket cfg oldpacket) DHCPACK none := says_informPacket
  rw [note, hsays.type, Option.map_eq_none_iff.1 hsays.leaseTime] at hq
  split at hq
  · simp only [DHCPACK, DHCPOFFER, Option.some.injEq, BitVec.reduceEq, if_false, if_true] at hq
    exact ⟨hq, fun h => nomatch h⟩
  · exact ⟨hq, fun h => nomatch h⟩

structure SameTable (s s' : Server) : Prop where
  gLeases : s'.gLeases = s.gLeases
  leaseFile : s'.leaseFile = s.leaseFile
  readings : s'.readings = s.readings

theorem SameTable.file_eq (h : SameTable s s') : s'.file = s.file := by
  rw [Server.file, h.leaseFile]
  rfl

def Backed (cfg : ServerConfig) (ex : Mac → Prop) (leases : List DynLease) (c : Mac) (q : Promise) :
    Prop :=
  c ≠ 0 ∧ (staticNip cfg c ≠ 0 → q.nip = staticNip cfg c) ∧
    (ex c ∨ (staticNip cfg c = 0 → Covers leases c q.nip q.until_))

theorem TableInv.note (h : TableInv w cfg ex s) (hsame : SameTable s s')
    (hnew : ∀ c q, s'.promised w cfg c = some q →
      s.promised w cfg c = some q ∨ Backed cfg ex' s.gLeases c q)
    (hex : ∀ c, ex c → ex' c) : TableInv w cfg ex' s' := by
  have hpast : ∀ t, s.Past w t → s'.Past w t := fun t hp => hp.mono (Nat.le_of_eq hsame.readings.symm)
  refine ⟨hsame.gLeases ▸ h.ok, hsame.gLeases ▸ h.length, ?_, fun c q hq => ?_, fun c q hq hst => ?_,
    fun c q hc hq hst hlive => ?_⟩
  · rw [hsame.gLeases, hsame.readings]
    exact h.bounded
  · rcases hnew c q hq with hold | hnew
    · exact h.clients c q hold
    · exact hnew.1
  · rcases hnew c q hq with hold | hnew
    · exact h.statics c q hold hst
    · exact hnew.2.1 hst
  · rw [hsame.gLeases]
    rcases hnew c q hq with hold | ⟨-, -, hex' | hcov⟩
    · exact h.covers c q (fun h => hc (hex c h)) hold hst fun h => hlive (hpast _ h)
    · exact absurd hex' hc
    · exact hcov hst

theorem FileInv.note (h : FileInv w cfg ex s) (hsame : SameTable s s')
    (hnew : ∀ c q, s'.promised w cfg c = some q →
      s.promised w cfg c = some q ∨ q.acked = false ∨ ex' c)
    (hex : ∀ c, ex c → ex' c) : FileInv w cfg ex' s' := by
  refine ⟨?_, ?_, ?_, ?_, fun c q hc hq hacked hst hlive => ?_⟩
  · rw [hsame.file_eq]
    exact h.ok
  · rw [hsame.file_eq]
    exact h.length
  · rw [hsame.file_eq]
    exact h.used
  · rw [hsame.file_eq, hsame.readings]
    exact h.written
  · rw [hsame.file_eq]
    rcases hnew c q hq with hold | hoffer | hex'
    · exact h.covers c q (fun h => hc (hex c h)) hold hacked hst fun hp =>
        hlive (hp.mono (Nat.le_of_eq hsame.readings.symm))
    · rw [hacked] at hoffer
      cases hoffer
    · exact absurd hex' hc

theorem TableInv.silent (h : TableInv w cfg ex s) (hsame : SameTable s s')
    (hhist : s'.history = s.history ++ [e]) (he : e.Silent w cfg) : TableInv w cfg ex s' :=
  h.note hsame (fun c q hq => .inl (he c _ q ((promised_concat hhist c) ▸ hq)).1) fun _ hc => hc

theorem FileInv.silent (h : FileInv w cfg ex s) (hsame : SameTable s s')
    (hhist : s'.history = s.history ++ [e]) (he : e.Silent w cfg) : FileInv w cfg ex s' :=
  h.note hsame (fun c q hq => .inl (he c _ q ((promised_concat hhist c) ▸ hq)).1) fun _ hc => hc

theorem Inv.silent (h : Inv w cfg s) (hsame : SameTable s s')
    (hhist : s'.history = s.history ++ [e]) (he : e.Silent w cfg) : Inv w cfg s' :=
  ⟨h.table.silent hsame hhist he, fun hearly => (h.file hearly).silent hsame hhist he⟩

theorem sameTable_sendPacket (w : World) (p : DhcpPacket) (force : Bool) (s : Server) :
    SameTable s ((sendPacket w p force).run s).2 := ⟨rfl, rfl, rfl⟩

theorem history_sendPacket (hsent : w.sent s.packets = true) (p : DhcpPacket) (force : Bool) :
    ((sendPacket w p force).run s).2.history =
      s.history ++ [.sent p (destination p force) s.readings] := by
  rw [run_sendPacket, hsent]
  rfl

theorem Inv.lost (h : Inv w cfg s) (hsent : w.sent s.packets = false) (p : DhcpPacket)
    (force : Bool) : Inv w cfg ((sendPacket w p force).run s).2 := by
  have hsame := sameTable_sendPacket w p force s
  have hpromised : ∀ c, ((sendPacket w p force).run s).2.promised w cfg c = s.promised w cfg c := by
    intro c
    rw [run_sendPacket, hsent]
    rfl
  exact ⟨h.table.note hsame (fun c q hq => .inl (hpromised c ▸ hq)) fun _ hc => hc,
    fun hearly => (h.file hearly).note hsame (fun c q hq => .inl (hpromised c ▸ hq)) fun _ hc => hc⟩

theorem Inv.sendPacket (h : Inv w cfg s) {force : Bool}
    (hp : ∀ dest k, (Event.sent p dest k).Silent w cfg) :
    Inv w cfg ((sendPacket w p force).run s).2 := by
  cases hsent : w.sent s.packets with
  | false => exact h.lost hsent p force
  | true =>
    exact h.silent (sameTable_sendPacket w p force s) (history_sendPacket hsent p force) (hp _ _)

/-! ## Writing the file -/

theorem remaining_lt (curr : Nat) (l : DynLease) : (l.remaining curr).expires < 2 ^ 31 := by
  change (if (BitVec.ofNat 32 l.expires - BitVec.ofNat 32 curr).slt 0 then 0
    else (BitVec.ofNat 32 l.expires - BitVec.ofNat 32 curr).toNat) < 2 ^ 31
  generalize BitVec.ofNat 32 l.expires - BitVec.ofNat 32 curr = left
  split
  · decide
  · rename_i hslt
    rw [BitVec.slt_eq_decide, decide_eq_true_iff, BitVec.toInt_eq_toNat_cond] at hslt
    have := left.isLt
    split at hslt
    · omega
    · simp at hslt
      omega

theorem remaining_expires {curr : Nat} {l : DynLease} (hle : curr ≤ l.expires)
    (hlt : l.expires < curr + 2 ^ 31) :
    (l.remaining curr).expires = l.expires - curr := by
  have hleft : (BitVec.ofNat 32 l.expires - BitVec.ofNat 32 curr).toNat = l.expires - curr := by
    simp only [BitVec.toNat_sub, BitVec.toNat_ofNat]
    omega
  have hslt : ¬ (BitVec.ofNat 32 l.expires - BitVec.ofNat 32 curr).slt 0 = true := by
    rw [BitVec.slt_eq_decide, decide_eq_true_iff, BitVec.toInt_eq_toNat_cond, hleft,
      if_pos (by omega)]
    simp
  change (if (BitVec.ofNat 32 l.expires - BitVec.ofNat 32 curr).slt 0 then 0
    else (BitVec.ofNat 32 l.expires - BitVec.ofNat 32 curr).toNat) = _
  rw [if_neg hslt, hleft]

/-- **`write_leases`**: whatever the file was, it now stands for every promise. -/
theorem fileInv_writeLeases (hw : w.Regular) (h : TableInv w cfg ex s) :
    FileInv w cfg ex ((writeLeases w).run s).2 := by
  generalize hs' : ((writeLeases w).run s).2 = s'
  have hread : s'.readings = s.readings + 1 := by
    subst hs'
    rfl
  have hpromised : ∀ c, s'.promised w cfg c = s.promised w cfg c := fun c => by
    subst hs'
    rfl
  have hfile : s'.file = some
      { writtenAt := w.time s.readings
        leases := (s.gLeases.filter fun l => l.leaseNip ≠ 0).map fun l =>
          l.remaining (leasetime (w.time s.readings)) } := by
    subst hs'
    refine LeaseFile.ofBytes_bytes (Nat.lt_trans (hw.lt _) (by decide)) fun l hl => ?_
    obtain ⟨a, -, rfl⟩ := List.mem_map.1 hl
    exact Nat.lt_trans (remaining_lt _ a) (by decide)
  have hfilter : TableOk cfg (s.gLeases.filter fun l => l.leaseNip ≠ 0) :=
    ⟨h.ok.nips.filter _, h.ok.macs.filter _, fun l hl => h.ok.owned l (List.mem_of_mem_filter hl)⟩
  refine ⟨?_, ?_, ?_, ?_, fun c q hc hq _ hst hlive => ?_⟩
  · rintro f hf
    rw [hfile] at hf
    cases hf
    exact hfilter.map fun l => .inl ⟨rfl, rfl⟩
  · rintro f hf
    rw [hfile] at hf
    cases hf
    rw [List.length_map, ← h.length]
    exact List.length_filter_le _ _
  · rintro f hf l hl
    rw [hfile] at hf
    cases hf
    obtain ⟨a, ha, rfl⟩ := List.mem_map.1 hl
    exact ⟨of_decide_eq_true (List.mem_filter.1 ha).2, remaining_lt _ a⟩
  · rintro f hf k hk
    rw [hfile] at hf
    cases hf
    rw [hread] at hk
    exact hw.mono (Nat.le_trans (Nat.le_succ _) hk)
  · refine ⟨_, hfile, ?_⟩
    rw [hpromised] at hq
    obtain ⟨l, hl, hmac, hnip, hle⟩ := h.covers c q hc hq hst fun hp =>
      hlive (hp.mono (by rw [hread]; exact Nat.le_succ _))
    have hcurr : w.time s.readings < q.until_ := by
      by_contra hge
      exact hlive ⟨s.readings, by rw [hread]; exact Nat.lt_succ_self _, Nat.not_lt.1 hge⟩
    have hzero : l.leaseMac ≠ 0 := hmac ▸ h.clients c q hq
    have hmem : l ∈ s.gLeases.filter fun l => l.leaseNip ≠ 0 :=
      List.mem_filter.2 ⟨hl, decide_eq_true (h.ok.owned l hl hzero).ne⟩
    refine ⟨_, List.mem_map.2 ⟨l, hmem, rfl⟩, hmac, hnip, ?_⟩
    rw [leasetime_time hw, remaining_expires (by omega)
      (h.bounded l hl s.readings (Nat.le_refl _))]
    change q.until_ ≤ w.time s.readings + (l.expires - w.time s.readings)
    omega

theorem TableInv.writeLeases (h : TableInv w cfg ex s) :
    TableInv w cfg ex ((writeLeases w).run s).2 :=
  h.step rfl (Nat.le_succ _) h.ok rfl (fun _ hl => .inl hl)
    (fun l hl _ _ _ => ⟨l, hl, rfl, rfl, Nat.le_refl _⟩) fun _ hc => hc

theorem Inv.writeLeases (hw : w.Regular) (h : Inv w cfg s) :
    Inv w cfg ((writeLeases w).run s).2 :=
  ⟨h.table.writeLeases, fun _ => fileInv_writeLeases hw h.table⟩

/-! ## Offers and acknowledgements -/

/-- What the client itself has been promised is the only thing to look at. -/
theorem TableInv.restore (h : TableInv w cfg (fun c => ex c ∨ c = mac) s)
    (hmac : ∀ q, s.promised w cfg mac = some q → staticNip cfg mac = 0 → ¬ s.Past w q.until_ →
      Covers s.gLeases mac q.nip q.until_) : TableInv w cfg ex s :=
  { h with
    covers := fun c q hc hq hst hlive => by
      by_cases hcm : c = mac
      · subst hcm
        exact hmac q hq hst hlive
      · exact h.covers c q (fun h => h.elim hc hcm) hq hst hlive }

theorem isNipReserved_staticNip (h : staticNip cfg mac ≠ 0) :
    isNipReserved cfg.staticLeases (staticNip cfg mac) = true := by
  unfold staticNip getStaticNipByMac at h ⊢
  cases hfind : cfg.staticLeases.find? fun l => l.mac = mac with
  | none =>
    rw [hfind] at h
    exact absurd rfl h
  | some l => exact List.any_eq_true.2 ⟨l, List.mem_of_find?_eq_some hfind, decide_eq_true rfl⟩

theorem selectLeaseTime_le (cfg : ServerConfig) (p : DhcpPacket) :
    selectLeaseTime cfg p ≤ max cfg.maxLeaseSec cfg.minLeaseSec := by
  unfold selectLeaseTime
  split
  · exact Nat.le_max_left _ _
  · dsimp only
    split
    · split
      · exact Nat.le_max_right _ _
      · exact Nat.le_max_left _ _
    · split
      · exact Nat.le_max_right _ _
      · omega

theorem ServerConfig.maxLeaseSec_lt (cfg : ServerConfig) : cfg.maxLeaseSec < 2 ^ 32 := by
  unfold ServerConfig.maxLeaseSec
  split
  · exact BitVec.isLt _
  · decide

theorem selectLeaseTime_lt_word (cfg : ServerConfig) (p : DhcpPacket) :
    selectLeaseTime cfg p < 2 ^ 32 :=
  Nat.lt_of_le_of_lt (selectLeaseTime_le cfg p)
    (Nat.max_lt.2 ⟨cfg.maxLeaseSec_lt, cfg.minLeaseSec_lt⟩)

theorem selectLeaseTime_lt (hcfg : cfg.Regular) (p : DhcpPacket) :
    selectLeaseTime cfg p < 2 ^ 31 :=
  Nat.lt_of_le_of_lt (selectLeaseTime_le cfg p) (Nat.max_lt.2 ⟨hcfg.maxLeaseSec, hcfg.minLeaseSec⟩)

theorem note_ack (c : Mac) (held : Option Promise) (k : Nat) :
    note w cfg c held (.sent (ackPacket cfg oldpacket yiaddr) dest k) =
      if oldpacket.mac = c then
        some ⟨yiaddr, w.time k + selectLeaseTime cfg oldpacket, true⟩ else held := by
  have hsays : Says cfg (ackPacket cfg oldpacket yiaddr) DHCPACK _ := says_ackPacket yiaddr
    (selectLeaseTime_lt_word cfg oldpacket)
  obtain ⟨o, ho, htime⟩ := Option.map_eq_some_iff.1 hsays.leaseTime
  rw [note, hsays.type, ho]
  simp only [DHCPACK, DHCPOFFER, Option.some.injEq, BitVec.reduceEq, if_false, if_true, htime]
  rfl

theorem note_offer {leaseTimeSec : Nat} (hlt : leaseTimeSec < 2 ^ 32)
    (c : Mac) (held : Option Promise) (k : Nat) :
    note w cfg c held (.sent (offerPacket cfg oldpacket yiaddr leaseTimeSec) dest k) =
      if oldpacket.mac = c then some ⟨yiaddr, w.time (k - 1) + cfg.offerTime, false⟩ else held := by
  have hsays : Says cfg (offerPacket cfg oldpacket yiaddr leaseTimeSec) DHCPOFFER _ :=
    says_offerPacket yiaddr hlt
  rw [note, hsays.type]
  simp only [if_true]
  rfl

/-- The address of the client in the table, or its static one. -/
def HasLease (cfg : ServerConfig) (s : Server) (mac : Mac) (nip : BitVec 32) : Prop :=
  if staticNip cfg mac ≠ 0 then nip = staticNip cfg mac
  else ∃ l ∈ s.gLeases, l.leaseMac = mac ∧ l.leaseNip = nip

theorem HasLease.mayHave (h : HasLease cfg s mac nip) (hinv : TableInv w cfg ex s) (hmac : mac ≠ 0) :
    MayHave cfg mac nip := by
  unfold HasLease at h
  split at h
  · rename_i hst
    exact ⟨h ▸ hst, fun h0 => absurd h0 hst, fun _ => h.symm⟩
  · obtain ⟨l, hl, rfl, rfl⟩ := h
    exact hinv.ok.owned l hl hmac

theorem HasLease.claimable (h : HasLease cfg s mac nip) (hcfg : cfg.Regular)
    (hinv : TableInv w cfg ex s) (hmac : mac ≠ 0) : Claimable w s mac nip := by
  have hmay := h.mayHave hinv hmac
  intro l hl hnip
  by_cases hzero : l.leaseMac = 0
  · exact .inr (.inl hzero)
  · refine .inl ?_
    have hown := hinv.ok.owned l hl hzero
    unfold HasLease at h
    split at h
    · rename_i hst
      -- a reserved address is with the client it is reserved for
      have hres := hown.reserved (by rw [hnip, h]; exact isNipReserved_staticNip hst)
      exact hcfg.statics _ _ (by rw [hres, hnip, h]) (by rw [hres]; exact hown.ne)
    · obtain ⟨l', hl', hmac', hnip'⟩ := h
      rw [hinv.ok.nips.eq_of_mem hl hl' (hnip.trans hnip'.symm) hown.ne, hmac']

/-- **`send_ACK`**: the client has the address it is acknowledged, and the others keep theirs. -/
theorem triple_sendAck (hw : w.Regular) (hcfg : cfg.Regular) (hmac : oldpacket.mac ≠ 0)
    (hinv : Inv w cfg s) (hlease : HasLease cfg s oldpacket.mac yiaddr) :
    Triple (· = s) (sendAck w cfg oldpacket yiaddr) fun _ s' => Inv w cfg s' := by
  have hlt := selectLeaseTime_lt hcfg oldpacket
  refine Triple.bind (Q := fun b s' => b = w.sent s.packets ∧
    s' = ((sendPacket w (ackPacket cfg oldpacket yiaddr) false).run s).2) ?_ fun b => ?_
  · rintro s rfl
    exact ⟨rfl, rfl⟩
  refine Triple.intro fun hb => ?_
  cases b with
  | false =>
    refine triple_pure ?_
    rintro s' rfl
    exact hinv.lost hb.symm _ false
  | true =>
    rw [if_pos rfl]
    have hsame := sameTable_sendPacket w (ackPacket cfg oldpacket yiaddr) false s
    have hhist := history_sendPacket hb.symm (ackPacket cfg oldpacket yiaddr) false
    generalize ((sendPacket w (ackPacket cfg oldpacket yiaddr) false).run s).2 = s₁ at hsame hhist ⊢
    have hpromised : ∀ c, s₁.promised w cfg c = if oldpacket.mac = c then
        some ⟨yiaddr, w.time s.readings + selectLeaseTime cfg oldpacket, true⟩
        else s.promised w cfg c := fun c => by
      rw [promised_concat hhist, note_ack]
    have hmay := hlease.mayHave hinv.table hmac
    have hclaim : Claimable w s₁ oldpacket.mac yiaddr := fun l hl hnip => by
      have := hlease.claimable hcfg hinv.table hmac l (hsame.gLeases ▸ hl) hnip
      exact this.imp_right fun h => h.imp_right fun h => h.mono (Nat.le_of_eq hsame.readings.symm)
    -- the acknowledgement has been sent, and the table does not know of it yet
    have htable₁ : TableInv w cfg (fun c => False ∨ c = oldpacket.mac) s₁ := by
      refine hinv.table.note hsame (fun c q hq => ?_) fun c hc => .inl hc
      rw [hpromised] at hq
      split at hq
      · rename_i hc
        cases hq
        refine .inr ⟨hc ▸ hmac, fun hst => ?_, .inl (.inr hc.symm)⟩
        have := hlease
        rw [HasLease, hc, if_pos hst] at this
        exact this
      · exact .inl hq
    have htable₂ := htable₁.addLease hw oldpacket.chaddr oldpacket.hostname oldpacket.hostnameLen
      (fun _ => hmay) hclaim hlt
    have hlater := later_addLease w oldpacket.chaddr yiaddr (selectLeaseTime cfg oldpacket)
      oldpacket.hostname oldpacket.hostnameLen s₁
    -- a client without a static lease has an entry to replace
    have hroom : staticNip cfg oldpacket.mac = 0 →
        ((addLease w oldpacket.chaddr yiaddr (selectLeaseTime cfg oldpacket) oldpacket.hostname
          oldpacket.hostnameLen).run s₁).1 ≠ none := fun hst => by
      have := hlease
      rw [HasLease, if_neg (not_not.2 hst)] at this
      obtain ⟨l, hl, hlmac, -⟩ := this
      exact addLease_ne_none hw (hsame.gLeases.symm ▸ hl) hlmac hmac
    have hcovers := fun hst => addLease_covers hw hlt (hroom hst)
    refine Triple.bind (Q := fun _ s' => s' = ((addLease w oldpacket.chaddr yiaddr
      (selectLeaseTime cfg oldpacket) oldpacket.hostname oldpacket.hostnameLen).run s₁).2) ?_
      fun _ => ?_
    · rintro s rfl
      rfl
    generalize hs₂ : ((addLease w oldpacket.chaddr yiaddr (selectLeaseTime cfg oldpacket)
      oldpacket.hostname oldpacket.hostnameLen).run s₁).2 = s₂ at htable₂ hlater hcovers
    have htable : TableInv w cfg (fun _ => False) s₂ := by
      have hothers : TableInv w cfg (fun c => False ∨ c = oldpacket.mac) s₂ :=
        htable₂.weaken fun c hc => hc.elim id .inr
      refine hothers.restore ?_
      · intro q hq hst _
        rw [hlater.promised_eq, hpromised, if_pos rfl] at hq
        cases hq
        obtain ⟨hread, l, hl, hlmac, hlnip, hle⟩ := hcovers hst
        refine ⟨l, hl, hlmac, hlnip, Nat.le_trans (Nat.add_le_add_right (hw.mono ?_) _) hle⟩
        rw [hsame.readings] at hread
        exact Nat.le_of_lt hread
    cases hearly : cfg.writeLeasesEarly with
    | false =>
      refine triple_pure ?_
      rintro s' rfl
      exact ⟨htable, fun h => nomatch hearly.symm.trans h⟩
    | true =>
      rintro s' rfl
      exact ⟨htable.writeLeases, fun _ => fileInv_writeLeases hw htable⟩

/-- An offer of an address that the table, or a static lease, holds for the client. -/
theorem Inv.sendOfferPacket (hinv : Inv w cfg s) {leaseTimeSec : Nat} (hlt : leaseTimeSec < 2 ^ 32)
    (hback : Backed cfg (fun _ => False) s.gLeases oldpacket.mac
      ⟨yiaddr, w.time (s.readings - 1) + cfg.offerTime, false⟩) :
    Inv w cfg ((Udhcp.sendPacket w (offerPacket cfg oldpacket yiaddr leaseTimeSec) false).run s).2 := by
  cases hsent : w.sent s.packets with
  | false => exact hinv.lost hsent _ false
  | true =>
    have hsame := sameTable_sendPacket w (offerPacket cfg oldpacket yiaddr leaseTimeSec) false s
    have hhist := history_sendPacket hsent (offerPacket cfg oldpacket yiaddr leaseTimeSec) false
    generalize ((Udhcp.sendPacket w (offerPacket cfg oldpacket yiaddr leaseTimeSec) false).run s).2 = s₁
      at hsame hhist ⊢
    have hnew : ∀ c q, s₁.promised w cfg c = some q → s.promised w cfg c = some q ∨
        c = oldpacket.mac ∧ q = ⟨yiaddr, w.time (s.readings - 1) + cfg.offerTime, false⟩ := by
      intro c q hq
      rw [promised_concat hhist, note_offer hlt] at hq
      split at hq
      · rename_i hc
        exact .inr ⟨hc.symm, (Option.some.inj hq).symm⟩
      · exact .inl hq
    refine ⟨hinv.table.note hsame (fun c q hq => ?_) fun _ hc => hc,
      fun hearly => (hinv.file hearly).note hsame (fun c q hq => ?_) fun _ hc => hc⟩
    · rcases hnew c q hq with hold | ⟨rfl, rfl⟩
      · exact .inl hold
      · exact .inr hback
    · rcases hnew c q hq with hold | ⟨-, rfl⟩
      · exact .inl hold
      · exact .inr (.inl rfl)

/-- **`send_offer`**. -/
theorem triple_sendOffer (hw : w.Regular) (hcfg : cfg.Regular) (hmac : oldpacket.mac ≠ 0)
    (hreq : staticNip cfg oldpacket.mac = 0 →
      ∀ o, oldpacket.getOption DHCP_REQUESTED_IP = some o → cfg.InPool o.u32 →
        isNipReserved cfg.staticLeases o.u32 = false)
    (hinv : Inv w cfg s) (hnone : s.promised w cfg oldpacket.mac = none) :
    Triple (· = s) (sendOffer w cfg oldpacket) fun _ s' => Inv w cfg s' := by
  unfold sendOffer
  dsimp only
  split
  · rename_i hst
    rintro s rfl
    refine hinv.sendOfferPacket cfg.maxLeaseSec_lt ?_
    exact ⟨hmac, fun _ => rfl, .inr fun h0 => absurd h0 hst⟩
  · rename_i hst
    rw [not_not] at hst
    have hchoose : Triple (· = s) (chooseNip w cfg oldpacket)
        (Choice w cfg (fun _ => False) s oldpacket.mac) := by
      rintro s rfl
      exact triple_chooseNip hw hcfg hmac (hreq hst) s ⟨hinv.table, Later.refl s⟩
    refine Triple.bind hchoose fun yiaddr => ?_
    have hfile : ∀ s', Later s s' → cfg.writeLeasesEarly = true →
        FileInv w cfg (fun _ => False) s' := fun s' hl he => (hinv.file he).later hl
    split
    · exact triple_pure fun s₁ h₁ => ⟨h₁.1, hfile s₁ h₁.2.1⟩
    · rename_i hne
      rintro s₁ ⟨htable₁, hlater₁, hchoice⟩
      obtain ⟨hmay, hclaim⟩ := hchoice hne
      have htable₂ := htable₁.addLease hw oldpacket.chaddr oldpacket.hostname oldpacket.hostnameLen
        (fun _ => hmay) hclaim hcfg.offerTime
      have hlater₂ := hlater₁.trans (later_addLease w oldpacket.chaddr yiaddr cfg.offerTime
        oldpacket.hostname oldpacket.hostnameLen s₁)
      have hcovers : ((addLease w oldpacket.chaddr yiaddr cfg.offerTime oldpacket.hostname
          oldpacket.hostnameLen).run s₁).1 ≠ none → _ := addLease_covers hw hcfg.offerTime
      refine Triple.bind (P := (· = s₁)) (R := fun _ s' => Inv w cfg s') (Q := fun r s' => r = ((addLease w oldpacket.chaddr yiaddr
        cfg.offerTime oldpacket.hostname oldpacket.hostnameLen).run s₁).1 ∧
        s' = ((addLease w oldpacket.chaddr yiaddr cfg.offerTime oldpacket.hostname
          oldpacket.hostnameLen).run s₁).2) ?_ (fun r => ?_) s₁ rfl
      · rintro s rfl
        exact ⟨rfl, rfl⟩
      generalize hs₂ : ((addLease w oldpacket.chaddr yiaddr cfg.offerTime oldpacket.hostname
        oldpacket.hostnameLen).run s₁).2 = s₂ at htable₂ hlater₂ hcovers
      -- the client itself has been promised nothing since its `DISCOVER`
      have hinv₂ : Inv w cfg s₂ := by
        refine ⟨htable₂.restore fun q hq => ?_, hfile s₂ hlater₂⟩
        exact nomatch hnone.symm.trans ((hlater₂.promised_eq _).symm.trans hq)
      refine Triple.intro fun hr => ?_
      cases r with
      | none =>
        refine triple_pure ?_
        rintro s' rfl
        exact hinv₂
      | some i =>
        rintro s' rfl
        obtain ⟨-, hcov⟩ := hcovers (by rw [← hr]; exact Option.some_ne_none i)
        refine hinv₂.sendOfferPacket (selectLeaseTime_lt_word cfg oldpacket) ?_
        exact ⟨hmac, fun h => absurd hst h, .inr fun _ => hcov⟩

/-! ## Requests and what changes an entry -/

/-- A store to an entry that keeps the address, and the client or none. -/
theorem TableInv.setLease (h : TableInv w cfg ex s) (mac : Mac) {f : DynLease → DynLease}
    (hnip : ∀ l, (f l).leaseNip = l.leaseNip)
    (hmac : ∀ l, (f l).leaseMac = l.leaseMac ∨ (f l).leaseMac = 0)
    (hbound : ∀ l ∈ s.gLeases, ∀ k, s.readings ≤ k → (f l).expires < w.time k + 2 ^ 31)
    (hgone : ∀ l, s.gLeases[i]? = some l → l.leaseMac = mac ∨ s.Past w l.expires) :
    TableInv w cfg (fun c => ex c ∨ c = mac) (s.setLease i f) := by
  refine h.step rfl (Nat.le_refl _) (h.ok.modify hnip hmac) (List.length_modify _ _ _) ?_ ?_
    fun c hc => .inl hc
  · intro l hl
    rcases mem_modify hl with hl | ⟨a, ha, rfl⟩
    · exact .inl hl
    · exact .inr (hbound a (List.mem_of_getElem? ha))
  · intro l hl _ hex hlive
    refine ⟨l, mem_modify_of_ne hl fun heq => ?_, rfl, rfl, Nat.le_refl _⟩
    rcases hgone l heq with hm | hp
    · exact hex (.inr hm)
    · exact hlive hp

theorem Inv.later (h : Inv w cfg s) (hl : Later s s') (htable : TableInv w cfg (fun _ => False) s') :
    Inv w cfg s' :=
  ⟨htable, fun hearly => (h.file hearly).later hl⟩

theorem LeasePtr.nip_of_lookupLease {lease : LeasePtr} (h : lookupLease cfg s mac = some lease) :
    HasLease cfg s mac (lease.nip s) := by
  unfold lookupLease at h
  unfold HasLease
  dsimp only at h
  split at h
  · rename_i hst
    cases h
    rw [if_pos hst]
    rfl
  · rename_i hst
    obtain ⟨i, hi, rfl⟩ := Option.map_eq_some_iff.1 h
    obtain ⟨l, hl, hmac⟩ := findLeaseByMac_eq_some hi
    rw [if_neg hst]
    refine ⟨l, List.mem_of_getElem? hl, hmac, ?_⟩
    rw [LeasePtr.nip, Server.lease_eq hl]

theorem triple_sendNak (hinv : Inv w cfg s) :
    Triple (· = s) (discard (sendNak w cfg packet)) fun _ s' => Inv w cfg s' := by
  rintro s rfl
  exact hinv.sendPacket fun _ _ => silent_nak

/-- **`DHCPREQUEST`**. -/
theorem triple_handleRequest (hw : w.Regular) (hcfg : cfg.Regular) (hmac : packet.mac ≠ 0)
    (hinv : Inv w cfg s) :
    Triple (· = s) (handleRequest w cfg packet (lookupLease cfg s packet.mac))
      fun _ s' => Inv w cfg s' := by
  have hack : ∀ lease, lookupLease cfg s packet.mac = some lease →
      Triple (· = s) (discard (sendAck w cfg packet (lease.nip s))) fun _ s' => Inv w cfg s' := by
    intro lease hl s' hs'
    exact triple_sendAck hw hcfg hmac hinv (LeasePtr.nip_of_lookupLease hl) s' hs'
  have hnak : Triple (· = s) (discard (sendNak w cfg packet)) fun _ s' => Inv w cfg s' :=
    triple_sendNak hinv
  have hpure : Triple (· = s) (pure () : StateM Server Unit) fun _ s' => Inv w cfg s' :=
    triple_pure fun s' hs' => hs' ▸ hinv
  refine triple_get_bind ?_
  rintro s' rfl
  dsimp only
  cases hlease : lookupLease cfg s' packet.mac with
  | some lease =>
    cases (packet.getOption DHCP_SERVER_ID).map OptionAt.u32 with
    | some serverIdNet =>
      dsimp only
      split
      · exact hack lease hlease
      · exact hpure
    | none =>
      cases (packet.getOption DHCP_REQUESTED_IP).map OptionAt.u32 with
      | some requestedNip =>
        dsimp only
        split
        · exact hack lease hlease
        · exact hnak
      | none =>
        dsimp only
        split
        · exact hack lease hlease
        · exact hnak
  | none =>
    cases (packet.getOption DHCP_SERVER_ID).map OptionAt.u32 with
    | some serverIdNet => exact hpure
    | none =>
      cases (packet.getOption DHCP_REQUESTED_IP).map OptionAt.u32 with
      | none => exact hpure
      | some requestedNip =>
        dsimp only
        cases hfind : findLeaseByNip s'.gLeases requestedNip with
        | none =>
          dsimp only
          split
          · exact hnak
          · exact hpure
        | some i =>
          refine Triple.bind (triple_isExpiredLease hw s' i hinv.table) fun b => ?_
          cases b with
          | false =>
            rintro s₁ ⟨htable₁, hlater, -, -⟩
            exact triple_sendNak (hinv.later hlater htable₁) s₁ rfl
          | true =>
            rintro s₁ ⟨htable₁, hlater, hsame, hpast⟩
            have hset := htable₁.setLease 0 (i := i) (f := fun l => { l with leaseMac := 0 })
              (fun _ => rfl) (fun _ => .inr rfl) htable₁.bounded fun l hl => .inr (by
                have := hpast rfl
                rwa [Server.lease_eq hl] at this)
            exact hinv.later ⟨hlater.history, hlater.leaseFile, hlater.readings⟩ hset.of_zero

theorem triple_store (hw : w.Regular) {f : Nat → DynLease → DynLease}
    (hnip : ∀ t l, (f t l).leaseNip = l.leaseNip)
    (hfmac : ∀ t l, (f t l).leaseMac = l.leaseMac ∨ (f t l).leaseMac = 0)
    (hbound : ∀ k l, (f (w.time k) l).expires < w.time k + 2 ^ 31)
    (hinv : Inv w cfg s) (hnone : s.promised w cfg mac = none) {lease : LeasePtr}
    (hlease : lookupLease cfg s mac = some lease) :
    Triple (· = s) (do
      let now ← time w
      lease.store (f now)) fun _ s' => Inv w cfg s' := by
  rintro s' rfl
  cases lease with
  | fake nip => exact hinv.later ⟨rfl, rfl, Nat.le_succ _⟩ hinv.table.tick
  | entry i =>
    have hlater : Later s' (Server.setLease { s' with readings := s'.readings + 1 } i
        (f (w.time s'.readings))) := ⟨rfl, rfl, Nat.le_succ _⟩
    refine hinv.later hlater ?_
    have hmac : ∀ l, s'.gLeases[i]? = some l → l.leaseMac = mac := by
      intro l hl
      unfold lookupLease at hlease
      dsimp only at hlease
      split at hlease
      · cases hlease
      · obtain ⟨j, hj, hij⟩ := Option.map_eq_some_iff.1 hlease
        cases hij
        obtain ⟨l', hl', hm⟩ := findLeaseByMac_eq_some hj
        rw [hl] at hl'
        cases hl'
        exact hm
    have hset := hinv.table.tick.setLease mac (i := i) (f := f (w.time s'.readings))
      (hnip _) (hfmac _) (fun l _ k hk => ?_) fun l hl => .inl (hmac l hl)
    · refine hset.restore fun q hq => ?_
      have hnone' : s'.promised w cfg mac = some q := hq
      rw [hnone] at hnone'
      cases hnone'
    · have hmono : w.time s'.readings ≤ w.time k := hw.mono (Nat.le_trans (Nat.le_succ _) hk)
      have := hbound s'.readings l
      omega

/-! ## Packets -/

theorem scanFields_flags (p : DhcpPacket) (f : BitVec 16) (code : Byte) (n rem : Nat)
    (ptr : List Byte) (overload : BitVec 16) :
    scanFields { p with flags := f } code n rem ptr overload =
      scanFields p code n rem ptr overload := by
  induction n generalizing rem ptr overload with
  | zero => rfl
  | succ n ih =>
    rw [scanFields, scanFields]
    simp only [ih]
    rfl

theorem recvKernelPacket_flags {p' : DhcpPacket} (h : recvKernelPacket p = some p') :
    ∃ f, p' = { p with flags := f } := by
  unfold recvKernelPacket at h
  split at h
  · cases h
  · cases h
    cases p.getOption DHCP_VENDOR with
    | none => exact ⟨p.flags, rfl⟩
    | some vendor =>
      dsimp only
      split
      · exact ⟨_, rfl⟩
      · exact ⟨p.flags, rfl⟩

theorem recvKernelPacket_eq_some {p' : DhcpPacket} (h : recvKernelPacket p = some p') :
    p'.mac = p.mac ∧ ∀ code, p'.getOption code = p.getOption code := by
  obtain ⟨f, rfl⟩ := recvKernelPacket_flags h
  exact ⟨rfl, fun code => scanFields_flags p f code 3 _ _ _⟩

theorem DhcpPacket.messageType_congr {p' : DhcpPacket}
    (h : ∀ code, p'.getOption code = p.getOption code) : p'.messageType = p.messageType := by
  rw [DhcpPacket.messageType, h]
  rfl

theorem triple_handleMessage (hw : w.Regular) (hcfg : cfg.Regular) {state : Byte}
    (hmac : packet.mac ≠ 0)
    (hreq : state = DHCPDISCOVER → staticNip cfg packet.mac = 0 →
      ∀ o, packet.getOption DHCP_REQUESTED_IP = some o → cfg.InPool o.u32 →
        isNipReserved cfg.staticLeases o.u32 = false)
    (hinv : Inv w cfg s)
    (hnone : state = DHCPDISCOVER ∨ state = DHCPDECLINE ∨ state = DHCPRELEASE →
      s.promised w cfg packet.mac = none) :
    Triple (· = s) (handleMessage w cfg packet state) fun _ s' => Inv w cfg s' := by
  have hpure : Triple (· = s) (pure () : StateM Server Unit) fun _ s' => Inv w cfg s' :=
    triple_pure fun s' hs' => hs' ▸ hinv
  refine triple_get_bind ?_
  rintro s' rfl
  dsimp only
  split
  · rename_i hstate
    exact triple_sendOffer hw hcfg hmac (hreq hstate) hinv (hnone (.inl hstate))
  split
  · exact triple_handleRequest hw hcfg hmac hinv
  split
  · rename_i hstate
    cases hlease : lookupLease cfg s' packet.mac with
    | none => exact hpure
    | some lease =>
      refine triple_store hw (f := fun now l =>
        { l with leaseMac := 0, expires := leasetime (now + cfg.declineTime) }) (fun _ _ => rfl)
        (fun _ _ => .inr rfl) (fun k l => ?_) hinv (hnone (.inr (.inl hstate))) hlease
      change leasetime (w.time k + cfg.declineTime) < _
      rw [leasetime_time_add hw k hcfg.declineTime]
      exact Nat.add_lt_add_left hcfg.declineTime _
  split
  · rename_i hstate
    cases hlease : lookupLease cfg s' packet.mac with
    | none => exact hpure
    | some lease =>
      refine triple_store hw (f := fun now l => { l with expires := leasetime now }) (fun _ _ => rfl)
        (fun _ _ => .inl rfl) (fun k l => ?_) hinv (hnone (.inr (.inr hstate))) hlease
      change leasetime (w.time k) < _
      rw [leasetime_time hw k]
      exact Nat.lt_add_of_pos_right (by decide)
  split
  · rintro s rfl
    exact hinv.sendPacket fun _ _ => silent_inform
  · exact hpure

/-- **A packet** of a client. -/
theorem triple_handlePacket (hw : w.Regular) (hcfg : cfg.Regular) (hfair : Fair cfg p)
    (hinv : Inv w cfg s) :
    Triple (· = s) (handlePacket w cfg p) fun _ s' => Inv w cfg s' := by
  refine Triple.bind (Q := fun _ s' => s' = { s with history := s.history ++ [.received p] }) ?_
    fun _ => ?_
  · rintro s rfl
    rfl
  generalize hs₁ : ({ s with history := s.history ++ [.received p] } : Server) = s₁
  have hhist : s₁.history = s.history ++ [.received p] := by rw [← hs₁]
  have hinv₁ : Inv w cfg s₁ := by
    subst hs₁
    exact hinv.silent ⟨rfl, rfl, rfl⟩ rfl (silent_received p)
  have hpure : Triple (· = s₁) (pure () : StateM Server Unit) fun _ s' => Inv w cfg s' :=
    triple_pure fun s' hs' => hs' ▸ hinv₁
  cases hrecv : recvKernelPacket p with
  | none => exact hpure
  | some packet =>
    obtain ⟨hmac, hopt⟩ := recvKernelPacket_eq_some hrecv
    have htype := DhcpPacket.messageType_congr hopt
    dsimp only
    split
    · exact hpure
    · cases hstate : packet.messageType with
      | none => exact hpure
      | some state =>
        refine triple_handleMessage hw hcfg (hmac ▸ hfair.mac) (fun hd hst o ho => ?_) hinv₁
          fun hd => ?_
        · refine hfair.requested ?_ (hmac ▸ hst) o (hopt _ ▸ ho)
          rw [← htype, hstate, hd]
        · rw [promised_concat hhist, note, ← htype, hstate, hmac]
          refine if_pos ⟨rfl, ?_⟩
          rcases hd with rfl | rfl | rfl
          · exact .inl rfl
          · exact .inr (.inl rfl)
          · exact .inr (.inr rfl)

end Steps

end N32905.Udhcp
