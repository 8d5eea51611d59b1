import N32905.Udhcp.Promises

/-!
# Choosing an address to offer

Whatever way `send_offer` takes, the address it ends with may be the client's and is nobody
else's.
-/

namespace N32905.Udhcp

open N32905.Lib

section Choosing
variable {w : World} {cfg : ServerConfig} {ex : Mac → Prop} {s₀ s : Server} {mac safeMac : Mac}
  {nip : BitVec 32} {addr n : Nat} {oldest : Option Nat} {oldpacket : DhcpPacket}

/-- An address for the client `mac`, `s₀` being the state before. -/
def Choice (w : World) (cfg : ServerConfig) (ex : Mac → Prop) (s₀ : Server) (mac : Mac)
    (nip : BitVec 32) (s : Server) : Prop :=
  TableInv w cfg ex s ∧ Later s₀ s ∧ (nip ≠ 0 → MayHave cfg mac nip ∧ Claimable w s mac nip)

theorem choice_zero (h : TableInv w cfg ex s) (hl : Later s₀ s) : Choice w cfg ex s₀ mac 0 s :=
  ⟨h, hl, fun hne => absurd rfl hne⟩

theorem past_of_leaseNip_eq {i : Nat} {l l' : DynLease} (h : TableInv w cfg ex s)
    (hl : s.gLeases[i]? = some l) (hnip : l.leaseNip = nip) (hne : nip ≠ 0)
    (hpast : s.Past w l.expires) (hl' : l' ∈ s.gLeases) (hnip' : l'.leaseNip = nip) :
    s.Past w l'.expires := by
  obtain rfl := h.ok.nips.eq_of_mem (List.mem_of_getElem? hl) hl' (hnip.trans hnip'.symm)
    (by rwa [hnip])
  exact hpast

theorem triple_nobodyRespondsToArp (hw : w.Regular) (hcfg : cfg.Regular) (h : TableInv w cfg ex s)
    (hclaim : ∀ l ∈ s.gLeases, l.leaseNip = nip → s.Past w l.expires) :
    Triple (· = s) (nobodyRespondsToArp w cfg nip safeMac) fun b s' =>
      TableInv w cfg ex s' ∧ Later s s' ∧
      (b = true → s'.gLeases = s.gLeases ∧ s'.readings = s.readings) ∧
      (b = false → (∀ l ∈ s.gLeases, l.leaseNip ≠ nip) → ∀ i < s.gLeases.length,
        (s'.lease i).leaseNip = (s.lease i).leaseNip ∨ (s'.lease i).leaseNip = nip) := by
  refine Triple.bind (Q := fun b s' => s' = { s with probes := s.probes + 1 }) ?_ fun b => ?_
  · rintro s rfl
    rfl
  cases b with
  | true =>
    rintro s' rfl
    exact ⟨h.probe _, ⟨rfl, rfl, Nat.le_refl _⟩, fun _ => ⟨rfl, rfl⟩, fun h => nomatch h⟩
  | false =>
    rw [if_neg Bool.false_ne_true]
    refine Triple.bind (Q := fun _ s' => s' = ((addLease w 0 nip cfg.conflictTime none 0).run
      { s with probes := s.probes + 1 }).2) ?_ fun _ => triple_pure ?_
    · rintro s' rfl
      rfl
    · rintro s' rfl
      have hprobe := h.probe (s.probes + 1)
      have hlater : Later s { s with probes := s.probes + 1 } := ⟨rfl, rfl, Nat.le_refl _⟩
      exact ⟨hprobe.reserve hw hcfg fun l hl hnip => (hclaim l hl hnip).mono (Nat.le_refl _),
        hlater.trans (later_addLease w 0 nip cfg.conflictTime none 0 _),
        (fun h => nomatch h), fun _ hfree i hi => leaseNip_addLease_zero (s := { s with probes := s.probes + 1 }) hfree i hi⟩

/-- The entry that may be taken over is in the table, and its address is spare. -/
def SpareEntry (cfg : ServerConfig) (oldest : Option Nat) (s : Server) : Prop :=
  ∀ o, oldest = some o → o < s.gLeases.length ∧ Spare cfg (s.lease o).leaseNip

theorem triple_reuseOldest (hw : w.Regular) (hcfg : cfg.Regular) :
    Triple (fun s => TableInv w cfg ex s ∧ Later s₀ s ∧ SpareEntry cfg oldest s)
      (reuseOldest w cfg safeMac oldest) (Choice w cfg ex s₀ mac) := by
  cases oldest with
  | none => exact triple_pure fun s hs => choice_zero hs.1 hs.2.1
  | some o =>
    rintro s ⟨hinv, hlater, hspare⟩
    obtain ⟨ho, hspare⟩ := hspare o rfl
    refine Triple.bind (triple_isExpiredLease hw s o hinv) (fun b => ?_) s rfl
    cases b with
    | false => exact triple_pure fun s₁ h₁ => choice_zero h₁.1 (hlater.trans h₁.2.1)
    | true =>
      refine triple_get_bind ?_
      rintro s₁ ⟨hinv₁, hlater₁, hsame₁, hpast⟩
      have hlease : s₁.lease o = s.lease o := congrArg (List.getD · o 0) hsame₁
      have hpast := hpast rfl
      rw [← hlease] at hspare
      have hget : s₁.gLeases[o]? = some (s₁.lease o) := by
        have hlt : o < s₁.gLeases.length := hsame₁ ▸ ho
        rw [Server.lease, List.getD_eq_getElem?_getD, List.getElem?_eq_getElem hlt]
        rfl
      have hclaim : ∀ l ∈ s₁.gLeases, l.leaseNip = (s₁.lease o).leaseNip → s₁.Past w l.expires :=
        fun l hl hnip => past_of_leaseNip_eq hinv₁ hget rfl hspare.ne hpast hl hnip
      refine Triple.bind (triple_nobodyRespondsToArp hw hcfg hinv₁ hclaim) fun b => ?_
      cases b with
      | false => exact triple_pure fun s₂ h₂ => choice_zero h₂.1 ((hlater.trans hlater₁).trans h₂.2.1)
      | true =>
        refine triple_get_bind ?_
        rintro s₂ ⟨hinv₂, hlater₂, hsame₂, -⟩
        refine triple_pure ?_
        rintro s₂ rfl
        have hlease₂ : s₂.lease o = s₁.lease o := congrArg (List.getD · o 0) (hsame₂ rfl).1
        rw [hlease₂]
        refine ⟨hinv₂, (hlater.trans hlater₁).trans hlater₂, fun _ => ⟨hspare.mayHave mac, ?_⟩⟩
        intro l hl hnip
        rw [(hsame₂ rfl).1] at hl
        exact .inr (.inr ((hclaim l hl hnip).mono hlater₂.readings))

theorem spare_ntohl (hstart : cfg.startIp.toNat ≤ addr) (hend : addr < cfg.endIp.toNat + 1)
    (hzero : addr &&& 0xff ≠ 0)
    (hres : isNipReserved cfg.staticLeases (ntohl (BitVec.ofNat 32 addr)) = false) :
    Spare cfg (ntohl (BitVec.ofNat 32 addr)) := by
  have hlt : addr < 2 ^ 32 := Nat.lt_of_lt_of_le hend cfg.endIp.isLt
  have hnat : (BitVec.ofNat 32 addr).toNat = addr := by
    rw [BitVec.toNat_ofNat, Nat.mod_eq_of_lt hlt]
  refine ⟨fun hne => hzero ?_, ⟨?_, ?_⟩, hres⟩
  · have haddr : BitVec.ofNat 32 addr = 0 := by
      rw [← ntohl_ntohl (BitVec.ofNat 32 addr), hne]
      decide
    rw [← hnat, haddr]
    rfl
  · rw [ntohl_ntohl, BitVec.le_def, hnat]
    exact hstart
  · rw [ntohl_ntohl, BitVec.le_def, hnat]
    exact Nat.le_of_lt_succ hend

theorem triple_findFreeFrom (hw : w.Regular) (hcfg : cfg.Regular)
    (hstart : cfg.startIp.toNat ≤ addr) (hend : n = 0 ∨ addr + n ≤ cfg.endIp.toNat + 1) :
    Triple (fun s => TableInv w cfg ex s ∧ Later s₀ s ∧ SpareEntry cfg oldest s)
      (findFreeFrom w cfg safeMac n addr oldest) (Choice w cfg ex s₀ mac) := by
  induction n generalizing addr oldest with
  | zero => exact triple_reuseOldest hw hcfg
  | succ n ih =>
    have hnext : ∀ oldest, Triple
        (fun s => TableInv w cfg ex s ∧ Later s₀ s ∧ SpareEntry cfg oldest s)
        (findFreeFrom w cfg safeMac n (addr + 1) oldest) (Choice w cfg ex s₀ mac) :=
      fun _ => ih (by omega) (by omega)
    rw [findFreeFrom]
    split
    · exact hnext _
    rename_i hzero
    split
    · exact hnext _
    dsimp only
    cases hres : isNipReserved cfg.staticLeases (ntohl (BitVec.ofNat 32 addr)) with
    | true => exact hnext _
    | false =>
      have hspare := spare_ntohl hstart (by omega) hzero hres
      refine triple_get_bind ?_
      rintro s ⟨hinv, hlater, hentry⟩
      cases hfind : findLeaseByNip s.gLeases (ntohl (BitVec.ofNat 32 addr)) with
      | none =>
        have hfree : ∀ l ∈ s.gLeases, l.leaseNip ≠ ntohl (BitVec.ofNat 32 addr) :=
          fun l hl => findLeaseByNip_eq_none hfind hl
        refine Triple.bind (triple_nobodyRespondsToArp hw hcfg hinv
          fun l hl hnip => absurd hnip (hfree l hl)) fun b => ?_
        cases b with
        | true =>
          refine triple_pure ?_
          rintro s₁ ⟨hinv₁, hlater₁, hsame, -⟩
          refine ⟨hinv₁, hlater.trans hlater₁,
            fun _ => ⟨hspare.mayHave mac, fun l hl hnip => absurd hnip (hfree l ?_)⟩⟩
          rwa [(hsame rfl).1] at hl
        | false =>
          refine (hnext oldest).mono ?_ fun _ _ h => h
          rintro s₁ ⟨hinv₁, hlater₁, -, hnips⟩
          refine ⟨hinv₁, hlater.trans hlater₁, fun o ho => ?_⟩
          obtain ⟨hlt, hsp⟩ := hentry o ho
          refine ⟨by rwa [hinv₁.length, ← hinv.length], ?_⟩
          rcases hnips rfl hfree o hlt with heq | heq
          · rwa [heq]
          · rwa [heq]
      | some i =>
        obtain ⟨l, hl, hnip⟩ := findLeaseByNip_eq_some hfind
        have hthis : ∀ o, some i = some o → o < s.gLeases.length ∧ Spare cfg (s.lease o).leaseNip := by
          rintro o ho
          cases ho
          rw [Server.lease_eq hl, hnip]
          exact ⟨(List.getElem?_eq_some_iff.1 hl).1, hspare⟩
        refine (hnext _).mono ?_ fun _ _ h => h
        rintro s rfl
        refine ⟨hinv, hlater, fun o ho => ?_⟩
        rcases ite_eq_iff.1 ho with ⟨-, ho⟩ | ⟨-, ho⟩
        · exact hthis o ho
        · exact hentry o ho

theorem triple_findFreeOrExpiredNip (hw : w.Regular) (hcfg : cfg.Regular) :
    Triple (fun s => TableInv w cfg ex s ∧ Later s₀ s) (findFreeOrExpiredNip w cfg safeMac)
      (Choice w cfg ex s₀ mac) :=
  (triple_findFreeFrom hw hcfg (Nat.le_refl _) (by omega)).mono
    (fun _ hs => ⟨hs.1, hs.2, fun _ h => nomatch h⟩) fun _ _ h => h

/-- **The address of an offer**: the client's own, the one it asks for, or a spare one. -/
theorem triple_chooseNip (hw : w.Regular) (hcfg : cfg.Regular) (hmac : oldpacket.mac ≠ 0)
    (hreq : ∀ o, oldpacket.getOption DHCP_REQUESTED_IP = some o → cfg.InPool o.u32 →
      isNipReserved cfg.staticLeases o.u32 = false) :
    Triple (fun s => TableInv w cfg ex s ∧ Later s₀ s) (chooseNip w cfg oldpacket)
      (Choice w cfg ex s₀ oldpacket.mac) := by
  have hsearch : Triple (fun s => TableInv w cfg ex s ∧ Later s₀ s)
      (findFreeOrExpiredNip w cfg oldpacket.mac) (Choice w cfg ex s₀ oldpacket.mac) :=
    triple_findFreeOrExpiredNip hw hcfg
  refine triple_get_bind ?_
  rintro s ⟨hinv, hlater⟩
  have hhere : Triple (· = s) (findFreeOrExpiredNip w cfg oldpacket.mac)
      (Choice w cfg ex s₀ oldpacket.mac) :=
    hsearch.mono (fun s' h => h ▸ ⟨hinv, hlater⟩) fun _ _ h => h
  cases hfind : findLeaseByMac s.gLeases oldpacket.mac with
  | some i =>
    obtain ⟨l, hl, hlmac⟩ := findLeaseByMac_eq_some hfind
    have hmay := hinv.ok.owned l (List.mem_of_getElem? hl) (hlmac ▸ hmac)
    rw [hlmac] at hmay
    rintro s' rfl
    change Choice w cfg ex s₀ oldpacket.mac (s'.lease i).leaseNip { s' with readings := s'.readings + 1 }
    rw [Server.lease_eq hl]
    refine ⟨hinv.tick, hlater.trans ⟨rfl, rfl, Nat.le_succ _⟩, fun _ => ⟨hmay, ?_⟩⟩
    intro l' hl' hnip
    rw [hinv.ok.nips.eq_of_mem hl' (List.mem_of_getElem? hl) hnip (hnip ▸ hmay.ne)]
    exact .inl hlmac
  | none =>
    cases hopt : oldpacket.getOption DHCP_REQUESTED_IP with
    | none => exact hhere
    | some o =>
      dsimp only
      split
      · rename_i hpool
        have hspare : o.u32 ≠ 0 → MayHave cfg oldpacket.mac o.u32 := fun hne =>
          Spare.mayHave ⟨hne, hpool, hreq o hopt hpool⟩ _
        cases hnipfind : findLeaseByNip s.gLeases o.u32 with
        | none =>
          refine triple_pure ?_
          rintro s' rfl
          exact ⟨hinv, hlater, fun hne => ⟨hspare hne,
            fun l hl hnip => absurd hnip (findLeaseByNip_eq_none hnipfind hl)⟩⟩
        | some i =>
          obtain ⟨l, hl, hnip⟩ := findLeaseByNip_eq_some hnipfind
          refine Triple.bind (triple_isExpiredLease hw s i hinv) fun b => ?_
          cases b with
          | false =>
            exact hsearch.mono (fun s₁ h₁ => ⟨h₁.1, hlater.trans h₁.2.1⟩) fun _ _ h => h
          | true =>
            refine triple_pure ?_
            rintro s₁ ⟨hinv₁, hlater₁, hsame, hpast⟩
            refine ⟨hinv₁, hlater.trans hlater₁,
              fun hne => ⟨hspare hne, fun l' hl' hnip' => .inr (.inr ?_)⟩⟩
            have hl₁ : s₁.gLeases[i]? = some l := hsame ▸ hl
            have hpast := hpast rfl
            rw [Server.lease_eq hl₁] at hpast
            exact past_of_leaseNip_eq hinv₁ hl₁ hnip hne hpast hl' hnip'
      · exact hhere

end Choosing

end N32905.Udhcp
