import N32905.Udhcp.Safety

/-!
# Restarts, and runs

A server that is restarted soon after its last write finds every lease in its file again. From
this and from what each packet keeps: in no run is an address promised to two clients.
-/

namespace N32905.Udhcp

open N32905.Lib

section Reading
variable {w : World} {cfg : ServerConfig} {ex : Mac → Prop} {s₀ s s' : Server} {f : LeaseFile}
  {done rest : List DynLease} {k₀ : Nat} {a : DynLease}

theorem toInt_remaining {n p : Nat} (hn : n < 2 ^ 31) (hp : p < 2 ^ 31) :
    (BitVec.ofNat 32 n - BitVec.ofInt 32 (p : Int)).toInt = (n : Int) - p := by
  have htoInt : ∀ m < 2 ^ 31, (BitVec.ofNat 32 m).toInt = m := fun m hm => by
    rw [BitVec.toInt_eq_toNat_cond, BitVec.toNat_ofNat, Nat.mod_eq_of_lt (by omega),
      if_pos (by omega)]
  rw [BitVec.ofInt_natCast, BitVec.toInt_sub, htoInt n hn, htoInt p hp, Int.bmod_def]
  omega

theorem macOf_chaddr (l : DynLease) : macOf l.chaddr = l.leaseMac := by
  apply List.Vector.eq
  exact List.take_left' l.leaseMac.toList_length

/-- What has been read of the file, up to `rest`. -/
structure ReadSoFar (w : World) (cfg : ServerConfig) (f : LeaseFile) (done : List DynLease)
    (s : Server) : Prop where
  table : TableInv w cfg (fun _ => True) s
  origin : ∀ l ∈ s.gLeases, l.leaseNip ≠ 0 →
    ∃ a ∈ done, a.leaseNip = l.leaseNip ∧ a.leaseMac = l.leaseMac
  blank : ∀ l ∈ s.gLeases, l.leaseNip = 0 → l.expires = 0
  kept : ∀ a ∈ done, a.leaseMac ≠ 0 → cfg.InPool a.leaseNip →
    ¬ s.Past w (f.writtenAt + a.expires) →
    Covers s.gLeases a.leaseMac a.leaseNip (f.writtenAt + a.expires)

theorem ReadSoFar.skip (h : ReadSoFar w cfg f done s)
    (ha : a.leaseMac ≠ 0 → cfg.InPool a.leaseNip → s.Past w (f.writtenAt + a.expires)) :
    ReadSoFar w cfg f (done ++ [a]) s where
  table := h.table
  origin l hl hne := by
    obtain ⟨b, hb, heq⟩ := h.origin l hl hne
    exact ⟨b, List.mem_append_left _ hb, heq⟩
  blank := h.blank
  kept b hb hmac hpool hlive := by
    rcases List.mem_append.1 hb with hb | hb
    · exact h.kept b hb hmac hpool hlive
    · obtain rfl := List.mem_singleton.1 hb
      exact absurd (ha hmac hpool) hlive

section Add
variable (hw : w.Regular) (h : ReadSoFar w cfg f done s) (hok : TableOk cfg f.leases)
  (hlen : f.leases.length ≤ cfg.slots) (hused : ∀ l ∈ f.leases, l.leaseNip ≠ 0)
  (hsplit : f.leases = done ++ a :: rest)

include hok hused hsplit in
theorem ne_of_split {b : DynLease} (hb : b ∈ done) :
    b.leaseNip ≠ a.leaseNip ∧ (b.leaseMac ≠ 0 → b.leaseMac ≠ a.leaseMac) := by
  have hbm : b ∈ f.leases := hsplit ▸ List.mem_append_left _ hb
  have hnips := hok.nips
  have hmacs := hok.macs
  rw [hsplit] at hnips hmacs
  have hpair : ∀ {κ : Type} {key : DynLease → κ} {blank : κ},
      Distinct key blank (done ++ a :: rest) → key b = key a → key b = blank := fun hd heq =>
    (List.pairwise_append.1 hd).2.2 b hb a List.mem_cons_self heq
  exact ⟨fun heq => hused b hbm (hpair hnips heq), fun hne heq => hne (hpair hmacs heq)⟩

include hw h hlen hsplit in
theorem addLease_ne_none_of_split (leaseTime : Nat) (hostname : Option (List Byte))
    (hostnameLen : Nat) :
    ((addLease w a.chaddr a.leaseNip leaseTime hostname hostnameLen).run s).1 ≠ none := by
  intro hnone
  rcases addLease_cases w a.chaddr a.leaseNip leaseTime hostname hostnameLen s with
    ⟨-, hfull⟩ | ⟨i, l, -, -, hrun⟩
  · have hnonzero : ∀ l ∈ clearLease a.chaddr a.leaseNip s.gLeases, l.expires ≠ 0 := fun l hl h0 => by
      have hle := hfull l hl
      rw [h0, leasetime_time hw] at hle
      exact absurd (hw.pos _) (Nat.not_lt.2 hle)
    have hmem : ∀ l ∈ clearLease a.chaddr a.leaseNip s.gLeases, l.leaseNip ≠ 0 ∧
        l.leaseNip ∈ done.map DynLease.leaseNip := fun l hl => by
      rcases mem_clearLease hl with rfl | ⟨hls, -⟩
      · exact absurd rfl (hnonzero 0 hl)
      · have hne : l.leaseNip ≠ 0 := fun h0 => hnonzero l hl (h.blank l hls h0)
        obtain ⟨b, hb, heq, -⟩ := h.origin l hls hne
        exact ⟨hne, List.mem_map.2 ⟨b, hb, heq⟩⟩
    have hle := (h.table.ok.clearLease a.chaddr a.leaseNip).nips.length_le
      (fun l hl => (hmem l hl).1) fun l hl => (hmem l hl).2
    rw [clearLease, List.length_map, h.table.length, List.length_map] at hle
    rw [hsplit, List.length_append, List.length_cons] at hlen
    omega
  · rw [hrun] at hnone
    cases hnone

include hw h hok hused hsplit in
theorem ReadSoFar.add {leaseTime : Nat} {hostname : Option (List Byte)} {hostnameLen : Nat}
    (hsome : ((addLease w a.chaddr a.leaseNip leaseTime hostname hostnameLen).run s).1 ≠ none)
    (hlt : leaseTime < 2 ^ 31)
    (htime : ∀ k, s.readings ≤ k → f.writtenAt + a.expires ≤ w.time k + leaseTime) :
    ReadSoFar w cfg f (done ++ [a])
      ((addLease w a.chaddr a.leaseNip leaseTime hostname hostnameLen).run s).2 := by
  have ham : a ∈ f.leases := hsplit ▸ List.mem_append_right _ List.mem_cons_self
  have hforeign : ∀ l ∈ s.gLeases, l.leaseNip ≠ 0 → l.leaseNip ≠ a.leaseNip ∧
      (l.leaseMac ≠ 0 → l.leaseMac ≠ a.leaseMac) := fun l hl hne => by
    obtain ⟨b, hb, hbn, hbm⟩ := h.origin l hl hne
    rw [← hbn, ← hbm]
    exact ne_of_split hok hused hsplit hb
  obtain ⟨hread, hcov⟩ := addLease_covers hw hlt hsome
  have htable := h.table.addLease hw a.chaddr hostname hostnameLen
    (fun hne => by
      rw [macOf_chaddr] at hne ⊢
      exact hok.owned a ham hne)
    (fun l hl hnip => absurd hnip (hforeign l hl (hnip ▸ hused a ham)).1) hlt
  refine ⟨htable.weaken fun _ _ => trivial, fun l hl hne => ?_, fun l hl hzero => ?_,
    fun b hb hmac hpool hlive => ?_⟩
  · rcases mem_of_mem_addLease hl with rfl | hl | ⟨hnip, hmac, -⟩
    · exact absurd rfl hne
    · obtain ⟨b, hb, heq⟩ := h.origin l hl hne
      exact ⟨b, List.mem_append_left _ hb, heq⟩
    · exact ⟨a, List.mem_append_right _ (List.mem_singleton_self a), hnip.symm,
        hmac ▸ (macOf_chaddr a).symm⟩
  · rcases mem_of_mem_addLease hl with rfl | hl | ⟨hnip, -, -⟩
    · rfl
    · exact h.blank l hl hzero
    · exact absurd (hnip ▸ hzero) (hused a ham)
  · rcases List.mem_append.1 hb with hb | hb
    · obtain ⟨l, hl, hlmac, hlnip, hle⟩ := h.kept b hb hmac hpool fun hp =>
        hlive (hp.mono (Nat.le_of_lt (readings_addLease ..)))
      have hne : l.leaseNip ≠ 0 := by
        rw [hlnip]
        exact hused b (hsplit ▸ List.mem_append_left _ hb)
      have hother := hforeign l hl hne
      refine ⟨l, mem_addLease hw hl ?_ hother.1 fun hp => hlive (hp.of_le hle), hlmac, hlnip, hle⟩
      rw [macOf_chaddr]
      exact hother.2 (hlmac ▸ hmac)
    · obtain rfl := List.mem_singleton.1 hb
      obtain ⟨l, hl, hlmac, hlnip, hle⟩ := hcov
      rw [macOf_chaddr] at hlmac
      exact ⟨l, hl, hlmac, hlnip, Nat.le_trans (htime _ (Nat.le_of_lt hread)) hle⟩

end Add

/-- **`read_leases`**: every lease of the file that has not run out. -/
theorem triple_readLeasesFrom (hw : w.Regular) (hok : TableOk cfg f.leases)
    (hlen : f.leases.length ≤ cfg.slots)
    (hused : ∀ l ∈ f.leases, l.leaseNip ≠ 0 ∧ l.expires < 2 ^ 31) {p : Nat}
    (hp : w.time k₀ = f.writtenAt + p) (hk₀ : k₀ < s₀.readings) (hsplit : f.leases = done ++ rest) :
    Triple (fun s => ReadSoFar w cfg f done s ∧ Later s₀ s) (readLeasesFrom w cfg p rest)
      fun _ s => ReadSoFar w cfg f f.leases s ∧ Later s₀ s := by
  induction rest generalizing done with
  | nil =>
    rw [List.append_nil] at hsplit
    exact triple_pure fun s hs => hsplit.symm ▸ hs
  | cons a rest ih =>
    have ham : a ∈ f.leases := hsplit ▸ List.mem_append_right _ List.mem_cons_self
    have hnext := ih (show f.leases = (done ++ [a]) ++ rest by rw [hsplit, List.append_assoc]; rfl)
    have hplt : p < 2 ^ 31 := by
      have := hw.lt k₀
      omega
    have hint := toInt_remaining (hused a ham).2 hplt
    rw [readLeasesFrom]
    dsimp only
    rw [hint]
    split
    · rename_i hpool
      split
      · -- it has run out
        rename_i hle
        refine hnext.mono (fun s hs => ⟨hs.1.skip fun _ _ => ?_, hs.2⟩) fun _ _ h => h
        refine ⟨k₀, Nat.lt_of_lt_of_le hk₀ hs.2.readings, ?_⟩
        omega
      · rename_i hgt
        rintro s ⟨hread, hlater⟩
        have hlt : ((a.expires : Int) - p).toNat < 2 ^ 31 := by
          have := (hused a ham).2
          omega
        have hsome := addLease_ne_none_of_split hw hread hlen hsplit ((a.expires : Int) - p).toNat
          (some a.hostname.toList) 20
        have hadd := hread.add hw hok (fun l hl => (hused l hl).1) hsplit hsome hlt fun k hk => by
            have hmono : w.time k₀ ≤ w.time k :=
              hw.mono (Nat.le_of_lt (Nat.lt_of_lt_of_le hk₀ (Nat.le_trans hlater.readings hk)))
            omega
        have hlater' := hlater.trans (later_addLease w a.chaddr a.leaseNip
          ((a.expires : Int) - p).toNat (some a.hostname.toList) 20 s)
        refine Triple.bind (P := (· = s)) (R := fun _ s => ReadSoFar w cfg f f.leases s ∧ Later s₀ s)
          (Q := fun r s' => r ≠ none ∧ ReadSoFar w cfg f (done ++ [a]) s' ∧ Later s₀ s') ?_
          (fun r => ?_) s rfl
        · rintro s' rfl
          exact ⟨hsome, hadd, hlater'⟩
        · cases r with
          | none => exact fun _ h => absurd rfl h.1
          | some i => exact hnext.mono (fun _ h => h.2) fun _ _ h => h
    · rename_i hpool
      exact hnext.mono (fun s hs => ⟨hs.1.skip fun _ h => absurd h hpool, hs.2⟩) fun _ _ h => h

/-! ## Restarts -/

/-- After an unclean end only the leases that were acknowledged count. -/
theorem acked_of_restarted (hhist : s'.history = s.history ++ [.restarted]) {c : Mac} {q : Promise}
    (hq : s'.promised w cfg c = some q) : q.acked = true := by
  rw [promised_concat hhist] at hq
  exact (silent_restarted c _ q hq).2 rfl

/-- **A restart** within twelve hours of the last write keeps every lease. -/
theorem triple_restart (hw : w.Regular) (hinv : Inv w cfg s) (hearly : cfg.writeLeasesEarly = true)
    (hprompt : ∀ f, s.file = some f → w.time s.readings ≤ f.writtenAt + 12 * 60 * 60) :
    Triple (· = s) (handle w cfg .restart) fun _ s' => Inv w cfg s' := by
  generalize hs₁ : ({ s with history := s.history ++ [.restarted] } : Server) = s₁
  have hhist₁ : s₁.history = s.history ++ [.restarted] := by rw [← hs₁]
  have hsame₁ : SameTable s s₁ := by
    subst hs₁
    exact ⟨rfl, rfl, rfl⟩
  have hfile₁ := (hinv.file hearly).silent hsame₁ hhist₁ silent_restarted
  have htable₁ := hinv.table.silent hsame₁ hhist₁ silent_restarted
  generalize hs₂ : ({ s₁ with gLeases := List.replicate cfg.slots 0 } : Server) = s₂
  have hlater₂ : Later s₁ s₂ := by
    subst hs₂
    exact ⟨rfl, rfl, Nat.le_refl _⟩
  have hblank₂ : ∀ l ∈ s₂.gLeases, l = 0 := by
    subst hs₂
    exact fun l hl => List.eq_of_mem_replicate hl
  have htable₂ : TableInv w cfg (fun _ => True) s₂ := by
    refine ⟨?_, ?_, fun l hl k _ => ?_, fun c q hq => ?_, fun c q hq => ?_,
      fun c q hc => absurd trivial hc⟩
    · rw [← hs₂]
      exact tableOk_replicate _
    · rw [← hs₂]
      exact List.length_replicate
    · rw [hblank₂ l hl]
      exact Nat.lt_of_lt_of_le (hw.pos k) (Nat.le_add_right _ _)
    · exact htable₁.clients c q ((hlater₂.promised_eq c) ▸ hq)
    · exact htable₁.statics c q ((hlater₂.promised_eq c) ▸ hq)
  have hfile₂ := hfile₁.later hlater₂
  have hacked : ∀ s', Later s₂ s' → ∀ c q, s'.promised w cfg c = some q → q.acked = true :=
    fun s' hl c q hq => acked_of_restarted hhist₁ (by rwa [(hlater₂.trans hl).promised_eq] at hq)
  suffices hread : Triple (· = s₂) (readLeases w cfg) fun _ s' => Inv w cfg s' by
    subst hs₂ hs₁
    rintro s' rfl
    exact hread _ rfl
  refine triple_get_bind ?_
  rintro s' rfl
  cases hf : s'.file with
  | none =>
    refine triple_pure ?_
    rintro s'' rfl
    refine ⟨{ htable₂ with covers := fun c q hc hq hst hlive => ?_ }, fun _ => hfile₂⟩
    obtain ⟨f, hf', -⟩ := hfile₂.covers c q hc hq (hacked _ (Later.refl _) c q hq) hst hlive
    rw [hf] at hf'
    cases hf'
  | some f =>
    have hf₀ : s.file = some f := by rw [← hsame₁.file_eq, ← hlater₂.file_eq, hf]
    have hread₂ : s'.readings = s.readings := by
      rw [← hsame₁.readings, ← hs₂]
    obtain ⟨p, hp⟩ := Nat.exists_eq_add_of_le (hfile₂.written f hf s'.readings (Nat.le_refl _))
    have hple : p ≤ 12 * 60 * 60 := by
      have := hprompt f hf₀
      rw [hread₂] at hp
      omega
    refine Triple.bind (Q := fun now s'' => now = w.time s'.readings ∧
      s'' = { s' with readings := s'.readings + 1 }) ?_ fun now => ?_
    · rintro s rfl
      exact ⟨rfl, rfl⟩
    refine Triple.intro ?_
    rintro rfl
    have hpassed : ((w.time s'.readings : Int) - f.writtenAt) = (p : Int) := by omega
    dsimp only
    rw [hpassed, if_neg (by rw [BitVec.ofInt_natCast, BitVec.toNat_ofNat]; omega)]
    rintro s'' rfl
    have hlater : Later s' { s' with readings := s'.readings + 1 } := ⟨rfl, rfl, Nat.le_succ _⟩
    have hstart : ReadSoFar w cfg f [] { s' with readings := s'.readings + 1 } :=
      ⟨htable₂.tick, fun l hl hne => absurd (congrArg DynLease.leaseNip (hblank₂ l hl)) hne,
        fun l hl _ => congrArg DynLease.expires (hblank₂ l hl), fun a ha => nomatch ha⟩
    obtain ⟨hdone, hend⟩ := triple_readLeasesFrom hw (hfile₂.ok f hf)
      (hfile₂.length f hf) (hfile₂.used f hf) hp (Nat.lt_succ_self _) rfl _
      ⟨hstart, Later.refl { s' with readings := s'.readings + 1 }⟩
    have hend := hlater.trans hend
    have hfile := hfile₂.later hend
    refine ⟨{ hdone.table with covers := fun c q hc hq hst hlive => ?_ }, fun _ => hfile⟩
    obtain ⟨f', hf', a, ha, hmac, hnip, hle⟩ := hfile.covers c q hc hq
      (hacked _ hend c q hq) hst hlive
    rw [hend.file_eq, hf] at hf'
    cases hf'
    have hzero : a.leaseMac ≠ 0 := hmac ▸ hdone.table.clients c q hq
    have hpool := ((hfile₂.ok f hf).owned a ha hzero).pool (hmac ▸ hst)
    obtain ⟨l, hl, hlmac, hlnip, hle'⟩ := hdone.kept a ha hzero hpool fun hpast =>
      hlive (hpast.of_le hle)
    exact ⟨l, hl, hlmac.trans hmac, hlnip.trans hnip, Nat.le_trans hle hle'⟩

end Reading

/-! ## Runs -/

section Runs
variable {w : World} {cfg : ServerConfig} {inputs : List Input} {s : Server} {i : Input}

theorem serve_concat (w : World) (cfg : ServerConfig) (inputs : List Input) (i : Input) :
    serve w cfg (inputs ++ [i]) = ((handle w cfg i).run (serve w cfg inputs)).2 :=
  List.foldl_concat ..

/-- A server that writes its leases early is restarted within twelve hours of the last write. -/
def Prompt (w : World) (cfg : ServerConfig) (inputs : List Input) : Prop :=
  ∀ pre post, inputs = pre ++ .restart :: post → cfg.writeLeasesEarly = true ∧
    ∀ f, (serve w cfg pre).file = some f →
      w.time (serve w cfg pre).readings ≤ f.writtenAt + 12 * 60 * 60

theorem inv_start (hw : w.Regular) : Inv w cfg ((start w cfg).run .initial).2 := by
  change Inv w cfg ⟨List.replicate cfg.slots 0, none, 0, 0, 0, []⟩
  have hnone : ∀ {c q}, Server.promised w cfg ⟨List.replicate cfg.slots 0, none, 0, 0, 0, []⟩ c ≠
      some q := nofun
  constructor
  · exact
      { ok := tableOk_replicate _
        length := List.length_replicate
        bounded := fun l hl k _ => by
          rw [List.eq_of_mem_replicate hl]
          exact Nat.lt_of_lt_of_le (hw.pos k) (Nat.le_add_right _ _)
        clients := fun _ _ hq => absurd hq hnone
        statics := fun _ _ hq => absurd hq hnone
        covers := fun _ _ _ hq => absurd hq hnone }
  · exact fun _ =>
      { ok := nofun
        length := nofun
        used := nofun
        written := nofun
        covers := fun _ _ _ hq => absurd hq hnone }

/-- **What a run keeps**: the table, and the file, stand for the promises. -/
theorem inv_serve (hw : w.Regular) (hcfg : cfg.Regular) (hfair : ∀ p, .packet p ∈ inputs → Fair cfg p)
    (hprompt : Prompt w cfg inputs) : Inv w cfg (serve w cfg inputs) := by
  induction inputs using List.reverseRecOn with
  | nil => exact inv_start hw
  | append_singleton inputs i ih =>
    have hinv := ih (fun p hp => hfair p (List.mem_append_left _ hp)) fun pre post hpre =>
      hprompt pre (post ++ [i]) (by rw [hpre, List.append_assoc, List.cons_append])
    rw [serve_concat]
    cases i with
    | packet p =>
      have hp : Input.packet p ∈ inputs ++ [.packet p] := by simp
      exact triple_handlePacket hw hcfg (hfair p hp) hinv _ rfl
    | writeLeases => exact hinv.writeLeases hw
    | restart =>
      obtain ⟨hearly, hsoon⟩ := hprompt inputs [] rfl
      exact triple_restart hw hinv hearly hsoon _ rfl

end Runs

/-! ## A pool with a static lease -/

/-- 192.168.0.20 to 192.168.0.254, and 192.168.0.30 for one client. -/
def poolConfig : ServerConfig where
  serverNip := ntohl 0xC0A80001
  options := []
  startIp := 0xC0A80014
  endIp := 0xC0A800FE
  minLeaseSec := 60
  maxLeases := 235
  declineTime := 3600
  conflictTime := 3600
  offerTime := 60
  siaddrNip := 0
  sname := none
  bootFile := none
  staticLeases := [⟨List.Vector.replicate 6 3, ntohl 0xC0A8001E⟩]
  writeLeasesEarly := true
  endIp_lt := by decide
  minLeaseSec_lt := by decide

def quietWorld : World where
  time k := 1000 + min k 3600
  arpping _ _ _ := true
  sent _ := true

/-- A `DISCOVER` of the client with the byte `b` six times as its MAC address. -/
def discover (b : Byte) : DhcpPacket :=
  { initHeader DHCPDISCOVER with chaddr := List.Vector.replicate 16 b }

theorem quietWorld_regular : quietWorld.Regular where
  mono k n h := Nat.add_le_add_left (min_le_min_right 3600 h) 1000
  pos k := by
    change 0 < 1000 + min k 3600
    omega
  lt k := by
    change 1000 + min k 3600 < 2 ^ 31
    omega

theorem poolConfig_regular : poolConfig.Regular where
  maxLeaseSec := by decide
  minLeaseSec := by decide
  offerTime := by decide
  declineTime := by decide
  conflictTime := by decide
  statics c d heq hne := by
    have honly : ∀ c, staticNip poolConfig c ≠ 0 → c = List.Vector.replicate 6 3 := by
      intro c hc
      by_contra hmac
      refine hc ?_
      unfold staticNip getStaticNipByMac poolConfig
      rw [List.find?_cons_of_neg fun h => hmac (of_decide_eq_true h).symm]
      rfl
    rw [honly c hne, honly d (heq ▸ hne)]

theorem fair_discover {b : Byte} (hb : macOf (List.Vector.replicate 16 b) ≠ 0) :
    Fair poolConfig (discover b) where
  mac := hb
  requested _ _ o ho := by
    have hnone : (discover b).getOption DHCP_REQUESTED_IP = none := by
      have hread := getOption_of_hasOptions (p := discover b) (hasOptions_initHeader DHCPDISCOVER)
        DHCP_REQUESTED_IP
      exact Option.map_eq_none_iff.1 (hread.trans rfl)
    rw [hnone] at ho
    cases ho

end N32905.Udhcp
