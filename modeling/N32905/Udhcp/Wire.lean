import N32905.Udhcp.Answers

/-!
# What is on the wire

Each packet that comes in is answered at most once, before the next one is read, and nothing is
sent unasked.
-/

namespace N32905.Udhcp

open N32905.Lib

/-! ## Exchanges -/

structure Echoes (p q : DhcpPacket) : Prop where
  xid : q.xid = p.xid
  chaddr : q.chaddr = p.chaddr
  gatewayNip : q.gatewayNip = p.gatewayNip

inductive Answers (cfg : ServerConfig) (p q : DhcpPacket) : Prop
  | offer {leaseTimeSec : Nat} (asked : p.messageType = some DHCPDISCOVER)
      (bounded : leaseTimeSec ≤ max cfg.maxLeaseSec cfg.minLeaseSec)
      (reply : Says cfg q DHCPOFFER (some leaseTimeSec))
  | ack {leaseTimeSec : Nat} (asked : p.messageType = some DHCPREQUEST)
      (bounded : leaseTimeSec ≤ max cfg.maxLeaseSec cfg.minLeaseSec)
      (reply : Says cfg q DHCPACK (some leaseTimeSec))
  | nak (asked : p.messageType = some DHCPREQUEST) (reply : Says cfg q DHCPNAK none)
  | inform (asked : p.messageType = some DHCPINFORM) (reply : Says cfg q DHCPACK none)

/-- An input as it shows on the wire. -/
inductive Exchange
  | restarted
  | unanswered (p : DhcpPacket)
  | answered (p q : DhcpPacket) (forceBroadcast : Bool) (readings : Nat)

namespace Exchange

def events : Exchange → List Event
  | restarted => [.restarted]
  | unanswered p => [.received p]
  | answered p q force k => [.received p, .sent q (destination q force) k]

def input : Exchange → Input
  | restarted => .restart
  | unanswered p => .packet p
  | answered p _ _ _ => .packet p

def Ok (cfg : ServerConfig) : Exchange → Prop
  | answered p q _ _ => Echoes p q ∧ Answers cfg p q
  | _ => True

end Exchange

def Input.onWire : Input → Bool
  | .writeLeases => false
  | _ => true

/-! ## Computations that send nothing -/

def Quiet {α : Type} (x : StateM Server α) : Prop := ∀ s, (x.run s).2.history = s.history

section Quiet
variable {α β : Type} {x : StateM Server α} {f : α → StateM Server β} {w : World}
  {cfg : ServerConfig}

theorem Quiet.bind (hx : Quiet x) (hf : ∀ a, Quiet (f a)) : Quiet (x >>= f) :=
  fun s => (hf _ _).trans (hx s)

theorem quiet_pure (a : α) : Quiet (pure a : StateM Server α) := fun _ => rfl

theorem quiet_get : Quiet (get : StateM Server Server) := fun _ => rfl

theorem quiet_modify {g : Server → Server} (h : ∀ s, (g s).history = s.history) :
    Quiet (modify g : StateM Server Unit) := h

theorem quiet_modifyGet {g : Server → α × Server} (h : ∀ s, (g s).2.history = s.history) :
    Quiet (modifyGet g : StateM Server α) := h

theorem quiet_time (w : World) : Quiet (time w) := quiet_modifyGet fun _ => rfl

theorem quiet_addLease (w : World) (chaddr : List.Vector Byte 16) (nip : BitVec 32)
    (leaseTime : Nat) (hostname : Option (List Byte)) (hostnameLen : Nat) :
    Quiet (addLease w chaddr nip leaseTime hostname hostnameLen) :=
  fun s => (history_addLease w chaddr nip leaseTime hostname hostnameLen s).1

theorem quiet_isExpiredLease (w : World) (lease : Nat) : Quiet (isExpiredLease w lease) :=
  (quiet_time w).bind fun _ => quiet_get.bind fun _ => quiet_pure _

theorem quiet_nobodyRespondsToArp (nip : BitVec 32) (safeMac : Mac) :
    Quiet (nobodyRespondsToArp w cfg nip safeMac) := by
  refine (quiet_modifyGet fun _ => rfl).bind fun r => ?_
  split
  · exact quiet_pure true
  · exact (quiet_addLease w 0 nip cfg.conflictTime none 0).bind fun _ => quiet_pure false

theorem quiet_reuseOldest (safeMac : Mac) (oldest : Option Nat) :
    Quiet (reuseOldest w cfg safeMac oldest) := by
  cases oldest with
  | none => exact quiet_pure 0
  | some oldest =>
    refine (quiet_isExpiredLease w oldest).bind fun expired => ?_
    split
    · refine quiet_get.bind fun s => (quiet_nobodyRespondsToArp _ safeMac).bind fun free => ?_
      split
      · exact quiet_get.bind fun s => quiet_pure _
      · exact quiet_pure 0
    · exact quiet_pure 0

theorem quiet_findFreeFrom (safeMac : Mac) (n addr : Nat) (oldest : Option Nat) :
    Quiet (findFreeFrom w cfg safeMac n addr oldest) := by
  induction n generalizing addr oldest with
  | zero => exact quiet_reuseOldest safeMac oldest
  | succ n ih =>
    unfold findFreeFrom
    split
    · exact ih _ _
    split
    · exact ih _ _
    dsimp only
    split
    · exact ih _ _
    refine quiet_get.bind fun s => ?_
    cases findLeaseByNip s.gLeases (ntohl (BitVec.ofNat 32 addr)) with
    | none =>
      refine (quiet_nobodyRespondsToArp _ safeMac).bind fun free => ?_
      split
      · exact quiet_pure _
      · exact ih _ _
    | some lease => exact ih _ _

theorem quiet_chooseNip (p : DhcpPacket) : Quiet (chooseNip w cfg p) := by
  have hfind : Quiet (findFreeOrExpiredNip w cfg p.mac) := quiet_findFreeFrom p.mac _ _ none
  refine quiet_get.bind fun s => ?_
  cases findLeaseByMac s.gLeases p.mac with
  | some lease => exact (quiet_time w).bind fun _ => quiet_pure _
  | none =>
    cases p.getOption DHCP_REQUESTED_IP with
    | none => exact hfind
    | some o =>
      dsimp only
      split
      · cases findLeaseByNip s.gLeases o.u32 with
        | none => exact quiet_pure _
        | some lease =>
          refine (quiet_isExpiredLease w lease).bind fun expired => ?_
          split
          · exact quiet_pure _
          · exact hfind
      · exact hfind

theorem quiet_writeLeases (w : World) : Quiet (writeLeases w) :=
  (quiet_time w).bind fun _ => quiet_modify fun _ => rfl

theorem quiet_readLeasesFrom (timePassed : Int) (leases : List DynLease) :
    Quiet (readLeasesFrom w cfg timePassed leases) := by
  induction leases with
  | nil => exact quiet_pure ()
  | cons lease leases ih =>
    unfold readLeasesFrom
    dsimp only
    split
    · split
      · exact ih
      · refine (quiet_addLease _ _ _ _ _ _).bind fun added => ?_
        cases added with
        | none => exact quiet_pure ()
        | some i => exact ih
    · exact ih

theorem quiet_readLeases (w : World) (cfg : ServerConfig) : Quiet (readLeases w cfg) := by
  refine quiet_get.bind fun s => ?_
  cases s.file with
  | none => exact quiet_pure ()
  | some file =>
    refine (quiet_time w).bind fun now => ?_
    dsimp only
    split
    · exact quiet_pure ()
    · exact quiet_readLeasesFrom _ _

theorem quiet_start (w : World) (cfg : ServerConfig) : Quiet (start w cfg) := by
  refine Quiet.bind ?_ fun _ => quiet_readLeases w cfg
  exact quiet_modify fun _ => rfl

end Quiet

/-! ## Computations that send one packet at most -/

def Sends {α : Type} (R : DhcpPacket → Prop) (x : StateM Server α) : Prop :=
  ∀ s, (x.run s).2.history = s.history ∨ ∃ q force k, R q ∧
    (x.run s).2.history = s.history ++ [.sent q (destination q force) k]

section Sends
variable {α β : Type} {R R' : DhcpPacket → Prop} {x : StateM Server α} {f : α → StateM Server β}
  {w : World} {cfg : ServerConfig} {p q : DhcpPacket} {s : Server}

theorem Quiet.sends (hx : Quiet x) : Sends R x := fun s => .inl (hx s)

theorem Quiet.bind_sends (hx : Quiet x) (hf : ∀ a, Sends R (f a)) : Sends R (x >>= f) := by
  intro s
  have h := hf (x.run s).1 (x.run s).2
  rw [hx s] at h
  exact h

theorem Sends.bind_quiet (hx : Sends R x) (hf : ∀ a, Quiet (f a)) : Sends R (x >>= f) := by
  intro s
  have h : ((x >>= f).run s).2.history = (x.run s).2.history := hf _ _
  rw [h]
  exact hx s

theorem Sends.mono (hx : Sends R x) (h : ∀ q, R q → R' q) : Sends R' x := by
  intro s
  rcases hx s with hnone | ⟨q, force, k, hq, hhist⟩
  · exact .inl hnone
  · exact .inr ⟨q, force, k, h q hq, hhist⟩

theorem sends_sendPacket (w : World) (force : Bool) (hq : R q) : Sends R (sendPacket w q force) := by
  intro s
  cases hsent : w.sent s.packets with
  | true => exact .inr ⟨q, force, s.readings, hq, history_sendPacket hsent q force⟩
  | false =>
    refine .inl ?_
    rw [run_sendPacket, hsent]
    rfl

theorem sends_discard (hx : Sends R x) : Sends R (discard x) := hx

theorem sends_sendOffer (p : DhcpPacket) :
    Sends (fun q => Echoes p q ∧ ∃ leaseTimeSec ≤ max cfg.maxLeaseSec cfg.minLeaseSec,
      Says cfg q DHCPOFFER (some leaseTimeSec)) (sendOffer w cfg p) := by
  unfold sendOffer
  dsimp only
  split
  · exact sends_sendPacket w false ⟨⟨rfl, rfl, rfl⟩, _, Nat.le_max_left _ _,
      says_offerPacket _ cfg.maxLeaseSec_lt⟩
  · refine (quiet_chooseNip p).bind_sends fun yiaddr => ?_
    split
    · exact (quiet_pure false).sends
    · refine (quiet_addLease _ _ _ _ _ _).bind_sends fun added => ?_
      cases added with
      | none => exact (quiet_pure false).sends
      | some i =>
        exact sends_sendPacket w false ⟨⟨rfl, rfl, rfl⟩, _, selectLeaseTime_le cfg p,
          says_offerPacket _ (selectLeaseTime_lt_word cfg p)⟩

theorem sends_sendAck (p : DhcpPacket) (nip : BitVec 32) :
    Sends (fun q => Echoes p q ∧ ∃ leaseTimeSec ≤ max cfg.maxLeaseSec cfg.minLeaseSec,
      Says cfg q DHCPACK (some leaseTimeSec)) (sendAck w cfg p nip) := by
  refine Sends.bind_quiet (sends_sendPacket w false ⟨⟨rfl, rfl, rfl⟩, _, selectLeaseTime_le cfg p,
    says_ackPacket _ (selectLeaseTime_lt_word cfg p)⟩) fun b => ?_
  split
  · refine (quiet_addLease _ _ _ _ _ _).bind fun _ => ?_
    split
    · exact (quiet_writeLeases w).bind fun _ => quiet_pure true
    · exact quiet_pure true
  · exact quiet_pure false

theorem sends_sendNak (p : DhcpPacket) :
    Sends (fun q => Echoes p q ∧ Says cfg q DHCPNAK none) (sendNak w cfg p) :=
  sends_sendPacket w true ⟨⟨rfl, rfl, rfl⟩, says_nak⟩

theorem sends_sendInform (p : DhcpPacket) :
    Sends (fun q => Echoes p q ∧ Says cfg q DHCPACK none) (sendInform w cfg p) :=
  sends_sendPacket w false ⟨⟨rfl, rfl, rfl⟩, says_informPacket⟩

theorem sends_handleRequest (hp : p.messageType = some DHCPREQUEST)
    (lease : Option LeasePtr) :
    Sends (fun q => Echoes p q ∧ Answers cfg p q) (handleRequest w cfg p lease) := by
  have hack : ∀ nip, Sends (fun q => Echoes p q ∧ Answers cfg p q)
      (discard (sendAck w cfg p nip)) := by
    intro nip
    refine sends_discard ((sends_sendAck p nip).mono ?_)
    rintro q ⟨hecho, leaseTimeSec, hle, hsays⟩
    exact ⟨hecho, .ack hp hle hsays⟩
  have hnak : Sends (fun q => Echoes p q ∧ Answers cfg p q) (discard (sendNak w cfg p)) := by
    refine sends_discard ((sends_sendNak p).mono ?_)
    rintro q ⟨hecho, hsays⟩
    exact ⟨hecho, .nak hp hsays⟩
  refine quiet_get.bind_sends fun s => ?_
  dsimp only
  split
  · split
    · exact hack _
    · exact (quiet_pure ()).sends
  · split
    · exact hack _
    · exact hnak
  · split
    · exact hack _
    · exact hnak
  · exact (quiet_pure ()).sends
  · split
    · refine (quiet_isExpiredLease w _).bind_sends fun expired => ?_
      split
      · exact (quiet_modify fun _ => rfl).sends
      · exact hnak
    · split
      · exact hnak
      · exact (quiet_pure ()).sends
  · exact (quiet_pure ()).sends

theorem quiet_store (g : DynLease → DynLease) (lease : LeasePtr) : Quiet (lease.store g) := by
  cases lease with
  | fake nip => exact quiet_pure ()
  | entry i => exact quiet_modify fun _ => rfl

theorem sends_handleMessage {type : Byte} (hp : p.messageType = some type) :
    Sends (fun q => Echoes p q ∧ Answers cfg p q) (handleMessage w cfg p type) := by
  refine quiet_get.bind_sends fun s => ?_
  dsimp only
  split
  · rename_i htype
    refine sends_discard ((sends_sendOffer p).mono ?_)
    rintro q ⟨hecho, leaseTimeSec, hle, hsays⟩
    exact ⟨hecho, .offer (htype ▸ hp) hle hsays⟩
  split
  · rename_i htype
    exact sends_handleRequest (htype ▸ hp) _
  split
  · cases lookupLease cfg s p.mac with
    | none => exact (quiet_pure ()).sends
    | some lease => exact ((quiet_time w).bind fun now => quiet_store _ lease).sends
  split
  · cases lookupLease cfg s p.mac with
    | none => exact (quiet_pure ()).sends
    | some lease => exact ((quiet_time w).bind fun now => quiet_store _ lease).sends
  split
  · rename_i htype
    refine sends_discard ((sends_sendInform p).mono ?_)
    rintro q ⟨hecho, hsays⟩
    exact ⟨hecho, .inform (htype ▸ hp) hsays⟩
  · exact (quiet_pure ()).sends

/-! ### Behind a packet -/

theorem modify_bind_sends {e : Event} {g : Server → Server} {y : StateM Server α}
    (hg : ∀ s, (g s).history = s.history ++ [e]) (hy : Sends R y) (s : Server) :
    ((modify g >>= fun _ => y).run s).2.history = s.history ++ [e] ∨ ∃ q force k, R q ∧
      ((modify g >>= fun _ => y).run s).2.history =
        s.history ++ [e, .sent q (destination q force) k] := by
  have h := hy (g s)
  rw [hg] at h
  rcases h with hnone | ⟨q, force, k, hq, hhist⟩
  · exact .inl hnone
  · exact .inr ⟨q, force, k, hq, hhist.trans (List.append_assoc _ _ _)⟩

theorem echoes_of_recvKernelPacket {p' : DhcpPacket} (h : recvKernelPacket p = some p') :
    Echoes p p' := by
  obtain ⟨f, rfl⟩ := recvKernelPacket_flags h
  exact ⟨rfl, rfl, rfl⟩

theorem Echoes.trans {p' : DhcpPacket} (h : Echoes p p') (h' : Echoes p' q) : Echoes p q :=
  ⟨h'.xid.trans h.xid, h'.chaddr.trans h.chaddr, h'.gatewayNip.trans h.gatewayNip⟩

theorem Answers.congr {p' : DhcpPacket} (h : Answers cfg p' q)
    (htype : p'.messageType = p.messageType) : Answers cfg p q := by
  cases h with
  | offer hp hle hsays => exact .offer (htype ▸ hp) hle hsays
  | ack hp hle hsays => exact .ack (htype ▸ hp) hle hsays
  | nak hp hsays => exact .nak (htype ▸ hp) hsays
  | inform hp hsays => exact .inform (htype ▸ hp) hsays

/-- **One packet**: it is on the wire, and behind it the reply if there is one. -/
theorem exchange_handlePacket (p : DhcpPacket) (s : Server) :
    ∃ x : Exchange, x.Ok cfg ∧ x.input = .packet p ∧
      ((handlePacket w cfg p).run s).2.history = s.history ++ x.events := by
  have hwire : ((handlePacket w cfg p).run s).2.history = s.history ++ [.received p] ∨
      ∃ q force k, (Echoes p q ∧ Answers cfg p q) ∧ ((handlePacket w cfg p).run s).2.history =
        s.history ++ [.received p, .sent q (destination q force) k] := by
    refine modify_bind_sends (fun _ => rfl) ?_ s
    cases hrecv : recvKernelPacket p with
    | none => exact (quiet_pure ()).sends
    | some packet =>
      have htype := DhcpPacket.messageType_congr (recvKernelPacket_eq_some hrecv).2
      dsimp only
      split
      · exact (quiet_pure ()).sends
      · cases hstate : packet.messageType with
        | none => exact (quiet_pure ()).sends
        | some state =>
          refine (sends_handleMessage hstate).mono ?_
          rintro q ⟨hecho, hanswers⟩
          exact ⟨(echoes_of_recvKernelPacket hrecv).trans hecho, hanswers.congr htype⟩
  rcases hwire with hhist | ⟨q, force, k, hok, hhist⟩
  · exact ⟨.unanswered p, trivial, rfl, hhist⟩
  · exact ⟨.answered p q force k, hok, rfl, hhist⟩

end Sends

/-! ## Runs -/

section Runs
variable {w : World} {cfg : ServerConfig}

theorem exchanges_handle (i : Input) (s : Server) :
    ∃ xs : List Exchange, (∀ x ∈ xs, x.Ok cfg) ∧ xs.map Exchange.input = [i].filter Input.onWire ∧
      ((handle w cfg i).run s).2.history = s.history ++ xs.flatMap Exchange.events := by
  cases i with
  | packet p =>
    obtain ⟨x, hok, hinput, hhist⟩ := exchange_handlePacket (w := w) p s
    refine ⟨[x], fun y hy => List.mem_singleton.1 hy ▸ hok, ?_, ?_⟩
    · rw [List.map_singleton, hinput]
      rfl
    · rw [List.flatMap_singleton]
      exact hhist
  | writeLeases =>
    refine ⟨[], nofun, rfl, ?_⟩
    exact (quiet_writeLeases w s).trans (List.append_nil _).symm
  | restart =>
    refine ⟨[.restarted], fun y hy => List.mem_singleton.1 hy ▸ trivial, rfl, ?_⟩
    exact quiet_start w cfg _

/-- **Replies answer packets**: on the wire each packet is followed by at most one reply, to its
client and of the kind it asks for. -/
theorem replies_answer (w : World) (cfg : ServerConfig) (inputs : List Input) :
    ∃ xs : List Exchange, (∀ x ∈ xs, x.Ok cfg) ∧
      xs.map Exchange.input = inputs.filter Input.onWire ∧
      (serve w cfg inputs).history = xs.flatMap Exchange.events := by
  induction inputs using List.reverseRecOn with
  | nil => exact ⟨[], nofun, rfl, quiet_start w cfg .initial⟩
  | append_singleton inputs i ih =>
    obtain ⟨xs, hok, hinputs, hhist⟩ := ih
    obtain ⟨ys, hok', hinput, hhist'⟩ := exchanges_handle (w := w) i (serve w cfg inputs)
    refine ⟨xs ++ ys, fun x hx => ?_, ?_, ?_⟩
    · exact (List.mem_append.1 hx).elim (hok x) (hok' x)
    · rw [List.map_append, List.filter_append, hinputs, hinput]
    · rw [serve_concat, hhist', hhist, List.flatMap_append]

end Runs

end N32905.Udhcp
