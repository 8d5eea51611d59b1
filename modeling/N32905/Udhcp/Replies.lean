import N32905.Udhcp.Server

/-!
# What a reply says

The options of each kind of packet that the server builds, as the client's `get_option` finds
them.
-/

namespace N32905.Udhcp

open N32905.Lib

/-! ## The options of a header -/

def typeOption (type : Byte) : OptionSet := ⟨DHCP_MESSAGE_TYPE, [type], by decide, by simp⟩

def serverIdOption (cfg : ServerConfig) : OptionSet :=
  ⟨DHCP_SERVER_ID, Codec.u32.enc cfg.serverNip, by decide, by
    rw [Codec.length_enc]
    decide⟩

def leaseTimeOption (leaseTimeSec : Nat) : OptionSet :=
  ⟨DHCP_LEASE_TIME, Codec.u32.enc (ntohl (BitVec.ofNat 32 leaseTimeSec)), by decide, by
    rw [Codec.length_enc]
    decide⟩

/-- What `addServerOptions` makes of the options `os`. -/
def serverOptions (cfg : ServerConfig) (os : List OptionSet) : List OptionSet :=
  (cfg.options.filter fun o => o.code ≠ DHCP_LEASE_TIME).foldl addOption os

def replyOptions (cfg : ServerConfig) (type : Byte) (leaseTimeSec : Nat) : List OptionSet :=
  serverOptions cfg [typeOption type, serverIdOption cfg, leaseTimeOption leaseTimeSec]

section Areas
variable {cfg : ServerConfig} {oldpacket packet : DhcpPacket} {type : Byte} {os : List OptionSet}
  {leaseTimeSec : Nat}

theorem take_enc_setWidth (type : Byte) : (Codec.u32.enc (type.setWidth 32)).take 1 = [type] := by
  change [BitVec.ofNat 8 (type.setWidth 32).toNat] = [type]
  rw [BitVec.toNat_setWidth_of_le (by decide), BitVec.ofNat_toNat, BitVec.setWidth_eq]

theorem hasOptions_initHeader (type : Byte) :
    HasOptions (initHeader type).options [typeOption type] := by
  have hnil : HasOptions ((0 : List.Vector Byte OPTIONS_SIZE).set ⟨0, by decide⟩ DHCP_END) [] :=
    ⟨⟨List.replicate (OPTIONS_SIZE - 1) 0, rfl⟩, by decide⟩
  exact hnil.addSimpleOption (t := .u8) rfl (o := typeOption type) rfl (take_enc_setWidth type).symm
    (by decide)

theorem hasOptions_initPacket (cfg : ServerConfig) (oldpacket : DhcpPacket) (type : Byte) :
    HasOptions (initPacket cfg oldpacket type).options [typeOption type, serverIdOption cfg] :=
  (hasOptions_initHeader type).addSimpleOption (t := .ip) rfl (o := serverIdOption cfg) rfl rfl
    (by decide)

theorem hasOptions_addLeaseTime
    (h : HasOptions packet.options [typeOption type, serverIdOption cfg]) (leaseTimeSec : Nat) :
    HasOptions (addLeaseTime packet leaseTimeSec).options
      [typeOption type, serverIdOption cfg, leaseTimeOption leaseTimeSec] :=
  h.addSimpleOption (t := .u32) rfl (o := leaseTimeOption leaseTimeSec) rfl rfl (by decide)

theorem hasOptions_addServerOptions (h : HasOptions packet.options os) :
    HasOptions (addServerOptions cfg packet).options (serverOptions cfg os) := by
  unfold addServerOptions serverOptions
  generalize packet.options = options at h
  induction cfg.options generalizing options os with
  | nil => exact h
  | cons o l ih =>
    rw [List.foldl_cons, List.filter_cons]
    by_cases hcode : o.code = DHCP_LEASE_TIME
    · simp only [hcode, ne_eq, not_true, decide_false, if_false, Bool.false_eq_true]
      exact ih options h
    · have hadd := h.addOptionString o []
      rw [List.append_nil] at hadd
      simp only [hcode, ne_eq, not_false_eq_true, decide_true, if_true, List.foldl_cons]
      exact ih _ hadd

theorem hasOptions_offerPacket (yiaddr : BitVec 32) (leaseTimeSec : Nat) :
    HasOptions (offerPacket cfg oldpacket yiaddr leaseTimeSec).options
      (replyOptions cfg DHCPOFFER leaseTimeSec) :=
  hasOptions_addServerOptions
    (hasOptions_addLeaseTime (hasOptions_initPacket cfg oldpacket DHCPOFFER) leaseTimeSec)

theorem hasOptions_ackPacket (yiaddr : BitVec 32) :
    HasOptions (ackPacket cfg oldpacket yiaddr).options
      (replyOptions cfg DHCPACK (selectLeaseTime cfg oldpacket)) :=
  hasOptions_addServerOptions
    (hasOptions_addLeaseTime (hasOptions_initPacket cfg oldpacket DHCPACK) _)

def informPacket (cfg : ServerConfig) (oldpacket : DhcpPacket) : DhcpPacket :=
  addBootpOptions cfg (addServerOptions cfg (initPacket cfg oldpacket DHCPACK))

theorem hasOptions_informPacket :
    HasOptions (informPacket cfg oldpacket).options
      (serverOptions cfg [typeOption DHCPACK, serverIdOption cfg]) :=
  hasOptions_addServerOptions (hasOptions_initPacket cfg oldpacket DHCPACK)

/-! ## Finding them -/

/-- The configured options come behind those of the header, and none is a lease time. -/
theorem serverOptions_eq (cfg : ServerConfig) (os : List OptionSet) :
    ∃ more, serverOptions cfg os = os ++ more ∧ ∀ o ∈ more, o.code ≠ DHCP_LEASE_TIME := by
  unfold serverOptions
  generalize hl : cfg.options = l
  clear hl
  induction l generalizing os with
  | nil => exact ⟨[], by simp, by simp⟩
  | cons o l ih =>
    rw [List.filter_cons]
    split
    · rename_i hcode
      rw [List.foldl_cons]
      obtain ⟨more, heq, hmore⟩ := ih (addOption os o)
      rw [addOption] at heq
      split at heq
      · refine ⟨o :: more, by rw [addOption, if_pos (by assumption), heq]; simp, ?_⟩
        intro o' ho'
        rcases List.mem_cons.1 ho' with rfl | ho'
        · exact of_decide_eq_true hcode
        · exact hmore o' ho'
      · exact ⟨more, by rw [addOption, if_neg (by assumption), heq], hmore⟩
    · exact ih os

theorem find?_serverOptions {code : Byte} {o : OptionSet}
    (h : (os.find? fun o => o.code = code) = some o) :
    ((serverOptions cfg os).find? fun o => o.code = code) = some o := by
  obtain ⟨more, heq, -⟩ := serverOptions_eq cfg os
  rw [heq, List.find?_append, h]
  rfl

theorem messageType_of_hasOptions (h : HasOptions packet.options os)
    (hfind : (os.find? fun o => o.code = DHCP_MESSAGE_TYPE) = some (typeOption type)) :
    packet.messageType = some type := by
  have hread := getOption_of_hasOptions h DHCP_MESSAGE_TYPE
  rw [hfind, Option.map_some] at hread
  obtain ⟨a, ha, htake⟩ := Option.map_eq_some_iff.1 hread
  have hdata : a.data = [type] ++ a.data.drop a.len.toNat := by
    conv_lhs => rw [← List.take_append_drop a.len.toNat a.data, htake]
    rfl
  rw [DhcpPacket.messageType, ha, Option.map_some, hdata]
  rfl

structure Says (cfg : ServerConfig) (packet : DhcpPacket) (type : Byte) (leaseTimeSec : Option Nat) :
    Prop where
  type : packet.messageType = some type
  serverId : (packet.getOption DHCP_SERVER_ID).map OptionAt.u32 = some cfg.serverNip
  leaseTime : (packet.getOption DHCP_LEASE_TIME).map (fun o => (ntohl o.u32).toNat) = leaseTimeSec

theorem says_of_replyOptions (h : HasOptions packet.options (replyOptions cfg type leaseTimeSec))
    (hlt : leaseTimeSec < 2 ^ 32) : Says cfg packet type (some leaseTimeSec) where
  type := messageType_of_hasOptions h (find?_serverOptions rfl)
  serverId := getOption_u32 h (find?_serverOptions rfl) rfl
  leaseTime := by
    have hu32 : (packet.getOption DHCP_LEASE_TIME).map OptionAt.u32 =
        some (ntohl (BitVec.ofNat 32 leaseTimeSec)) :=
      getOption_u32 h (o := leaseTimeOption leaseTimeSec) (find?_serverOptions rfl) rfl
    obtain ⟨a, ha, hval⟩ := Option.map_eq_some_iff.1 hu32
    rw [ha, Option.map_some, hval, ntohl_ntohl, BitVec.toNat_ofNat, Nat.mod_eq_of_lt hlt]

theorem says_offerPacket (yiaddr : BitVec 32) (hlt : leaseTimeSec < 2 ^ 32) :
    Says cfg (offerPacket cfg oldpacket yiaddr leaseTimeSec) DHCPOFFER (some leaseTimeSec) :=
  says_of_replyOptions (hasOptions_offerPacket yiaddr leaseTimeSec) hlt

theorem says_ackPacket (yiaddr : BitVec 32) (hlt : selectLeaseTime cfg oldpacket < 2 ^ 32) :
    Says cfg (ackPacket cfg oldpacket yiaddr) DHCPACK (some (selectLeaseTime cfg oldpacket)) :=
  says_of_replyOptions (hasOptions_ackPacket yiaddr) hlt

theorem getOption_leaseTime_eq_none (h : HasOptions packet.options os)
    (hfind : (os.find? fun o => o.code = DHCP_LEASE_TIME) = none) :
    packet.getOption DHCP_LEASE_TIME = none := by
  have hread := getOption_of_hasOptions h DHCP_LEASE_TIME
  rw [hfind, Option.map_none] at hread
  exact Option.map_eq_none_iff.1 hread

theorem says_informPacket : Says cfg (informPacket cfg oldpacket) DHCPACK none where
  type := messageType_of_hasOptions hasOptions_informPacket (find?_serverOptions rfl)
  serverId := getOption_u32 hasOptions_informPacket (find?_serverOptions rfl) rfl
  leaseTime := by
    obtain ⟨more, heq, hmore⟩ := serverOptions_eq cfg [typeOption DHCPACK, serverIdOption cfg]
    rw [getOption_leaseTime_eq_none hasOptions_informPacket ?_]
    · rfl
    · have hnone : (more.find? fun o => o.code = DHCP_LEASE_TIME) = none :=
        List.find?_eq_none.2 fun o ho h => hmore o ho (of_decide_eq_true h)
      rw [heq, List.find?_append, hnone]
      rfl

theorem says_nak : Says cfg (initPacket cfg oldpacket DHCPNAK) DHCPNAK none where
  type := messageType_of_hasOptions (hasOptions_initPacket cfg oldpacket DHCPNAK) rfl
  serverId := getOption_u32 (hasOptions_initPacket cfg oldpacket DHCPNAK) (o := serverIdOption cfg)
    rfl rfl
  leaseTime := by
    rw [getOption_leaseTime_eq_none (hasOptions_initPacket cfg oldpacket DHCPNAK) rfl]
    rfl

end Areas

end N32905.Udhcp
