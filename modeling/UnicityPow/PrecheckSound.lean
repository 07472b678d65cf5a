import UnicityPow.AdmissionSound
import UnicityPow.Dial

/-!
# Checks before admission

`HandleInboundConnection` and `ConnectTo` check bans, discouragement and slots before
`add_peer` does. They are stricter for peers that may not be banned, for manual peers, and
where an inbound peer could be evicted.
-/

namespace UnicityPow

namespace NetworkManager

section
variable (config : PeerConfig) (env : NetEnv) (s : NetworkManager)

def barred (address : String) : Bool := env.isBanned address || s.isDiscouraged env address

/-- An inbound connection that fails the check, though `add_peer` would admit it. -/
def refusesInboundInVain (permissions : NetPermissionFlags) (address : String) : Bool :=
  !s.stoppingAll && s.nextPeerId != -1 &&
    if s.inboundCount < config.maxInboundPeers then
      hasPermission permissions NetPermissionFlags.NoBan && s.barred env address && s.admitsIp env address
    else
      (hasPermission permissions NetPermissionFlags.NoBan || !s.barred env address) &&
        (s.evictionVictim env).any (fun victim => s.admitsWithout config env victim address)

/-- A dial that is refused, though `add_peer` would admit its peer. -/
def refusesOutboundInVain (permissions : NetPermissionFlags) (address : String) (port : BitVec 16) : Bool :=
  !s.stoppingAll && s.nextPeerId != -1 &&
    (hasPermission permissions NetPermissionFlags.Manual || decide (s.outboundCount < config.maxOutboundPeers)) &&
    if s.barred env address then hasPermission permissions NetPermissionFlags.NoBan
    else
      (hasPermission permissions NetPermissionFlags.NoBan || (env.validateAndNormalizeIP address).isSome) &&
        s.findPeerByAddress env address port == -1 && !s.needsMoreOutbound config

end

/-- What the checks and `add_peer` both rely on: a normal form is normal, and an address is
banned if its normal form is. -/
structure Normal (env : NetEnv) : Prop where
  validateAndNormalizeIP : ∀ address normalized, env.validateAndNormalizeIP address = some normalized →
    env.validateAndNormalizeIP normalized = some normalized
  isBanned : ∀ address, env.isBanned address = (env.validateAndNormalizeIP address).any env.isBanned

section
variable {config : PeerConfig} {env : NetEnv} {s : NetworkManager}

theorem normal_banning {parse : String → Option String} (env : NetEnv) (b : BanManager)
    (hparse : ∀ address normalized, validateAndNormalizeIP parse address = some normalized →
      validateAndNormalizeIP parse normalized = some normalized) :
    Normal ((env.normalizing parse).banning b) := by
  refine ⟨hparse, fun address => ?_⟩
  show b.isBanned (validateAndNormalizeIP parse) env.time address =
    (validateAndNormalizeIP parse address).any (b.isBanned (validateAndNormalizeIP parse) env.time)
  cases h : validateAndNormalizeIP parse address with
  | none =>
    unfold BanManager.isBanned
    rw [h]
    rfl
  | some normalized =>
    unfold BanManager.isBanned
    rw [Option.any_some, h, hparse address normalized h]

theorem addPeer_refuses_iff (R : Registered s) (peer : Peer) (permissions : NetPermissionFlags)
    (address : String) :
    (s.addPeer config env peer permissions address).2 = -1 ↔
      s.admits config env peer permissions address = false ∨ s.nextPeerId = -1 := by
  rw [addPeer_eq R]
  cases s.admits config env peer permissions address with
  | true => simp
  | false => simp

/-- `add_peer` asks for bans of the normal form, the checks of the address itself. -/
theorem refusedAddress_eq (N : Normal env) (address : String) :
    s.refusedAddress env address = ((env.validateAndNormalizeIP address).isNone || s.barred env address) := by
  unfold refusedAddress barred isDiscouraged
  rw [N.isBanned address]
  cases h : env.validateAndNormalizeIP address with
  | none => rfl
  | some normalized => simp [N.validateAndNormalizeIP address normalized h]

/-! ## Inbound connections -/

theorem admitsIp_isNone {address : String} (h : s.admitsIp env address = true) :
    (env.validateAndNormalizeIP address).isNone = false := by
  unfold admitsIp at h
  cases hn : env.validateAndNormalizeIP address with
  | none => simp [hn] at h
  | some normalized => rfl

theorem admitsWithout_isNone {victim : Int} {address : String}
    (h : s.admitsWithout config env victim address = true) :
    (env.validateAndNormalizeIP address).isNone = false := by
  unfold admitsWithout at h
  cases hn : env.validateAndNormalizeIP address with
  | none => simp [hn] at h
  | some normalized => rfl

/-- Whether there is a place for an inbound connection, with an eviction if need be. -/
def hasPlace (config : PeerConfig) (env : NetEnv) (s : NetworkManager) (address : String) : Bool :=
  if s.inboundCount < config.maxInboundPeers then s.admitsIp env address
  else (s.evictionVictim env).any (fun victim => s.admitsWithout config env victim address)

theorem hasPlace_isNone {address : String} (h : s.hasPlace config env address = true) :
    (env.validateAndNormalizeIP address).isNone = false := by
  unfold hasPlace at h
  split at h
  · exact admitsIp_isNone h
  · cases hv : s.evictionVictim env with
    | none => simp [hv] at h
    | some victim =>
      rw [hv, Option.any_some] at h
      exact admitsWithout_isNone h

theorem admits_createInbound (N : Normal env) (permissions : NetPermissionFlags) (remote : String × BitVec 16)
    (isOpen : Bool) :
    s.admits config env (.createInbound (some remote) isOpen) permissions "" =
      (!s.stoppingAll && (hasPermission permissions NetPermissionFlags.NoBan || !s.barred env remote.1) &&
        s.hasPlace config env remote.1) := by
  have hbar := refusedAddress_eq (s := s) N remote.1
  have haddr : (Peer.createInbound (some remote) isOpen).address = remote.1 := rfl
  have hin : (Peer.createInbound (some remote) isOpen).isInbound = true := rfl
  have hplace : (env.validateAndNormalizeIP remote.1).isNone = true →
      s.hasPlace config env remote.1 = false := by
    intro hnone
    rw [Bool.eq_false_iff]
    intro h
    rw [hasPlace_isNone h] at hnone
    cases hnone
  unfold admits refusesEarly
  simp only [haddr, hin, if_true, hbar, Bool.not_true, Bool.false_and, Bool.or_false, Bool.false_or, Bool.not_or]
  show (_ && s.hasPlace config env remote.1) = _
  cases hnone : (env.validateAndNormalizeIP remote.1).isNone with
  | false => simp
  | true => simp [hplace hnone]

variable (config s) in
/-- The check of inbound connections refuses only what `add_peer` refuses, but for these. -/
theorem checkInbound_agrees_iff (R : Registered s) (N : Normal env) (permissions : NetPermissionFlags)
    (remote : String × BitVec 16) (isOpen : Bool) :
    (s.checkInbound config env remote.1 = false →
        (s.addPeer config env (.createInbound (some remote) isOpen) permissions "").2 = -1) ↔
      s.refusesInboundInVain config env permissions remote.1 = false := by
  rw [addPeer_refuses_iff R, admits_createInbound N]
  have hcheck : s.checkInbound config env remote.1 = (!s.barred env remote.1 &&
      (decide (s.inboundCount < config.maxInboundPeers) && s.admitsIp env remote.1)) := by
    unfold checkInbound canAcceptInboundFrom barred
    rw [Bool.not_or]
  rw [hcheck]
  unfold refusesInboundInVain hasPlace
  generalize s.barred env remote.1 = bar
  by_cases hroom : s.inboundCount < config.maxInboundPeers
  · cases bar <;> simp [hroom] <;> tauto
  · cases bar <;> simp [hroom] <;> tauto

/-! ## Dials -/

theorem admits_dialedPeer (N : Normal env) (addr : NetworkAddress) (address : String)
    (permissions : NetPermissionFlags) (isOpen : Bool) :
    s.admits config env (DialManager.dialedPeer ⟨addr, address, permissions, false⟩ isOpen) permissions
        address =
      (!s.stoppingAll && (hasPermission permissions NetPermissionFlags.NoBan ||
          !((env.validateAndNormalizeIP address).isNone || s.barred env address)) &&
        (hasPermission permissions NetPermissionFlags.Manual ||
          decide (s.outboundCount < config.maxOutboundPeers))) := by
  have hbar := refusedAddress_eq (s := s) N address
  have haddr : (DialManager.dialedPeer ⟨addr, address, permissions, false⟩ isOpen).address = address := rfl
  have hin : (DialManager.dialedPeer ⟨addr, address, permissions, false⟩ isOpen).isInbound = false := rfl
  have hkind : (!(DialManager.dialedPeer ⟨addr, address, permissions, false⟩ isOpen).isInbound &&
      !(DialManager.dialedPeer ⟨addr, address, permissions, false⟩ isOpen).isFeeler &&
      !(DialManager.dialedPeer ⟨addr, address, permissions, false⟩ isOpen).isManual) =
        !hasPermission permissions NetPermissionFlags.Manual := by
    unfold DialManager.dialedPeer DialManager.connectionType
    cases hasPermission permissions NetPermissionFlags.Manual <;> rfl
  have hlt : decide (s.outboundCount < config.maxOutboundPeers) =
      !decide (config.maxOutboundPeers ≤ s.outboundCount) := by
    rw [← decide_not, decide_eq_decide, not_le]
  unfold admits refusesEarly
  rw [haddr, ite_self, hbar, hkind, hin, hlt]
  simp

/-- A refusal on account of a ban, of discouragement or of the slots. -/
def refusesSlotOrBan (r : ConnectionResult) : Bool :=
  r == .AddressBanned || r == .AddressDiscouraged || r == .NoSlotsAvailable

theorem refusesSlotOrBan_checkOutbound (address : String) (port : BitVec 16) :
    refusesSlotOrBan (s.checkOutbound config env address port) =
      (s.barred env address || (s.findPeerByAddress env address port == -1 && !s.needsMoreOutbound config)) := by
  unfold checkOutbound barred
  cases env.isBanned address with
  | true => rfl
  | false =>
    cases s.isDiscouraged env address with
    | true => rfl
    | false =>
      unfold bne
      cases s.findPeerByAddress env address port == -1 with
      | false => rfl
      | true =>
        cases s.needsMoreOutbound config with
        | false => rfl
        | true => rfl

variable (config s) in
/-- The checks of `ConnectTo` refuse only what `add_peer` refuses, but for these. -/
theorem checkOutbound_agrees_iff (R : Registered s) (N : Normal env) (addr : NetworkAddress) (address : String)
    (permissions : NetPermissionFlags) (isOpen : Bool) :
    (refusesSlotOrBan (s.checkOutbound config env address addr.port) = true →
        (s.addPeer config env (DialManager.dialedPeer ⟨addr, address, permissions, false⟩ isOpen) permissions
          address).2 = -1) ↔
      s.refusesOutboundInVain config env permissions address addr.port = false := by
  rw [addPeer_refuses_iff R, admits_dialedPeer N, refusesSlotOrBan_checkOutbound]
  unfold refusesOutboundInVain
  by_cases hid : s.nextPeerId = -1
  · simp [hid]
  · have hid' : (s.nextPeerId != -1) = true := bne_iff_ne.mpr hid
    simp only [hid, hid', or_false, Bool.and_true]
    generalize s.stoppingAll = stopping, s.barred env address = bar
    generalize hasPermission permissions NetPermissionFlags.NoBan = noBan
    generalize (hasPermission permissions NetPermissionFlags.Manual ||
      decide (s.outboundCount < config.maxOutboundPeers)) = free
    generalize (s.findPeerByAddress env address addr.port == -1) = unknown, s.needsMoreOutbound config = more
    -- what is left is about truth values
    cases env.validateAndNormalizeIP address with
    | none =>
      simp only [Option.isNone_none, Option.isSome_none]
      clear hid hid'
      revert stopping bar noBan free unknown more
      decide
    | some normalized =>
      simp only [Option.isNone_some, Option.isSome_some]
      clear hid hid'
      revert stopping bar noBan free unknown more
      decide

end

end NetworkManager

namespace DialManager

open NetworkManager

theorem refusesSlotOrBan_connectTo {networkAddressToString : BitVec 128 → Option String} {config : PeerConfig}
    {env : NetEnv} {s : DialManager} {addr : NetworkAddress} {address : String}
    (haddr : networkAddressToString addr.ip = some address) (permissions : NetPermissionFlags) (connects : Bool) :
    refusesSlotOrBan (s.connectTo networkAddressToString config env addr permissions connects).2 =
      refusesSlotOrBan (s.checkOutbound config env address addr.port) := by
  unfold connectTo
  rw [haddr]
  dsimp only
  cases s.checkOutbound config env address addr.port with
  | Success =>
    dsimp only
    split
    · rfl
    · split <;> rfl
  | _ => rfl

/-- Both ways to a connection refuse for bans and slots only what `add_peer` refuses, exactly
where neither is stricter. -/
theorem prechecks_agree_iff {networkAddressToString : BitVec 128 → Option String}
    {parse : String → Option String} (config : PeerConfig) (env : NetEnv) (s : DialManager) (b : BanManager)
    (addr : NetworkAddress) (address : String) (remote : String × BitVec 16)
    (permissions : NetPermissionFlags) (isOpen connects : Bool)
    (R : Registered s.toNetworkManager)
    (hparse : ∀ address normalized, validateAndNormalizeIP parse address = some normalized →
      validateAndNormalizeIP parse normalized = some normalized)
    (haddr : networkAddressToString addr.ip = some address) :
    ((s.checkInbound config ((env.normalizing parse).banning b) remote.1 = false →
        (s.addPeer config ((env.normalizing parse).banning b) (.createInbound (some remote) isOpen) permissions
          "").2 = -1) ∧
      (refusesSlotOrBan (s.connectTo networkAddressToString config ((env.normalizing parse).banning b) addr
          permissions connects).2 = true →
        (s.addPeer config ((env.normalizing parse).banning b)
          (dialedPeer ⟨addr, address, permissions, false⟩ isOpen) permissions address).2 = -1)) ↔
      s.refusesInboundInVain config ((env.normalizing parse).banning b) permissions remote.1 = false ∧
        s.refusesOutboundInVain config ((env.normalizing parse).banning b) permissions address addr.port =
          false := by
  have N := normal_banning env b hparse
  rw [checkInbound_agrees_iff config s.toNetworkManager R N, refusesSlotOrBan_connectTo haddr,
    checkOutbound_agrees_iff config s.toNetworkManager R N]

/-! ## A peer that may not be banned -/

/-- The address 10.0.0.1 is banned for good. -/
def banTen : BanManager := ({} : BanManager).ban some ⟨0, 0, true⟩ "10.0.0.1" 0

def tenToString (ip : BitVec 128) : Option String := if ip = 0xffff0a000001 then some "10.0.0.1" else none

theorem validateAndNormalizeIP_some (address normalized : String)
    (h : validateAndNormalizeIP some address = some normalized) :
    validateAndNormalizeIP some normalized = some normalized := by
  have heq : address = normalized := by
    unfold validateAndNormalizeIP at h
    split at h
    · cases h
    · exact Option.some.inj h
  rw [← heq] at h ⊢
  exact h

theorem prechecks_agree_iff_ten :
    (((fresh (ChainstateManager.fresh false)).checkInbound {} ((({} : NetEnv).normalizing some).banning banTen)
          "10.0.0.1" = false →
        ((fresh (ChainstateManager.fresh false)).addPeer {} ((({} : NetEnv).normalizing some).banning banTen)
          (.createInbound (some ("10.0.0.1", 1000)) true) 0 "").2 = -1) ∧
      (refusesSlotOrBan ((fresh (ChainstateManager.fresh false)).connectTo tenToString {}
          ((({} : NetEnv).normalizing some).banning banTen) ⟨0, 0xffff0a000001, 1000⟩ 0 true).2 = true →
        ((fresh (ChainstateManager.fresh false)).addPeer {} ((({} : NetEnv).normalizing some).banning banTen)
          (dialedPeer ⟨⟨0, 0xffff0a000001, 1000⟩, "10.0.0.1", 0, false⟩ true) 0 "10.0.0.1").2 = -1)) ↔
      (fresh (ChainstateManager.fresh false)).refusesInboundInVain {}
          ((({} : NetEnv).normalizing some).banning banTen) 0 "10.0.0.1" = false ∧
        (fresh (ChainstateManager.fresh false)).refusesOutboundInVain {}
          ((({} : NetEnv).normalizing some).banning banTen) 0 "10.0.0.1" 1000 = false :=
  prechecks_agree_iff {} {} (fresh (ChainstateManager.fresh false)) banTen ⟨0, 0xffff0a000001, 1000⟩ "10.0.0.1"
    ("10.0.0.1", 1000) 0 true true (registered_fresh _) validateAndNormalizeIP_some (by decide)

/-- A connection with `NoBan` is closed for a ban that `add_peer` does not look at. -/
theorem noBan_connection_refused :
    ¬ ∀ (parse : String → Option String) (config : PeerConfig) (env : NetEnv) (s : NetworkManager)
        (b : BanManager) (remote : String × BitVec 16) (permissions : NetPermissionFlags) (isOpen : Bool),
        (∀ address normalized, validateAndNormalizeIP parse address = some normalized →
          validateAndNormalizeIP parse normalized = some normalized) → Registered s →
        s.checkInbound config ((env.normalizing parse).banning b) remote.1 = false →
          (s.addPeer config ((env.normalizing parse).banning b) (.createInbound (some remote) isOpen) permissions
            "").2 = -1 := by
  intro h
  have hrefused := h some {} {} (NetworkManager.fresh (ChainstateManager.fresh false)) banTen ("10.0.0.1", 1000)
    NetPermissionFlags.NoBan true validateAndNormalizeIP_some (registered_fresh _) (by decide +kernel)
  have hadmitted : ((NetworkManager.fresh (ChainstateManager.fresh false)).addPeer {}
      ((({} : NetEnv).normalizing some).banning banTen) (.createInbound (some ("10.0.0.1", 1000)) true)
      NetPermissionFlags.NoBan "").2 = 1 := by decide +kernel
  rw [hadmitted] at hrefused
  exact absurd hrefused (by decide)

end DialManager

end UnicityPow
