import UnicityPow.EvictionSound
import UnicityPow.Population

/-!
# Admission and eviction

`add_peer` against the population before the call: who is evicted, whether the connection
is admitted, and when an eviction made for it is in vain.
-/

namespace UnicityPow

/-- What the limits look at, with the address of an inbound peer only. -/
structure PeerKind where
  isInbound : Bool
  connectionType : ConnectionType
  address : String
deriving DecidableEq

def kindView : PeerView PeerKind where
  view p := ⟨p.isInbound, p.connectionType, if p.isInbound then p.address else ""⟩
  setId _ _ := rfl
  setSyncStarted _ _ := rfl

namespace PeerKind

/-- An outbound peer that takes a slot: neither a feeler nor manual. -/
def takesOutboundSlot (x : PeerKind) : Bool :=
  !x.isInbound && !(x.connectionType == .FEELER) && !(x.connectionType == .MANUAL)

def isInboundFrom (env : NetEnv) (address : String) (x : PeerKind) : Bool :=
  x.isInbound && env.validateAndNormalizeIP x.address == some address

end PeerKind

namespace NetworkManager

section
variable (config : PeerConfig) (env : NetEnv) (s : NetworkManager)

/-! ## The victim -/

/-- Whom `evict_inbound_peer` removes. -/
def evictionVictim : Option Int :=
  match s.evictionCandidates env with
  | [] => none
  | candidates =>
    let best := candidates.foldl EvictionBest.consider {}
    if 0 ≤ best.worstPeerId then some best.worstPeerId else none

/-- The inbound peers from an address but for one id. -/
def sameIpInboundBut (victim : Int) (address : String) : Nat :=
  (((s.population kindView).erase victim).filter (fun _ x => x.isInboundFrom env address)).size

/-- Capacity and per-IP limit for a connection from an address, with the victim gone. -/
def admitsWithout (victim : Int) (address : String) : Bool :=
  decide (s.inboundCount ≤ config.maxInboundPeers) &&
    match env.validateAndNormalizeIP address with
    | none => false
    | some normalized => decide (s.sameIpInboundBut env victim normalized < MAX_INBOUND_PER_IP)

/-! ## The verdict -/

/-- The refusals before the inbound limit. -/
def refusesEarly (peer : Peer) (permissions : NetPermissionFlags) (address : String) : Bool :=
  s.stoppingAll ||
    (!hasPermission permissions NetPermissionFlags.NoBan &&
      s.refusedAddress env (if address = "" then peer.address else address)) ||
    (!peer.isInbound && !peer.isFeeler && !peer.isManual && decide (config.maxOutboundPeers ≤ s.outboundCount))

/-- A connection that passes the checks of `add_peer`. -/
def admits (peer : Peer) (permissions : NetPermissionFlags) (address : String) : Bool :=
  !s.refusesEarly config env peer permissions address &&
    (!peer.isInbound ||
      if s.inboundCount < config.maxInboundPeers then s.admitsIp env peer.address
      else (s.evictionVictim env).any (fun victim => s.admitsWithout config env victim peer.address))

/-- An inbound connection at capacity for which a peer is evicted, and which is over a limit
all the same. -/
def evictsInVain (peer : Peer) (permissions : NetPermissionFlags) (address : String) : Bool :=
  !s.refusesEarly config env peer permissions address && peer.isInbound &&
    decide (config.maxInboundPeers ≤ s.inboundCount) &&
    (s.evictionVictim env).any (fun victim => !s.admitsWithout config env victim peer.address)

/-- The state that a new entry goes to. -/
def madeRoom (peer : Peer) : NetworkManager :=
  if peer.isInbound && decide (config.maxInboundPeers ≤ s.inboundCount) then
    (s.evictionVictim env).elim s (s.removePeer env)
  else s

end

section
variable {config : PeerConfig} {env : NetEnv} {s : NetworkManager}

theorem evictInboundPeer_eq :
    s.evictInboundPeer env =
      match s.evictionVictim env with
      | none => (s, false)
      | some victim => (s.removePeer env victim, true) := by
  unfold evictInboundPeer evictionVictim
  cases s.evictionCandidates env with
  | nil => rfl
  | cons x l =>
    dsimp only
    split
    · rfl
    · rfl

theorem evictionVictim_inbound {victim : Int} (h : s.evictionVictim env = some victim) :
    ∃ x, (s.population kindView)[victim]? = some x ∧ x.isInbound = true := by
  unfold evictionVictim at h
  split at h
  · cases h
  · rename_i hne
    obtain ⟨peer, ⟨d, hget, hpeer, hin, -⟩, -⟩ := foldl_consider_victim hne
    dsimp only at h
    split at h
    · obtain rfl := Option.some.inj h
      refine ⟨kindView.view peer, ?_, hin⟩
      rw [population_get, ptrOf_of_get hget, Option.bind_some]
      unfold viewAt
      rw [show s.peers[d.peer]? = some peer from hpeer]
      rfl
    · cases h

/-! ## Counts over the population -/

theorem inboundCount_eq : s.inboundCount = ((s.population kindView).filter (fun _ x => x.isInbound)).size :=
  entriesWhere_length PeerKind.isInbound fun _ => rfl

theorem outboundCount_eq :
    s.outboundCount = ((s.population kindView).filter (fun _ x => x.takesOutboundSlot)).size :=
  entriesWhere_length PeerKind.takesOutboundSlot fun _ => rfl

theorem sameIpInbound_eq (address : String) :
    s.sameIpInbound env address =
      ((s.population kindView).filter (fun _ x => x.isInboundFrom env address)).size :=
  entriesWhere_length (PeerKind.isInboundFrom env address) fun p => by
    cases hin : p.isInbound with
    | false => simp [PeerKind.isInboundFrom, kindView, hin]
    | true => simp [PeerKind.isInboundFrom, kindView, hin]

theorem inboundCount_removePeer (R : Registered s) {victim : Int} (h : s.evictionVictim env = some victim) :
    (s.removePeer env victim).inboundCount + 1 = s.inboundCount := by
  obtain ⟨x, hx, hin⟩ := evictionVictim_inbound h
  have hget : ((s.population kindView).filter (fun _ x => x.isInbound))[victim]? = some x := by
    rw [Tally.getElem?_filter, hx]
    simp [hin, Option.filter]
  rw [inboundCount_eq, inboundCount_eq, (R.removePeer kindView env victim).population, Tally.filter_erase]
  exact Tally.size_erase hget

theorem admitsIp_removePeer (R : Registered s) (victim : Int) (address : String) :
    (s.removePeer env victim).admitsIp env address =
      match env.validateAndNormalizeIP address with
      | none => false
      | some normalized => decide (s.sameIpInboundBut env victim normalized < MAX_INBOUND_PER_IP) := by
  unfold admitsIp sameIpInboundBut
  cases env.validateAndNormalizeIP address with
  | none => rfl
  | some normalized =>
    dsimp only
    rw [sameIpInbound_eq, (R.removePeer kindView env victim).population]

variable (config) in
theorem admitsWithout_eq (R : Registered s) {victim : Int} (h : s.evictionVictim env = some victim)
    (address : String) :
    s.admitsWithout config env victim address =
      (decide ((s.removePeer env victim).inboundCount < config.maxInboundPeers) &&
        (s.removePeer env victim).admitsIp env address) := by
  have hcount := inboundCount_removePeer R h
  unfold admitsWithout
  rw [admitsIp_removePeer R]
  congr 1
  exact decide_eq_decide.mpr (by omega)

/-! ## What `add_peer` does -/

theorem addPeer_early {peer : Peer} {permissions : NetPermissionFlags} {address : String}
    (h : s.refusesEarly config env peer permissions address = true) :
    s.addPeer config env peer permissions address = (s, -1) := by
  unfold addPeer
  unfold refusesEarly at h
  dsimp only
  generalize (if address = "" then peer.address else address) = peerAddress at h ⊢
  split
  · rfl
  · rename_i hstop
    split
    · rfl
    · rename_i hban
      split
      · rfl
      · rename_i hfull
        simp only [hstop, hban, hfull, Bool.or_false, Bool.false_eq_true] at h

/-- The verdict and the state after a call, from the state before it. -/
theorem addPeer_eq (R : Registered s) (peer : Peer) (permissions : NetPermissionFlags) (address : String) :
    s.addPeer config env peer permissions address =
      if s.admits config env peer permissions address then
        ((s.madeRoom config env peer).insertPeer env peer permissions (if address = "" then peer.address else address),
          s.nextPeerId)
      else (if s.evictsInVain config env peer permissions address then s.madeRoom config env peer else s, -1) := by
  by_cases hearly : s.refusesEarly config env peer permissions address = true
  · rw [addPeer_early hearly]
    simp [admits, evictsInVain, hearly]
  · rw [Bool.not_eq_true] at hearly
    have hearly' := hearly
    unfold refusesEarly at hearly'
    simp only [Bool.or_eq_false_iff] at hearly'
    obtain ⟨⟨hstop, hban⟩, hfull⟩ := hearly'
    unfold addPeer
    simp only [hstop, hban, hfull, Bool.false_eq_true, if_false]
    cases hin : peer.isInbound with
    | false => simp [admits, hearly, hin, madeRoom]
    | true =>
      simp only [Bool.not_true, Bool.false_eq_true, if_false]
      unfold makeRoom
      by_cases hroom : s.inboundCount < config.maxInboundPeers
      · have hle : ¬ config.maxInboundPeers ≤ s.inboundCount := not_le.mpr hroom
        cases hip : s.admitsIp env peer.address with
        | false => simp [hroom, hip, admits, evictsInVain, hearly, hin, hle]
        | true => simp [hroom, hip, admits, hearly, hin, madeRoom, hle]
      · have hle : config.maxInboundPeers ≤ s.inboundCount := not_lt.mp hroom
        rw [evictInboundPeer_eq]
        cases hv : s.evictionVictim env with
        | none => simp [hroom, hv, admits, evictsInVain, hearly, hin]
        | some victim =>
          have hid : (s.removePeer env victim).nextPeerId = s.nextPeerId :=
            (R.removePeer kindView env victim).nextPeerId
          have hw := admitsWithout_eq config R hv peer.address
          simp only [hroom, if_false, admits, evictsInVain, madeRoom, hearly, hin, hle, hv, decide_true,
            Option.any_some, Option.elim_some, Bool.not_false, Bool.not_true, Bool.true_and, Bool.false_or,
            Bool.and_true, if_true]
          rw [hw]
          by_cases hcount : (s.removePeer env victim).inboundCount < config.maxInboundPeers
          · cases hip : (s.removePeer env victim).admitsIp env peer.address with
            | false => simp [hcount, hip]
            | true => simp [hcount, hip, hid]
          · simp [hcount]

variable {α : Type} (v : PeerView α)

variable (config env) in
theorem Registered.madeRoom_shrinks (R : Registered s) (peer : Peer) : Shrinks v s (s.madeRoom config env peer) := by
  unfold NetworkManager.madeRoom
  split
  · cases s.evictionVictim env with
    | none => exact .refl v R
    | some victim => exact .of_erased (R.removePeer v env victim)
  · exact .refl v R

theorem Registered.madeRoom (R : Registered s) (peer : Peer) : Registered (s.madeRoom config env peer) :=
  (R.madeRoom_shrinks config env blindView peer).registered

variable (config env) in
theorem madeRoom_idOf (R : Registered s) (peer : Peer) : (s.madeRoom config env peer).idOf = s.idOf := by
  unfold NetworkManager.madeRoom
  split
  · cases s.evictionVictim env with
    | none => rfl
    | some victim => exact (R.removePeer kindView env victim).idOf
  · rfl

/-! ## Runs keep the table -/

variable (config env) in
theorem Registered.addPeer (R : Registered s) (peer : Peer) (permissions : NetPermissionFlags) (address : String) :
    Registered (s.addPeer config env peer permissions address).1 := by
  rw [addPeer_eq R]
  split
  · exact ((R.madeRoom peer).insertPeer kindView env peer permissions _).registered
  · split
    · exact R.madeRoom peer
    · exact R

variable {v} (parse : String → Option String)

theorem Registered.manage_shrinks (R : Registered s) (hv : KeepsView v s) (op : ManageOp) :
    Shrinks v s (s.manage parse op) := by
  cases op with
  | removePeer env peerId => exact .of_erased (R.removePeer v _ peerId)
  | evictInboundPeer env =>
    unfold NetworkManager.manage
    simp only [evictInboundPeer_eq]
    cases s.evictionVictim (env.normalizing parse) with
    | none => exact .refl v R
    | some victim => exact .of_erased (R.removePeer v _ victim)
  | processPeriodic env => exact .foldl_removePeer R _
  | disconnectAll => exact .of_cleared (disconnectAll_cleared s)
  | shutdown => exact ⟨R, fun _ _ hx => hx, rfl, rfl⟩
  | start env p => exact .of_samePeers R (hv p _ (fun _ => rfl) fun _ => ⟨rfl, rfl, rfl, rfl, .inl rfl⟩)
  | handleVerack p => exact .of_samePeers R (hv p _ Peer.handleVerack_id Peer.handleVerack_follows)
  | handlePong p pingTimeMs => exact .of_samePeers R (hv p _ (fun _ => rfl) fun _ => ⟨rfl, rfl, rfl, rfl, .inl rfl⟩)
  | disconnect p => exact .of_samePeers R (hv.disconnectPeer p)
  | misbehaving peerId penalty => exact .of_samePeers R (.modifyMisbehavior v s peerId _)

theorem PeersFollow.manage (s : NetworkManager) (op : ManageOp) : PeersFollow s (s.manage parse op) := by
  cases op with
  | removePeer env peerId => exact .removePeer _ s peerId
  | evictInboundPeer env =>
    unfold NetworkManager.manage
    simp only [evictInboundPeer_eq]
    cases s.evictionVictim (env.normalizing parse) with
    | none => exact .refl s
    | some victim => exact .removePeer _ s victim
  | processPeriodic env => exact .foldl (PeersFollow.removePeer _) _ s
  | disconnectAll => exact .disconnectAll s
  | shutdown => exact .of_eq rfl
  | start env p => exact .modifyPeer s p fun _ => ⟨rfl, rfl, rfl, rfl, .inl rfl⟩
  | handleVerack p => exact .modifyPeer s p Peer.handleVerack_follows
  | handlePong p pingTimeMs => exact .modifyPeer s p fun _ => ⟨rfl, rfl, rfl, rfl, .inl rfl⟩
  | disconnect p => exact .modifyPeer s p Peer.disconnect_follows
  | misbehaving peerId penalty => exact .of_eq rfl

variable (config env) in
theorem PeersFollow.madeRoom (s : NetworkManager) (peer : Peer) : PeersFollow s (s.madeRoom config env peer) := by
  unfold NetworkManager.madeRoom
  split
  · cases s.evictionVictim env with
    | none => exact .refl s
    | some victim => exact .removePeer env s victim
  · exact .refl s

theorem keepsView_blindView (s : NetworkManager) : KeepsView blindView s := .of_follows fun _ _ _ => rfl

theorem Registered.manage (R : Registered s) (op : ManageOp) : Registered (s.manage parse op) :=
  (R.manage_shrinks parse (keepsView_blindView s) op).registered

variable (config) in
theorem Registered.lifecycleStep (R : Registered s) (op : LifecycleOp) : Registered (s.lifecycleStep parse config op) := by
  cases op with
  | addInbound env connection isOpen permissions address => exact R.addPeer config _ _ permissions address
  | addOutbound env connection isOpen targetAddress targetPort connectionType permissions address =>
    exact R.addPeer config _ _ permissions address
  | manage op => exact R.manage parse op

end

theorem registered_fresh (chainstate : ChainstateManager) : Registered (fresh chainstate) := fun id p hp => by
  simp [fresh, ptrOf] at hp

section
variable {config : PeerConfig} {env : NetEnv} {s : NetworkManager}

/-! ## Refused connections -/

/-- A new entry is of a new object, so it changes the map. -/
theorem insertPeer_peerStates_ne (R : Registered s) (peer peer' : Peer) (permissions : NetPermissionFlags)
    (address : String) :
    ((s.madeRoom config env peer').insertPeer env peer permissions address).peerStates ≠ s.peerStates := by
  intro heq
  have hins := insertPeer_inserted env (s.madeRoom config env peer') peer permissions address
  have hptr := hins.ptrOf (s.madeRoom config env peer').nextPeerId
  rw [if_pos rfl] at hptr
  have hold : s.ptrOf (s.madeRoom config env peer').nextPeerId = some (s.madeRoom config env peer').peers.length := by
    rw [← hptr]
    unfold ptrOf
    rw [heq]
  have hid := R _ _ hold
  rw [← madeRoom_idOf config env R peer'] at hid
  unfold idOf at hid
  simp at hid

theorem madeRoom_peerStates_ne (R : Registered s) {peer : Peer} {permissions : NetPermissionFlags} {address : String}
    (h : s.evictsInVain config env peer permissions address = true) :
    (s.madeRoom config env peer).peerStates ≠ s.peerStates := by
  unfold evictsInVain at h
  simp only [Bool.and_eq_true] at h
  obtain ⟨⟨⟨-, hin⟩, hfull⟩, hv⟩ := h
  cases hvictim : s.evictionVictim env with
  | none => simp [hvictim] at hv
  | some victim =>
    obtain ⟨x, hx, -⟩ := evictionVictim_inbound hvictim
    have hmem : victim ∈ s.peerStates := R.mem_population.mp (Std.ExtTreeMap.mem_iff_isSome_getElem?.mpr (by rw [hx]; rfl))
    have hE := R.removePeer kindView env victim
    intro heq
    unfold NetworkManager.madeRoom at heq
    simp only [hin, hfull, hvictim, Bool.and_self, if_true, Option.elim_some] at heq
    have hmem' : victim ∈ (s.removePeer env victim).population kindView :=
      hE.registered.mem_population.mpr (heq ▸ hmem)
    rw [hE.population] at hmem'
    simp at hmem'

/-- A refused connection leaves the map as it was, unless a peer was evicted for it in vain,
or the counter has come to the id that stands for a refusal. -/
theorem addPeer_refused_unchanged_iff (R : Registered s) (peer : Peer) (permissions : NetPermissionFlags)
    (address : String) :
    ((s.addPeer config env peer permissions address).2 = -1 →
        (s.addPeer config env peer permissions address).1.peerStates = s.peerStates) ↔
      s.evictsInVain config env peer permissions address = false ∧
        (s.nextPeerId = -1 → s.admits config env peer permissions address = false) := by
  have hexcl : s.admits config env peer permissions address = true →
      s.evictsInVain config env peer permissions address = false := by
    unfold admits evictsInVain
    cases hin : peer.isInbound with
    | false => simp
    | true =>
      by_cases hroom : s.inboundCount < config.maxInboundPeers
      · simp [hroom, not_le.mpr hroom]
      · cases s.evictionVictim env with
        | none => simp [hroom]
        | some victim =>
          simp only [hroom, Bool.not_true, Bool.false_or, if_false, Option.any_some, Bool.and_eq_true]
          rintro ⟨-, hw⟩
          simp [hw]
  rw [addPeer_eq R]
  cases ha : s.admits config env peer permissions address with
  | true =>
    simp only [if_true]
    constructor
    · intro h
      exact ⟨hexcl ha, fun hid => absurd (h hid) (insertPeer_peerStates_ne R _ _ _ _)⟩
    · rintro ⟨-, h⟩ hid
      exact absurd (h hid) (by simp)
  | false =>
    cases hvain : s.evictsInVain config env peer permissions address with
    | true => simpa using madeRoom_peerStates_ne R hvain
    | false => simp

end

/-! ## Two peers from one address -/

/-- Room for three: a peer that has been connected for long, and two young ones from one
address. -/
def crowdedOps : List LifecycleOp :=
  [.addInbound {} (some ("10.0.0.1", 1000)) true 0 "", .addInbound {} (some ("10.0.0.2", 1000)) true 0 "",
    .addInbound {} (some ("10.0.0.2", 1001)) true 0 "", .manage (.start { steadyTime := 100000000000 } 1),
    .manage (.start { steadyTime := 100000000000 } 2)]

def crowded : NetworkManager :=
  crowdedOps.foldl (lifecycleStep some { maxInboundPeers := 3 }) (fresh (ChainstateManager.fresh false))

def crowdedEnv : NetEnv := { steadyTime := 105000000000 }

/-- A third connection from the address of the young ones. -/
def thirdFromAddress : Peer := .createInbound (some ("10.0.0.2", 1002)) true

theorem crowded_registered : Registered crowded := by
  unfold crowded
  induction crowdedOps using List.reverseRecOn with
  | nil => exact registered_fresh _
  | append_singleton l op ih =>
    rw [List.foldl_append]
    exact ih.lifecycleStep _ some op

theorem addPeer_refused_unchanged_iff_crowded :
    ((crowded.addPeer { maxInboundPeers := 3 } crowdedEnv thirdFromAddress 0 "").2 = -1 →
        (crowded.addPeer { maxInboundPeers := 3 } crowdedEnv thirdFromAddress 0 "").1.peerStates = crowded.peerStates) ↔
      crowded.evictsInVain { maxInboundPeers := 3 } crowdedEnv thirdFromAddress 0 "" = false ∧
        (crowded.nextPeerId = -1 →
          crowded.admits { maxInboundPeers := 3 } crowdedEnv thirdFromAddress 0 "" = false) :=
  addPeer_refused_unchanged_iff crowded_registered _ _ _

/-- The long connected peer is evicted for a connection that the per-IP limit then refuses. -/
theorem refused_peer_evicts :
    ¬ ∀ (config : PeerConfig) (env : NetEnv) (s : NetworkManager) (peer : Peer) (permissions : NetPermissionFlags)
        (address : String), Registered s → (s.addPeer config env peer permissions address).2 = -1 →
      (s.addPeer config env peer permissions address).1.peerStates = s.peerStates := by
  intro h
  have heq := h { maxInboundPeers := 3 } crowdedEnv crowded thirdFromAddress 0 "" crowded_registered (by decide +kernel)
  have hsize : (crowded.addPeer { maxInboundPeers := 3 } crowdedEnv thirdFromAddress 0 "").1.peerStates.size = 2 ∧
      crowded.peerStates.size = 3 := by decide +kernel
  rw [heq] at hsize
  omega

end NetworkManager

end UnicityPow
