import UnicityPow.EvictionSound
import UnicityPow.TriedSound

/-!
# What a removal tells the discovery manager

`remove_peer` decides whether the address of the peer is good, and its notification says so.
The discovery manager looks the peer up before it marks the address, and the entry is gone by
then.
-/

namespace UnicityPow

namespace NetworkManager

/-! ## The notification and the subscription -/

/-- What `remove_peer` publishes, with the managers as the subscribers find them. -/
def removalNotification (env : NetEnv) (s : NetworkManager) (peerId : Int) : Option (NetworkManager × PeerEvent) :=
  match s.peerStates[peerId]? with
  | none => none
  | some d =>
    match s.peerOf d with
    | none => none
    | some peer =>
      let s := s.discourageMisbehaving env d.misbehavior
      let s := { s with peerStates := s.peerStates.erase peerId }
      if s.shuttingDown then none
      else some (s, .disconnected peerId peer.address peer.port (disconnectReason d.misbehavior)
        (markAddrGood peer d.misbehavior))

def getPeer (s : NetworkManager) (peerId : Int) : Option Peer := s.peerStates[peerId]?.bind s.peerOf

/-- The subscription of the discovery manager: the address that it passes to `good`. -/
def marksGood (fromString : String → BitVec 16 → NetworkAddress) (s : NetworkManager) :
    PeerEvent → Option NetworkAddress
  | .disconnected peerId address port _ markAddrGood =>
    -- not our peer
    if (s.getPeer peerId).isNone then none
    else if markAddrGood && port != 0 && address != "" then some (fromString address port)
    else none
  | .connected .. => none

/-- The address that the removal of a peer passes to `good`. -/
def removalMarksGood (fromString : String → BitVec 16 → NetworkAddress) (env : NetEnv) (s : NetworkManager)
    (peerId : Int) : Option NetworkAddress :=
  (s.removalNotification env peerId).bind (fun published => published.1.marksGood fromString published.2)

section
variable {fromString : String → BitVec 16 → NetworkAddress} {env : NetEnv} {s t : NetworkManager} {peerId : Int}
  {e : PeerEvent}

theorem removalNotification_eq_some (h : s.removalNotification env peerId = some (t, e)) :
    ∃ d peer, s.peerStates[peerId]? = some d ∧ s.peerOf d = some peer ∧
      t.peerStates = s.peerStates.erase peerId ∧
      e = .disconnected peerId peer.address peer.port (disconnectReason d.misbehavior)
        (markAddrGood peer d.misbehavior) := by
  revert h
  unfold removalNotification
  split
  · exact fun h => nomatch h
  · rename_i d hd
    split
    · exact fun h => nomatch h
    · rename_i peer hpeer
      dsimp only
      split
      · exact fun h => nomatch h
      · intro h
        cases h
        exact ⟨d, peer, hd, hpeer, by rw [discourageMisbehaving_peerStates], rfl⟩

theorem removalNotification_getPeer (h : s.removalNotification env peerId = some (t, e)) :
    t.getPeer peerId = none := by
  obtain ⟨d, peer, -, -, hstates, -⟩ := removalNotification_eq_some h
  unfold getPeer
  rw [hstates, Std.ExtTreeMap.getElem?_erase_self]
  rfl

/-- A peer that is to be marked: its notification says so, and the subscription would have found
the entry that the removal has erased. -/
theorem removalNotification_markAddrGood {d : PeerTrackingData} {peer : Peer} (hrunning : s.shuttingDown = false)
    (hd : s.peerStates[peerId]? = some d) (hpeer : s.peerOf d = some peer)
    (hgood : markAddrGood peer d.misbehavior = true) (hport : peer.port ≠ 0) (haddress : peer.address ≠ "") :
    ∃ t e, s.removalNotification env peerId = some (t, e) ∧ t.marksGood fromString e = none ∧
      s.marksGood fromString e = some (fromString peer.address peer.port) := by
  have hstop : ¬ (s.discourageMisbehaving env d.misbehavior).shuttingDown = true := by
    have hsame : (s.discourageMisbehaving env d.misbehavior).shuttingDown = s.shuttingDown :=
      (SameTable.discourageMisbehaving s d.misbehavior).shuttingDown
    rw [hsame, hrunning]
    exact Bool.false_ne_true
  obtain ⟨t, hpublished⟩ : ∃ t, s.removalNotification env peerId =
      some (t, .disconnected peerId peer.address peer.port (disconnectReason d.misbehavior)
        (markAddrGood peer d.misbehavior)) := by
    unfold removalNotification
    simp only [hd, hpeer]
    exact ⟨_, if_neg hstop⟩
  refine ⟨t, _, hpublished, ?_, ?_⟩
  · simp only [marksGood, removalNotification_getPeer hpublished, Option.isNone_none, if_pos]
  · simp only [marksGood, getPeer, hd, Option.bind_some, hpeer, hgood, Option.isNone_some, Bool.false_eq_true,
      if_false]
    exact if_pos (by simpa [haddress] using hport)

/-- The subscription finds no entry. -/
theorem removalMarksGood_eq_none (fromString : String → BitVec 16 → NetworkAddress) (env : NetEnv)
    (s : NetworkManager) (peerId : Int) : s.removalMarksGood fromString env peerId = none := by
  unfold removalMarksGood
  cases h : s.removalNotification env peerId with
  | none => rfl
  | some published =>
    obtain ⟨d, peer, -, -, -, he⟩ := removalNotification_eq_some h
    simp only [Option.bind_some, he, marksGood, removalNotification_getPeer h, Option.isNone_none, if_pos]

/-! ## The events of a removal -/

theorem discourageMisbehaving_peerEvents (env : NetEnv) (s : NetworkManager) (d : PeerMisbehaviorData) :
    (s.discourageMisbehaving env d).peerEvents = s.peerEvents := by
  unfold discourageMisbehaving
  split
  · cases env.validateAndNormalizeIP d.address with
    | none => rfl
    | some normalized =>
      simp only [Option.elim, discourage]
      split <;> rfl
  · rfl

theorem onPeerDisconnected_peerEvents (s : NetworkManager) (v : BitVec 64) :
    (s.onPeerDisconnected v).peerEvents = s.peerEvents := by
  unfold onPeerDisconnected
  split
  · exact List.foldlRecOn (motive := fun t : NetworkManager => t.peerEvents = s.peerEvents) _ _ rfl fun t h p _ => h
  · rfl

/-- A removal publishes its notification and nothing else. -/
theorem removePeer_peerEvents (env : NetEnv) (s : NetworkManager) (peerId : Int) :
    (s.removePeer env peerId).peerEvents =
      s.peerEvents ++ ((s.removalNotification env peerId).map Prod.snd).toList := by
  unfold removePeer removalNotification
  cases hd : s.peerStates[peerId]? with
  | none => exact (List.append_nil _).symm
  | some d =>
    cases hpeer : s.peerOf d with
    | none =>
      simp only [hpeer]
      exact (List.append_nil _).symm
    | some peer =>
      simp only [hpeer]
      have hevents := discourageMisbehaving_peerEvents env s d.misbehavior
      generalize s.discourageMisbehaving env d.misbehavior = s1 at hevents ⊢
      unfold disconnectPeer modifyPeer
      by_cases hstop : s1.shuttingDown = true
      · simp only [if_pos hstop]
        exact hevents.trans (List.append_nil _).symm
      · simp only [if_neg hstop]
        unfold notifyPeerDisconnected
        rw [onPeerDisconnected_peerEvents, hevents]
        rfl

end

end NetworkManager

namespace Node

section
variable (config : NodeConfig) (env env' : NetEnv) (s : Node) (peerId : Int)

/-- The address manager after a removal is the one that the subscription leaves. -/
theorem step_removePeer_addrManager :
    (s.step config (.manage env (.removePeer env' peerId))).addrManager =
      ((s.toNetworkManager.removalMarksGood config.session.networkAddressFromString
        (env'.normalizing config.parse) peerId).elim s.addrManager
          fun addr => s.addrManager.good (env.normalizing config.parse).now addr) := by
  rw [NetworkManager.removalMarksGood_eq_none, Option.elim_none]
  simp only [step, ManageOp.isOfManager, if_pos, after]
  have hevents : (s.toNetworkManager.manage config.parse (.removePeer env' peerId)).peerEvents = _ :=
    s.toNetworkManager.removePeer_peerEvents (env'.normalizing config.parse) peerId
  rw [hevents, List.drop_left]
  cases h : s.toNetworkManager.removalNotification (env'.normalizing config.parse) peerId with
  | none => rfl
  | some published =>
    obtain ⟨d, peer, -, -, -, he⟩ := NetworkManager.removalNotification_eq_some h
    simp only [Option.map_some, Option.toList_some, List.foldl_cons, List.foldl_nil, he, onPeerEvent]
    rw [if_neg]
    intro hgood
    simp only [Bool.and_eq_true, decide_eq_true_eq] at hgood
    exact NetworkManager.ObjectsLater.disconnectReason_ne d.misbehavior hgood.1.1.1

end

/-! ## Healthy peers -/

/-- A peer with its handshake done and no misbehaviour, which the node dialed at an address that
it knows. -/
structure Healthy (config : NodeConfig) (s : Node) (peerId : Int) (addr : NetworkAddress) : Prop where
  running : s.shuttingDown = false
  entry : ∃ d peer, s.peerStates[peerId]? = some d ∧ s.peerOf d = some peer ∧ d.misbehavior.misbehaviorScore = 0 ∧
    peer.isInbound = false ∧ peer.isFeeler = false ∧ peer.successfullyConnected = true ∧ peer.targetAddress ≠ "" ∧
    addr = config.session.networkAddressFromString peer.targetAddress peer.targetPort
  known : addrKey (normalizeAddress addr) ∈ s.addrManager.tried ∨
    addrKey (normalizeAddress addr) ∈ s.addrManager.new

/-- No removal applies `good`, whatever the peer: the address manager stays as it is. -/
theorem removal_marks_none (config : NodeConfig) (env env' : NetEnv) (s : Node) (peerId : Int) :
    s.toNetworkManager.removalMarksGood config.session.networkAddressFromString (env'.normalizing config.parse)
      peerId = none ∧
    (s.step config (.manage env (.removePeer env' peerId))).addrManager = s.addrManager := by
  have hnone := NetworkManager.removalMarksGood_eq_none config.session.networkAddressFromString
    (env'.normalizing config.parse) s.toNetworkManager peerId
  refine ⟨hnone, ?_⟩
  rw [step_removePeer_addrManager, hnone, Option.elim_none]

theorem verified_entry : (verified.peerStates[(1 : Int)]?.any fun d => (verified.peerOf d).any fun peer =>
    decide (d.misbehavior.misbehaviorScore = 0 ∧ peer.isInbound = false ∧ peer.isFeeler = false ∧
      peer.successfullyConnected = true ∧ peer.targetAddress ≠ "" ∧ listedAddress =
        listedConfig.session.networkAddressFromString peer.targetAddress peer.targetPort)) = true := by
  decide +kernel

theorem verified_healthy : verified.Healthy listedConfig 1 listedAddress where
  running := by decide +kernel
  entry := by
    obtain ⟨d, hd, hentry⟩ := (Option.any_eq_true _ _).mp verified_entry
    obtain ⟨peer, hpeer, hentry⟩ := (Option.any_eq_true _ _).mp hentry
    exact ⟨d, peer, hd, hpeer, of_decide_eq_true hentry⟩
  known := .inl (by decide +kernel)

theorem removal_marks_none_verified : ¬ ∀ (config : NodeConfig) (env : NetEnv) (s : Node) (peerId : Int)
    (addr : NetworkAddress), s.Healthy config peerId addr →
      s.toNetworkManager.removalMarksGood config.session.networkAddressFromString (env.normalizing config.parse)
        peerId = some addr := by
  intro h
  have hmarks := h listedConfig listedEnv verified 1 listedAddress verified_healthy
  rw [NetworkManager.removalMarksGood_eq_none] at hmarks
  cases hmarks

end Node

end UnicityPow
