import UnicityPow.Discovery
import UnicityPow.Population

/-!
# What the managers leave of the peer objects

The calls on the managers disconnect objects and add new ones at the end of the store, and
no notification of theirs marks the address of a registered peer good.
-/

namespace UnicityPow

/-- An object later on, when no event of its own came between. -/
structure Peer.Later (q p : Peer) : Prop where
  follows : q.Follows p
  successfullyConnected : q.successfullyConnected = p.successfullyConnected
  state : q.state = p.state ∨ q.state = .DISCONNECTED

namespace Peer

theorem Later.refl (p : Peer) : p.Later p := ⟨.refl p, rfl, .inl rfl⟩

theorem Later.trans {p q r : Peer} (h1 : r.Later q) (h2 : q.Later p) : r.Later p where
  follows := h1.follows.trans h2.follows
  successfullyConnected := h1.successfullyConnected.trans h2.successfullyConnected
  state := by
    rcases h1.state with h | h
    · rw [h]
      exact h2.state
    · exact .inr h

theorem disconnect_later (p : Peer) : p.disconnect.Later p := by
  refine ⟨disconnect_follows p, ?_, ?_⟩
  · unfold disconnect
    split <;> rfl
  · unfold disconnect
    split
    · exact .inr rfl
    · exact .inl rfl

end Peer

/-- A notification that marks no address good. -/
def PeerEvent.Silent : PeerEvent → Prop
  | .disconnected _ _ _ reason markAddrGood => ¬ (reason = "shutdown" ∧ markAddrGood = true)
  | .connected .. => True

namespace NetworkManager

/-- Objects are kept in their places, new ones are of a kind, and new notifications are silent. -/
structure ObjectsLater (kind : Peer → Prop) (s s' : NetworkManager) : Prop where
  kept : ∀ (p : PeerPtr) (peer : Peer), s.peers[p]? = some peer → ∃ q, s'.peers[p]? = some q ∧ q.Later peer
  new : ∀ (p : PeerPtr) (q : Peer), s'.peers[p]? = some q → s.peers.length ≤ p → ∃ peer, kind peer ∧ q.Later peer
  events : ∀ e ∈ s'.peerEvents, e ∈ s.peerEvents ∨ e.Silent

namespace ObjectsLater

section
variable {kind : Peer → Prop} {s s' s'' : NetworkManager}

theorem of_eq (hpeers : s'.peers = s.peers) (hevents : s'.peerEvents = s.peerEvents) : ObjectsLater kind s s' where
  kept p peer hp := ⟨peer, hpeers ▸ hp, .refl peer⟩
  new p q hq hle := by
    rw [hpeers, List.getElem?_eq_none hle] at hq
    cases hq
  events e he := .inl (hevents ▸ he)

theorem refl (s : NetworkManager) : ObjectsLater kind s s := of_eq rfl rfl

theorem trans (h1 : ObjectsLater kind s s') (h2 : ObjectsLater kind s' s'') : ObjectsLater kind s s'' where
  kept p peer hp := by
    obtain ⟨q, hq, h⟩ := h1.kept p peer hp
    obtain ⟨r, hr, h'⟩ := h2.kept p q hq
    exact ⟨r, hr, h'.trans h⟩
  new p r hr hle := by
    by_cases hlt : p < s'.peers.length
    · obtain ⟨q, hq⟩ : ∃ q, s'.peers[p]? = some q := ⟨_, List.getElem?_eq_getElem hlt⟩
      obtain ⟨peer, hkind, h⟩ := h1.new p q hq hle
      obtain ⟨r', hr', h'⟩ := h2.kept p q hq
      obtain rfl := Option.some.inj (hr.symm.trans hr')
      exact ⟨peer, hkind, h'.trans h⟩
    · exact h2.new p r hr (not_lt.mp hlt)
  events e he := by
    rcases h2.events e he with h | h
    · exact h1.events e h
    · exact .inr h

theorem foldl {α : Type*} {f : NetworkManager → α → NetworkManager} (hf : ∀ s a, ObjectsLater kind s (f s a)) :
    ∀ (l : List α) (s : NetworkManager), ObjectsLater kind s (l.foldl f s)
  | [], s => refl s
  | a :: l, s => (hf s a).trans (foldl hf l (f s a))

theorem modifyPeer (s : NetworkManager) (p : PeerPtr) {f : Peer → Peer} (hf : ∀ peer, (f peer).Later peer) :
    ObjectsLater kind s (s.modifyPeer p f) where
  kept q peer hq := by
    unfold NetworkManager.modifyPeer
    simp only [List.getElem?_modify, hq]
    by_cases heq : p = q
    · exact ⟨f peer, by simp [heq], hf peer⟩
    · exact ⟨peer, by simp [heq], .refl peer⟩
  new q peer hq hle := by
    unfold NetworkManager.modifyPeer at hq
    simp only [List.getElem?_modify, List.getElem?_eq_none hle] at hq
    cases hq
  events e he := .inl he

theorem disconnectPeer (s : NetworkManager) (p : PeerPtr) : ObjectsLater kind s (s.disconnectPeer p) :=
  modifyPeer s p Peer.disconnect_later

/-! ## Removal -/

theorem onPeerDisconnected (s : NetworkManager) (id : BitVec 64) : ObjectsLater kind s (s.onPeerDisconnected id) := by
  unfold NetworkManager.onPeerDisconnected
  split
  · have hclear : ObjectsLater kind s s.clearSyncPeer := of_eq rfl rfl
    exact hclear.trans (foldl (f := fun s p => s.setSyncStarted p false) (fun s p =>
      modifyPeer s p fun peer => ⟨⟨rfl, rfl, rfl, rfl, .inl rfl⟩, rfl, .inl rfl⟩) _ _)
  · exact refl s

theorem notifyPeerDisconnected (s : NetworkManager) (id : Int) {e : PeerEvent} (he : e.Silent) :
    ObjectsLater kind s (s.notifyPeerDisconnected id e) := by
  have hlog : ObjectsLater kind s { s with peerEvents := s.peerEvents ++ [e] } := by
    refine ⟨fun p peer hp => ⟨peer, hp, .refl peer⟩, fun p q hq hle => ?_, fun e' he' => ?_⟩
    · rw [List.getElem?_eq_none hle] at hq
      cases hq
    · rcases List.mem_append.mp he' with h | h
      · exact .inl h
      · rw [List.mem_singleton] at h
        exact .inr (h ▸ he)
  exact hlog.trans (onPeerDisconnected _ _)

theorem discourageMisbehaving (env : NetEnv) (s : NetworkManager) (d : PeerMisbehaviorData) :
    ObjectsLater kind s (s.discourageMisbehaving env d) := by
  unfold NetworkManager.discourageMisbehaving
  split
  · cases env.validateAndNormalizeIP d.address with
    | none => exact refl s
    | some normalized =>
      simp only [Option.elim]
      unfold NetworkManager.discourage
      split
      · exact refl s
      · exact of_eq rfl rfl
  · exact refl s

theorem disconnectReason_ne (d : PeerMisbehaviorData) : disconnectReason d ≠ "shutdown" := by
  unfold disconnectReason
  split
  · intro h
    have hchars := congrArg String.toList h
    simp at hchars
  · decide

theorem removePeer (env : NetEnv) (s : NetworkManager) (peerId : Int) :
    ObjectsLater kind s (s.removePeer env peerId) := by
  unfold NetworkManager.removePeer
  split
  · exact refl s
  · rename_i d _
    split
    · exact refl s
    · rename_i peer _
      dsimp only
      have herase : ObjectsLater kind (s.discourageMisbehaving env d.misbehavior)
          { s.discourageMisbehaving env d.misbehavior with
            peerStates := (s.discourageMisbehaving env d.misbehavior).peerStates.erase peerId } := of_eq rfl rfl
      refine ((discourageMisbehaving env s d.misbehavior).trans herase).trans (trans ?_ (disconnectPeer _ _))
      split
      · exact refl _
      · exact notifyPeerDisconnected _ _ fun hs => disconnectReason_ne _ hs.1

theorem evictInboundPeer (env : NetEnv) (s : NetworkManager) : ObjectsLater kind s (s.evictInboundPeer env).1 := by
  unfold NetworkManager.evictInboundPeer
  split
  · exact refl s
  · dsimp only
    split
    · exact removePeer env s _
    · exact refl s

theorem notifyShutdown (s : NetworkManager) (kv : Int × PeerTrackingData) :
    ObjectsLater kind s (s.notifyShutdown kv) := by
  unfold NetworkManager.notifyShutdown
  split
  · exact refl s
  · exact notifyPeerDisconnected _ _ fun hs => Bool.false_ne_true hs.2

theorem disconnectAll (s : NetworkManager) : ObjectsLater kind s s.disconnectAll := by
  unfold NetworkManager.disconnectAll
  dsimp only
  have hstop : ObjectsLater kind s { s with stoppingAll := true } := of_eq rfl rfl
  have hnotified : ObjectsLater kind s (if s.shuttingDown then { s with stoppingAll := true }
      else s.peerStates.toList.foldl NetworkManager.notifyShutdown { s with stoppingAll := true }) := by
    split
    · exact hstop
    · exact hstop.trans (foldl notifyShutdown _ _)
  generalize (if s.shuttingDown then { s with stoppingAll := true }
    else s.peerStates.toList.foldl NetworkManager.notifyShutdown { s with stoppingAll := true } : NetworkManager) =
      s1 at hnotified ⊢
  have hcleared : ObjectsLater kind s1 { s1 with peerStates := ∅ } := of_eq rfl rfl
  have hdisconnected : ObjectsLater kind { s1 with peerStates := ∅ }
      (s.peerStates.toList.foldl (fun s kv => s.disconnectPeer kv.2.peer) { s1 with peerStates := ∅ }) :=
    foldl (f := fun s (kv : Int × PeerTrackingData) => s.disconnectPeer kv.2.peer)
      (fun s kv => disconnectPeer s kv.2.peer) _ _
  exact ((hnotified.trans hcleared).trans hdisconnected).trans (of_eq rfl rfl)

theorem manage (parse : String → Option String) (s : NetworkManager) {op : ManageOp} (hop : op.isOfManager = true) :
    ObjectsLater kind s (s.manage parse op) := by
  cases op with
  | removePeer env peerId => exact removePeer _ s peerId
  | evictInboundPeer env => exact evictInboundPeer _ s
  | processPeriodic env => exact foldl (removePeer _) _ s
  | disconnectAll => exact disconnectAll s
  | shutdown => exact of_eq rfl rfl
  | start | handleVerack | handlePong => cases hop
  | disconnect p => exact disconnectPeer s p
  | misbehaving peerId penalty => exact of_eq rfl rfl

/-! ## Admission -/

theorem insertPeer (env : NetEnv) (s : NetworkManager) {peer : Peer} (hkind : kind peer)
    (permissions : NetPermissionFlags) (address : String) :
    ObjectsLater kind s (s.insertPeer env peer permissions address) where
  kept p q hq := by
    refine ⟨q, ?_, .refl q⟩
    unfold NetworkManager.insertPeer
    obtain ⟨hlt, -⟩ := List.getElem?_eq_some_iff.mp hq
    simp only [List.getElem?_append_left hlt]
    exact hq
  new p q hq hle := by
    unfold NetworkManager.insertPeer at hq
    simp only [List.getElem?_append_right hle] at hq
    rw [List.getElem?_singleton] at hq
    split at hq
    · obtain rfl := Option.some.inj hq
      exact ⟨peer, hkind, ⟨rfl, rfl, rfl, rfl, .inl rfl⟩, rfl, .inl rfl⟩
    · cases hq
  events e he := by
    unfold NetworkManager.insertPeer at he
    rcases List.mem_append.mp he with h | h
    · exact .inl h
    · rw [List.mem_singleton] at h
      exact .inr (h ▸ trivial)

theorem makeRoom (config : PeerConfig) (env : NetEnv) (s : NetworkManager) :
    ObjectsLater kind s (s.makeRoom config env).1 := by
  unfold NetworkManager.makeRoom
  split
  · exact refl s
  · have hevict : ObjectsLater kind s (s.evictInboundPeer env).1 := evictInboundPeer env s
    split
    · rename_i s1 heq
      rw [heq] at hevict
      exact hevict
    · rename_i s1 heq
      rw [heq] at hevict
      exact hevict

theorem addPeer (config : PeerConfig) (env : NetEnv) (s : NetworkManager) {peer : Peer} (hkind : kind peer)
    (permissions : NetPermissionFlags) (address : String) :
    ObjectsLater kind s (s.addPeer config env peer permissions address).1 := by
  unfold NetworkManager.addPeer
  dsimp only
  generalize (if address = "" then peer.address else address) = peerAddress
  split
  · exact refl s
  · split
    · exact refl s
    · split
      · exact refl s
      · split
        · exact insertPeer env s hkind permissions _
        · have hroom : ObjectsLater kind s (s.makeRoom config env).1 := makeRoom config env s
          split
          · rename_i s1 heq
            rw [heq] at hroom
            exact hroom
          · rename_i s1 heq
            rw [heq] at hroom
            split
            · exact hroom
            · exact hroom.trans (insertPeer env s1 hkind permissions _)

theorem addAndStart (config : PeerConfig) (env : NetEnv) (s : NetworkManager) {peer : Peer} (hkind : kind peer)
    (permissions : NetPermissionFlags) (address : String) :
    ObjectsLater kind s (s.addAndStart config env peer permissions address) := by
  unfold NetworkManager.addAndStart
  dsimp only
  have hadd := addPeer config env s hkind permissions address
  split
  · exact hadd.trans (disconnectPeer _ _)
  · split
    · exact hadd
    · exact hadd.trans (modifyPeer _ _ fun p => ⟨⟨rfl, rfl, rfl, rfl, .inl rfl⟩, rfl, .inl rfl⟩)

theorem handleInboundConnection (config : PeerConfig) (env : NetEnv) (s : NetworkManager) (isRunning : Bool)
    (connection : Option (String × BitVec 16)) (isOpen : Bool) (permissions : NetPermissionFlags)
    (hkind : kind (.createInbound connection isOpen)) :
    ObjectsLater kind s (s.handleInboundConnection config env isRunning connection isOpen permissions) := by
  unfold NetworkManager.handleInboundConnection
  split
  · exact refl s
  · split
    · exact refl s
    · split
      · exact refl s
      · exact addAndStart config env s hkind permissions ""

end

end ObjectsLater

end NetworkManager

end UnicityPow
