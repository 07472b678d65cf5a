import UnicityPow.AdmissionSound
import UnicityPow.EvictionSound

/-!
# Connected objects have entries

An object loses its connection when its entry is removed, so as long as it has one, the entry
under its id is its own. This holds as long as no admission takes an id that is in use.
-/

namespace UnicityPow

namespace Peer

/-- An object later on, which may have lost its connection. -/
def Tame (q p : Peer) : Prop :=
  q.id = p.id ∧ (q.connection = none ∨ q.connection = p.connection ∧ (p.isConnected = true → q.isConnected = true))

theorem Tame.refl (p : Peer) : p.Tame p := ⟨rfl, .inr ⟨rfl, fun h => h⟩⟩

theorem Tame.trans {p q r : Peer} (h1 : r.Tame q) (h2 : q.Tame p) : r.Tame p := by
  refine ⟨h1.1.trans h2.1, ?_⟩
  rcases h1.2 with hr | ⟨hr, hrc⟩
  · exact .inl hr
  · rcases h2.2 with hq | ⟨hq, hqc⟩
    · exact .inl (hr.trans hq)
    · exact .inr ⟨hr.trans hq, fun hp => hrc (hqc hp)⟩

theorem disconnect_tame (p : Peer) : p.disconnect.Tame p := by
  unfold disconnect
  split
  · exact ⟨rfl, .inl rfl⟩
  · exact .refl p

theorem handleVerack_tame (p : Peer) : p.handleVerack.Tame p := by
  unfold handleVerack
  split
  · exact .refl p
  · exact ⟨rfl, .inr ⟨rfl, fun _ => rfl⟩⟩

/-- Only a peer with an open or opening transport has one. -/
def Wired (p : Peer) : Prop := p.connection.isSome = true → p.isConnected = true

theorem Tame.connection_none {p q : Peer} (h : q.Tame p) (hp : p.connection = none) : q.connection = none := by
  rcases h.2 with hnone | ⟨heq, -⟩
  · exact hnone
  · exact heq.trans hp

theorem Wired.tame {p q : Peer} (h : p.Wired) (hq : q.Tame p) : q.Wired := fun hsome => by
  rcases hq.2 with hnone | ⟨heq, hc⟩
  · rw [hnone] at hsome
    cases hsome
  · exact hc (h (heq ▸ hsome))

theorem Wired.disconnect {p : Peer} (h : p.Wired) : p.disconnect.connection = none := by
  unfold Peer.disconnect
  split
  · rfl
  · rename_i hoff
    by_contra hne
    exact hoff (h (Option.isSome_iff_ne_none.mpr hne))

theorem create_wired (connection : Option (String × BitVec 16)) (isOpen isInbound : Bool) (targetAddress : String)
    (targetPort : BitVec 16) (connectionType : ConnectionType) :
    (create connection isOpen isInbound targetAddress targetPort connectionType).Wired := by
  intro hsome
  cases connection with
  | none => cases hsome
  | some remote => cases isOpen <;> rfl

end Peer

namespace NetworkManager

def AllWired (s : NetworkManager) : Prop := ∀ (p : PeerPtr) (peer : Peer), s.peers[p]? = some peer → peer.Wired

structure Attached (s : NetworkManager) : Prop where
  wired : AllWired s
  entry : ∀ (p : PeerPtr) (peer : Peer), s.peers[p]? = some peer → peer.connection.isSome = true →
    s.ptrOf peer.id = some p

/-- Objects may lose their connections, and those without one their entries. -/
structure Trims (s s' : NetworkManager) : Prop where
  length : s'.peers.length = s.peers.length
  kept : ∀ (p : PeerPtr) (q : Peer), s'.peers[p]? = some q → ∃ peer, s.peers[p]? = some peer ∧ q.Tame peer
  entries : ∀ id p, s'.ptrOf id = some p → s.ptrOf id = some p
  held : ∀ (p : PeerPtr) (q : Peer) (id : Int), s'.peers[p]? = some q → q.connection.isSome = true →
    s.ptrOf id = some p → s'.ptrOf id = some p

/-- New entries are of new objects. -/
structure Succeeds (s s' : NetworkManager) : Prop where
  length : s.peers.length ≤ s'.peers.length
  entries : ∀ id p, s'.ptrOf id = some p → s.ptrOf id = some p ∨ s.peers.length ≤ p

section
variable {s s' s'' : NetworkManager} {env : NetEnv}

theorem Trims.succeeds (h : Trims s s') : Succeeds s s' := ⟨h.length.ge, fun id p hp => .inl (h.entries id p hp)⟩

theorem Trims.refl (s : NetworkManager) : Trims s s :=
  ⟨rfl, fun _ q hq => ⟨q, hq, .refl q⟩, fun _ _ h => h, fun _ _ _ _ _ h => h⟩

theorem Trims.of_same (hpeers : s'.peers = s.peers) (hptr : s'.ptrOf = s.ptrOf) : Trims s s' where
  length := by rw [hpeers]
  kept p q hq := ⟨q, hpeers ▸ hq, .refl q⟩
  entries id p hp := hptr ▸ hp
  held p q id _ _ hp := hptr ▸ hp

theorem Trims.trans (h1 : Trims s s') (h2 : Trims s' s'') : Trims s s'' where
  length := h2.length.trans h1.length
  kept p r hr := by
    obtain ⟨q, hq, hrq⟩ := h2.kept p r hr
    obtain ⟨peer, hp, hqp⟩ := h1.kept p q hq
    exact ⟨peer, hp, hrq.trans hqp⟩
  entries id p hp := h1.entries id p (h2.entries id p hp)
  held p r id hr hsome hp := by
    obtain ⟨q, hq, hrq⟩ := h2.kept p r hr
    refine h2.held p r id hr hsome (h1.held p q id hq ?_ hp)
    rcases hrq.2 with hnone | ⟨heq, -⟩
    · rw [hnone] at hsome
      cases hsome
    · exact heq ▸ hsome

theorem AllWired.trims (W : AllWired s) (h : Trims s s') : AllWired s' := fun p q hq => by
  obtain ⟨peer, hpeer, htame⟩ := h.kept p q hq
  exact (W p peer hpeer).tame htame

theorem Attached.trims (A : Attached s) (h : Trims s s') : Attached s' := by
  refine ⟨A.wired.trims h, fun p q hq hsome => ?_⟩
  obtain ⟨peer, hpeer, htame⟩ := h.kept p q hq
  rcases htame.2 with hnone | ⟨heq, -⟩
  · rw [hnone] at hsome
    cases hsome
  · exact h.held p q q.id hq hsome (htame.1 ▸ A.entry p peer hpeer (heq ▸ hsome))

theorem Registered.trims (R : Registered s) (h : Trims s s') : Registered s' := fun id p hp => by
  obtain ⟨peer, hpeer, hid⟩ := Option.map_eq_some_iff.mp (R id p (h.entries id p hp))
  have hlt : p < s'.peers.length := h.length ▸ (List.getElem?_eq_some_iff.mp hpeer).1
  have hq : s'.peers[p]? = some s'.peers[p] := List.getElem?_eq_getElem hlt
  obtain ⟨peer', hpeer', htame⟩ := h.kept p _ hq
  rw [idOf_of_get hq, htame.1, ← hid, Option.some.inj (hpeer'.symm.trans hpeer)]

theorem trims_modifyPeer (s : NetworkManager) (p : PeerPtr) {f : Peer → Peer} (hf : ∀ peer, (f peer).Tame peer) :
    Trims s (s.modifyPeer p f) where
  length := List.length_modify ..
  kept q x hx := by
    unfold modifyPeer at hx
    simp only [List.getElem?_modify] at hx
    obtain ⟨peer, hpeer, rfl⟩ := Option.map_eq_some_iff.mp hx
    refine ⟨peer, hpeer, ?_⟩
    split
    · exact hf peer
    · exact .refl peer
  entries id q hq := hq
  held _ _ _ _ _ h := h

theorem trims_foldl {α : Type*} {f : NetworkManager → α → NetworkManager} {P : NetworkManager → Prop}
    (hP : ∀ s s', P s → Trims s s' → P s') (hf : ∀ s a, P s → Trims s (f s a)) (l : List α) (h : P s) :
    Trims s (l.foldl f s) := by
  induction l generalizing s with
  | nil => exact .refl s
  | cons a l ih => exact (hf s a h).trans (ih (hP s _ h (hf s a h)))

theorem trims_onPeerDisconnected (s : NetworkManager) (v : BitVec 64) : Trims s (s.onPeerDisconnected v) := by
  unfold onPeerDisconnected
  split
  · have hclear : Trims s s.clearSyncPeer := .of_same rfl rfl
    refine hclear.trans (trims_foldl (P := fun _ => True) (fun _ _ _ _ => trivial) (fun s p _ => ?_) _ trivial)
    exact trims_modifyPeer s p fun peer => ⟨rfl, .inr ⟨rfl, fun h => h⟩⟩
  · exact .refl s

theorem trims_discourageMisbehaving (env : NetEnv) (s : NetworkManager) (d : PeerMisbehaviorData) :
    Trims s (s.discourageMisbehaving env d) := by
  unfold discourageMisbehaving
  split
  · cases env.validateAndNormalizeIP d.address with
    | none => exact .refl s
    | some normalized =>
      simp only [Option.elim, discourage]
      split
      · exact .refl s
      · exact .of_same rfl rfl
  · exact .refl s

theorem trims_notifyPeerDisconnected (s : NetworkManager) (peerId : Int) (e : PeerEvent) :
    Trims s (s.notifyPeerDisconnected peerId e) := by
  unfold notifyPeerDisconnected
  have hlog : Trims s { s with peerEvents := s.peerEvents ++ [e] } := .of_same rfl rfl
  exact hlog.trans (trims_onPeerDisconnected _ _)

theorem trims_notifyShutdown (s : NetworkManager) (kv : Int × PeerTrackingData) :
    Trims s (s.notifyShutdown kv) := by
  unfold notifyShutdown
  split
  · exact .refl s
  · exact trims_notifyPeerDisconnected s _ _

/-! ## Removal -/

theorem disconnectPeer_connection (W : AllWired s) {p : PeerPtr} {q : Peer}
    (h : (s.disconnectPeer p).peers[p]? = some q) :
    q.connection = none := by
  unfold disconnectPeer modifyPeer at h
  simp only [List.getElem?_modify_eq] at h
  obtain ⟨peer, hpeer, rfl⟩ := Option.map_eq_some_iff.mp h
  exact (W p peer hpeer).disconnect

theorem trims_disconnectPeer (s : NetworkManager) (p : PeerPtr) : Trims s (s.disconnectPeer p) :=
  trims_modifyPeer s p Peer.disconnect_tame

variable (env) in
theorem AllWired.trims_removePeer (W : AllWired s) (peerId : Int) : Trims s (s.removePeer env peerId) := by
  unfold removePeer
  split
  · exact .refl s
  rename_i d hd
  split
  · exact .refl s
  rename_i peer _
  dsimp only
  have h1 := trims_discourageMisbehaving env s d.misbehavior
  have hptr : (s.discourageMisbehaving env d.misbehavior).ptrOf = s.ptrOf :=
    (SameTable.discourageMisbehaving s d.misbehavior).ptrOf
  generalize s.discourageMisbehaving env d.misbehavior = s1 at h1 hptr ⊢
  have h2 : Trims { s1 with peerStates := s1.peerStates.erase peerId }
      (if s1.shuttingDown then { s1 with peerStates := s1.peerStates.erase peerId }
        else ({ s1 with peerStates := s1.peerStates.erase peerId } : NetworkManager).notifyPeerDisconnected peerId
          (.disconnected peerId peer.address peer.port (disconnectReason d.misbehavior)
            (markAddrGood peer d.misbehavior))) := by
    split
    · exact .refl _
    · exact trims_notifyPeerDisconnected _ _ _
  generalize (if s1.shuttingDown then ({ s1 with peerStates := s1.peerStates.erase peerId } : NetworkManager)
    else ({ s1 with peerStates := s1.peerStates.erase peerId } : NetworkManager).notifyPeerDisconnected peerId
      (.disconnected peerId peer.address peer.port (disconnectReason d.misbehavior)
        (markAddrGood peer d.misbehavior))) = s2 at h2 ⊢
  have h3 := h2.trans (trims_disconnectPeer s2 d.peer)
  have herased : ∀ id, ({ s1 with peerStates := s1.peerStates.erase peerId } : NetworkManager).ptrOf id =
      if id = peerId then none else s.ptrOf id := fun id => by rw [ptrOf_erase, hptr]
  refine ⟨h3.length.trans h1.length, fun p q hq => ?_, fun id p hp => ?_, fun p q id hq hsome hp => ?_⟩
  · obtain ⟨x, hx, hqx⟩ := h3.kept p q hq
    obtain ⟨y, hy, hxy⟩ := h1.kept p x hx
    exact ⟨y, hy, hqx.trans hxy⟩
  · have := h3.entries id p hp
    rw [herased] at this
    split at this
    · cases this
    · exact this
  · refine h3.held p q id hq hsome ?_
    rw [herased]
    split
    · -- the entry was the one of the object that the removal disconnects
      rename_i heq
      rw [heq, ptrOf_of_get hd] at hp
      cases hp
      have W1 : AllWired s1 := W.trims h1
      have W2 : AllWired ({ s1 with peerStates := s1.peerStates.erase peerId } : NetworkManager) := W1
      have hnone := disconnectPeer_connection (W2.trims h2) hq
      rw [hnone] at hsome
      cases hsome
    · exact hp

theorem AllWired.trims_foldl_removePeer (W : AllWired s) (l : List Int) :
    Trims s (l.foldl (removePeer env) s) :=
  trims_foldl (fun _ _ => AllWired.trims) (fun _ id h => h.trims_removePeer env id) l W

/-- Each object of a list is without a connection once all have been disconnected. -/
theorem foldl_disconnectPeer_connection (W : AllWired s) {α : Type*} (ptr : α → PeerPtr) (l : List α) {a : α}
    (ha : a ∈ l) {q : Peer} (hq : (l.foldl (fun s a => s.disconnectPeer (ptr a)) s).peers[ptr a]? = some q) :
    q.connection = none := by
  induction l generalizing s with
  | nil => cases ha
  | cons b l ih =>
    have hW := W.trims (trims_disconnectPeer s (ptr b))
    rcases List.mem_cons.mp ha with rfl | ha
    · have htrims := trims_foldl (fun _ _ => AllWired.trims) (fun s b _ => trims_disconnectPeer s (ptr b)) l hW
      obtain ⟨x, hx, hqx⟩ := htrims.kept _ q hq
      exact hqx.connection_none (disconnectPeer_connection W hx)
    · exact ih hW ha hq

theorem AllWired.trims_disconnectAll (W : AllWired s) : Trims s s.disconnectAll := by
  have hnone := (disconnectAll_cleared s).peerStates
  have hmem : ∀ {id : Int} {p : PeerPtr}, s.ptrOf id = some p → ∃ kv ∈ s.peerStates.toList, kv.2.peer = p := by
    intro id p hp
    obtain ⟨d, hd, rfl⟩ := Option.map_eq_some_iff.mp hp
    exact ⟨(id, d), Std.ExtTreeMap.mem_toList_iff_getElem?_eq_some.mpr hd, rfl⟩
  revert hnone
  unfold disconnectAll
  dsimp only
  generalize s.peerStates.toList = l at hmem ⊢
  have h1 : Trims s (if s.shuttingDown then { s with stoppingAll := true }
      else l.foldl notifyShutdown { s with stoppingAll := true }) := by
    have hstop : Trims s { s with stoppingAll := true } := .of_same rfl rfl
    split
    · exact hstop
    · exact hstop.trans (trims_foldl (P := fun _ => True) (fun _ _ _ _ => trivial)
        (fun s kv _ => trims_notifyShutdown s kv) l trivial)
  generalize (if s.shuttingDown then ({ s with stoppingAll := true } : NetworkManager)
    else l.foldl notifyShutdown { s with stoppingAll := true }) = s1 at h1 ⊢
  have W1 : AllWired s1 := W.trims h1
  have W2 : AllWired ({ s1 with peerStates := ∅ } : NetworkManager) := W1
  have h2 : Trims ({ s1 with peerStates := ∅ } : NetworkManager)
      (l.foldl (fun s kv => s.disconnectPeer kv.2.peer) { s1 with peerStates := ∅ }) :=
    trims_foldl (P := fun _ => True) (fun _ _ _ _ => trivial) (fun s kv _ => trims_disconnectPeer s kv.2.peer) l
      trivial
  intro hnone
  refine ⟨h2.length.trans h1.length, fun p q hq => ?_, fun id p hp => ?_, fun p q id hq hsome hp => ?_⟩
  · obtain ⟨x, hx, hqx⟩ := h2.kept p q hq
    obtain ⟨y, hy, hxy⟩ := h1.kept p x hx
    exact ⟨y, hy, hqx.trans hxy⟩
  · unfold ptrOf at hp
    rw [hnone] at hp
    cases hp
  · obtain ⟨kv, hkv, rfl⟩ := hmem hp
    rw [foldl_disconnectPeer_connection W2 (fun kv => kv.2.peer) l hkv hq] at hsome
    cases hsome

theorem AllWired.trims_manage (W : AllWired s) (parse : String → Option String) (op : ManageOp) :
    Trims s (s.manage parse op) := by
  cases op with
  | removePeer env peerId => exact W.trims_removePeer _ peerId
  | evictInboundPeer env =>
    unfold NetworkManager.manage
    simp only [evictInboundPeer_eq]
    cases s.evictionVictim (env.normalizing parse) with
    | none => exact .refl s
    | some victim => exact W.trims_removePeer _ victim
  | processPeriodic env => exact W.trims_foldl_removePeer _
  | disconnectAll => exact W.trims_disconnectAll
  | shutdown => exact .of_same rfl rfl
  | start env p => exact trims_modifyPeer s p fun _ => ⟨rfl, .inr ⟨rfl, fun h => h⟩⟩
  | handleVerack p => exact trims_modifyPeer s p Peer.handleVerack_tame
  | handlePong p pingTimeMs => exact trims_modifyPeer s p fun _ => ⟨rfl, .inr ⟨rfl, fun h => h⟩⟩
  | disconnect p => exact trims_disconnectPeer s p
  | misbehaving peerId penalty => exact .of_same rfl (SameTable.modifyMisbehavior s peerId _).ptrOf

/-! ## Admission -/

theorem Attached.insertPeer (A : Attached s) {peer : Peer} (hpeer : peer.Wired)
    (hfresh : s.nextPeerId ∉ s.peerStates) (permissions : NetPermissionFlags) (address : String) :
    Attached (s.insertPeer env peer permissions address) := by
  have hptr := (insertPeer_inserted env s peer permissions address).ptrOf
  have hget : ∀ {p : PeerPtr} {q : Peer}, (s.insertPeer env peer permissions address).peers[p]? = some q →
      s.peers[p]? = some q ∨ p = s.peers.length ∧ q = { peer with id := s.nextPeerId } := by
    intro p q hq
    unfold NetworkManager.insertPeer at hq
    dsimp only at hq
    rcases Nat.lt_or_ge p s.peers.length with hlt | hge
    · rw [List.getElem?_append_left hlt] at hq
      exact .inl hq
    · rw [List.getElem?_append_right hge, List.getElem?_singleton] at hq
      split at hq
      · rename_i hzero
        exact .inr ⟨Nat.le_antisymm (Nat.le_of_sub_eq_zero hzero) hge, (Option.some.inj hq).symm⟩
      · cases hq
  refine ⟨fun p q hq => ?_, fun p q hq hsome => ?_⟩
  · rcases hget hq with hq | ⟨-, rfl⟩
    · exact A.wired p q hq
    · exact hpeer
  · rw [hptr]
    rcases hget hq with hq | ⟨rfl, rfl⟩
    · have hold := A.entry p q hq hsome
      split
      · rename_i heq
        exact absurd (mem_iff_ptrOf.mpr ⟨p, heq ▸ hold⟩) hfresh
      · exact hold
    · rw [if_pos rfl]

variable (env) in
theorem succeeds_insertPeer (s : NetworkManager) (peer : Peer) (permissions : NetPermissionFlags)
    (address : String) :
    Succeeds s (s.insertPeer env peer permissions address) where
  length := by
    unfold NetworkManager.insertPeer
    dsimp only
    rw [List.length_append]
    exact Nat.le_add_right _ _
  entries id p hp := by
    rw [(insertPeer_inserted env s peer permissions address).ptrOf] at hp
    split at hp
    · exact .inr (Option.some.inj hp).le
    · exact .inl hp

theorem Succeeds.of_trims (h1 : Trims s s') (h2 : Succeeds s' s'') : Succeeds s s'' where
  length := h1.length ▸ h2.length
  entries id p hp := (h2.entries id p hp).imp (h1.entries id p) fun h => h1.length ▸ h

theorem AllWired.trims_madeRoom (W : AllWired s) (config : PeerConfig) (env : NetEnv) (peer : Peer) :
    Trims s (s.madeRoom config env peer) := by
  unfold NetworkManager.madeRoom
  split
  · cases s.evictionVictim env with
    | none => exact .refl s
    | some victim => exact W.trims_removePeer env victim
  · exact .refl s

theorem Attached.addPeer (A : Attached s) (R : Registered s) (config : PeerConfig) (env : NetEnv) {peer : Peer}
    (hpeer : peer.Wired) (hfresh : s.nextPeerId ∉ s.peerStates) (permissions : NetPermissionFlags)
    (address : String) :
    Attached (s.addPeer config env peer permissions address).1 ∧
      Succeeds s (s.addPeer config env peer permissions address).1 := by
  have hroom := A.wired.trims_madeRoom config env peer
  rw [addPeer_eq R]
  split
  · have hnext := (R.madeRoom_shrinks config env blindView peer).nextPeerId
    refine ⟨(A.trims hroom).insertPeer hpeer (fun hmem => ?_) permissions _,
      .of_trims hroom (succeeds_insertPeer env _ peer permissions _)⟩
    obtain ⟨p, hp⟩ := mem_iff_ptrOf.mp hmem
    exact hfresh (mem_iff_ptrOf.mpr ⟨p, hnext ▸ hroom.entries _ p hp⟩)
  · split
    · exact ⟨A.trims hroom, hroom.succeeds⟩
    · exact ⟨A, (Trims.refl s).succeeds⟩

/-! ## Runs -/

/-- An admission takes an id that no entry has. -/
def TakesFreshId (s : NetworkManager) : LifecycleOp → Prop
  | .manage _ => True
  | _ => s.nextPeerId ∉ s.peerStates

instance (s : NetworkManager) (op : LifecycleOp) : Decidable (TakesFreshId s op) := by
  cases op <;> unfold TakesFreshId <;> infer_instance

theorem Attached.lifecycleStep (A : Attached s) (R : Registered s) (parse : String → Option String)
    (config : PeerConfig) {op : LifecycleOp} (hop : TakesFreshId s op) :
    Attached (s.lifecycleStep parse config op) ∧ Succeeds s (s.lifecycleStep parse config op) := by
  cases op with
  | addInbound env connection isOpen permissions address =>
    exact A.addPeer R config _ (Peer.create_wired connection isOpen true _ _ _) hop permissions address
  | addOutbound env connection isOpen targetAddress targetPort connectionType permissions address =>
    have hwired := Peer.create_wired connection isOpen false targetAddress targetPort connectionType
    exact A.addPeer R config _ hwired hop permissions address
  | manage op =>
    have htrims := A.wired.trims_manage parse op
    exact ⟨A.trims htrims, htrims.succeeds⟩

theorem attached_fresh (chainstate : ChainstateManager) : Attached (fresh chainstate) :=
  ⟨fun p peer h => (by cases h), fun p peer h => (by cases h)⟩

end

end NetworkManager

end UnicityPow
