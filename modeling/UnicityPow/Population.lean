import UnicityPow.Lifecycle
import UnicityPow.PeerTable
import UnicityPow.Tally

/-!
# The population of the peer map

What the peer manager counts are views of the registered objects: a map from ids to what
each object shows. Removal erases an id, admission inserts one, and the other calls leave
the population as it is.
-/

namespace UnicityPow

/-- What an object shows that neither its id nor its sync flag decides. -/
structure PeerView (α : Type) where
  view : Peer → α
  setId : ∀ (p : Peer) id, view { p with id } = view p
  setSyncStarted : ∀ (p : Peer) b, view { p with syncStarted := b } = view p

namespace Peer

/-- An object later on: its connection may be gone. -/
def Follows (q p : Peer) : Prop :=
  q.isInbound = p.isInbound ∧ q.connectionType = p.connectionType ∧ q.targetAddress = p.targetAddress ∧
    q.targetPort = p.targetPort ∧ (q.connection = p.connection ∨ q.connection = none)

theorem Follows.refl (p : Peer) : p.Follows p := ⟨rfl, rfl, rfl, rfl, .inl rfl⟩

theorem Follows.trans {p q r : Peer} (h1 : r.Follows q) (h2 : q.Follows p) : r.Follows p := by
  obtain ⟨a1, b1, c1, d1, e1⟩ := h1
  obtain ⟨a2, b2, c2, d2, e2⟩ := h2
  refine ⟨a1.trans a2, b1.trans b2, c1.trans c2, d1.trans d2, ?_⟩
  rcases e1 with e1 | e1
  · rcases e2 with e2 | e2
    · exact .inl (e1.trans e2)
    · exact .inr (e1.trans e2)
  · exact .inr e1

theorem disconnect_follows (p : Peer) : p.disconnect.Follows p := by
  unfold disconnect
  split
  · exact ⟨rfl, rfl, rfl, rfl, .inr rfl⟩
  · exact .refl p

theorem handleVerack_follows (p : Peer) : p.handleVerack.Follows p := by
  unfold handleVerack
  split
  · exact .refl p
  · exact ⟨rfl, rfl, rfl, rfl, .inl rfl⟩

/-- The connection is to the target address: what a peer shows of its address outlives it. -/
def Settled (p : Peer) : Prop :=
  p.connection = none ∨ p.connection = some (p.targetAddress, p.targetPort) ∧ p.targetAddress ≠ ""

theorem Settled.of_follows {p q : Peer} (h : p.Settled) (hq : q.Follows p) : q.Settled := by
  obtain ⟨-, -, ha, hp, hc⟩ := hq
  rcases hc with hc | hc
  · rcases h with h | ⟨h, hne⟩
    · exact .inl (hc.trans h)
    · exact .inr ⟨by rw [hc, h, ha, hp], ha ▸ hne⟩
  · exact .inl hc

theorem Settled.address_of_follows {p q : Peer} (h : p.Settled) (hq : q.Follows p) : q.address = p.address := by
  obtain ⟨-, -, ha, -, hc⟩ := hq
  unfold address
  rcases hc with hc | hc
  · rw [hc, ha]
  · rw [hc, ha]
    rcases h with h | ⟨h, hne⟩
    · rw [h]
    · simp [h, hne]

end Peer

namespace NetworkManager

section
variable {α : Type} (v : PeerView α) (s : NetworkManager)

def viewAt (p : PeerPtr) : Option α := s.peers[p]?.map v.view

/-- The views of the registered objects. -/
def population : Std.ExtTreeMap Int α compare := s.peerStates.filterMap (fun _ d => s.viewAt v d.peer)

/-- Every entry is of an object that carries its id. -/
def Registered : Prop := ∀ id p, s.ptrOf id = some p → s.idOf p = some id

end

section
variable {α : Type} {v : PeerView α} {s s' s'' : NetworkManager} {env : NetEnv}

theorem population_get (id : Int) : (s.population v)[id]? = (s.ptrOf id).bind (s.viewAt v) := by
  unfold population ptrOf
  rw [Std.ExtTreeMap.getElem?_filterMap']
  cases s.peerStates[id]? <;> rfl

theorem population_ext {m : Std.ExtTreeMap Int α compare} (h : ∀ id, (s.ptrOf id).bind (s.viewAt v) = m[id]?) :
    s.population v = m :=
  Std.ExtTreeMap.ext_getElem? fun id => (population_get id).trans (h id)

theorem Registered.viewAt (R : Registered s) {id : Int} {p : PeerPtr} (h : s.ptrOf id = some p) :
    ∃ x, s.viewAt v p = some x := by
  obtain ⟨peer, hpeer, -⟩ := Option.map_eq_some_iff.mp (R id p h)
  exact ⟨v.view peer, by rw [NetworkManager.viewAt, hpeer]; rfl⟩

theorem Registered.inj (R : Registered s) {id id' : Int} {p : PeerPtr} (h : s.ptrOf id = some p)
    (h' : s.ptrOf id' = some p) : id = id' :=
  Option.some.inj ((R id p h).symm.trans (R id' p h'))

theorem Registered.mem_population (R : Registered s) {id : Int} : id ∈ s.population v ↔ id ∈ s.peerStates := by
  rw [mem_iff_ptrOf, Std.ExtTreeMap.mem_iff_isSome_getElem?, population_get]
  cases hp : s.ptrOf id with
  | none => simp
  | some p =>
    obtain ⟨x, hx⟩ := R.viewAt (v := v) hp
    simp [hx]

/-! ## Counting -/

/-- The entries whose object meets a condition on what it shows. -/
theorem entriesWhere_length {f : Peer → Bool} (g : α → Bool) (hf : ∀ p, f p = g (v.view p)) :
    (s.entriesWhere f).length = ((s.population v).filter (fun _ x => g x)).size := by
  rw [← Std.ExtTreeMap.length_toList, Std.ExtTreeMap.toList_filter]
  unfold population entriesWhere
  rw [Std.ExtTreeMap.toList_filterMap]
  induction s.peerStates.toList with
  | nil => rfl
  | cons kv l ih =>
    obtain ⟨id, d⟩ := kv
    cases hp : s.peers[d.peer]? with
    | none => simpa [peerOf, viewAt, hp] using ih
    | some peer =>
      by_cases hg : g (v.view peer) = true
      · simpa [peerOf, viewAt, hp, hf, hg] using ih
      · simpa [peerOf, viewAt, hp, hf, hg] using ih

/-! ## Calls that keep the population -/

/-- Calls that neither register nor remove a peer, change what an object shows or give out
an id. -/
structure SamePeers (v : PeerView α) (s s' : NetworkManager) : Prop extends SameTable s s' where
  viewAt : s'.viewAt v = s.viewAt v
  idsGivenOut : s'.idsGivenOut = s.idsGivenOut
  stoppingAll : s'.stoppingAll = s.stoppingAll

theorem viewAt_modifyPeer (s : NetworkManager) (p q : PeerPtr) (f : Peer → Peer) :
    (s.modifyPeer p f).viewAt v q = if q = p then s.peers[q]?.map (fun peer => v.view (f peer)) else s.viewAt v q := by
  unfold NetworkManager.viewAt modifyPeer
  rw [List.getElem?_modify]
  by_cases h : q = p
  · simp [h, Option.map_map, Function.comp_def]
  · simp [h, Ne.symm h]

namespace SamePeers

theorem refl (v : PeerView α) (s : NetworkManager) : SamePeers v s s := ⟨SameTable.refl s, rfl, rfl, rfl⟩

theorem trans (h1 : SamePeers v s s') (h2 : SamePeers v s' s'') : SamePeers v s s'' :=
  ⟨h1.toSameTable.trans h2.toSameTable, h2.viewAt.trans h1.viewAt, h2.idsGivenOut.trans h1.idsGivenOut,
    h2.stoppingAll.trans h1.stoppingAll⟩

theorem population (h : SamePeers v s s') : s'.population v = s.population v :=
  population_ext fun id => by rw [h.ptrOf, h.viewAt, population_get]

theorem registered (h : SamePeers v s s') (R : Registered s) : Registered s' := fun id p hp => by
  rw [h.idOf]
  exact R id p (h.ptrOf ▸ hp)

theorem modifyPeer (s : NetworkManager) (p : PeerPtr) {f : Peer → Peer} (hid : ∀ peer, (f peer).id = peer.id)
    (hf : ∀ peer, v.view (f peer) = v.view peer) : SamePeers v s (s.modifyPeer p f) := by
  refine ⟨.modifyPeer s p hid, ?_, rfl, rfl⟩
  funext q
  rw [viewAt_modifyPeer]
  by_cases h : q = p
  · simp [h, hf, NetworkManager.viewAt]
  · rw [if_neg h]

theorem modifyMisbehavior (v : PeerView α) (s : NetworkManager) (id : Int)
    (f : PeerMisbehaviorData → PeerMisbehaviorData) : SamePeers v s (s.modifyMisbehavior id f) :=
  ⟨.modifyMisbehavior s id f, rfl, rfl, rfl⟩

theorem discourageMisbehaving (v : PeerView α) (env : NetEnv) (s : NetworkManager) (d : PeerMisbehaviorData) :
    SamePeers v s (s.discourageMisbehaving env d) := by
  unfold NetworkManager.discourageMisbehaving
  split
  · cases env.validateAndNormalizeIP d.address with
    | none => exact refl v s
    | some normalized =>
      simp only [Option.elim]
      unfold NetworkManager.discourage
      split
      · exact refl v s
      · exact ⟨⟨rfl, rfl, rfl, rfl⟩, rfl, rfl, rfl⟩
  · exact refl v s

theorem foldl {β : Type*} {f : NetworkManager → β → NetworkManager} (hf : ∀ s b, SamePeers v s (f s b)) :
    ∀ (l : List β) (s : NetworkManager), SamePeers v s (l.foldl f s)
  | [], s => refl v s
  | b :: l, s => (hf s b).trans (foldl hf l (f s b))

theorem setSyncStarted (v : PeerView α) (s : NetworkManager) (p : PeerPtr) (b : Bool) :
    SamePeers v s (s.setSyncStarted p b) :=
  modifyPeer s p (fun _ => rfl) (fun peer => v.setSyncStarted peer b)

theorem onPeerDisconnected (v : PeerView α) (s : NetworkManager) (id : BitVec 64) :
    SamePeers v s (s.onPeerDisconnected id) := by
  unfold NetworkManager.onPeerDisconnected
  split
  · have hclear : SamePeers v s s.clearSyncPeer := ⟨⟨rfl, rfl, rfl, rfl⟩, rfl, rfl, rfl⟩
    exact hclear.trans (foldl (fun s p => setSyncStarted v s p false) _ _)
  · exact refl v s

theorem notifyPeerDisconnected (v : PeerView α) (s : NetworkManager) (id : Int) {e : PeerEvent}
    (he : e.connectedId = none) : SamePeers v s (s.notifyPeerDisconnected id e) := by
  unfold NetworkManager.notifyPeerDisconnected
  have hlog : SamePeers v s { s with peerEvents := s.peerEvents ++ [e] } :=
    ⟨⟨rfl, rfl, rfl, rfl⟩, rfl, by simp [NetworkManager.idsGivenOut, he], rfl⟩
  exact hlog.trans (onPeerDisconnected v _ _)

theorem notifyShutdown (v : PeerView α) (s : NetworkManager) (kv : Int × PeerTrackingData) :
    SamePeers v s (s.notifyShutdown kv) := by
  unfold NetworkManager.notifyShutdown
  split
  · exact refl v s
  · exact notifyPeerDisconnected v s kv.1 rfl

end SamePeers

/-- The view that shows nothing. -/
def blindView : PeerView Unit := ⟨fun _ => (), fun _ _ => rfl, fun _ _ => rfl⟩

theorem SamePeers.disconnectPeer (s : NetworkManager) (p : PeerPtr) : SamePeers blindView s (s.disconnectPeer p) :=
  .modifyPeer s p Peer.disconnect_id (fun _ => rfl)

/-- A view that no change of an object's connection touches. -/
def KeepsView (v : PeerView α) (s : NetworkManager) : Prop :=
  ∀ (p : PeerPtr) (f : Peer → Peer), (∀ peer, (f peer).id = peer.id) → (∀ peer, (f peer).Follows peer) →
    SamePeers v s (s.modifyPeer p f)

theorem KeepsView.disconnectPeer (h : KeepsView v s) (p : PeerPtr) : SamePeers v s (s.disconnectPeer p) :=
  h p _ Peer.disconnect_id Peer.disconnect_follows

theorem KeepsView.of_follows (hv : ∀ p q : Peer, q.Follows p → v.view q = v.view p) : KeepsView v s :=
  fun p _ hid hf => .modifyPeer s p hid fun peer => hv peer _ (hf peer)

/-! ## Removal -/

/-- What the removal of an id leaves. -/
structure Erased (v : PeerView α) (s : NetworkManager) (id : Int) (s' : NetworkManager) : Prop where
  population : s'.population v = (s.population v).erase id
  registered : Registered s'
  idOf : s'.idOf = s.idOf
  nextPeerId : s'.nextPeerId = s.nextPeerId
  idsGivenOut : s'.idsGivenOut = s.idsGivenOut
  stoppingAll : s'.stoppingAll = s.stoppingAll

theorem Erased.of_notMem (R : Registered s) {id : Int} (h : id ∉ s.peerStates) : Erased v s id s where
  population := population_ext fun id' => by
    rw [Std.ExtTreeMap.getElem?_erase, population_get]
    by_cases heq : id = id'
    · simp [← heq, ptrOf_of_notMem h]
    · simp [heq]
  registered := R
  idOf := rfl
  nextPeerId := rfl
  idsGivenOut := rfl
  stoppingAll := rfl

variable (v env) in
theorem Registered.removePeer (R : Registered s) (peerId : Int) : Erased v s peerId (s.removePeer env peerId) := by
  unfold NetworkManager.removePeer
  split
  · rename_i hd
    refine .of_notMem R fun hmem => ?_
    rw [Std.ExtTreeMap.mem_iff_isSome_getElem?, hd] at hmem
    cases hmem
  · rename_i d hd
    have hptr := ptrOf_of_get hd
    obtain ⟨peer, hpeer, -⟩ := Option.map_eq_some_iff.mp (R peerId d.peer hptr)
    simp only [peerOf, hpeer]
    have h1 := SamePeers.discourageMisbehaving v env s d.misbehavior
    generalize s.discourageMisbehaving env d.misbehavior = s1 at h1 ⊢
    -- the entry is gone, then the removal is notified unless the node shuts down
    have h2 : SamePeers v ({ s1 with peerStates := s1.peerStates.erase peerId } : NetworkManager)
        (if s1.shuttingDown then { s1 with peerStates := s1.peerStates.erase peerId }
          else ({ s1 with peerStates := s1.peerStates.erase peerId } : NetworkManager).notifyPeerDisconnected peerId
            (.disconnected peerId peer.address peer.port (disconnectReason d.misbehavior)
              (markAddrGood peer d.misbehavior))) := by
      split
      · exact .refl v _
      · exact .notifyPeerDisconnected v _ _ rfl
    have h3 := h2.toSameTable.trans (.disconnectPeer _ d.peer)
    have hptrs : ∀ id, (({ s1 with peerStates := s1.peerStates.erase peerId } : NetworkManager)).ptrOf id =
        if id = peerId then none else s.ptrOf id := fun id => by rw [ptrOf_erase, h1.ptrOf]
    refine ⟨population_ext fun id => ?_, fun id p hp => ?_, h3.idOf.trans h1.idOf, ?_, ?_, ?_⟩
    · rw [h3.ptrOf, hptrs, Std.ExtTreeMap.getElem?_erase, population_get]
      by_cases heq : id = peerId
      · simp [heq]
      · have hne : compare peerId id ≠ .eq := fun h => heq (Std.compare_eq_iff_eq.mp h).symm
        rw [if_neg heq, if_neg hne]
        cases hp : s.ptrOf id with
        | none => rfl
        | some p =>
          -- another id has another object, which the disconnection does not touch
          have hpne : p ≠ d.peer := fun h => heq (R.inj (h ▸ hp) hptr)
          simp only [Option.bind_some]
          unfold NetworkManager.disconnectPeer
          rw [viewAt_modifyPeer, if_neg hpne, h2.viewAt]
          exact congrFun h1.viewAt p
    · rw [h3.ptrOf, hptrs] at hp
      rw [h3.idOf]
      split at hp
      · cases hp
      · exact (congrFun h1.idOf p).trans (R id p hp)
    · exact h3.nextPeerId.trans h1.nextPeerId
    · exact h2.idsGivenOut.trans h1.idsGivenOut
    · exact h2.stoppingAll.trans h1.stoppingAll

/-! ## Admission -/

/-- What the admission of a new object leaves. -/
structure Admitted (v : PeerView α) (s : NetworkManager) (x : α) (s' : NetworkManager) : Prop where
  population : s'.population v = (s.population v).insert s.nextPeerId x
  registered : Registered s'
  nextPeerId : s'.nextPeerId = toInt32 (s.nextPeerId + 1)
  idsGivenOut : s'.idsGivenOut = s.idsGivenOut ++ [s.nextPeerId]
  stoppingAll : s'.stoppingAll = s.stoppingAll

variable (v env) in
theorem Registered.insertPeer (R : Registered s) (peer : Peer) (permissions : NetPermissionFlags) (address : String) :
    Admitted v s (v.view peer) (s.insertPeer env peer permissions address) := by
  have hins := insertPeer_inserted env s peer permissions address
  have hview : ∀ p, (s.insertPeer env peer permissions address).viewAt v p =
      if p = s.peers.length then some (v.view peer) else s.viewAt v p := by
    intro p
    unfold NetworkManager.viewAt NetworkManager.insertPeer
    simp only
    rcases Nat.lt_trichotomy p s.peers.length with h | h | h
    · rw [List.getElem?_append_left h, if_neg (Nat.ne_of_lt h)]
    · subst h
      simp [v.setId]
    · rw [if_neg (Nat.ne_of_gt h), List.getElem?_eq_none (by simp; omega), List.getElem?_eq_none (by omega)]
  have hlt : ∀ {id p}, s.ptrOf id = some p → p ≠ s.peers.length := by
    rintro id p hp rfl
    have := R id _ hp
    unfold NetworkManager.idOf at this
    simp at this
  refine ⟨population_ext fun id => ?_, fun id p hp => ?_, hins.nextPeerId, ?_, rfl⟩
  · rw [hins.ptrOf, Std.ExtTreeMap.getElem?_insert, population_get]
    by_cases heq : id = s.nextPeerId
    · simp [heq, hview]
    · have hne : compare s.nextPeerId id ≠ .eq := fun h => heq (Std.compare_eq_iff_eq.mp h).symm
      rw [if_neg heq, if_neg hne]
      cases hp : s.ptrOf id with
      | none => rfl
      | some p => simp [hview, hlt hp]
  · rw [hins.ptrOf] at hp
    rw [hins.idOf]
    split at hp
    · rename_i heq
      cases hp
      rw [if_pos rfl, heq]
    · rw [if_neg (hlt hp)]
      exact R id p hp
  · simp [NetworkManager.idsGivenOut, NetworkManager.insertPeer, PeerEvent.connectedId]

/-! ## Bulk disconnection -/

/-- What `disconnect_all` leaves. -/
structure Cleared (s s' : NetworkManager) : Prop where
  peerStates : s'.peerStates = ∅
  nextPeerId : s'.nextPeerId = s.nextPeerId
  idsGivenOut : s'.idsGivenOut = s.idsGivenOut
  stoppingAll : s'.stoppingAll = false

theorem disconnectAll_cleared (s : NetworkManager) : Cleared s s.disconnectAll := by
  unfold disconnectAll
  dsimp only
  generalize s.peerStates.toList = l
  have hstop : SamePeers blindView { s with stoppingAll := true }
      (if s.shuttingDown then { s with stoppingAll := true }
        else l.foldl notifyShutdown { s with stoppingAll := true }) := by
    split
    · exact .refl _ _
    · exact .foldl (SamePeers.notifyShutdown blindView) l _
  generalize (if s.shuttingDown then ({ s with stoppingAll := true } : NetworkManager)
    else l.foldl notifyShutdown { s with stoppingAll := true }) = s1 at hstop ⊢
  have hmap : ∀ (l : List (Int × PeerTrackingData)) (s : NetworkManager),
      (l.foldl (fun s kv => s.disconnectPeer kv.2.peer) s).peerStates = s.peerStates := by
    intro l
    induction l with
    | nil => intro s; rfl
    | cons kv l ih => intro s; exact ih _
  have hdis := SamePeers.foldl (fun s (kv : Int × PeerTrackingData) => SamePeers.disconnectPeer s kv.2.peer) l
    { s1 with peerStates := ∅ }
  exact ⟨hmap l _, hdis.nextPeerId.trans hstop.nextPeerId, hdis.idsGivenOut.trans hstop.idsGivenOut, rfl⟩

theorem Cleared.population (h : Cleared s s') : s'.population v = ∅ :=
  population_ext fun id => by simp [ptrOf, h.peerStates]

theorem Cleared.registered (h : Cleared s s') : Registered s' := fun id p hp => by simp [ptrOf, h.peerStates] at hp

/-! ## Calls that admit nobody -/

/-- The population after a call that admits nobody. -/
structure Shrinks (v : PeerView α) (s s' : NetworkManager) : Prop where
  registered : Registered s'
  sub : ∀ (id : Int) (x : α), (s'.population v)[id]? = some x → (s.population v)[id]? = some x
  nextPeerId : s'.nextPeerId = s.nextPeerId
  idsGivenOut : s'.idsGivenOut = s.idsGivenOut

namespace Shrinks

theorem refl (v : PeerView α) (R : Registered s) : Shrinks v s s := ⟨R, fun _ _ h => h, rfl, rfl⟩

theorem trans (h1 : Shrinks v s s') (h2 : Shrinks v s' s'') : Shrinks v s s'' :=
  ⟨h2.registered, fun id x h => h1.sub id x (h2.sub id x h), h2.nextPeerId.trans h1.nextPeerId,
    h2.idsGivenOut.trans h1.idsGivenOut⟩

theorem of_samePeers (R : Registered s) (h : SamePeers v s s') : Shrinks v s s' :=
  ⟨h.registered R, fun _ _ hx => h.population ▸ hx, h.nextPeerId, h.idsGivenOut⟩

theorem of_erased {id : Int} (h : Erased v s id s') : Shrinks v s s' := by
  refine ⟨h.registered, fun id' x hx => ?_, h.nextPeerId, h.idsGivenOut⟩
  rw [h.population, Std.ExtTreeMap.getElem?_erase] at hx
  split at hx
  · cases hx
  · exact hx

theorem of_cleared (h : Cleared s s') : Shrinks v s s' :=
  ⟨h.registered, fun _ _ hx => by simp [h.population] at hx, h.nextPeerId, h.idsGivenOut⟩

theorem foldl_removePeer (R : Registered s) (l : List Int) : Shrinks v s (l.foldl (NetworkManager.removePeer env) s) := by
  induction l generalizing s with
  | nil => exact .refl v R
  | cons id l ih =>
    have hE := R.removePeer v env id
    exact (of_erased hE).trans (ih hE.registered)

end Shrinks

end

/-! ## Objects over calls -/

/-- The objects after a call are those before it. -/
def PeersFollow (s s' : NetworkManager) : Prop := ∀ q ∈ s'.peers, ∃ p ∈ s.peers, q.Follows p

namespace PeersFollow

variable {s s' s'' : NetworkManager} {env : NetEnv}

theorem of_eq (h : s'.peers = s.peers) : PeersFollow s s' := fun q hq => ⟨q, h ▸ hq, .refl q⟩

theorem refl (s : NetworkManager) : PeersFollow s s := of_eq rfl

theorem trans (h1 : PeersFollow s s') (h2 : PeersFollow s' s'') : PeersFollow s s'' := by
  intro q hq
  obtain ⟨p, hp, hqp⟩ := h2 q hq
  obtain ⟨r, hr, hpr⟩ := h1 p hp
  exact ⟨r, hr, hqp.trans hpr⟩

theorem modifyPeer (s : NetworkManager) (p : PeerPtr) {f : Peer → Peer} (hf : ∀ peer, (f peer).Follows peer) :
    PeersFollow s (s.modifyPeer p f) := by
  intro q hq
  obtain ⟨i, hi⟩ := List.mem_iff_getElem?.mp hq
  unfold NetworkManager.modifyPeer at hi
  rw [List.getElem?_modify] at hi
  obtain ⟨peer, hpeer, heq⟩ := Option.map_eq_some_iff.mp hi
  refine ⟨peer, List.mem_iff_getElem?.mpr ⟨i, hpeer⟩, ?_⟩
  split at heq
  · exact heq ▸ hf peer
  · exact heq ▸ .refl _

theorem foldl {β : Type*} {f : NetworkManager → β → NetworkManager} (hf : ∀ s b, PeersFollow s (f s b)) :
    ∀ (l : List β) (s : NetworkManager), PeersFollow s (l.foldl f s)
  | [], s => refl s
  | b :: l, s => (hf s b).trans (foldl hf l (f s b))

theorem discourageMisbehaving (env : NetEnv) (s : NetworkManager) (d : PeerMisbehaviorData) :
    PeersFollow s (s.discourageMisbehaving env d) := by
  unfold NetworkManager.discourageMisbehaving
  split
  · cases env.validateAndNormalizeIP d.address with
    | none => exact refl s
    | some normalized =>
      simp only [Option.elim]
      unfold NetworkManager.discourage
      split <;> exact of_eq rfl
  · exact refl s

theorem setSyncStarted (s : NetworkManager) (p : PeerPtr) (b : Bool) : PeersFollow s (s.setSyncStarted p b) :=
  modifyPeer s p fun _ => ⟨rfl, rfl, rfl, rfl, .inl rfl⟩

theorem notifyPeerDisconnected (s : NetworkManager) (id : Int) (e : PeerEvent) :
    PeersFollow s (s.notifyPeerDisconnected id e) := by
  unfold NetworkManager.notifyPeerDisconnected onPeerDisconnected
  split
  · exact (of_eq rfl).trans (foldl (fun s p => setSyncStarted s p false) _ _)
  · exact of_eq rfl

theorem removePeer (env : NetEnv) (s : NetworkManager) (peerId : Int) : PeersFollow s (s.removePeer env peerId) := by
  unfold NetworkManager.removePeer
  split
  · exact refl s
  · rename_i d _
    split
    · exact refl s
    · have h1 := discourageMisbehaving env s d.misbehavior
      generalize s.discourageMisbehaving env d.misbehavior = s1 at h1 ⊢
      dsimp only
      refine h1.trans (.trans ?_ (modifyPeer _ _ Peer.disconnect_follows))
      split
      · exact of_eq rfl
      · exact (of_eq rfl).trans (notifyPeerDisconnected _ _ _)

theorem disconnectAll (s : NetworkManager) : PeersFollow s s.disconnectAll := by
  unfold NetworkManager.disconnectAll
  dsimp only
  refine trans (trans ?_ (foldl (fun s kv => modifyPeer s kv.2.peer Peer.disconnect_follows) s.peerStates.toList _))
    (of_eq rfl)
  split
  · exact of_eq rfl
  · refine trans (foldl (fun s kv => ?_) s.peerStates.toList { s with stoppingAll := true }) (of_eq rfl)
    unfold notifyShutdown
    split
    · exact refl s
    · exact notifyPeerDisconnected _ _ _

theorem insertPeer (s : NetworkManager) (peer : Peer) (permissions : NetPermissionFlags) (address : String) :
    ∀ q ∈ (s.insertPeer env peer permissions address).peers, (∃ p ∈ s.peers, q.Follows p) ∨ q.Follows peer := by
  intro q hq
  unfold NetworkManager.insertPeer at hq
  simp only [List.mem_append, List.mem_singleton] at hq
  rcases hq with hq | rfl
  · exact .inl ⟨q, hq, .refl q⟩
  · exact .inr ⟨rfl, rfl, rfl, rfl, .inl rfl⟩

end PeersFollow

end NetworkManager

end UnicityPow
