import UnicityPow.HeaderSync

/-!
# The peer map over calls

What removal, eviction and admission do to the map from ids to peer objects. An entry
always points to the object that carries its id.
-/

namespace UnicityPow

namespace NetworkManager

/-! ## Ids and pointers -/

/-- The object of a registered id. -/
def ptrOf (s : NetworkManager) (id : Int) : Option PeerPtr := s.peerStates[id]?.map PeerTrackingData.peer

def idOf (s : NetworkManager) (p : PeerPtr) : Option Int := s.peers[p]?.map Peer.id

/-- Entries and objects name each other, ids are `int`s, and disconnections are notified. -/
structure PeerTable (s : NetworkManager) : Prop where
  registered : ∀ id p, s.ptrOf id = some p → s.idOf p = some id
  isInt32 : ∀ p id, s.idOf p = some id → IsInt32 id
  nextPeerId : IsInt32 s.nextPeerId
  running : s.shuttingDown = false

/-- Calls that neither register nor remove a peer. -/
structure SameTable (s s' : NetworkManager) : Prop where
  ptrOf : s'.ptrOf = s.ptrOf
  idOf : s'.idOf = s.idOf
  nextPeerId : s'.nextPeerId = s.nextPeerId
  shuttingDown : s'.shuttingDown = s.shuttingDown

section
variable {s s' s'' : NetworkManager} {env : NetEnv}

theorem mem_iff_ptrOf {id : Int} : id ∈ s.peerStates ↔ ∃ p, s.ptrOf id = some p := by
  rw [Std.ExtTreeMap.mem_iff_isSome_getElem?, Option.isSome_iff_exists]
  unfold NetworkManager.ptrOf
  constructor
  · rintro ⟨d, hd⟩
    exact ⟨d.peer, by rw [hd]; rfl⟩
  · rintro ⟨p, hp⟩
    obtain ⟨d, hd, -⟩ := Option.map_eq_some_iff.mp hp
    exact ⟨d, hd⟩

theorem ptrOf_of_get {id : Int} {d : PeerTrackingData} (h : s.peerStates[id]? = some d) :
    s.ptrOf id = some d.peer := by
  unfold NetworkManager.ptrOf
  rw [h]
  rfl

theorem idOf_of_get {p : PeerPtr} {peer : Peer} (h : s.peers[p]? = some peer) : s.idOf p = some peer.id := by
  unfold NetworkManager.idOf
  rw [h]
  rfl

theorem PeerTable.peerOf_get (T : PeerTable s) {id : Int} {d : PeerTrackingData}
    (h : s.peerStates[id]? = some d) : ∃ peer, s.peerOf d = some peer ∧ peer.id = id :=
  Option.map_eq_some_iff.mp (T.registered id d.peer (ptrOf_of_get h))

/-! ## Calls that keep the table -/

namespace SameTable

theorem refl (s : NetworkManager) : SameTable s s := ⟨rfl, rfl, rfl, rfl⟩

theorem trans (h1 : SameTable s s') (h2 : SameTable s' s'') : SameTable s s'' :=
  ⟨h2.ptrOf.trans h1.ptrOf, h2.idOf.trans h1.idOf, h2.nextPeerId.trans h1.nextPeerId,
    h2.shuttingDown.trans h1.shuttingDown⟩

theorem mem_iff (h : SameTable s s') {id : Int} : id ∈ s'.peerStates ↔ id ∈ s.peerStates := by
  rw [mem_iff_ptrOf, mem_iff_ptrOf, h.ptrOf]

theorem table (h : SameTable s s') (T : PeerTable s) : PeerTable s' where
  registered := h.ptrOf ▸ h.idOf ▸ T.registered
  isInt32 := h.idOf ▸ T.isInt32
  nextPeerId := h.nextPeerId ▸ T.nextPeerId
  running := h.shuttingDown ▸ T.running

theorem modifyPeer (s : NetworkManager) (p : PeerPtr) {f : Peer → Peer} (hf : ∀ peer, (f peer).id = peer.id) :
    SameTable s (s.modifyPeer p f) := by
  refine ⟨rfl, ?_, rfl, rfl⟩
  funext q
  unfold NetworkManager.idOf NetworkManager.modifyPeer
  rw [List.getElem?_modify]
  split
  · rw [Option.map_eq_map, Option.map_map]
    exact congrArg (fun g => Option.map g s.peers[q]?) (funext hf)
  · simp

theorem modifyMisbehavior (s : NetworkManager) (id : Int) (f : PeerMisbehaviorData → PeerMisbehaviorData) :
    SameTable s (s.modifyMisbehavior id f) := by
  refine ⟨?_, rfl, rfl, rfl⟩
  funext q
  unfold NetworkManager.ptrOf NetworkManager.modifyMisbehavior
  rw [Std.ExtTreeMap.getElem?_modify]
  split
  · rename_i hq
    rw [Std.compare_eq_iff_eq.mp hq, Option.map_map]
    rfl
  · rfl

theorem setSyncStarted (s : NetworkManager) (p : PeerPtr) (b : Bool) : SameTable s (s.setSyncStarted p b) :=
  modifyPeer s p (fun _ => rfl)

theorem disconnectPeer (s : NetworkManager) (p : PeerPtr) : SameTable s (s.disconnectPeer p) :=
  modifyPeer s p Peer.disconnect_id

theorem discourage (s : NetworkManager) (address : String) : SameTable s (s.discourage env address) := by
  unfold NetworkManager.discourage
  split <;> exact ⟨rfl, rfl, rfl, rfl⟩

theorem discourageMisbehaving (s : NetworkManager) (d : PeerMisbehaviorData) :
    SameTable s (s.discourageMisbehaving env d) := by
  unfold NetworkManager.discourageMisbehaving
  split
  · cases env.validateAndNormalizeIP d.address with
    | none => exact refl s
    | some normalized => exact discourage s normalized
  · exact refl s

theorem foldl {α : Type*} {f : NetworkManager → α → NetworkManager} (hf : ∀ s a, SameTable s (f s a)) :
    ∀ (l : List α) (s : NetworkManager), SameTable s (l.foldl f s)
  | [], s => refl s
  | a :: l, s => (hf s a).trans (foldl hf l (f s a))

theorem onPeerDisconnected (s : NetworkManager) (v : BitVec 64) : SameTable s (s.onPeerDisconnected v) := by
  unfold NetworkManager.onPeerDisconnected
  split
  · have hclear : SameTable s s.clearSyncPeer := ⟨rfl, rfl, rfl, rfl⟩
    exact hclear.trans (foldl (fun s p => setSyncStarted s p false) _ _)
  · exact refl s

theorem requestHeadersFromPeer (s : NetworkManager) (p : PeerPtr) :
    SameTable s (s.requestHeadersFromPeer env p) := by
  unfold NetworkManager.requestHeadersFromPeer
  split
  · exact ⟨rfl, rfl, rfl, rfl⟩
  · exact refl s

end SameTable

/-! ## The slot in these calls -/

variable (env) in
theorem discourageMisbehaving_syncPeerId (s : NetworkManager) (d : PeerMisbehaviorData) :
    (s.discourageMisbehaving env d).syncPeerId = s.syncPeerId := by
  unfold discourageMisbehaving
  split
  · cases env.validateAndNormalizeIP d.address with
    | none => rfl
    | some normalized =>
      simp only [Option.elim]
      unfold discourage
      split <;> rfl
  · rfl

theorem setSyncStarted_foldl_syncPeerId (l : List PeerPtr) (s : NetworkManager) :
    (l.foldl (fun s p => s.setSyncStarted p false) s).syncPeerId = s.syncPeerId := by
  induction l generalizing s with
  | nil => rfl
  | cons p l ih => exact ih (s.setSyncStarted p false)

theorem onPeerDisconnected_syncPeerId (s : NetworkManager) (v : BitVec 64) :
    (s.onPeerDisconnected v).syncPeerId = if s.syncPeerId = v then NO_SYNC_PEER else s.syncPeerId := by
  unfold onPeerDisconnected
  split
  · exact setSyncStarted_foldl_syncPeerId _ s.clearSyncPeer
  · rfl

theorem requestHeadersFromPeer_syncPeerId (s : NetworkManager) (p : PeerPtr) :
    (s.requestHeadersFromPeer env p).syncPeerId = s.syncPeerId := by
  unfold requestHeadersFromPeer
  split <;> rfl

/-! ## Removal -/

/-- What `remove_peer` leaves: the entry is gone, and the slot is free if it named the peer. -/
structure Removed (s : NetworkManager) (peerId : Int) (s' : NetworkManager) : Prop where
  ptrOf : ∀ id, s'.ptrOf id = if id = peerId then none else s.ptrOf id
  idOf : s'.idOf = s.idOf
  nextPeerId : s'.nextPeerId = s.nextPeerId
  shuttingDown : s'.shuttingDown = s.shuttingDown
  syncPeerId : s'.syncPeerId =
    if peerId ∈ s.peerStates ∧ s.syncPeerId = toUint64 peerId then NO_SYNC_PEER else s.syncPeerId

theorem Removed.mem_iff {peerId : Int} (h : Removed s peerId s') {id : Int} :
    id ∈ s'.peerStates ↔ id ∈ s.peerStates ∧ id ≠ peerId := by
  rw [mem_iff_ptrOf, mem_iff_ptrOf, h.ptrOf]
  by_cases heq : id = peerId <;> simp [heq]

theorem ptrOf_erase (s : NetworkManager) (peerId id : Int) :
    ({ s with peerStates := s.peerStates.erase peerId } : NetworkManager).ptrOf id =
      if id = peerId then none else s.ptrOf id := by
  unfold ptrOf
  rw [Std.ExtTreeMap.getElem?_erase]
  by_cases heq : id = peerId
  · simp [heq]
  · have hne : compare peerId id ≠ .eq := fun hc => heq (Std.compare_eq_iff_eq.mp hc).symm
    simp [heq, hne]

theorem ptrOf_of_notMem {id : Int} (h : id ∉ s.peerStates) : s.ptrOf id = none := by
  rcases hp : s.ptrOf id with _ | p
  · rfl
  · exact absurd (mem_iff_ptrOf.mpr ⟨p, hp⟩) h

theorem Removed.of_notMem {peerId : Int} (h : peerId ∉ s.peerStates) : Removed s peerId s where
  ptrOf id := by
    by_cases heq : id = peerId
    · rw [if_pos heq, heq, ptrOf_of_notMem h]
    · rw [if_neg heq]
  idOf := rfl
  nextPeerId := rfl
  shuttingDown := rfl
  syncPeerId := (if_neg fun hc => h hc.1).symm

variable (env) in
theorem removePeer_removed (T : PeerTable s) (peerId : Int) : Removed s peerId (s.removePeer env peerId) := by
  unfold removePeer
  split
  · rename_i hd
    refine .of_notMem fun hmem => ?_
    rw [Std.ExtTreeMap.mem_iff_isSome_getElem?, hd] at hmem
    cases hmem
  · rename_i d hd
    obtain ⟨peer, hpeer, -⟩ := T.peerOf_get hd
    have hmem : peerId ∈ s.peerStates := mem_iff_ptrOf.mpr ⟨d.peer, ptrOf_of_get hd⟩
    simp only [hpeer]
    -- the state the notification is sent in
    have h1 : SameTable s (s.discourageMisbehaving env d.misbehavior) := .discourageMisbehaving s d.misbehavior
    have h1s := discourageMisbehaving_syncPeerId env s d.misbehavior
    generalize s.discourageMisbehaving env d.misbehavior = s1 at h1 h1s ⊢
    split
    · rename_i hstop
      exact absurd (h1.shuttingDown.trans T.running) (by simpa using hstop)
    unfold notifyPeerDisconnected
    refine ⟨fun id => ?_, ?_, ?_, ?_, ?_⟩
    · rw [(SameTable.disconnectPeer _ _).ptrOf, (SameTable.onPeerDisconnected _ _).ptrOf]
      exact (ptrOf_erase s1 peerId id).trans (by rw [h1.ptrOf])
    · rw [(SameTable.disconnectPeer _ _).idOf, (SameTable.onPeerDisconnected _ _).idOf]
      exact h1.idOf
    · rw [(SameTable.disconnectPeer _ _).nextPeerId, (SameTable.onPeerDisconnected _ _).nextPeerId]
      exact h1.nextPeerId
    · rw [(SameTable.disconnectPeer _ _).shuttingDown, (SameTable.onPeerDisconnected _ _).shuttingDown]
      exact h1.shuttingDown
    · have hslot := onPeerDisconnected_syncPeerId
        { s1 with
          peerStates := s1.peerStates.erase peerId
          peerEvents := s1.peerEvents ++ [.disconnected peerId peer.address peer.port
            (disconnectReason d.misbehavior) (markAddrGood peer d.misbehavior)] } (toUint64 peerId)
      refine hslot.trans ?_
      simp only [h1s, hmem, true_and]

theorem PeerTable.of_removed {peerId : Int} (T : PeerTable s) (h : Removed s peerId s') : PeerTable s' where
  registered id p hp := by
    rw [h.ptrOf] at hp
    split at hp
    · cases hp
    · rw [h.idOf]
      exact T.registered id p hp
  isInt32 := h.idOf ▸ T.isInt32
  nextPeerId := h.nextPeerId ▸ T.nextPeerId
  running := h.shuttingDown ▸ T.running

/-! ## Admission -/

/-- What a new entry changes. -/
structure Inserted (s s' : NetworkManager) : Prop where
  ptrOf : ∀ id, s'.ptrOf id = if id = s.nextPeerId then some s.peers.length else s.ptrOf id
  idOf : ∀ p, s'.idOf p = if p = s.peers.length then some s.nextPeerId else s.idOf p
  nextPeerId : s'.nextPeerId = toInt32 (s.nextPeerId + 1)
  shuttingDown : s'.shuttingDown = s.shuttingDown
  syncPeerId : s'.syncPeerId = s.syncPeerId

variable (env) in
theorem insertPeer_inserted (s : NetworkManager) (peer : Peer) (permissions : NetPermissionFlags)
    (address : String) : Inserted s (s.insertPeer env peer permissions address) := by
  refine ⟨fun id => ?_, fun p => ?_, rfl, rfl, rfl⟩
  · unfold NetworkManager.ptrOf insertPeer
    simp only
    rw [Std.ExtTreeMap.getElem?_insert]
    by_cases heq : id = s.nextPeerId
    · simp [heq]
    · have hne : compare s.nextPeerId id ≠ .eq := fun hc => heq (Std.compare_eq_iff_eq.mp hc).symm
      simp [heq, hne]
  · unfold NetworkManager.idOf insertPeer
    simp only
    rcases Nat.lt_trichotomy p s.peers.length with h | h | h
    · rw [List.getElem?_append_left h, if_neg (Nat.ne_of_lt h)]
    · subst h
      simp
    · rw [if_neg (Nat.ne_of_gt h), List.getElem?_eq_none (by simp; omega), List.getElem?_eq_none (by omega)]

theorem PeerTable.of_inserted (T : PeerTable s) (h : Inserted s s') : PeerTable s' where
  registered id p hp := by
    rw [h.ptrOf] at hp
    rw [h.idOf]
    split at hp
    · rename_i heq
      cases hp
      rw [if_pos rfl, heq]
    · have hp' := T.registered id p hp
      -- an old object is not the new one
      have hne : p ≠ s.peers.length := by
        rintro rfl
        unfold NetworkManager.idOf at hp'
        simp at hp'
      rw [if_neg hne]
      exact hp'
  isInt32 p id hp := by
    rw [h.idOf] at hp
    split at hp
    · cases hp
      exact T.nextPeerId
    · exact T.isInt32 p id hp
  nextPeerId := h.nextPeerId ▸ isInt32_toInt32 _
  running := h.shuttingDown ▸ T.running

theorem Inserted.mem {id : Int} (h : Inserted s s') (hid : id ∈ s.peerStates) : id ∈ s'.peerStates := by
  rw [mem_iff_ptrOf, h.ptrOf]
  split
  · exact ⟨_, rfl⟩
  · exact mem_iff_ptrOf.mp hid

theorem PeerTable.mem_of_outbound (T : PeerTable s) {p : PeerPtr} {peer : Peer} (hp : p ∈ s.getOutboundPeers)
    (hpeer : s.peers[p]? = some peer) : peer.id ∈ s.peerStates := by
  unfold getOutboundPeers entriesWhere at hp
  obtain ⟨⟨id, d⟩, hkv, rfl⟩ := List.mem_map.mp hp
  have hd : s.peerStates[id]? = some d :=
    Std.ExtTreeMap.mem_toList_iff_getElem?_eq_some.mp (List.mem_filter.mp hkv).1
  obtain ⟨peer', hpeer', rfl⟩ := T.peerOf_get hd
  unfold peerOf at hpeer'
  rw [hpeer] at hpeer'
  cases hpeer'
  exact mem_iff_ptrOf.mpr ⟨d.peer, ptrOf_of_get hd⟩

end

end NetworkManager

end UnicityPow
