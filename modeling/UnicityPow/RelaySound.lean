import UnicityPow.AdmissionSound
import UnicityPow.BlockRelay

/-!
# Announcements are not lost

What an entry records as announced is in its queue or in a message that was sent, whatever
the order of announcements, flushes, removals and admissions; and a flush sends the queue
as it stands.
-/

namespace UnicityPow

/-! ## Cutting a queue into messages -/

theorem invMessages_flatten {chunk : Nat} (h : 0 < chunk) : ∀ (fuel : Nat) (blocks : List Uint256),
    blocks.length ≤ fuel → (invMessages chunk fuel blocks).flatten = blocks.map blockInv
  | 0, blocks, hl => by
    obtain rfl := List.eq_nil_of_length_eq_zero (Nat.le_zero.mp hl)
    rfl
  | fuel + 1, blocks, hl => by
    unfold invMessages
    split
    · rename_i hnil
      rw [hnil]
      rfl
    · have hdrop : (blocks.drop chunk).length ≤ fuel := by
        rw [List.length_drop]
        omega
      rw [List.flatten_cons, invMessages_flatten h fuel _ hdrop, ← List.map_append, List.take_append_drop]

theorem mem_invMessages {chunk : Nat} (h : 0 < chunk) : ∀ {fuel : Nat} {blocks : List Uint256}
    {msg : List InventoryVector}, msg ∈ invMessages chunk fuel blocks → msg ≠ [] ∧ msg.length ≤ chunk
  | fuel + 1, blocks, msg, hm => by
    unfold invMessages at hm
    split at hm
    · cases hm
    · rename_i hne
      rcases List.mem_cons.mp hm with rfl | hm
      · constructor
        · intro hnil
          rcases List.take_eq_nil_iff.mp (List.map_eq_nil_iff.mp hnil) with h0 | h0
          · omega
          · exact hne h0
        · rw [List.length_map]
          exact List.length_take_le chunk blocks
      · exact mem_invMessages h hm

/-! ## Calls that keep the records -/

namespace PeerTrackingData

/-- Two entries of one object with the same queue and record. -/
def SameRecord (d d' : PeerTrackingData) : Prop :=
  d'.peer = d.peer ∧ d'.blocksForInvRelay = d.blocksForInvRelay ∧ d'.lastAnnouncedBlock = d.lastAnnouncedBlock ∧
    d'.lastAnnounceTimeS = d.lastAnnounceTimeS

/-- An entry to which nothing was announced. -/
def Unannounced (d : PeerTrackingData) : Prop := d.lastAnnouncedBlock = 0 ∧ d.lastAnnounceTimeS = 0

theorem SameRecord.refl (d : PeerTrackingData) : d.SameRecord d := ⟨rfl, rfl, rfl, rfl⟩

theorem SameRecord.trans {d d' d'' : PeerTrackingData} (h1 : d.SameRecord d') (h2 : d'.SameRecord d'') :
    d.SameRecord d'' :=
  ⟨h2.1.trans h1.1, h2.2.1.trans h1.2.1, h2.2.2.1.trans h1.2.2.1, h2.2.2.2.trans h1.2.2.2⟩

end PeerTrackingData

namespace NetworkManager

/-- Each entry of the second state is one of the first, or a new one. -/
def KeepsRecords (s s' : NetworkManager) : Prop :=
  ∀ (id : Int) (d' : PeerTrackingData), s'.peerStates[id]? = some d' →
    (d'.Unannounced ∧ d'.blocksForInvRelay = []) ∨ ∃ d, s.peerStates[id]? = some d ∧ d.SameRecord d'

namespace KeepsRecords

section
variable {s s' s'' : NetworkManager}

theorem of_eq (h : s'.peerStates = s.peerStates) : KeepsRecords s s' := fun _ d' hd =>
  .inr ⟨d', h ▸ hd, .refl d'⟩

theorem refl (s : NetworkManager) : KeepsRecords s s := of_eq rfl

theorem trans (h1 : KeepsRecords s s') (h2 : KeepsRecords s' s'') : KeepsRecords s s'' := fun id d'' hd => by
  rcases h2 id d'' hd with hnew | ⟨d', hd', ⟨hp, hq, hl, ht⟩⟩
  · exact .inl hnew
  · rcases h1 id d' hd' with ⟨⟨hl0, ht0⟩, hq0⟩ | ⟨d, hd, hsame⟩
    · exact .inl ⟨⟨hl.trans hl0, ht.trans ht0⟩, hq.trans hq0⟩
    · exact .inr ⟨d, hd, hsame.trans ⟨hp, hq, hl, ht⟩⟩

theorem foldl {α : Type*} {f : NetworkManager → α → NetworkManager} (hf : ∀ s a, KeepsRecords s (f s a)) :
    ∀ (l : List α) (s : NetworkManager), KeepsRecords s (l.foldl f s)
  | [], s => refl s
  | a :: l, s => (hf s a).trans (foldl hf l (f s a))

theorem modifyMisbehavior (s : NetworkManager) (peerId : Int) (f : PeerMisbehaviorData → PeerMisbehaviorData) :
    KeepsRecords s (s.modifyMisbehavior peerId f) := fun id d' hd => by
  unfold NetworkManager.modifyMisbehavior at hd
  rw [Std.ExtTreeMap.getElem?_modify] at hd
  split at hd
  · rename_i heq
    obtain rfl := Std.compare_eq_iff_eq.mp heq
    obtain ⟨d, hget, rfl⟩ := Option.map_eq_some_iff.mp hd
    exact .inr ⟨d, hget, rfl, rfl, rfl, rfl⟩
  · exact .inr ⟨d', hd, .refl d'⟩

theorem erase (s : NetworkManager) (peerId : Int) :
    KeepsRecords s { s with peerStates := s.peerStates.erase peerId } := fun id d' hd => by
  rw [Std.ExtTreeMap.getElem?_erase] at hd
  split at hd
  · cases hd
  · exact .inr ⟨d', hd, .refl d'⟩

theorem insertPeer (env : NetEnv) (s : NetworkManager) (peer : Peer) (permissions : NetPermissionFlags)
    (address : String) : KeepsRecords s (s.insertPeer env peer permissions address) := fun id d' hd => by
  unfold NetworkManager.insertPeer at hd
  dsimp only at hd
  rw [Std.ExtTreeMap.getElem?_insert] at hd
  split at hd
  · obtain rfl := Option.some.inj hd
    exact .inl ⟨⟨rfl, rfl⟩, rfl⟩
  · exact .inr ⟨d', hd, .refl d'⟩

theorem onPeerDisconnected (s : NetworkManager) (id : BitVec 64) : KeepsRecords s (s.onPeerDisconnected id) := by
  unfold NetworkManager.onPeerDisconnected
  split
  · have hclear : KeepsRecords s s.clearSyncPeer := of_eq rfl
    exact hclear.trans (foldl (f := fun s p => s.setSyncStarted p false) (fun _ _ => of_eq rfl) _ _)
  · exact refl s

theorem discourageMisbehaving (env : NetEnv) (s : NetworkManager) (d : PeerMisbehaviorData) :
    KeepsRecords s (s.discourageMisbehaving env d) := by
  unfold NetworkManager.discourageMisbehaving
  split
  · cases env.validateAndNormalizeIP d.address with
    | none => exact refl s
    | some normalized =>
      simp only [Option.elim]
      unfold NetworkManager.discourage
      split
      · exact refl s
      · exact of_eq rfl
  · exact refl s

theorem notifyPeerDisconnected (s : NetworkManager) (id : Int) (e : PeerEvent) :
    KeepsRecords s (s.notifyPeerDisconnected id e) :=
  (of_eq rfl : KeepsRecords s { s with peerEvents := s.peerEvents ++ [e] }).trans (onPeerDisconnected _ _)

theorem removePeer (env : NetEnv) (s : NetworkManager) (peerId : Int) : KeepsRecords s (s.removePeer env peerId) := by
  unfold NetworkManager.removePeer
  split
  · exact refl s
  · rename_i d _
    split
    · exact refl s
    · have herase := (discourageMisbehaving env s d.misbehavior).trans (erase _ peerId)
      dsimp only
      refine (herase.trans ?_).trans (of_eq rfl)
      split
      · exact refl _
      · exact notifyPeerDisconnected _ _ _

theorem disconnectAll (s : NetworkManager) : KeepsRecords s s.disconnectAll := fun id d' hd => by
  rw [(disconnectAll_cleared s).peerStates] at hd
  cases hd

theorem manage (parse : String → Option String) (s : NetworkManager) (op : ManageOp) :
    KeepsRecords s (s.manage parse op) := by
  cases op with
  | removePeer env peerId => exact removePeer _ s peerId
  | evictInboundPeer env =>
    unfold NetworkManager.manage
    simp only [evictInboundPeer_eq]
    cases s.evictionVictim (env.normalizing parse) with
    | none => exact refl s
    | some victim => exact removePeer _ s victim
  | processPeriodic env => exact foldl (removePeer _) _ s
  | disconnectAll => exact disconnectAll s
  | shutdown => exact of_eq rfl
  | start env p => exact of_eq rfl
  | handleVerack p => exact of_eq rfl
  | handlePong p pingTimeMs => exact of_eq rfl
  | disconnect p => exact of_eq rfl
  | misbehaving peerId penalty => exact modifyMisbehavior s peerId _

theorem addPeer (config : PeerConfig) (env : NetEnv) (R : Registered s) (peer : Peer)
    (permissions : NetPermissionFlags) (address : String) :
    KeepsRecords s (s.addPeer config env peer permissions address).1 := by
  have hroom : KeepsRecords s (s.madeRoom config env peer) := by
    unfold NetworkManager.madeRoom
    split
    · cases s.evictionVictim env with
      | none => exact refl s
      | some victim => exact removePeer env s victim
    · exact refl s
  rw [addPeer_eq R]
  split
  · exact hroom.trans (insertPeer env _ peer permissions _)
  · split
    · exact hroom
    · exact refl s

theorem lifecycleStep (parse : String → Option String) (config : PeerConfig) (R : Registered s) (op : LifecycleOp) :
    KeepsRecords s (s.lifecycleStep parse config op) := by
  cases op with
  | addInbound env connection isOpen permissions address => exact addPeer config _ R _ permissions address
  | addOutbound env connection isOpen targetAddress targetPort connectionType permissions address =>
    exact addPeer config _ R _ permissions address
  | manage op => exact manage parse s op

end

end KeepsRecords

end NetworkManager

namespace BlockRelayManager

open NetworkManager

/-! ## What holds of every entry -/

/-- The messages handed to `send_message` of one object. -/
def invsTo (invs : List (PeerPtr × List InventoryVector)) (p : PeerPtr) : List (List InventoryVector) :=
  (invs.filter (fun m => m.1 == p)).map Prod.snd

/-- The last announcement, if one was made, is queued or was sent. -/
def Announced (invs : List (PeerPtr × List InventoryVector)) (d : PeerTrackingData) : Prop :=
  d.Unannounced ∨ d.lastAnnouncedBlock ∈ d.blocksForInvRelay ∨
    ∃ msg ∈ invsTo invs d.peer, blockInv d.lastAnnouncedBlock ∈ msg

structure EntryOk (invs : List (PeerPtr × List InventoryVector)) (d : PeerTrackingData) : Prop where
  announced : Announced invs d
  nodup : d.blocksForInvRelay.Nodup

section
variable {invs msgs : List (PeerPtr × List InventoryVector)} {d d' : PeerTrackingData}

theorem invsTo_append (invs msgs : List (PeerPtr × List InventoryVector)) (p : PeerPtr) :
    invsTo (invs ++ msgs) p = invsTo invs p ++ invsTo msgs p := by
  unfold invsTo
  rw [List.filter_append, List.map_append]

theorem invsTo_self (p : PeerPtr) (l : List (List InventoryVector)) : invsTo (l.map (fun inv => (p, inv))) p = l := by
  unfold invsTo
  rw [List.filter_eq_self.mpr (by simp)]
  simp [Function.comp_def]

theorem invsTo_ne {p q : PeerPtr} (h : p ≠ q) (l : List (List InventoryVector)) :
    invsTo (l.map (fun inv => (p, inv))) q = [] := by
  unfold invsTo
  rw [List.filter_eq_nil_iff.mpr (by simp [h])]
  rfl

theorem Announced.append (h : Announced invs d) (msgs : List (PeerPtr × List InventoryVector)) :
    Announced (invs ++ msgs) d := by
  rcases h with h | h | ⟨msg, hm, h⟩
  · exact .inl h
  · exact .inr (.inl h)
  · refine .inr (.inr ⟨msg, ?_, h⟩)
    rw [invsTo_append]
    exact List.mem_append_left _ hm

theorem EntryOk.append (h : EntryOk invs d) (msgs : List (PeerPtr × List InventoryVector)) : EntryOk (invs ++ msgs) d :=
  ⟨h.announced.append msgs, h.nodup⟩

theorem EntryOk.sameRecord (h : EntryOk invs d) (hs : d.SameRecord d') : EntryOk invs d' := by
  obtain ⟨hp, hq, hl, ht⟩ := hs
  refine ⟨?_, hq ▸ h.nodup⟩
  unfold Announced PeerTrackingData.Unannounced
  rw [hp, hq, hl, ht]
  exact h.announced

theorem EntryOk.announce (h : EntryOk invs d) (tip : Uint256) (now : Int) :
    EntryOk invs (.setLastAnnouncedBlock tip now (.addBlockForInvRelay tip d)) := by
  unfold PeerTrackingData.addBlockForInvRelay
  split
  · rename_i hmem
    exact ⟨.inr (.inl hmem), h.nodup⟩
  · rename_i hmem
    refine ⟨.inr (.inl ?_), ?_⟩
    · exact List.mem_append_right _ List.mem_cons_self
    · exact List.nodup_append.mpr ⟨h.nodup, List.nodup_singleton tip, fun a ha b hb hab => by
        rw [List.mem_singleton] at hb
        exact hmem (hb ▸ hab ▸ ha)⟩

theorem EntryOk.relay (h : EntryOk invs d) (hash : Uint256) (now : Int) :
    EntryOk (invs ++ [(d.peer, [blockInv hash])])
      (.setLastAnnouncedBlock hash now (.removeBlockForInvRelay hash d)) := by
  refine ⟨.inr (.inr ⟨[blockInv hash], ?_, List.mem_cons_self⟩), h.nodup.filter _⟩
  rw [invsTo_append]
  refine List.mem_append_right _ ?_
  rw [show [(d.peer, [blockInv hash])] = [[blockInv hash]].map (fun inv => (d.peer, inv)) from rfl]
  exact (invsTo_self d.peer _) ▸ List.mem_cons_self

/-- The queue moves into the messages, so what was queued is sent. -/
theorem EntryOk.flush (h : EntryOk invs d) {l : List (List InventoryVector)}
    (hl : l.flatten = d.blocksForInvRelay.map blockInv) :
    EntryOk (invs ++ l.map (fun inv => (d.peer, inv))) d.moveBlocksForInvRelay := by
  refine ⟨?_, List.nodup_nil⟩
  rcases h.announced with h | h | ⟨msg, hm, h⟩
  · exact .inl h
  · have hsent : blockInv d.lastAnnouncedBlock ∈ l.flatten := hl ▸ List.mem_map_of_mem h
    obtain ⟨msg, hm, hin⟩ := List.mem_flatten.mp hsent
    refine .inr (.inr ⟨msg, ?_, hin⟩)
    rw [invsTo_append]
    exact List.mem_append_right _ ((invsTo_self d.peer l).symm ▸ hm)
  · refine .inr (.inr ⟨msg, ?_, h⟩)
    rw [invsTo_append]
    exact List.mem_append_left _ hm

end

/-! ## The state during a loop over the peers -/

structure RelayOk (s : BlockRelayManager) : Prop where
  registered : Registered s.toNetworkManager
  chunk : 0 < s.invChunkSize
  entries : ∀ (id : Int) (d : PeerTrackingData), s.peerStates[id]? = some d → EntryOk s.invs d

/-- What no round of a loop touches. -/
structure SameObjects (s s' : BlockRelayManager) : Prop where
  peers : s'.peers = s.peers
  ptrOf : s'.ptrOf = s.ptrOf
  invChunkSize : s'.invChunkSize = s.invChunkSize

/-- The object has an entry. -/
def Holds (s : BlockRelayManager) (p : PeerPtr) : Prop := ∃ id, s.ptrOf id = some p

section
variable {s s' s'' : BlockRelayManager} {env : NetEnv} {tip hash : Uint256} {p : PeerPtr} {id : Int}
  {d : PeerTrackingData} {peer : Peer}

theorem SameObjects.refl (s : BlockRelayManager) : SameObjects s s := ⟨rfl, rfl, rfl⟩

theorem SameObjects.trans (h1 : SameObjects s s') (h2 : SameObjects s' s'') : SameObjects s s'' :=
  ⟨h2.peers.trans h1.peers, h2.ptrOf.trans h1.ptrOf, h2.invChunkSize.trans h1.invChunkSize⟩

theorem SameObjects.registered (h : SameObjects s s') (R : Registered s.toNetworkManager) :
    Registered s'.toNetworkManager := fun id p hp => by
  have hid := R id p (h.ptrOf ▸ hp)
  unfold NetworkManager.idOf at hid ⊢
  rw [h.peers]
  exact hid

theorem SameObjects.holds (h : SameObjects s s') (hp : s.Holds p) : s'.Holds p := by
  obtain ⟨id, hp⟩ := hp
  exact ⟨id, h.ptrOf.symm ▸ hp⟩

theorem get_modifyTracking (s : BlockRelayManager) (peerId : Int) (f : PeerTrackingData → PeerTrackingData)
    (id : Int) :
    (s.modifyTracking peerId f).peerStates[id]? =
      if id = peerId then s.peerStates[id]?.map f else s.peerStates[id]? := by
  unfold modifyTracking
  dsimp only
  rw [Std.ExtTreeMap.getElem?_modify]
  by_cases heq : id = peerId
  · subst heq
    simp
  · have hne : compare peerId id ≠ .eq := fun hc => heq (Std.compare_eq_iff_eq.mp hc).symm
    rw [if_neg hne, if_neg heq]

theorem modifyTracking_modifyTracking (s : BlockRelayManager) (peerId : Int)
    (f g : PeerTrackingData → PeerTrackingData) :
    (s.modifyTracking peerId f).modifyTracking peerId g = s.modifyTracking peerId (fun d => g (f d)) := by
  have hmap : (s.peerStates.modify peerId f).modify peerId g = s.peerStates.modify peerId (fun d => g (f d)) := by
    refine Std.ExtTreeMap.ext_getElem? fun id => ?_
    simp only [Std.ExtTreeMap.getElem?_modify]
    by_cases heq : compare peerId id = .eq
    · obtain rfl := Std.compare_eq_iff_eq.mp heq
      simp [Function.comp_def]
    · rw [if_neg heq, if_neg heq, if_neg heq]
  unfold modifyTracking
  dsimp only
  rw [hmap]

theorem sameObjects_modifyTracking (s : BlockRelayManager) (peerId : Int)
    {f : PeerTrackingData → PeerTrackingData} (hf : ∀ d, (f d).peer = d.peer) :
    SameObjects s (s.modifyTracking peerId f) := by
  refine ⟨rfl, ?_, rfl⟩
  funext id
  unfold NetworkManager.ptrOf
  rw [get_modifyTracking]
  split
  · cases s.peerStates[id]? with
    | none => rfl
    | some d => exact congrArg some (hf d)
  · rfl

theorem mem_getAllPeers : p ∈ s.getAllPeers ↔ s.Holds p := by
  unfold getAllPeers Holds NetworkManager.ptrOf
  rw [List.mem_map]
  constructor
  · rintro ⟨kv, hkv, rfl⟩
    exact ⟨kv.1, by rw [Std.ExtTreeMap.mem_toList_iff_getElem?_eq_some.mp hkv]; rfl⟩
  · rintro ⟨id, hp⟩
    obtain ⟨d, hd, rfl⟩ := Option.map_eq_some_iff.mp hp
    exact ⟨(id, d), Std.ExtTreeMap.mem_toList_iff_getElem?_eq_some.mpr hd, rfl⟩

theorem nodup_getAllPeers (R : Registered s.toNetworkManager) : s.getAllPeers.Nodup := by
  unfold getAllPeers
  rw [List.Nodup, List.pairwise_map]
  refine Std.ExtTreeMap.distinct_keys_toList.imp_of_mem fun {a b} ha hb hne heq => hne ?_
  have hptr := ptrOf_of_get (Std.ExtTreeMap.mem_toList_iff_getElem?_eq_some.mp ha)
  have hptr' := ptrOf_of_get (Std.ExtTreeMap.mem_toList_iff_getElem?_eq_some.mp hb)
  exact Std.compare_eq_iff_eq.mpr (R.inj hptr (heq ▸ hptr'))

theorem entry_of_holds (R : Registered s.toNetworkManager) (hp : s.Holds p) (hpeer : s.peers[p]? = some peer) :
    ∃ d, s.peerStates[peer.id]? = some d ∧ d.peer = p := by
  obtain ⟨id, hp⟩ := hp
  have hid := (R id p hp).symm.trans (idOf_of_get hpeer)
  obtain rfl := Option.some.inj hid
  exact Option.map_eq_some_iff.mp hp

theorem RelayOk.write (h : RelayOk s) (peerId : Int) {f : PeerTrackingData → PeerTrackingData}
    (msgs : List (PeerPtr × List InventoryVector)) (hpeer : ∀ d, (f d).peer = d.peer)
    (hf : ∀ d, s.peerStates[peerId]? = some d → EntryOk (s.invs ++ msgs) (f d)) :
    RelayOk { s.modifyTracking peerId f with invs := s.invs ++ msgs } where
  registered := (sameObjects_modifyTracking s peerId hpeer).registered h.registered
  chunk := h.chunk
  entries id d hd := by
    rw [get_modifyTracking] at hd
    split at hd
    · rename_i heq
      subst heq
      obtain ⟨d, hget, rfl⟩ := Option.map_eq_some_iff.mp hd
      exact hf d hget
    · exact (h.entries id d hd).append msgs

/-! ## Announcing -/

theorem addBlockForInvRelay_peer (hash : Uint256) (d : PeerTrackingData) :
    (d.addBlockForInvRelay hash).peer = d.peer := by
  unfold PeerTrackingData.addBlockForInvRelay
  split <;> rfl

theorem RelayOk.announce (h : RelayOk s) (env : NetEnv) (tip : Uint256) (peerId : Int) :
    RelayOk (s.announce env tip peerId) := by
  unfold BlockRelayManager.announce
  rw [modifyTracking_modifyTracking]
  have hwrite := h.write peerId [] (fun d => addBlockForInvRelay_peer tip d)
    (f := fun d => .setLastAnnouncedBlock tip env.time (.addBlockForInvRelay tip d)) fun d hd =>
      ((h.entries peerId d hd).announce tip env.time).append []
  rwa [List.append_nil] at hwrite

theorem RelayOk.reannounce (h : RelayOk s) (env : NetEnv) (tip : Uint256) (p : PeerPtr) :
    RelayOk (s.reannounce env tip p) := by
  unfold BlockRelayManager.reannounce
  split
  · exact h
  · split
    · exact h
    · exact h.announce env tip _

theorem RelayOk.announceTipToAllPeers (h : RelayOk s) (env : NetEnv) : RelayOk (s.announceTipToAllPeers env) := by
  unfold BlockRelayManager.announceTipToAllPeers
  split
  · exact h
  · rename_i tip htip
    clear htip
    generalize s.getAllPeers = l
    induction l generalizing s with
    | nil => exact h
    | cons p l ih => exact ih (h.reannounce env tip p)

theorem RelayOk.announceTipToPeer (h : RelayOk s) (env : NetEnv) (p : PeerPtr) :
    RelayOk (s.announceTipToPeer env p) := by
  unfold BlockRelayManager.announceTipToPeer
  split
  · split
    · exact h.announce env _ _
    · exact h
  · exact h

/-! ## Sending -/

theorem RelayOk.relayTo (h : RelayOk s) (env : NetEnv) (hash : Uint256) (hp : s.Holds p) :
    RelayOk (s.relayTo env hash p) := by
  unfold BlockRelayManager.relayTo
  split
  · exact h
  · rename_i peer hpeer
    split
    · have hwrite := h.write peer.id [(p, [blockInv hash])] (fun _ => rfl)
        (f := fun d => .setLastAnnouncedBlock hash env.time (.removeBlockForInvRelay hash d)) fun d hd => by
          obtain ⟨d', hd', rfl⟩ := entry_of_holds h.registered hp hpeer
          obtain rfl := Option.some.inj (hd.symm.trans hd')
          exact (h.entries _ d hd).relay hash env.time
      rw [← modifyTracking_modifyTracking] at hwrite
      exact hwrite
    · exact h

theorem sameObjects_relayTo (s : BlockRelayManager) (env : NetEnv) (hash : Uint256) (p : PeerPtr) :
    SameObjects s (s.relayTo env hash p) := by
  unfold BlockRelayManager.relayTo
  split
  · exact .refl s
  · rename_i peer _
    split
    · have hone := sameObjects_modifyTracking s peer.id (f := .removeBlockForInvRelay hash) fun _ => rfl
      have hsent : SameObjects (s.modifyTracking peer.id (.removeBlockForInvRelay hash))
          { s.modifyTracking peer.id (.removeBlockForInvRelay hash) with
            invs := s.invs ++ [(p, [blockInv hash])] } := ⟨rfl, rfl, rfl⟩
      exact (hone.trans hsent).trans (sameObjects_modifyTracking _ peer.id fun _ => rfl)
    · exact .refl s

theorem RelayOk.foldl {f : BlockRelayManager → PeerPtr → BlockRelayManager} (hsame : ∀ s p, SameObjects s (f s p))
    (hf : ∀ s p, RelayOk s → s.Holds p → RelayOk (f s p)) : ∀ (l : List PeerPtr) (s : BlockRelayManager),
      RelayOk s → (∀ p ∈ l, s.Holds p) → RelayOk (l.foldl f s)
  | [], _, h, _ => h
  | p :: l, s, h, hl => by
    rw [List.forall_mem_cons] at hl
    exact RelayOk.foldl hsame hf l (f s p) (hf s p h hl.1) fun q hq => (hsame s p).holds (hl.2 q hq)

theorem RelayOk.relayBlock (h : RelayOk s) (env : NetEnv) (hash : Uint256) : RelayOk (s.relayBlock env hash) :=
  .foldl (fun s p => sameObjects_relayTo s env hash p) (fun _ _ h hp => h.relayTo env hash hp) _ s h
    fun _ hp => mem_getAllPeers.mp hp

/-! ## Flushing -/

/-- The messages that a flush makes of one queue. -/
def flushMessages (s : BlockRelayManager) (d : PeerTrackingData) (peer : Peer) : List (List InventoryVector) :=
  if peer.takesInv then invMessages s.invChunkSize d.blocksForInvRelay.length d.blocksForInvRelay else []

/-- The entry that a flush leaves. -/
def flushedEntry (d : PeerTrackingData) (peer : Peer) : PeerTrackingData :=
  if peer.takesInv then d.moveBlocksForInvRelay else d

/-- One object's part of a state: its entry and the messages to it. -/
structure Part (s : BlockRelayManager) (id : Int) (d : PeerTrackingData) (msgs : List (List InventoryVector)) :
    Prop where
  entry : s.peerStates[id]? = some d
  sent : invsTo s.invs d.peer = msgs

theorem RelayOk.flushPeer (h : RelayOk s) (hp : s.Holds p) : RelayOk (s.flushPeer p) := by
  unfold BlockRelayManager.flushPeer
  split
  · exact h
  · rename_i peer hpeer
    split
    · obtain ⟨d, hd, rfl⟩ := entry_of_holds h.registered hp hpeer
      simp only [hd, Option.elim_some]
      refine h.write peer.id _ (fun _ => rfl) fun d' hd' => ?_
      obtain rfl := Option.some.inj (hd.symm.trans hd')
      exact (h.entries _ d hd).flush (invMessages_flatten h.chunk _ _ le_rfl)
    · exact h

theorem sameObjects_flushPeer (s : BlockRelayManager) (p : PeerPtr) : SameObjects s (s.flushPeer p) := by
  unfold BlockRelayManager.flushPeer
  split
  · exact .refl s
  · rename_i peer _
    split
    · have hone := sameObjects_modifyTracking s peer.id (f := .moveBlocksForInvRelay) fun _ => rfl
      exact hone.trans ⟨rfl, rfl, rfl⟩
    · exact .refl s

theorem RelayOk.flushBlockAnnouncements (h : RelayOk s) : RelayOk s.flushBlockAnnouncements :=
  .foldl sameObjects_flushPeer (fun _ _ h hp => h.flushPeer hp) _ s h fun _ hp => mem_getAllPeers.mp hp

theorem flushPeer_self (R : Registered s.toNetworkManager) (hd : s.peerStates[id]? = some d)
    (hpeer : s.peers[d.peer]? = some peer) :
    Part (s.flushPeer d.peer) id (flushedEntry d peer) (invsTo s.invs d.peer ++ s.flushMessages d peer) := by
  obtain rfl := Option.some.inj ((R id _ (ptrOf_of_get hd)).symm.trans (idOf_of_get hpeer))
  unfold BlockRelayManager.flushPeer flushedEntry flushMessages
  simp only [hpeer, hd, Option.elim_some]
  split
  · refine ⟨?_, ?_⟩
    · rw [get_modifyTracking, if_pos rfl, hd]
      rfl
    · exact (invsTo_append _ _ _).trans (congrArg _ (invsTo_self _ _))
  · exact ⟨hd, (List.append_nil _).symm⟩

theorem flushPeer_other (R : Registered s.toNetworkManager) (hp : s.Holds p) (hd : s.peerStates[id]? = some d)
    (hne : p ≠ d.peer) : Part (s.flushPeer p) id d (invsTo s.invs d.peer) := by
  unfold BlockRelayManager.flushPeer
  split
  · exact ⟨hd, rfl⟩
  · rename_i peer hpeer
    split
    · obtain ⟨d', hd', rfl⟩ := entry_of_holds R hp hpeer
      have hid : id ≠ peer.id := fun heq => by
        subst heq
        exact hne (congrArg PeerTrackingData.peer (Option.some.inj (hd'.symm.trans hd)))
      refine ⟨?_, ?_⟩
      · rw [get_modifyTracking, if_neg hid]
        exact hd
      · rw [invsTo_append, invsTo_ne hne, List.append_nil]
        rfl
    · exact ⟨hd, rfl⟩

theorem foldl_flushPeer_other : ∀ (l : List PeerPtr) (s : BlockRelayManager), Registered s.toNetworkManager →
    (∀ p ∈ l, s.Holds p) → s.peerStates[id]? = some d → d.peer ∉ l →
      Part (l.foldl BlockRelayManager.flushPeer s) id d (invsTo s.invs d.peer)
  | [], s, _, _, hd, _ => ⟨hd, rfl⟩
  | p :: l, s, R, hl, hd, hnot => by
    rw [List.forall_mem_cons] at hl
    rw [List.mem_cons, not_or] at hnot
    have hone := flushPeer_other R hl.1 hd (Ne.symm hnot.1)
    have hsame := sameObjects_flushPeer s p
    have hrest := foldl_flushPeer_other l (s.flushPeer p) (hsame.registered R) (fun q hq => hsame.holds (hl.2 q hq))
      hone.entry hnot.2
    rwa [hone.sent] at hrest

theorem foldl_flushPeer_self : ∀ (l : List PeerPtr) (s : BlockRelayManager), Registered s.toNetworkManager →
    (∀ p ∈ l, s.Holds p) → l.Nodup → s.peerStates[id]? = some d → s.peers[d.peer]? = some peer → d.peer ∈ l →
      Part (l.foldl BlockRelayManager.flushPeer s) id (flushedEntry d peer)
        (invsTo s.invs d.peer ++ s.flushMessages d peer)
  | [], _, _, _, _, _, _, hmem => absurd hmem List.not_mem_nil
  | p :: l, s, R, hl, hnd, hd, hpeer, hmem => by
    rw [List.forall_mem_cons] at hl
    rw [List.nodup_cons] at hnd
    have hsame := sameObjects_flushPeer s p
    have hrest : ∀ q ∈ l, (s.flushPeer p).Holds q := fun q hq => hsame.holds (hl.2 q hq)
    rcases List.mem_cons.mp hmem with heq | hmem
    · subst heq
      have hone := flushPeer_self R hd hpeer
      have hptr : (flushedEntry d peer).peer = d.peer := by
        unfold flushedEntry
        split <;> rfl
      have hlast := foldl_flushPeer_other l _ (hsame.registered R) hrest hone.entry (hptr ▸ hnd.1)
      rwa [hone.sent] at hlast
    · have hne : p ≠ d.peer := fun heq => hnd.1 (heq ▸ hmem)
      have hone := flushPeer_other R hl.1 hd hne
      have hlast := foldl_flushPeer_self l _ (hsame.registered R) hrest hnd.2 hone.entry (hsame.peers.symm ▸ hpeer)
        hmem
      have hmsgs : (s.flushPeer p).flushMessages d peer = s.flushMessages d peer := by
        unfold flushMessages
        rw [hsame.invChunkSize]
      rwa [hone.sent, hmsgs] at hlast

/-- A flush sends an entry's queue in order and cut into messages, if the peer takes messages. -/
structure FlushesQueue (s : BlockRelayManager) (id : Int) (d : PeerTrackingData) (peer : Peer)
    (msgs : List (List InventoryVector)) : Prop where
  sent : invsTo s.flushBlockAnnouncements.invs d.peer = invsTo s.invs d.peer ++ msgs
  flatten : msgs.flatten = if peer.takesInv then d.blocksForInvRelay.map blockInv else []
  size : ∀ msg ∈ msgs, msg ≠ [] ∧ msg.length ≤ s.invChunkSize
  entry : s.flushBlockAnnouncements.peerStates[id]? = some (flushedEntry d peer)

theorem RelayOk.flushes (h : RelayOk s) (hd : s.peerStates[id]? = some d) (hpeer : s.peers[d.peer]? = some peer) :
    FlushesQueue s id d peer (s.flushMessages d peer) := by
  have hpart := foldl_flushPeer_self s.getAllPeers s h.registered (fun _ hp => mem_getAllPeers.mp hp)
    (nodup_getAllPeers h.registered) hd hpeer (mem_getAllPeers.mpr ⟨id, ptrOf_of_get hd⟩)
  refine ⟨?_, ?_, fun msg hm => ?_, hpart.entry⟩
  · have hsent := hpart.sent
    have hptr : (flushedEntry d peer).peer = d.peer := by
      unfold flushedEntry
      split <;> rfl
    rwa [hptr] at hsent
  · unfold flushMessages
    split
    · exact invMessages_flatten h.chunk _ _ le_rfl
    · rfl
  · unfold flushMessages at hm
    split at hm
    · exact mem_invMessages h.chunk hm
    · cases hm

/-! ## Runs -/

section
variable (getHash : CBlockHeader → Uint256) (params : ConsensusParams) (parse : String → Option String)
  (config : PeerConfig)

theorem RelayOk.step (h : RelayOk s) (op : RelayOp) : RelayOk (s.step getHash params parse config op) := by
  cases op with
  | announceTipToAllPeers env => exact h.announceTipToAllPeers env
  | announceTipToPeer env p => exact h.announceTipToPeer env p
  | relayBlock env hash => exact h.relayBlock env hash
  | flushBlockAnnouncements => exact h.flushBlockAnnouncements
  | chain op => exact ⟨h.registered, h.chunk, h.entries⟩
  | lifecycle op =>
    refine ⟨h.registered.lifecycleStep config parse op, h.chunk, fun id d' hd => ?_⟩
    rcases KeepsRecords.lifecycleStep parse config h.registered op id d' hd with ⟨hnew, hq⟩ | ⟨d, hd, hsame⟩
    · exact ⟨.inl hnew, hq ▸ List.nodup_nil⟩
    · exact (h.entries id d hd).sameRecord hsame

theorem relayOk_fresh (chainstate : ChainstateManager) {chunk : Nat} (h : 0 < chunk) :
    RelayOk (fresh chainstate chunk) :=
  ⟨registered_fresh chainstate, h, fun id d hd => by simp [fresh, NetworkManager.fresh] at hd⟩

theorem relayOk_run (chainstate : ChainstateManager) {chunk : Nat} (h : 0 < chunk) (ops : List RelayOp) :
    RelayOk (ops.foldl (step getHash params parse config) (fresh chainstate chunk)) := by
  induction ops using List.reverseRecOn with
  | nil => exact relayOk_fresh chainstate h
  | append_singleton l op ih =>
    rw [List.foldl_append]
    exact ih.step getHash params parse config op

/-- After any run, what the entry of a peer records as announced is in its queue or was sent to
it, the queue has no hash twice, and a flush sends it in order. -/
theorem announcements_not_lost (chainstate : ChainstateManager) {chunk : Nat} (hchunk : 0 < chunk)
    (ops : List RelayOp) {s : BlockRelayManager}
    (hs : s = ops.foldl (step getHash params parse config) (fresh chainstate chunk)) {id : Int}
    {d : PeerTrackingData} (hd : s.peerStates[id]? = some d) :
    Announced s.invs d ∧ d.blocksForInvRelay.Nodup ∧
      ∃ peer, s.peers[d.peer]? = some peer ∧ peer.id = id ∧ ∃ msgs, FlushesQueue s id d peer msgs := by
  have h : RelayOk s := hs ▸ relayOk_run getHash params parse config chainstate hchunk ops
  have hentry := h.entries id d hd
  obtain ⟨peer, hpeer, hid⟩ := Option.map_eq_some_iff.mp (h.registered id d.peer (ptrOf_of_get hd))
  exact ⟨hentry.announced, hentry.nodup, peer, hpeer, hid, _, h.flushes hd hpeer⟩

end

end

/-! ## On a concrete chain -/

/-- A peer becomes ready, the chain grows by one block, and the block is announced. -/
def announceOps : List RelayOp :=
  [.lifecycle (.addOutbound {} (some ("10.0.0.1", 8333)) true "10.0.0.1" 8333 .OUTBOUND 0 ""),
    .lifecycle (.manage (.handleVerack 0)), .chain (.processNewBlockHeader {} (nonceHeader 1 2) true),
    .announceTipToPeer { time := 1000 } 0]

def announcedNode : BlockRelayManager :=
  announceOps.foldl (step nonceHash nonceParams some {}) (fresh nonceStart 2)

/-- The announcement of the second block is in the queue. -/
theorem announcements_not_lost_nonce :
    ∃ d, announcedNode.peerStates[(1 : Int)]? = some d ∧ d.lastAnnouncedBlock = 2 ∧ d.blocksForInvRelay = [2] ∧
      Announced announcedNode.invs d ∧ d.blocksForInvRelay.Nodup ∧
        ∃ peer, announcedNode.peers[d.peer]? = some peer ∧ peer.id = 1 ∧
          ∃ msgs, FlushesQueue announcedNode 1 d peer msgs := by
  have hqueue : announcedNode.peerStates[(1 : Int)]?.map (fun d => (d.lastAnnouncedBlock, d.blocksForInvRelay)) =
      some (2, [2]) := by decide +kernel
  obtain ⟨d, hd, heq⟩ := Option.map_eq_some_iff.mp hqueue
  obtain ⟨hlast, hblocks⟩ := Prod.mk.inj heq
  exact ⟨d, hd, hlast, hblocks,
    announcements_not_lost nonceHash nonceParams some {} nonceStart (by decide) announceOps rfl hd⟩

end BlockRelayManager

end UnicityPow
