import UnicityPow.PeerTable

/-!
# The headers sync slot

The slot is given to a registered peer and freed when that peer is removed. Only an
announcement handled for a peer that is already removed gives it to nobody.
-/

namespace UnicityPow

namespace NetworkManager

/-- The slot is free or names a registered peer. -/
def SlotReleasable (s : NetworkManager) : Prop :=
  s.syncPeerId = NO_SYNC_PEER ∨ ∃ id ∈ s.peerStates, toUint64 id = s.syncPeerId

structure SlotInv (s : NetworkManager) : Prop extends PeerTable s where
  releasable : s.SlotReleasable

/-- The announcement makes its peer the sync peer: the handshake is done, the peer is
outbound, the node downloads without a sync peer, and some announced block is unknown. -/
def AdoptsPeer (params : ConsensusParams) (env : NetEnv) (s : NetworkManager) (peer : Peer)
    (inventory : List InventoryVector) : Prop :=
  peer.successfullyConnected = true ∧ peer.isInbound = false ∧ s.hasSyncPeer = false ∧
    (s.isInitialBlockDownload params env).2 = true ∧
    ∃ inv ∈ inventory, inv.type = MSG_BLOCK ∧ inv.hash ∉ s.chainstate.blockIndex

/-- An announcement that takes the slot comes from a registered peer. -/
def AdoptsRegistered (params : ConsensusParams) (s : NetworkManager) : NetOp → Prop
  | .handleInv env p inventory => ∀ peer, s.peers[p]? = some peer → AdoptsPeer params env s peer inventory →
      peer.id ∈ s.peerStates ∨ peer.id = -1
  | _ => True

section
variable {getHash : CBlockHeader → Uint256} {params : ConsensusParams} {config : PeerConfig} {env : NetEnv}
  {s s' : NetworkManager}

/-! ## Calls that leave the slot or free it -/

theorem SlotInv.of_sameTable (h : SlotInv s) (hT : SameTable s s')
    (hslot : s'.syncPeerId = s.syncPeerId ∨ s'.syncPeerId = NO_SYNC_PEER) : SlotInv s' := by
  refine ⟨hT.table h.toPeerTable, ?_⟩
  rcases hslot with heq | hfree
  · rcases h.releasable with hfree | ⟨id, hid, hv⟩
    · exact .inl (heq.trans hfree)
    · exact .inr ⟨id, hT.mem_iff.mpr hid, hv.trans heq.symm⟩
  · exact .inl hfree

theorem SlotInv.withChain (h : SlotInv s) (chain : ChainstateManager) :
    SlotInv { s with chainstate := chain } :=
  h.of_sameTable ⟨rfl, rfl, rfl, rfl⟩ (.inl rfl)

theorem SlotInv.clearSyncPeer (h : SlotInv s) : SlotInv s.clearSyncPeer :=
  h.of_sameTable ⟨rfl, rfl, rfl, rfl⟩ (.inr rfl)

theorem SlotInv.modifyPeer (h : SlotInv s) (p : PeerPtr) {f : Peer → Peer}
    (hf : ∀ peer, (f peer).id = peer.id) : SlotInv (s.modifyPeer p f) :=
  h.of_sameTable (.modifyPeer s p hf) (.inl rfl)

theorem SlotInv.modifyMisbehavior (h : SlotInv s) (id : Int) (f : PeerMisbehaviorData → PeerMisbehaviorData) :
    SlotInv (s.modifyMisbehavior id f) :=
  h.of_sameTable (.modifyMisbehavior s id f) (.inl rfl)

theorem SlotInv.requestHeadersFromPeer (h : SlotInv s) (p : PeerPtr) :
    SlotInv (s.requestHeadersFromPeer env p) :=
  h.of_sameTable (.requestHeadersFromPeer s p) (.inl (requestHeadersFromPeer_syncPeerId s p))

/-! ## Giving the slot to a peer -/

theorem sameTable_setSyncPeer (s : NetworkManager) (v : BitVec 64) (p : PeerPtr) :
    SameTable s ((s.setSyncPeer env v).setSyncStarted p true) :=
  SameTable.trans (show SameTable s (s.setSyncPeer env v) from ⟨rfl, rfl, rfl, rfl⟩) (.setSyncStarted _ p true)

/-- The slot given to an `int` id is releasable just if the id is registered, or is the one
that stands for no peer. -/
theorem releasable_toUint64 (T : PeerTable s) {id : Int} (hid : IsInt32 id) (hslot : s.syncPeerId = toUint64 id) :
    s.SlotReleasable ↔ id ∈ s.peerStates ∨ id = -1 := by
  unfold SlotReleasable
  rw [hslot, toUint64_eq_noSyncPeer hid]
  constructor
  · rintro (hnone | ⟨id', hmem, heq⟩)
    · exact .inr hnone
    · obtain ⟨p, hp⟩ := mem_iff_ptrOf.mp hmem
      have hid' := T.isInt32 p id' (T.registered id' p hp)
      exact .inl (toUint64_inj hid' hid heq ▸ hmem)
  · rintro (hmem | hnone)
    · exact .inr ⟨id, hmem, rfl⟩
    · exact .inl hnone

theorem SlotInv.setSyncPeer (h : SlotInv s) {id : Int} (hid : id ∈ s.peerStates) (p : PeerPtr) :
    SlotInv ((s.setSyncPeer env (toUint64 id)).setSyncStarted p true) :=
  ⟨(sameTable_setSyncPeer s _ p).table h.toPeerTable,
    .inr ⟨id, (sameTable_setSyncPeer s _ p).mem_iff.mpr hid, rfl⟩⟩

/-! ## Removal and admission -/

theorem SlotInv.of_removed {peerId : Int} (h : SlotInv s) (hR : Removed s peerId s') : SlotInv s' := by
  refine ⟨h.toPeerTable.of_removed hR, ?_⟩
  rcases h.releasable with hfree | ⟨id, hid, hv⟩
  · refine .inl (hR.syncPeerId.trans ?_)
    split
    · rfl
    · exact hfree
  · by_cases hrel : peerId ∈ s.peerStates ∧ s.syncPeerId = toUint64 peerId
    · exact .inl (hR.syncPeerId.trans (if_pos hrel))
    · -- the removed peer is not the sync peer, whose entry stays
      have hslot := hR.syncPeerId.trans (if_neg hrel)
      have hne : id ≠ peerId := by
        rintro rfl
        exact hrel ⟨hid, hv.symm⟩
      exact .inr ⟨id, hR.mem_iff.mpr ⟨hid, hne⟩, hv.trans hslot.symm⟩

theorem SlotInv.removePeer (h : SlotInv s) (peerId : Int) : SlotInv (s.removePeer env peerId) :=
  h.of_removed (removePeer_removed _ h.toPeerTable peerId)

theorem SlotInv.removeIfMisbehaving (h : SlotInv s) (peerId : Int) : SlotInv (s.removeIfMisbehaving env peerId) := by
  unfold NetworkManager.removeIfMisbehaving
  split
  · exact h.removePeer peerId
  · exact h

theorem SlotInv.dropBatch (h : SlotInv s) (peerId : Int) : SlotInv (s.dropBatch env peerId) :=
  (h.removeIfMisbehaving peerId).clearSyncPeer

theorem SlotInv.foldl_removePeer : ∀ (l : List Int) {s : NetworkManager}, SlotInv s →
    SlotInv (l.foldl (NetworkManager.removePeer env) s)
  | [], _, h => h
  | id :: l, _, h => SlotInv.foldl_removePeer l (h.removePeer id)

variable (env) in
theorem SlotInv.evictInboundPeer (h : SlotInv s) : SlotInv (s.evictInboundPeer env).1 := by
  unfold NetworkManager.evictInboundPeer
  split
  · exact h
  · dsimp only
    split
    · exact h.removePeer _
    · exact h

variable (config env) in
theorem SlotInv.makeRoom (h : SlotInv s) : SlotInv (s.makeRoom config env).1 := by
  unfold NetworkManager.makeRoom
  have hE := h.evictInboundPeer env
  split
  · exact h
  · split <;> rename_i heq <;> rw [heq] at hE <;> exact hE

theorem SlotInv.insertPeer (h : SlotInv s) (peer : Peer) (permissions : NetPermissionFlags) (address : String) :
    SlotInv (s.insertPeer env peer permissions address) := by
  have hI := insertPeer_inserted env s peer permissions address
  refine ⟨h.toPeerTable.of_inserted hI, ?_⟩
  rcases h.releasable with hfree | ⟨id, hid, hv⟩
  · exact .inl (hI.syncPeerId.trans hfree)
  · exact .inr ⟨id, hI.mem hid, hv.trans hI.syncPeerId.symm⟩

theorem SlotInv.addPeer (h : SlotInv s) (peer : Peer) (permissions : NetPermissionFlags) (address : String) :
    SlotInv (s.addPeer config env peer permissions address).1 := by
  unfold NetworkManager.addPeer
  dsimp only
  generalize (if address = "" then peer.address else address) = peerAddress
  split
  · exact h
  split
  · exact h
  split
  · exact h
  split
  · exact h.insertPeer peer permissions _
  have hM := h.makeRoom config env
  split <;> rename_i heq <;> rw [heq] at hM
  · exact hM
  · split
    · exact hM
    · exact hM.insertPeer peer permissions _

/-! ## Timers -/

theorem SlotInv.processTimers (h : SlotInv s) : SlotInv (s.processTimers env) := by
  unfold NetworkManager.processTimers
  split
  · exact h.removePeer _
  · exact h

theorem SlotInv.checkInitialSync (h : SlotInv s) : SlotInv (s.checkInitialSync env) := by
  unfold NetworkManager.checkInitialSync
  split
  · exact h
  split
  · exact h
  · rename_i p peer hc
    -- the candidate is one of the registered outbound peers
    obtain ⟨q, hq, hq'⟩ := List.exists_of_findSome?_eq_some hc
    obtain ⟨peer', hpeer, hif⟩ := Option.bind_eq_some_iff.mp hq'
    split at hif
    · cases hif
      exact (h.setSyncPeer (h.toPeerTable.mem_of_outbound hq hpeer) p).requestHeadersFromPeer p
    · cases hif

theorem stall_frees_slot (T : PeerTable s) (hstall : s.isStalled env = true) :
    (s.processTimers env).hasSyncPeer = false ↔ s.SlotReleasable := by
  have hsync : s.syncPeerId ≠ NO_SYNC_PEER := by
    unfold isStalled hasSyncPeer at hstall
    simp only [Bool.and_eq_true, bne_iff_ne, ne_eq] at hstall
    exact hstall.1.1
  have hR := removePeer_removed env T (ofUint64 s.syncPeerId)
  unfold NetworkManager.processTimers hasSyncPeer
  rw [if_pos hstall, hR.syncPeerId]
  constructor
  · intro hfree
    split at hfree
    · rename_i hrel
      exact .inr ⟨_, hrel.1, hrel.2.symm⟩
    · exact absurd (by simpa using hfree) hsync
  · rintro (hfree | ⟨id, hid, hv⟩)
    · exact absurd hfree hsync
    · obtain ⟨p, hp⟩ := mem_iff_ptrOf.mp hid
      rw [← hv, ofUint64_toUint64 (T.isInt32 p id (T.registered id p hp)), if_pos ⟨hid, rfl⟩]
      simp

/-! ## Announcements -/

theorem isInitialBlockDownload_eq {s' : NetworkManager} (h : s.isInitialBlockDownload params env = (s', true)) :
    s' = s := by
  unfold NetworkManager.isInitialBlockDownload ChainstateManager.isInitialBlockDownload at h
  split at h
  · cases h
  · split at h
    · cases h
    · cases h
      rfl

theorem sameTable_isInitialBlockDownload (s : NetworkManager) :
    SameTable s (s.isInitialBlockDownload params env).1 := ⟨rfl, rfl, rfl, rfl⟩

/-- An announcement that takes the slot stops the loop there. -/
theorem processInventory_adopts {p : PeerPtr} {peer : Peer} (hout : peer.isInbound = false)
    (hslot : s.hasSyncPeer = false) (hibd : (s.isInitialBlockDownload params env).2 = true) :
    ∀ {l : List InventoryVector}, (∃ inv ∈ l, inv.type = MSG_BLOCK ∧ inv.hash ∉ s.chainstate.blockIndex) →
      processInventory params env p peer l s = ((s.setSyncPeer env (toUint64 peer.id)).setSyncStarted p true, true)
  | [], h => by simp at h
  | inv :: l, h => by
    unfold processInventory
    split
    · rename_i hskip
      -- the announced block is known: the unknown one comes later
      refine processInventory_adopts hout hslot hibd ?_
      obtain ⟨inv', hmem, hty, hunk⟩ := h
      rcases List.mem_cons.mp hmem with rfl | hmem
      · rcases hskip with hne | hknown
        · exact absurd hty hne
        · exact absurd hknown hunk
      · exact ⟨inv', hmem, hty, hunk⟩
    · rcases hr : s.isInitialBlockDownload params env with ⟨s1, b⟩
      rw [hr] at hibd
      subst hibd
      cases isInitialBlockDownload_eq hr
      simp [hslot, hout]

theorem processInventory_same {p : PeerPtr} (peer : Peer) : ∀ {l : List InventoryVector},
    ¬ (peer.isInbound = false ∧ s.hasSyncPeer = false ∧ (s.isInitialBlockDownload params env).2 = true ∧
      ∃ inv ∈ l, inv.type = MSG_BLOCK ∧ inv.hash ∉ s.chainstate.blockIndex) →
    SameTable s (processInventory params env p peer l s).1 ∧
      (processInventory params env p peer l s).1.syncPeerId = s.syncPeerId
  | [], _ => ⟨.refl s, rfl⟩
  | inv :: l, h => by
    have hrest : SameTable s (processInventory params env p peer l s).1 ∧
        (processInventory params env p peer l s).1.syncPeerId = s.syncPeerId := by
      refine processInventory_same peer fun ⟨hout, hslot, hibd, inv', hmem, hu⟩ => h ⟨hout, hslot, hibd, inv', ?_, hu⟩
      exact List.mem_cons_of_mem _ hmem
    unfold processInventory
    split
    · exact hrest
    · rename_i hunk
      simp only [ne_eq, not_or, not_not] at hunk
      rcases hr : s.isInitialBlockDownload params env with ⟨s1, _ | _⟩
      · have hs1 : s1 = (s.isInitialBlockDownload params env).1 := (congrArg Prod.fst hr).symm
        dsimp only
        exact hs1 ▸ ⟨sameTable_isInitialBlockDownload s, rfl⟩
      · cases isInitialBlockDownload_eq hr
        dsimp only
        split
        · split
          · exact ⟨.refl s, rfl⟩
          · exact hrest
        · rename_i hslot
          split
          · rename_i hout
            refine absurd ⟨by simpa using hout, by simpa using hslot, by rw [hr], inv, ?_, hunk⟩ h
            exact List.mem_cons_self
          · exact hrest

variable (params env) in
theorem handleInvMessage_cases (p : PeerPtr) (peer : Peer) (l : List InventoryVector)
    (hconn : peer.successfullyConnected = true) :
    SameTable s (s.handleInvMessage params env p peer l) ∧
      (s.handleInvMessage params env p peer l).syncPeerId =
        open Classical in if AdoptsPeer params env s peer l then toUint64 peer.id else s.syncPeerId := by
  -- what follows the loop keeps both
  have hend : SameTable (processInventory params env p peer l s).1 (s.handleInvMessage params env p peer l) ∧
      (s.handleInvMessage params env p peer l).syncPeerId =
        (processInventory params env p peer l s).1.syncPeerId := by
    unfold handleInvMessage
    rcases processInventory params env p peer l s with ⟨s1, _ | _⟩
    · exact ⟨.refl s1, rfl⟩
    · exact ⟨(sameTable_isInitialBlockDownload s1).trans (.requestHeadersFromPeer _ p),
        requestHeadersFromPeer_syncPeerId _ p⟩
  obtain ⟨hT, hv⟩ := hend
  by_cases ha : AdoptsPeer params env s peer l
  · obtain ⟨-, hout, hslot, hibd, hunk⟩ := ha
    have hl := processInventory_adopts (p := p) hout hslot hibd hunk
    rw [hl] at hT hv
    refine ⟨(sameTable_setSyncPeer s _ p).trans hT, hv.trans ?_⟩
    rw [if_pos ⟨hconn, hout, hslot, hibd, hunk⟩]
    rfl
  · obtain ⟨hT', hv'⟩ := processInventory_same (p := p) peer (l := l)
      (fun h => ha ⟨hconn, h.1, h.2.1, h.2.2.1, h.2.2.2⟩)
    exact ⟨hT'.trans hT, (hv.trans hv').trans (if_neg ha).symm⟩

/-- At a state whose slot can be released, an announcement keeps it so just if it does not
give the slot to an unregistered peer. -/
theorem SlotInv.handleInv_iff (h : SlotInv s) {p : PeerPtr} {peer : Peer} (hpeer : s.peers[p]? = some peer)
    (hconn : peer.successfullyConnected = true) (l : List InventoryVector) :
    (s.handleInvMessage params env p peer l).SlotReleasable ↔
      (AdoptsPeer params env s peer l → peer.id ∈ s.peerStates ∨ peer.id = -1) := by
  obtain ⟨hT, hv⟩ := handleInvMessage_cases params env (s := s) p peer l hconn
  by_cases ha : AdoptsPeer params env s peer l
  · rw [if_pos ha] at hv
    have hid := h.isInt32 p peer.id (idOf_of_get hpeer)
    rw [releasable_toUint64 (hT.table h.toPeerTable) hid hv, hT.mem_iff]
    exact ⟨fun hr _ => hr, fun hr => hr ha⟩
  · rw [if_neg ha] at hv
    exact ⟨fun _ hc => absurd hc ha, fun _ => (h.of_sameTable hT (.inl hv)).releasable⟩

/-! ## Headers -/

variable (params env) in
theorem SlotInv.isInitialBlockDownload (h : SlotInv s) : SlotInv (s.isInitialBlockDownload params env).1 :=
  h.withChain _

theorem SlotInv.penaliseHeader (h : SlotInv s) (peerId : Int) (hash : Uint256) :
    SlotInv (s.penaliseHeader env peerId hash).1 := by
  unfold NetworkManager.penaliseHeader
  split
  · exact h
  · exact ((h.modifyMisbehavior peerId _).modifyMisbehavior peerId _).dropBatch peerId

theorem SlotInv.handleRefused (h : SlotInv s) (peerId : Int) (skipDos : Bool) (header : CBlockHeader)
    (reason : String) : SlotInv (s.handleRefused getHash params env peerId skipDos header reason).1 := by
  unfold NetworkManager.handleRefused
  dsimp only
  split
  · split
    · exact h.withChain _
    · exact ((h.withChain _).modifyMisbehavior peerId _).dropBatch peerId
  split
  · split
    · exact h
    · split
      · exact h
      · exact h.penaliseHeader peerId _
  split
  · exact h.penaliseHeader peerId _
  · exact h.clearSyncPeer

variable (getHash params env) in
theorem SlotInv.acceptHeader (h : SlotInv s) (peerId : Int) (skipDos : Bool) (header : CBlockHeader) :
    SlotInv (s.acceptHeader getHash params env peerId skipDos header).1 := by
  unfold NetworkManager.acceptHeader
  split
  · exact h.withChain _
  · exact (h.withChain _).handleRefused peerId skipDos header _

variable (getHash params env) in
theorem SlotInv.acceptHeaders (peerId : Int) (skipDos : Bool) : ∀ (l : List CBlockHeader) {s : NetworkManager},
    SlotInv s → SlotInv (acceptHeaders getHash params env peerId skipDos l s).1
  | [], _, h => h
  | header :: l, s, h => by
    have h1 := h.acceptHeader getHash params env peerId skipDos header
    unfold NetworkManager.acceptHeaders
    split <;> rename_i heq <;> rw [heq] at h1
    · exact h1
    · exact SlotInv.acceptHeaders peerId skipDos l h1

theorem SlotInv.finishBatch (h : SlotInv s) (p : PeerPtr) : SlotInv (s.finishBatch params env p).1 := by
  unfold NetworkManager.finishBatch
  split
  · exact (h.withChain _).clearSyncPeer
  · dsimp only
    split
    · exact ((h.withChain _).isInitialBlockDownload _ _).requestHeadersFromPeer p
    · exact (h.withChain _).isInitialBlockDownload _ _

theorem SlotInv.acceptBatch (h : SlotInv s) (p : PeerPtr) (peerId : Int) (skipDos : Bool)
    (headers : List CBlockHeader) : SlotInv (s.acceptBatch getHash params env p peerId skipDos headers).1 := by
  have h0 : SlotInv { s with lastBatchSize := headers.length } := h.of_sameTable ⟨rfl, rfl, rfl, rfl⟩ (.inl rfl)
  have h1 := SlotInv.acceptHeaders getHash params env peerId skipDos headers h0
  unfold NetworkManager.acceptBatch
  split <;> rename_i heq <;> rw [heq] at h1
  · exact h1
  · exact h1.finishBatch p

theorem SlotInv.processBatch (h : SlotInv s) (p : PeerPtr) (peerId : Int) (skipDos : Bool) (first : CBlockHeader)
    (headers : List CBlockHeader) :
    SlotInv (s.processBatch getHash params env p peerId skipDos first headers).1 := by
  unfold NetworkManager.processBatch
  dsimp only
  generalize decide (first.hashPrevBlock ∈ s.chainstate.blockIndex) = prevExists
  have h1 : SlotInv (if prevExists = true then s
      else NetworkManager.removeIfMisbehaving env (s.incrementUnconnectingHeaders peerId) peerId) := by
    split
    · exact h
    · exact (h.modifyMisbehavior peerId _).removeIfMisbehaving peerId
  revert h1
  generalize (if prevExists = true then s
      else NetworkManager.removeIfMisbehaving env (s.incrementUnconnectingHeaders peerId) peerId) = s1
  intro h1
  split
  · exact (h1.modifyMisbehavior peerId _).dropBatch peerId
  split
  · exact (h1.modifyMisbehavior peerId _).dropBatch peerId
  have h2 : SlotInv (if prevExists = true then s1.resetUnconnectingHeaders peerId else s1) := by
    split
    · exact h1.modifyMisbehavior peerId _
    · exact h1
  revert h2
  generalize (if prevExists = true then s1.resetUnconnectingHeaders peerId else s1) = s2
  intro h2
  split
  · dsimp only
    split
    · exact h2.requestHeadersFromPeer p
    · exact h2
  · exact h2.acceptBatch p peerId skipDos headers

theorem SlotInv.processHeaders (h : SlotInv s) (p : PeerPtr) (peerId : Int) (headers : List CBlockHeader) :
    SlotInv (s.processHeaders getHash params env p peerId headers).1 := by
  have h0 : SlotInv { s with lastHeadersReceivedUs := env.nowUs } :=
    h.of_sameTable ⟨rfl, rfl, rfl, rfl⟩ (.inl rfl)
  unfold NetworkManager.processHeaders
  dsimp only
  split
  · exact h0
  · split
    · exact (h0.modifyMisbehavior peerId _).dropBatch peerId
    · exact h0.processBatch p peerId _ _ _

theorem SlotInv.handleHeadersMessage (h : SlotInv s) (p : PeerPtr) (peer : Peer) (headers : List CBlockHeader) :
    SlotInv (s.handleHeadersMessage getHash params env p peer headers).1 := by
  have h1 := h.isInitialBlockDownload params env
  unfold NetworkManager.handleHeadersMessage
  split <;> rename_i heq <;> rw [heq] at h1
  · split
    · exact h1
    · exact h1.processHeaders p peer.id headers
  · exact h1.processHeaders p peer.id headers

/-! ## Runs -/

theorem SlotInv.step (h : SlotInv s) {a : NetOp} (ha : AdoptsRegistered params s a) :
    SlotInv (step getHash params config s a) := by
  cases a with
  | addPeer env peer permissions address => exact h.addPeer peer permissions address
  | removePeer env peerId => exact h.removePeer peerId
  | processPeriodic env => exact SlotInv.foldl_removePeer _ h
  | checkInitialSync env => exact h.checkInitialSync
  | processTimers env => exact h.processTimers
  | handleInv env p inventory =>
    change SlotInv (s.dispatch p _)
    unfold dispatch
    split
    · exact h
    · rename_i peer hpeer
      split
      · rename_i hconn
        refine ⟨(handleInvMessage_cases _ _ p peer inventory hconn).1.table h.toPeerTable, ?_⟩
        exact (h.handleInv_iff hpeer hconn inventory).mpr (ha peer hpeer)
      · exact h.modifyPeer p Peer.disconnect_id
  | handleHeaders env p headers =>
    change SlotInv (s.dispatch p _)
    unfold dispatch
    split
    · exact h
    · split
      · exact h.handleHeadersMessage p _ headers
      · exact h.modifyPeer p Peer.disconnect_id
  | handleVerack p => exact h.modifyPeer p Peer.handleVerack_id
  | start env p => exact h.modifyPeer p (fun _ => rfl)
  | handlePong p pingTimeMs => exact h.modifyPeer p (fun _ => rfl)
  | disconnect p => exact h.modifyPeer p Peer.disconnect_id
  | chain op => exact h.withChain _

theorem SlotInv.step_iff (h : SlotInv s) (a : NetOp) :
    (NetworkManager.step getHash params config s a).SlotReleasable ↔ AdoptsRegistered params s a := by
  refine ⟨fun hr => ?_, fun ha => (h.step ha).releasable⟩
  cases a with
  | handleInv env p inventory =>
    intro peer hpeer ha
    change (s.dispatch p _).SlotReleasable at hr
    unfold dispatch at hr
    rw [hpeer] at hr
    simp only [ha.1, if_true] at hr
    exact (h.handleInv_iff hpeer ha.1 inventory).mp hr ha
  | _ => trivial

theorem slotInv_fresh (chainstate : ChainstateManager) : SlotInv (fresh chainstate) where
  registered id p hp := by simp [fresh, NetworkManager.ptrOf] at hp
  isInt32 p id hp := by simp [fresh, NetworkManager.idOf] at hp
  nextPeerId := by norm_num [fresh, IsInt32]
  running := rfl
  releasable := .inl rfl

theorem sync_slot_never_leaks {chainstate : ChainstateManager}
    (hrun : Run.Reaches (step getHash params config) (AdoptsRegistered params) (fresh chainstate) s) :
    s.SlotReleasable ∧
      ∀ a, (NetworkManager.step getHash params config s a).SlotReleasable ↔ AdoptsRegistered params s a := by
  have h : SlotInv s := hrun.invariant (slotInv_fresh chainstate) fun _ _ h ha => h.step ha
  exact ⟨h.releasable, h.step_iff⟩

end

/-! ## An outbound peer on a small chain -/

/-- A new outbound connection. -/
def outboundPeer : Peer := {
  isInbound := false, connectionType := .OUTBOUND, connection := some ("10.0.0.1", 8333)
  targetAddress := "10.0.0.1", targetPort := 8333 }

/-- An environment in which no header has its proof of work. -/
def noPowEnv : NetEnv := { checkProofOfWork := fun _ _ => false }

/-- The peer connects and is selected for the initial sync. -/
def selectedOps : List NetOp := [.addPeer {} outboundPeer 0 "", .handleVerack 0, .checkInitialSync {}]

theorem selectedOps_reaches : Run.Reaches (step nonceHash nonceParams {}) (AdoptsRegistered nonceParams)
    (fresh nonceStart) (selectedOps.foldl (step nonceHash nonceParams {}) (fresh nonceStart)) :=
  .foldl .start fun a ha _ => by
    simp only [selectedOps, List.mem_cons, List.not_mem_nil, or_false] at ha
    rcases ha with rfl | rfl | rfl <;> trivial

theorem sync_slot_never_leaks_nonce :
    (selectedOps.foldl (step nonceHash nonceParams {}) (fresh nonceStart)).SlotReleasable ∧
      ∀ a, (step nonceHash nonceParams {} (selectedOps.foldl (step nonceHash nonceParams {}) (fresh nonceStart))
        a).SlotReleasable ↔
          AdoptsRegistered nonceParams (selectedOps.foldl (step nonceHash nonceParams {}) (fresh nonceStart)) a :=
  sync_slot_never_leaks selectedOps_reaches

/-- One receive buffer of the peer: headers without proof of work, then an announcement. -/
def removedOps : List NetOp :=
  [.addPeer {} outboundPeer 0 "", .handleVerack 0, .handleHeaders noPowEnv 0 [nonceHeader 1 2],
    .handleInv {} 0 [⟨MSG_BLOCK, 3⟩]]

theorem removed_peer_takes_slot :
    ¬ ∀ s, Run.Reaches (step nonceHash nonceParams {}) (fun _ _ => True) (fresh nonceStart) s →
      s.SlotReleasable := by
  intro h
  rcases h _ (Run.Reaches.foldl (l := removedOps) .start fun _ _ _ => trivial) with hfree | ⟨id, hid, -⟩
  · revert hfree
    decide +kernel
  · have hempty : (removedOps.foldl (step nonceHash nonceParams {}) (fresh nonceStart)).peerStates.isEmpty = true := by
      decide +kernel
    rw [Std.ExtTreeMap.isEmpty_iff.mp hempty] at hid
    simp at hid

end NetworkManager

end UnicityPow
