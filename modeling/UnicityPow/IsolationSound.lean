import UnicityPow.SyncSlotSound

/-!
# Headers of other peers and the sync slot

A headers message of another peer than the sync peer should neither free the slot nor put
off its stall. It restarts the stall clock unless the initial download gates it, and it
frees the slot when its batch fails.
-/

namespace UnicityPow

namespace NetworkManager

/-- The slot and its stall clock are as before. -/
structure SlotIsolated (s s' : NetworkManager) : Prop where
  syncPeerId : s'.syncPeerId = s.syncPeerId
  lastHeadersReceivedUs : s'.lastHeadersReceivedUs = s.lastHeadersReceivedUs

/-! ## Batches that pass -/

section
variable (getHash : CBlockHeader → Uint256) (params : ConsensusParams) (env : NetEnv)

/-- Every header of the batch is accepted, kept as an orphan, a harmless duplicate, or one
already noted against the peer, and the activation that follows succeeds. -/
def BatchSettles (noted : Uint256 → Bool) (peerId : Int) (skipDos : Bool) :
    List CBlockHeader → ChainstateManager → Prop
  | [], chain => (ChainstateManager.activateBestChain params chain none).2.1 = true
  | header :: rest, chain =>
    match chain.acceptBlockHeader getHash params env.toEnv header true with
    | (chain, .ok pindex) => BatchSettles noted peerId skipDos rest (chain.tryAddCandidate pindex)
    | (chain, .error state) =>
      if state.rejectReason = "prev-blk-not-found" then
        (chain.addOrphanHeader getHash params env.toEnv header peerId).2 = true ∧
          BatchSettles noted peerId skipDos rest (chain.addOrphanHeader getHash params env.toEnv header peerId).1
      else
        (state.rejectReason = "duplicate" ∧ (skipDos = true ∨ chain.blockIndex.isValid (getHash header) = true) ∨
          (state.rejectReason = "duplicate" ∨ state.rejectReason ∈ invalidHeaderReasons) ∧
            noted (getHash header) = true) ∧
          BatchSettles noted peerId skipDos rest chain

/-- The invalid headers noted against a peer. Its notes go with it when the missing parent of
the first header is one too many. -/
def notedAgainst (s : NetworkManager) (peerId : Int) (first : CBlockHeader) (hash : Uint256) : Bool :=
  s.hasInvalidHeaderHash peerId hash &&
    (decide (first.hashPrevBlock ∈ s.chainstate.blockIndex) ||
      !(s.incrementUnconnectingHeaders peerId).shouldDisconnect peerId)

/-- The batch earns no penalty: it is ignored for its low work, or it settles. -/
def BatchHarmless (s : NetworkManager) (peerId : Int) (first : CBlockHeader) (headers : List CBlockHeader) : Prop :=
  s.chainstate.checkHeadersPoW env.toEnv headers = true ∧ checkHeadersAreContinuous getHash headers = true ∧
    (s.skipDosChecks getHash headers = false ∧ s.isLowWork params headers first = true ∨
      BatchSettles getHash params env (s.notedAgainst peerId first) peerId (s.skipDosChecks getHash headers) headers
        s.chainstate)

/-- The initial download gates the message, or it comes at the very time the stall clock
shows and its batch is harmless. -/
def LeavesSlotAlone (s : NetworkManager) (peer : Peer) (headers : List CBlockHeader) : Prop :=
  (s.isInitialBlockDownload params env).2 = true ∧ kMaxUnsolicitedAnnouncement < headers.length ∨
    env.nowUs = s.lastHeadersReceivedUs ∧ headers.length ≤ MAX_HEADERS_SIZE ∧
      ∀ first ∈ headers.head?,
        BatchHarmless getHash params env (s.isInitialBlockDownload params env).1 peer.id first headers

end

section
variable {getHash : CBlockHeader → Uint256} {params : ConsensusParams} {env : NetEnv} {s s' s'' : NetworkManager}

/-! ## Calls that keep the slot -/

namespace SlotIsolated

theorem refl (s : NetworkManager) : SlotIsolated s s := ⟨rfl, rfl⟩

theorem trans (h1 : SlotIsolated s s') (h2 : SlotIsolated s' s'') : SlotIsolated s s'' :=
  ⟨h2.syncPeerId.trans h1.syncPeerId, h2.lastHeadersReceivedUs.trans h1.lastHeadersReceivedUs⟩

theorem discourageMisbehaving (s : NetworkManager) (d : PeerMisbehaviorData) :
    SlotIsolated s (s.discourageMisbehaving env d) := by
  refine ⟨discourageMisbehaving_syncPeerId _ s d, ?_⟩
  unfold NetworkManager.discourageMisbehaving
  split
  · cases env.validateAndNormalizeIP d.address with
    | none => rfl
    | some normalized =>
      simp only [Option.elim]
      unfold discourage
      split <;> rfl
  · rfl

theorem removePeer {peerId : Int} (hother : toUint64 peerId ≠ s.syncPeerId) :
    SlotIsolated s (s.removePeer env peerId) := by
  unfold NetworkManager.removePeer
  split
  · exact refl s
  rename_i d _
  split
  · exact refl s
  rename_i peer _
  dsimp only
  have h1 : SlotIsolated s (s.discourageMisbehaving env d.misbehavior) := discourageMisbehaving s d.misbehavior
  revert h1
  generalize s.discourageMisbehaving env d.misbehavior = s1
  intro h1
  split
  · exact h1.trans ⟨rfl, rfl⟩
  · -- the notification frees the slot of the removed peer only
    unfold notifyPeerDisconnected onPeerDisconnected
    dsimp only
    rw [if_neg fun heq => hother (heq.symm.trans h1.syncPeerId)]
    exact h1.trans ⟨rfl, rfl⟩

theorem removeIfMisbehaving {peerId : Int} (hother : toUint64 peerId ≠ s.syncPeerId) :
    SlotIsolated s (s.removeIfMisbehaving env peerId) := by
  unfold NetworkManager.removeIfMisbehaving
  split
  · exact removePeer hother
  · exact refl s

theorem requestHeadersFromPeer (s : NetworkManager) (p : PeerPtr) :
    SlotIsolated s (s.requestHeadersFromPeer env p) := by
  unfold NetworkManager.requestHeadersFromPeer
  split
  · exact ⟨rfl, rfl⟩
  · exact refl s

end SlotIsolated

/-! ## Calls that free the slot -/

/-- The call leaves the slot alone where `P` holds, and frees it elsewhere. -/
def KeepsSlotIff (s s' : NetworkManager) (P : Prop) : Prop :=
  P ∧ SlotIsolated s s' ∨ ¬ P ∧ s'.syncPeerId = NO_SYNC_PEER

namespace KeepsSlotIff

theorem congr {P Q : Prop} (h : KeepsSlotIff s s' P) (hPQ : P ↔ Q) : KeepsSlotIff s s' Q := by
  rwa [← hPQ]

theorem after {P : Prop} (h1 : SlotIsolated s s') (h : KeepsSlotIff s' s'' P) : KeepsSlotIff s s'' P := by
  rcases h with ⟨hP, hslot⟩ | ⟨hP, hfree⟩
  · exact .inl ⟨hP, h1.trans hslot⟩
  · exact .inr ⟨hP, hfree⟩

theorem sync_iff {P : Prop} (hsync : s.hasSyncPeer = true) (h : KeepsSlotIff s s' P) :
    s'.syncPeerId = s.syncPeerId ↔ P := by
  rcases h with ⟨hP, hslot⟩ | ⟨hP, hfree⟩
  · exact iff_of_true hslot.syncPeerId hP
  · refine iff_of_false (fun heq => ?_) hP
    unfold hasSyncPeer at hsync
    rw [← heq, hfree] at hsync
    simp at hsync

end KeepsSlotIff

/-! ## The accept loop -/

/-- What a round of the loop leaves: the slot and the peers' data when the batch goes on, a
free slot when it ends. -/
def RoundLeaves (s : NetworkManager) (r : NetworkManager × Bool) : Prop :=
  if r.2 then SlotIsolated s r.1 ∧ r.1.peerStates = s.peerStates else r.1.syncPeerId = NO_SYNC_PEER

theorem RoundLeaves.of_chain {chain : ChainstateManager} {r : NetworkManager × Bool}
    (h : RoundLeaves { s with chainstate := chain } r) : RoundLeaves s r := by
  unfold RoundLeaves at h ⊢
  split
  · rename_i hgoes
    rw [if_pos hgoes] at h
    exact ⟨⟨h.1.syncPeerId, h.1.lastHeadersReceivedUs⟩, h.2⟩
  · rename_i hends
    rwa [if_neg hends] at h

theorem penaliseHeader_leaves (s : NetworkManager) (peerId : Int) (hash : Uint256) :
    RoundLeaves s (s.penaliseHeader env peerId hash) := by
  unfold NetworkManager.penaliseHeader
  split
  · exact ⟨.refl s, rfl⟩
  · exact rfl

variable (env) in
theorem penaliseHeader_goes (s : NetworkManager) (peerId : Int) (hash : Uint256) (P : NetworkManager → Prop) :
    (s.penaliseHeader env peerId hash).2 = true ∧ P (s.penaliseHeader env peerId hash).1 ↔
      s.hasInvalidHeaderHash peerId hash = true ∧ P s := by
  unfold NetworkManager.penaliseHeader
  split
  · rename_i hnoted
    simp [hnoted]
  · rename_i hnoted
    simp [hnoted]

theorem handleRefused_leaves (s : NetworkManager) (peerId : Int) (skipDos : Bool) (header : CBlockHeader)
    (reason : String) : RoundLeaves s (s.handleRefused getHash params env peerId skipDos header reason) := by
  unfold NetworkManager.handleRefused
  dsimp only
  split
  · rcases hadd : s.chainstate.addOrphanHeader getHash params env.toEnv header peerId with ⟨chain, _ | _⟩
    · exact rfl
    · exact ⟨⟨rfl, rfl⟩, rfl⟩
  split
  · split
    · exact ⟨.refl s, rfl⟩
    split
    · exact ⟨.refl s, rfl⟩
    · exact penaliseHeader_leaves s peerId _
  split
  · exact penaliseHeader_leaves s peerId _
  · exact rfl

variable (getHash params env) in
theorem acceptHeader_leaves (s : NetworkManager) (peerId : Int) (skipDos : Bool) (header : CBlockHeader) :
    RoundLeaves s (s.acceptHeader getHash params env peerId skipDos header) := by
  unfold NetworkManager.acceptHeader
  rcases s.chainstate.acceptBlockHeader getHash params env.toEnv header true with ⟨chain, state | pindex⟩
  · exact (handleRefused_leaves { s with chainstate := chain } peerId skipDos header state.rejectReason).of_chain
  · exact ⟨⟨rfl, rfl⟩, rfl⟩

variable (getHash params env) in
theorem acceptHeader_settles (s : NetworkManager) (peerId : Int) (skipDos : Bool) (header : CBlockHeader)
    (rest : List CBlockHeader) :
    BatchSettles getHash params env (s.hasInvalidHeaderHash peerId) peerId skipDos (header :: rest) s.chainstate ↔
      (s.acceptHeader getHash params env peerId skipDos header).2 = true ∧
        BatchSettles getHash params env (s.hasInvalidHeaderHash peerId) peerId skipDos rest
          (s.acceptHeader getHash params env peerId skipDos header).1.chainstate := by
  rw [BatchSettles]
  unfold NetworkManager.acceptHeader
  rcases s.chainstate.acceptBlockHeader getHash params env.toEnv header true with ⟨chain, state | pindex⟩
  · unfold NetworkManager.handleRefused
    dsimp only
    generalize state.rejectReason = reason
    have hpen := penaliseHeader_goes env { s with chainstate := chain } peerId (getHash header)
      (fun s' => BatchSettles getHash params env (s.hasInvalidHeaderHash peerId) peerId skipDos rest s'.chainstate)
    by_cases hprev : reason = "prev-blk-not-found"
    · rw [if_pos hprev, if_pos hprev]
      rcases chain.addOrphanHeader getHash params env.toEnv header peerId with ⟨chain', _ | _⟩
      · simp
      · simp
    rw [if_neg hprev, if_neg hprev]
    by_cases hdup : reason = "duplicate"
    · rw [if_pos hdup]
      by_cases hskip : skipDos = true
      · simp [hskip, hdup]
      rw [if_neg hskip]
      by_cases hvalid : chain.blockIndex.isValid (getHash header) = true
      · simp [hvalid, hdup]
      · rw [if_neg hvalid, hpen]
        simp [hdup, hskip, hvalid, hasInvalidHeaderHash]
    · rw [if_neg hdup]
      by_cases hinv : reason ∈ invalidHeaderReasons
      · rw [if_pos hinv, hpen]
        simp [hdup, hinv, hasInvalidHeaderHash]
      · simp [hdup, hinv]
  · simp

variable (getHash params env) in
theorem acceptHeaders_settles (peerId : Int) (skipDos : Bool) : ∀ (l : List CBlockHeader) (s : NetworkManager),
    (BatchSettles getHash params env (s.hasInvalidHeaderHash peerId) peerId skipDos l s.chainstate ↔
      (acceptHeaders getHash params env peerId skipDos l s).2 = true ∧ (ChainstateManager.activateBestChain params
        (acceptHeaders getHash params env peerId skipDos l s).1.chainstate none).2.1 = true) ∧
      RoundLeaves s (acceptHeaders getHash params env peerId skipDos l s)
  | [], s => by simp [acceptHeaders, BatchSettles, RoundLeaves, SlotIsolated.refl]
  | header :: l, s => by
    have hleaves := acceptHeader_leaves getHash params env s peerId skipDos header
    have hstep := acceptHeader_settles getHash params env s peerId skipDos header l
    rw [hstep]
    unfold acceptHeaders
    rcases hr : s.acceptHeader getHash params env peerId skipDos header with ⟨s1, _ | _⟩
    · rw [hr] at hleaves
      simpa using hleaves
    · rw [hr] at hleaves
      obtain ⟨hslot, hpeers⟩ := hleaves
      obtain ⟨ih, ihl⟩ := acceptHeaders_settles peerId skipDos l s1
      have hnoted : s1.hasInvalidHeaderHash peerId = s.hasInvalidHeaderHash peerId := by
        funext hash
        unfold hasInvalidHeaderHash
        rw [hpeers]
      rw [hnoted] at ih
      refine ⟨by simpa using ih, ?_⟩
      unfold RoundLeaves at ihl ⊢
      dsimp only
      split
      · rename_i hg
        rw [if_pos hg] at ihl
        exact ⟨hslot.trans ihl.1, ihl.2.trans hpeers⟩
      · rename_i hg
        rwa [if_neg hg] at ihl

/-! ## Whole messages -/

theorem finishBatch_slot (s : NetworkManager) (p : PeerPtr) :
    KeepsSlotIff s (s.finishBatch params env p).1
      ((ChainstateManager.activateBestChain params s.chainstate none).2.1 = true) := by
  unfold NetworkManager.finishBatch
  split
  · rename_i chain _ hact
    exact .inr ⟨by simp [hact], rfl⟩
  · rename_i chain _ hact
    refine .inl ⟨by simp [hact], ?_⟩
    have hibd : SlotIsolated s (isInitialBlockDownload params env { s with chainstate := chain }).1 := ⟨rfl, rfl⟩
    dsimp only
    split
    · exact hibd.trans (.requestHeadersFromPeer _ p)
    · exact hibd

variable (getHash params env) in
theorem acceptBatch_slot (s : NetworkManager) (p : PeerPtr) (peerId : Int) (skipDos : Bool)
    (headers : List CBlockHeader) :
    KeepsSlotIff s (s.acceptBatch getHash params env p peerId skipDos headers).1
      (BatchSettles getHash params env (s.hasInvalidHeaderHash peerId) peerId skipDos headers s.chainstate) := by
  obtain ⟨hset, hleaves⟩ := acceptHeaders_settles getHash params env peerId skipDos
    headers { s with lastBatchSize := headers.length }
  refine KeepsSlotIff.congr ?_ hset.symm
  unfold NetworkManager.acceptBatch
  split <;> rename_i s1 heq <;> rw [heq] at hleaves ⊢
  · exact .inr ⟨by simp, hleaves⟩
  · obtain ⟨hslot, -⟩ := hleaves
    have hslot : SlotIsolated s s1 := ⟨hslot.syncPeerId, hslot.lastHeadersReceivedUs⟩
    exact (KeepsSlotIff.after hslot (finishBatch_slot s1 p)).congr (by simp)

theorem removePeer_forgets {peerId : Int} {d : PeerTrackingData} {peer : Peer} (hd : s.peerStates[peerId]? = some d)
    (hpeer : s.peerOf d = some peer) : (s.removePeer env peerId).ptrOf peerId = none := by
  unfold NetworkManager.removePeer
  simp only [hd, hpeer]
  have h1 : SameTable s (s.discourageMisbehaving env d.misbehavior) := .discourageMisbehaving s d.misbehavior
  generalize s.discourageMisbehaving env d.misbehavior = s1 at h1 ⊢
  have herase : ({ s1 with peerStates := s1.peerStates.erase peerId } : NetworkManager).ptrOf peerId = none :=
    (ptrOf_erase s1 peerId peerId).trans (if_pos rfl)
  split
  · rw [(SameTable.disconnectPeer _ _).ptrOf]
    exact herase
  · unfold notifyPeerDisconnected
    rw [(SameTable.disconnectPeer _ _).ptrOf, (SameTable.onPeerDisconnected _ _).ptrOf]
    exact herase

theorem hasInvalidHeaderHash_of_ptrOf {peerId : Int} (h : s.ptrOf peerId = none) (hash : Uint256) :
    s.hasInvalidHeaderHash peerId hash = false := by
  have hnone : s.peerStates[peerId]? = none := Option.map_eq_none_iff.mp h
  unfold hasInvalidHeaderHash
  rw [hnone]
  rfl

theorem incrementUnconnecting_invalidHeaderHashes (d : PeerMisbehaviorData) :
    d.incrementUnconnecting.invalidHeaderHashes = d.invalidHeaderHashes := by
  unfold PeerMisbehaviorData.incrementUnconnecting
  split
  · rfl
  · dsimp only
    split <;> rfl

theorem hasInvalidHeaderHash_modify (s : NetworkManager) (peerId : Int) {f : PeerMisbehaviorData → PeerMisbehaviorData}
    (hf : ∀ d, (f d).invalidHeaderHashes = d.invalidHeaderHashes) (hash : Uint256) :
    (s.modifyMisbehavior peerId f).hasInvalidHeaderHash peerId hash = s.hasInvalidHeaderHash peerId hash := by
  unfold hasInvalidHeaderHash modifyMisbehavior
  rw [Std.ExtTreeMap.getElem?_modify_self]
  cases s.peerStates[peerId]? with
  | none => rfl
  | some d => simp [PeerTrackingData.mapMisbehavior, hf]

theorem hasInvalidHeaderHash_counted {p : PeerPtr} {peer : Peer} (hreg : s.ptrOf peer.id = some p)
    (hpeer : s.peers[p]? = some peer) (hash : Uint256) :
    ((s.incrementUnconnectingHeaders peer.id).removeIfMisbehaving env peer.id).hasInvalidHeaderHash peer.id hash =
      (s.hasInvalidHeaderHash peer.id hash && !(s.incrementUnconnectingHeaders peer.id).shouldDisconnect peer.id) := by
  have hnotes := hasInvalidHeaderHash_modify s peer.id incrementUnconnecting_invalidHeaderHashes hash
  have hreg1 : (s.incrementUnconnectingHeaders peer.id).ptrOf peer.id = some p := by
    unfold incrementUnconnectingHeaders
    rw [(SameTable.modifyMisbehavior s peer.id _).ptrOf, hreg]
  obtain ⟨d, hd, rfl⟩ := Option.map_eq_some_iff.mp hreg1
  unfold removeIfMisbehaving
  split
  · rename_i hbad
    rw [hasInvalidHeaderHash_of_ptrOf (removePeer_forgets hd hpeer), hbad]
    simp
  · rename_i hgood
    rw [Bool.not_eq_true] at hgood
    rw [hgood, Bool.not_false, Bool.and_true]
    exact hnotes

theorem onPeerDisconnected_chainstate (s : NetworkManager) (v : BitVec 64) :
    (s.onPeerDisconnected v).chainstate = s.chainstate := by
  have hfold : ∀ (l : List PeerPtr) (s : NetworkManager),
      (l.foldl (fun s p => s.setSyncStarted p false) s).chainstate = s.chainstate := by
    intro l
    induction l with
    | nil => exact fun _ => rfl
    | cons p l ih => exact fun s => ih (s.setSyncStarted p false)
  unfold onPeerDisconnected
  split
  · exact hfold _ s.clearSyncPeer
  · rfl

theorem discourageMisbehaving_chainstate (s : NetworkManager) (d : PeerMisbehaviorData) :
    (s.discourageMisbehaving env d).chainstate = s.chainstate := by
  unfold discourageMisbehaving
  split
  · cases env.validateAndNormalizeIP d.address with
    | none => rfl
    | some normalized =>
      simp only [Option.elim]
      unfold discourage
      split <;> rfl
  · rfl

theorem removePeer_chainstate (s : NetworkManager) (peerId : Int) :
    (s.removePeer env peerId).chainstate = s.chainstate := by
  unfold removePeer
  split
  · rfl
  split
  · rfl
  dsimp only
  split
  · exact discourageMisbehaving_chainstate s _
  · exact (onPeerDisconnected_chainstate _ _).trans (discourageMisbehaving_chainstate s _)

theorem removeIfMisbehaving_chainstate (s : NetworkManager) (peerId : Int) :
    (s.removeIfMisbehaving env peerId).chainstate = s.chainstate := by
  unfold removeIfMisbehaving
  split
  · exact removePeer_chainstate s peerId
  · rfl

theorem processBatch_slot {p : PeerPtr} {peer : Peer} (hreg : s.ptrOf peer.id = some p)
    (hpeer : s.peers[p]? = some peer) (hother : toUint64 peer.id ≠ s.syncPeerId) (first : CBlockHeader)
    (headers : List CBlockHeader) :
    KeepsSlotIff s
      (s.processBatch getHash params env p peer.id (s.skipDosChecks getHash headers) first headers).1
      (BatchHarmless getHash params env s peer.id first headers) := by
  unfold NetworkManager.processBatch BatchHarmless
  dsimp only
  -- the state once a missing parent is counted
  have hcounted : ∀ s1, (if decide (first.hashPrevBlock ∈ s.chainstate.blockIndex) = true then s
      else (s.incrementUnconnectingHeaders peer.id).removeIfMisbehaving env peer.id) = s1 →
      SlotIsolated s s1 ∧ s1.chainstate = s.chainstate ∧
        s1.hasInvalidHeaderHash peer.id = s.notedAgainst peer.id first := by
    rintro s1 rfl
    unfold notedAgainst
    split
    · rename_i hprev
      exact ⟨.refl s, rfl, by simp [hprev]⟩
    · rename_i hprev
      refine ⟨.trans (show SlotIsolated s (s.incrementUnconnectingHeaders peer.id) from ⟨rfl, rfl⟩)
          (.removeIfMisbehaving hother),
        removeIfMisbehaving_chainstate _ _, funext fun hash => ?_⟩
      rw [hasInvalidHeaderHash_counted hreg hpeer]
      simp [hprev]
  generalize (if decide (first.hashPrevBlock ∈ s.chainstate.blockIndex) = true then s
      else (s.incrementUnconnectingHeaders peer.id).removeIfMisbehaving env peer.id) = s1 at hcounted ⊢
  obtain ⟨hslot1, hchain1, hnoted1⟩ := hcounted s1 rfl
  rw [hchain1]
  by_cases hpow : s.chainstate.checkHeadersPoW env.toEnv headers = true
  swap
  · simp only [Bool.not_eq_true] at hpow
    exact .inr ⟨by simp [hpow], by simp [hpow, dropBatch, clearSyncPeer]⟩
  by_cases hcont : checkHeadersAreContinuous getHash headers = true
  swap
  · simp only [Bool.not_eq_true] at hcont
    exact .inr ⟨by simp [hcont], by simp [hpow, hcont, dropBatch, clearSyncPeer]⟩
  simp only [hpow, hcont, Bool.not_true, Bool.false_eq_true, if_false, true_and]
  have hreset : ∀ s2, (if decide (first.hashPrevBlock ∈ s.chainstate.blockIndex) = true then
      s1.resetUnconnectingHeaders peer.id else s1) = s2 → SlotIsolated s s2 ∧ s2.chainstate = s.chainstate ∧
        s2.hasInvalidHeaderHash peer.id = s.notedAgainst peer.id first := by
    rintro s2 rfl
    split
    · refine ⟨hslot1.trans ⟨rfl, rfl⟩, hchain1, funext fun hash => ?_⟩
      have hkeep := hasInvalidHeaderHash_modify s1 peer.id (f := PeerMisbehaviorData.resetUnconnecting)
        (fun _ => rfl) hash
      exact hkeep.trans (congrFun hnoted1 hash)
    · exact ⟨hslot1, hchain1, hnoted1⟩
  generalize (if decide (first.hashPrevBlock ∈ s.chainstate.blockIndex) = true then
      s1.resetUnconnectingHeaders peer.id else s1) = s2 at hreset ⊢
  obtain ⟨hslot2, hchain2, hnoted2⟩ := hreset s2 rfl
  have hlow : s2.isLowWork params headers first = s.isLowWork params headers first := by
    unfold isLowWork
    rw [hchain2]
  rw [hlow]
  have hbatch := acceptBatch_slot getHash params env s2 p peer.id
    (s.skipDosChecks getHash headers) headers
  rw [hchain2, hnoted2] at hbatch
  by_cases hskip : (!s.skipDosChecks getHash headers && s.isLowWork params headers first) = true
  · rw [if_pos hskip]
    simp only [Bool.and_eq_true, Bool.not_eq_true'] at hskip
    refine .inl ⟨.inl hskip, hslot2.trans ?_⟩
    split
    · exact .requestHeadersFromPeer _ p
    · exact .refl s2
  · rw [if_neg hskip]
    simp only [Bool.and_eq_true, Bool.not_eq_true'] at hskip
    exact (KeepsSlotIff.after hslot2 hbatch).congr (or_iff_right hskip).symm

variable (getHash params env) in
/-- Behind the gate the stall clock starts again, and a batch that fails frees the slot. -/
theorem processHeaders_slot {p : PeerPtr} {peer : Peer} (hreg : s.ptrOf peer.id = some p)
    (hpeer : s.peers[p]? = some peer) (hother : toUint64 peer.id ≠ s.syncPeerId) (headers : List CBlockHeader) :
    KeepsSlotIff { s with lastHeadersReceivedUs := env.nowUs }
      (s.processHeaders getHash params env p peer.id headers).1
      (headers.length ≤ MAX_HEADERS_SIZE ∧
        ∀ first ∈ headers.head?, BatchHarmless getHash params env s peer.id first headers) := by
  unfold NetworkManager.processHeaders
  cases headers with
  | nil => exact .inl ⟨by simp, .refl _⟩
  | cons first rest =>
    dsimp only
    by_cases hlen : MAX_HEADERS_SIZE < (first :: rest).length
    · rw [if_pos hlen]
      exact .inr ⟨fun h => absurd h.1 (by omega), rfl⟩
    · rw [if_neg hlen]
      refine KeepsSlotIff.congr (processBatch_slot (s := { s with lastHeadersReceivedUs := env.nowUs }) hreg hpeer hother
        first (first :: rest)) ?_
      simp only [List.head?_cons, Option.mem_some_iff, forall_eq']
      exact ⟨fun h => ⟨by omega, h⟩, fun h => h.2⟩

variable (getHash params env) in
theorem processHeaders_isolated (hsync : s.hasSyncPeer = true) {p : PeerPtr} {peer : Peer}
    (hreg : s.ptrOf peer.id = some p) (hpeer : s.peers[p]? = some peer) (hother : toUint64 peer.id ≠ s.syncPeerId)
    (headers : List CBlockHeader) :
    SlotIsolated s (s.processHeaders getHash params env p peer.id headers).1 ↔
      env.nowUs = s.lastHeadersReceivedUs ∧ headers.length ≤ MAX_HEADERS_SIZE ∧
        ∀ first ∈ headers.head?, BatchHarmless getHash params env s peer.id first headers := by
  have hslot := processHeaders_slot getHash params env hreg hpeer hother headers
  have hiff := KeepsSlotIff.sync_iff (s := { s with lastHeadersReceivedUs := env.nowUs }) hsync hslot
  constructor
  · rintro ⟨hid, hlast⟩
    have hP := hiff.mp hid
    rcases hslot with ⟨-, hkept⟩ | ⟨hnot, -⟩
    · exact ⟨hkept.lastHeadersReceivedUs.symm.trans hlast, hP⟩
    · exact absurd hP hnot
  · rintro ⟨hnow, hP⟩
    rcases hslot with ⟨-, hkept⟩ | ⟨hnot, -⟩
    · exact ⟨hkept.syncPeerId, hkept.lastHeadersReceivedUs.trans hnow⟩
    · exact absurd hP hnot

end

/-! ## On a concrete chain -/

/-- A second peer connects to the node that syncs from the first. -/
def rivalOps : List NetOp := selectedOps ++ [.addPeer {} { outboundPeer with isInbound := true } 0 "", .handleVerack 1]

def rivalStart : NetworkManager := rivalOps.foldl (step nonceHash nonceParams {}) (fresh nonceStart)

/-- The second peer once it is connected. -/
def rivalPeer : Peer := ({ outboundPeer with isInbound := true, id := 2 } : Peer).handleVerack

end NetworkManager

end UnicityPow
