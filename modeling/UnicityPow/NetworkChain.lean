import UnicityPow.IsolationSound
import UnicityPow.TreeSound

/-!
# The chainstate of a node

The network layer changes the chainstate through its public calls and the download latch
only, so what these keep holds of the chainstate in every state a node reaches.
-/

namespace UnicityPow

open ChainstateManager

/-- The calls that the handlers of messages make, for headers that satisfy `H`. -/
def IsHandlerCall (H : CBlockHeader → Prop) : ChainOp → Prop
  | .acceptBlockHeader _ header minPowChecked => H header ∧ minPowChecked = true
  | .acceptAndTryAdd _ header minPowChecked => H header ∧ minPowChecked = true
  | .addOrphanHeader _ header _ => H header
  | .activateBestChain none => True
  | _ => False

/-- A condition that no call of a handler breaks when it is about headers that satisfy `H`. -/
structure KeptByCalls (getHash : CBlockHeader → Uint256) (params : ConsensusParams) (H : CBlockHeader → Prop)
    (P : ChainstateManager → Prop) : Prop where
  call : ∀ (c : ChainstateManager) (a : ChainOp), IsHandlerCall H a → P c → P (c.step getHash params a)
  latch : ∀ (c : ChainstateManager) (env : Env), P c → P (c.isInitialBlockDownload params env).1

namespace NetworkManager

section
variable {getHash : CBlockHeader → Uint256} {params : ConsensusParams} {config : PeerConfig} {env : NetEnv}
  {s : NetworkManager}

/-! ## Calls that leave the chainstate alone -/

theorem dropBatch_chainstate (s : NetworkManager) (peerId : Int) :
    (s.dropBatch env peerId).chainstate = s.chainstate :=
  removeIfMisbehaving_chainstate s peerId

theorem requestHeadersFromPeer_chainstate (s : NetworkManager) (p : PeerPtr) :
    (s.requestHeadersFromPeer env p).chainstate = s.chainstate := by
  unfold requestHeadersFromPeer
  split <;> rfl

theorem penaliseHeader_chainstate (s : NetworkManager) (peerId : Int) (hash : Uint256) :
    (s.penaliseHeader env peerId hash).1.chainstate = s.chainstate := by
  unfold penaliseHeader
  split
  · rfl
  · exact dropBatch_chainstate _ peerId

theorem foldl_removePeer_chainstate (l : List Int) (s : NetworkManager) :
    (l.foldl (removePeer env) s).chainstate = s.chainstate := by
  induction l generalizing s with
  | nil => rfl
  | cons id l ih => exact (ih _).trans (removePeer_chainstate s id)

variable (env) in
theorem evictInboundPeer_chainstate (s : NetworkManager) : (s.evictInboundPeer env).1.chainstate = s.chainstate := by
  unfold evictInboundPeer
  split
  · rfl
  · dsimp only
    split
    · exact removePeer_chainstate s _
    · rfl

variable (config env) in
theorem makeRoom_chainstate (s : NetworkManager) : (s.makeRoom config env).1.chainstate = s.chainstate := by
  have hE := evictInboundPeer_chainstate env s
  unfold makeRoom
  split
  · rfl
  · split <;> rename_i heq <;> rw [heq] at hE <;> exact hE

theorem addPeer_chainstate (s : NetworkManager) (peer : Peer) (permissions : NetPermissionFlags) (address : String) :
    (s.addPeer config env peer permissions address).1.chainstate = s.chainstate := by
  have hM := makeRoom_chainstate config env s
  unfold addPeer
  dsimp only
  generalize (if address = "" then peer.address else address) = peerAddress
  split
  · rfl
  split
  · rfl
  split
  · rfl
  split
  · rfl
  split <;> rename_i heq <;> rw [heq] at hM
  · exact hM
  · split <;> exact hM

theorem checkInitialSync_chainstate (s : NetworkManager) : (s.checkInitialSync env).chainstate = s.chainstate := by
  unfold checkInitialSync
  split
  · rfl
  split
  · rfl
  · exact requestHeadersFromPeer_chainstate _ _

theorem processTimers_chainstate (s : NetworkManager) : (s.processTimers env).chainstate = s.chainstate := by
  unfold processTimers
  split
  · exact removePeer_chainstate s _
  · rfl

/-! ## Handlers -/

variable {H : CBlockHeader → Prop} {P : ChainstateManager → Prop}

theorem handleRefused_kept (K : KeptByCalls getHash params H P) (h : P s.chainstate) (peerId : Int) (skipDos : Bool)
    {header : CBlockHeader} (hH : H header) (reason : String) :
    P (s.handleRefused getHash params env peerId skipDos header reason).1.chainstate := by
  unfold handleRefused
  dsimp only
  split
  · have hadd := K.call s.chainstate (.addOrphanHeader env.toEnv header peerId) hH h
    rw [step_addOrphanHeader] at hadd
    split <;> rename_i heq <;> rw [heq] at hadd
    · exact hadd
    · rw [dropBatch_chainstate]
      exact hadd
  split
  · split
    · exact h
    split
    · exact h
    · rw [penaliseHeader_chainstate]
      exact h
  split
  · rw [penaliseHeader_chainstate]
    exact h
  · exact h

variable (env) in
theorem acceptHeader_kept (K : KeptByCalls getHash params H P) (h : P s.chainstate) (peerId : Int) (skipDos : Bool)
    {header : CBlockHeader} (hH : H header) : P (s.acceptHeader getHash params env peerId skipDos header).1.chainstate := by
  have haccept := K.call s.chainstate (.acceptBlockHeader env.toEnv header true) ⟨hH, rfl⟩ h
  have htry := K.call s.chainstate (.acceptAndTryAdd env.toEnv header true) ⟨hH, rfl⟩ h
  rw [step_acceptBlockHeader] at haccept
  rw [step_acceptAndTryAdd, acceptAndTryAdd] at htry
  unfold acceptHeader
  rcases hr : s.chainstate.acceptBlockHeader getHash params env.toEnv header true with ⟨chain, state | pindex⟩
  · rw [hr] at haccept
    exact handleRefused_kept (s := { s with chainstate := chain }) K haccept peerId skipDos hH _
  · rw [hr] at htry
    exact htry

variable (env) in
theorem acceptHeaders_kept (K : KeptByCalls getHash params H P) (peerId : Int) (skipDos : Bool) :
    ∀ {l : List CBlockHeader} {s : NetworkManager}, (∀ header ∈ l, H header) → P s.chainstate →
      P (acceptHeaders getHash params env peerId skipDos l s).1.chainstate
  | [], _, _, h => h
  | header :: l, s, hH, h => by
    obtain ⟨hheader, hl⟩ := List.forall_mem_cons.mp hH
    have h1 := acceptHeader_kept env K h peerId skipDos hheader
    unfold acceptHeaders
    split <;> rename_i heq <;> rw [heq] at h1
    · exact h1
    · exact acceptHeaders_kept K peerId skipDos hl h1

theorem finishBatch_kept (K : KeptByCalls getHash params H P) (h : P s.chainstate) (p : PeerPtr) :
    P (s.finishBatch params env p).1.chainstate := by
  have hact := K.call s.chainstate (.activateBestChain none) trivial h
  rw [step_activateBestChain_none] at hact
  unfold finishBatch
  split <;> rename_i heq <;> rw [heq] at hact
  · exact hact
  · have hlatch := K.latch _ env.toEnv hact
    dsimp only
    split
    · rw [requestHeadersFromPeer_chainstate]
      exact hlatch
    · exact hlatch

theorem acceptBatch_kept (K : KeptByCalls getHash params H P) (h : P s.chainstate) (p : PeerPtr) (peerId : Int)
    (skipDos : Bool) {headers : List CBlockHeader} (hH : ∀ header ∈ headers, H header) :
    P (s.acceptBatch getHash params env p peerId skipDos headers).1.chainstate := by
  have h1 := acceptHeaders_kept env K peerId skipDos (s := { s with lastBatchSize := headers.length }) hH h
  unfold acceptBatch
  split <;> rename_i heq <;> rw [heq] at h1
  · exact h1
  · exact finishBatch_kept K h1 p

theorem processBatch_kept (K : KeptByCalls getHash params H P) (h : P s.chainstate) (p : PeerPtr) (peerId : Int)
    (skipDos : Bool) (first : CBlockHeader) {headers : List CBlockHeader} (hH : ∀ header ∈ headers, H header) :
    P (s.processBatch getHash params env p peerId skipDos first headers).1.chainstate := by
  unfold processBatch
  dsimp only
  generalize decide (first.hashPrevBlock ∈ s.chainstate.blockIndex) = prevExists
  have h1 : P (if prevExists = true then s
      else (s.incrementUnconnectingHeaders peerId).removeIfMisbehaving env peerId).chainstate := by
    split
    · exact h
    · rw [removeIfMisbehaving_chainstate]
      exact h
  revert h1
  generalize (if prevExists = true then s
      else (s.incrementUnconnectingHeaders peerId).removeIfMisbehaving env peerId) = s1
  intro h1
  split
  · rw [dropBatch_chainstate]
    exact h1
  split
  · rw [dropBatch_chainstate]
    exact h1
  have h2 : P (if prevExists = true then s1.resetUnconnectingHeaders peerId else s1).chainstate := by
    split <;> exact h1
  revert h2
  generalize (if prevExists = true then s1.resetUnconnectingHeaders peerId else s1) = s2
  intro h2
  split
  · dsimp only
    split
    · rw [requestHeadersFromPeer_chainstate]
      exact h2
    · exact h2
  · exact acceptBatch_kept K h2 p peerId skipDos hH

theorem processHeaders_kept (K : KeptByCalls getHash params H P) (h : P s.chainstate) (p : PeerPtr) (peerId : Int)
    {headers : List CBlockHeader} (hH : ∀ header ∈ headers, H header) : P (s.processHeaders getHash params env p peerId headers).1.chainstate := by
  unfold processHeaders
  dsimp only
  split
  · exact h
  · split
    · rw [dropBatch_chainstate]
      exact h
    · exact processBatch_kept (s := { s with lastHeadersReceivedUs := env.nowUs }) K h p peerId _ _ hH

variable (params env) in
theorem isInitialBlockDownload_latch (s : NetworkManager) :
    (s.isInitialBlockDownload params env).1 = { s with chainstate := { s.chainstate with
      cachedFinishedIbd := (s.chainstate.isInitialBlockDownload params env.toEnv).1.cachedFinishedIbd } } := by
  unfold isInitialBlockDownload
  dsimp only
  rw [isInitialBlockDownload_frame]

variable (env) in
theorem isInitialBlockDownload_kept (K : KeptByCalls getHash params H P) (h : P s.chainstate) :
    P (s.isInitialBlockDownload params env).1.chainstate :=
  K.latch s.chainstate env.toEnv h

variable (env) in
theorem handleHeadersMessage_kept (K : KeptByCalls getHash params H P) (h : P s.chainstate) (p : PeerPtr) (peer : Peer)
    {headers : List CBlockHeader} (hH : ∀ header ∈ headers, H header) :
    P (s.handleHeadersMessage getHash params env p peer headers).1.chainstate := by
  have h1 := isInitialBlockDownload_kept env K h
  unfold handleHeadersMessage
  split <;> rename_i heq <;> rw [heq] at h1
  · split
    · exact h1
    · exact processHeaders_kept K h1 p peer.id hH
  · exact processHeaders_kept K h1 p peer.id hH

variable (env) in
theorem processInventory_kept (K : KeptByCalls getHash params H P) (p : PeerPtr) (peer : Peer) :
    ∀ {l : List InventoryVector} {s : NetworkManager}, P s.chainstate →
      P (processInventory params env p peer l s).1.chainstate
  | [], _, h => h
  | inv :: l, s, h => by
    have h1 := isInitialBlockDownload_kept env K h
    have hrest : ∀ {s}, P s.chainstate → P (processInventory params env p peer l s).1.chainstate :=
      processInventory_kept K p peer
    unfold processInventory
    split
    · exact hrest h
    · split <;> rename_i heq <;> rw [heq] at h1
      · exact h1
      · split
        · split
          · exact h1
          · exact hrest h1
        · split
          · exact h1
          · exact hrest h1

theorem handleInvMessage_kept (K : KeptByCalls getHash params H P) (h : P s.chainstate) (p : PeerPtr) (peer : Peer)
    (l : List InventoryVector) : P (s.handleInvMessage params env p peer l).chainstate := by
  have h1 := processInventory_kept env K p peer (l := l) h
  unfold handleInvMessage
  split <;> rename_i heq <;> rw [heq] at h1
  · exact h1
  · rw [requestHeadersFromPeer_chainstate]
    exact isInitialBlockDownload_kept _ K h1

theorem dispatch_kept {handler : Peer → NetworkManager} (h : P s.chainstate)
    (hh : ∀ peer, P (handler peer).chainstate) (p : PeerPtr) : P (s.dispatch p handler).chainstate := by
  unfold dispatch
  split
  · exact h
  · split
    · exact hh _
    · exact h

/-! ## Runs -/

variable (config) in
/-- What the calls keep holds after every step of the node whose own call on the chainstate, if
it is one, keeps it too. -/
theorem step_kept (K : KeptByCalls getHash params H P) (h : P s.chainstate) (a : NetOp)
    (hH : ∀ env p headers, a = .handleHeaders env p headers → ∀ header ∈ headers, H header)
    (hchain : ∀ op, a = .chain op → P (s.chainstate.step getHash params op)) :
    P (step getHash params config s a).chainstate := by
  cases a with
  | addPeer env peer permissions address =>
    change P (s.addPeer config env peer permissions address).1.chainstate
    rw [addPeer_chainstate]
    exact h
  | removePeer env peerId =>
    change P (s.removePeer env peerId).chainstate
    rw [removePeer_chainstate]
    exact h
  | processPeriodic env =>
    change P (s.processPeriodic env).chainstate
    unfold processPeriodic
    rw [foldl_removePeer_chainstate]
    exact h
  | checkInitialSync env =>
    change P (s.checkInitialSync env).chainstate
    rw [checkInitialSync_chainstate]
    exact h
  | processTimers env =>
    change P (s.processTimers env).chainstate
    rw [processTimers_chainstate]
    exact h
  | handleInv env p inventory => exact dispatch_kept h (fun peer => handleInvMessage_kept K h p peer inventory) p
  | handleHeaders env p headers =>
    exact dispatch_kept h (fun peer => handleHeadersMessage_kept _ K h p peer (hH env p headers rfl)) p
  | handleVerack p => exact h
  | start env p => exact h
  | handlePong p pingTimeMs => exact h
  | disconnect p => exact h
  | chain op => exact hchain op rfl

end

end NetworkManager

/-- A manager before its start, or one in use. -/
def ChainstateManager.BlankOrInUse (getHash : CBlockHeader → Uint256) (s : ChainstateManager) : Prop :=
  s.Blank ∨ InUse getHash s

section
variable {getHash : CBlockHeader → Uint256} {params : ConsensusParams} {config : PeerConfig}

theorem ChainstateManager.BlankOrInUse.step {c : ChainstateManager} (h : c.BlankOrInUse getHash) (a : ChainOp) :
    (ChainstateManager.step getHash params c a).BlankOrInUse getHash := by
  rcases h with h | h
  · exact h.step a
  · exact .inr (h.step _ a)

variable (params) in
theorem Wf.latch {genesis : BlockPtr} {c : ChainstateManager} (W : Wf getHash genesis c) (env : Env) :
    Wf getHash genesis (c.isInitialBlockDownload params env).1 := by
  rw [isInitialBlockDownload_frame]
  exact ⟨W.tree, W.active, W.genesisHash, W.initialized, W.valid, W.candidates, W.sorted⟩

/-- A condition on the index of a well-formed manager needs to be shown of accepted headers only. -/
theorem KeptByCalls.of_accept {genesis : BlockPtr} {H : CBlockHeader → Prop} {P : ChainstateManager → Prop}
    (hcongr : ∀ c c', P c → Wf getHash genesis c' → c'.blockIndex = c.blockIndex → P c')
    (hwf : ∀ c, P c → Wf getHash genesis c)
    (haccept : ∀ c env header, H header → P c → P (c.acceptBlockHeader getHash params env header true).1) :
    KeptByCalls getHash params H P where
  call c a ha h := by
    cases a with
    | acceptBlockHeader env header minPow =>
      obtain ⟨hH, rfl⟩ := ha
      rw [ChainstateManager.step_acceptBlockHeader]
      exact haccept c env header hH h
    | acceptAndTryAdd env header minPow =>
      obtain ⟨hH, rfl⟩ := ha
      have h1 := haccept c env header hH h
      rw [ChainstateManager.step_acceptAndTryAdd, ChainstateManager.acceptAndTryAdd]
      split <;> rename_i heq <;> rw [heq] at h1
      · exact h1
      · exact hcongr _ _ h1 ((hwf _ h1).tryAddCandidate _) rfl
    | addOrphanHeader env header peerId =>
      obtain ⟨o, n, he⟩ := ChainstateManager.addOrphanHeader_pool getHash params env c
        header peerId
      rw [ChainstateManager.step_addOrphanHeader, he]
      exact hcongr _ _ h ((hwf _ h).withPool o n) rfl
    | activateBestChain given =>
      cases given with
      | some p => exact ha.elim
      | none =>
        rw [ChainstateManager.step_activateBestChain_none]
        exact hcongr _ _ h ((hwf _ h).activateBestChain none (fun _ h => by cases h))
          (activateBestChain_index _ (hwf _ h) none (fun _ h => by cases h))
    | setup _ => exact ha.elim
    | tryAddBlockIndexCandidate _ => exact ha.elim
    | processNewBlockHeader _ _ _ => exact ha.elim
    | invalidateBlock _ => exact ha.elim
    | evictOrphanHeaders _ => exact ha.elim
    | load _ _ => exact ha.elim
    | restart _ => exact ha.elim
  latch c env h := hcongr _ _ h ((hwf _ h).latch _ env) (by rw [isInitialBlockDownload_frame])

variable (getHash params) in
theorem blank_kept : KeptByCalls getHash params (fun _ => True) ChainstateManager.Blank where
  call c a ha h := h.step_runtime _ _ a (by cases a <;> first | exact ha.elim | trivial)
  latch c env h := by
    rw [isInitialBlockDownload_frame]
    exact ⟨h.manager, h.candidates⟩

theorem blankOrInUse_kept : KeptByCalls getHash params (fun _ => True) (fun c => c.BlankOrInUse getHash) where
  call _ a _ h := h.step a
  latch c env h := by
    rcases h with h | ⟨genesis, W⟩
    · exact .inl ((blank_kept getHash _).latch c env h)
    · exact .inr ⟨genesis, W.latch _ env⟩

theorem NetworkManager.reaches_blankOrInUse {skipPow : Bool} {s : NetworkManager}
    (hrun : Run.Reaches (NetworkManager.step getHash params config) (fun _ _ => True)
      (NetworkManager.fresh (ChainstateManager.fresh skipPow)) s) : s.chainstate.BlankOrInUse getHash :=
  hrun.invariant (P := fun s => s.chainstate.BlankOrInUse getHash) (.inl ⟨rfl, rfl⟩)
    (fun _ a h _ => step_kept _ blankOrInUse_kept h a (fun _ _ _ _ _ _ => trivial) fun op _ => h.step op)

end

end UnicityPow
