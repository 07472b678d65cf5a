import UnicityPow.ProgressSound

/-!
# The anti-DoS gate

A header that a message inserts belongs to its batch or descends from a block the batch inserted,
and the batch got past the work check. What the check does not see are batches with an unknown
parent; they only fill the orphan pool unless they repeat a known header whose parent is unknown.
-/

namespace UnicityPow

open Forest BlockMap

/-! ## New blocks below a batch -/

/-- Every block that is not in `m₀` descends from one of the blocks `A` that is not in `m₀` either. -/
structure Attaching (getHash : CBlockHeader → Uint256) (genesis : BlockPtr) (m₀ : BlockMap) (A : BlockPtr → Prop)
    (c : ChainstateManager) : Prop where
  wf : Wf getHash genesis c
  grows : Extends m₀ c.blockIndex
  below : ∀ q ∈ c.blockIndex, q ∉ m₀ → ∃ a, A a ∧ a ∉ m₀ ∧ Anc c.blockIndex.pprev a q

section
variable {getHash : CBlockHeader → Uint256} {params : ConsensusParams} {env : Env} {genesis : BlockPtr}
  {m₀ : BlockMap} {A : BlockPtr → Prop} {c c' : ChainstateManager}

theorem Attaching.refl (W : Wf getHash genesis c) : Attaching getHash genesis c.blockIndex A c :=
  ⟨W, .refl _, fun _ hq hn => absurd hq hn⟩

theorem Attaching.congr (h : Attaching getHash genesis m₀ A c) (W : Wf getHash genesis c')
    (hindex : c'.blockIndex = c.blockIndex) : Attaching getHash genesis m₀ A c' :=
  ⟨W, hindex ▸ h.grows, hindex ▸ h.below⟩

theorem Attaching.insert (h : Attaching getHash genesis m₀ A c) {header : CBlockHeader} {b : CBlockIndex}
    (hins : Inserted getHash genesis env c header c' b) (hA : A (getHash header) ∨ header.hashPrevBlock ∉ m₀) :
    Attaching getHash genesis m₀ A c' := by
  have T := h.wf.tree.toTreeShape
  have hprev : c'.blockIndex.pprev (getHash header) = some header.hashPrevBlock := by
    rw [pprev_of_get hins.get]
    exact hins.pprev
  have hold : ∀ q ∈ c.blockIndex, q ∉ m₀ → ∃ a, A a ∧ a ∉ m₀ ∧ Anc c'.blockIndex.pprev a q := by
    intro q hq hn
    obtain ⟨a, ha, han, hanc⟩ := h.below q hq hn
    exact ⟨a, ha, han, (hins.extends.anc T hq).mpr hanc⟩
  refine ⟨hins.wf h.wf, h.grows.trans hins.extends, fun q hq hn => ?_⟩
  rcases hins.mem_iff.mp hq with rfl | hq
  · rcases hA with hA | hA
    · exact ⟨_, hA, hn, .refl⟩
    · obtain ⟨a, ha, han, hanc⟩ := hold _ hins.prev_mem hA
      exact ⟨a, ha, han, .step hprev hanc⟩
  · exact hold q hq hn

/-- The resolution of the orphans of a new block only inserts blocks below it. -/
theorem Attaching.processOrphanHeaders : ∀ (fuel : Nat) {c : ChainstateManager} {parent : Uint256},
    Attaching getHash genesis m₀ A c → parent ∉ m₀ →
    Attaching getHash genesis m₀ A (ChainstateManager.processOrphanHeaders getHash params env fuel c parent) ∧
      Resolved c (ChainstateManager.processOrphanHeaders getHash params env fuel c parent) := by
  intro fuel
  induction fuel with
  | zero => intro c parent h _; exact ⟨h, .refl c⟩
  | succ fuel ih =>
    intro c parent h hparent
    unfold ChainstateManager.processOrphanHeaders
    refine List.foldlRecOn (motive := fun t => Attaching getHash genesis m₀ A t ∧ Resolved c t) _ _ ⟨h, .refl c⟩ ?_
    rintro t ⟨ht, hres⟩ hash hmem
    cases ho : t.orphanHeaders[hash]? with
    | none => exact ⟨ht, hres⟩
    | some orphan =>
      have hchild : orphan.header.hashPrevBlock = parent :=
        (ChainstateManager.mem_orphansOf (hres.sub hash orphan ho)).mp hmem
      have hres1 := hres.trans (resolved_dropOrphan ho)
      have W1 : Wf getHash genesis (t.dropOrphan hash orphan) := TakenOut.wf ht.wf
      have h1 := ht.congr W1 (takenOut_dropOrphan t hash orphan).index
      dsimp only
      rcases acceptOne_cases params env W1 orphan.header true with
        ⟨st, he⟩ | ⟨he, -⟩ | ⟨c', b, he, -, -, hins⟩ <;> rw [he]
      · exact ⟨h1, hres1⟩
      · exact ⟨h1, hres1⟩
      · obtain ⟨h2, hres2⟩ := ih (h1.insert hins (.inr (hchild ▸ hparent)))
          (fun hm => hins.isNew (h1.grows.mem _ hm))
        refine ⟨h2, (hres1.trans ⟨?_, ?_, fun p hp => hins.mem_iff.mpr (.inr hp)⟩).trans hres2⟩
        · rw [hins.frame]
          exact fun _ _ h => h
        · rw [hins.frame]

theorem Attaching.acceptBlockHeader (h : Attaching getHash genesis m₀ A c) {header : CBlockHeader}
    (hA : A (getHash header)) (minPowChecked : Bool) :
    Attaching getHash genesis m₀ A (c.acceptBlockHeader getHash params env header minPowChecked).1 := by
  unfold ChainstateManager.acceptBlockHeader
  rcases acceptOne_cases params env h.wf header minPowChecked with
    ⟨st, he⟩ | ⟨he, -⟩ | ⟨c', b, he, -, -, hins⟩ <;> rw [he]
  · exact h
  · exact h
  · exact (Attaching.processOrphanHeaders _ (h.insert hins (.inl hA)) (fun hm => hins.isNew (h.grows.mem _ hm))).1

theorem acceptBlockHeader_stays (W : Wf getHash genesis c) {header : CBlockHeader}
    (hstay : getHash header ∈ c.blockIndex ∨ header.hashPrevBlock ∉ c.blockIndex) (minPowChecked : Bool) :
    (c.acceptBlockHeader getHash params env header minPowChecked).1 = c := by
  unfold ChainstateManager.acceptBlockHeader
  rcases acceptOne_cases params env W header minPowChecked with
    ⟨st, he⟩ | ⟨he, -⟩ | ⟨c', b, he, -, -, hins⟩ <;> rw [he]
  · rcases hstay with hm | hp
    · exact absurd hm hins.isNew
    · exact absurd hins.prev_mem hp

variable (getHash params genesis m₀) in
theorem attaching_kept (H : CBlockHeader → Prop) (hH : ∀ header, H header → A (getHash header)) :
    KeptByCalls getHash params H (Attaching getHash genesis m₀ A) :=
  KeptByCalls.of_accept (fun _ _ h W hindex => h.congr W hindex) (fun _ h => h.wf)
    (fun _ _ header hheader h => h.acceptBlockHeader (hH header hheader) true)

variable (getHash params genesis m₀) in
theorem index_kept : KeptByCalls getHash params (fun header => getHash header ∈ m₀ ∨ header.hashPrevBlock ∉ m₀)
    (fun c => Wf getHash genesis c ∧ c.blockIndex = m₀) :=
  KeptByCalls.of_accept (fun _ _ h W hindex => ⟨W, hindex.trans h.2⟩) (fun _ h => h.1)
    (fun c _ header hheader h => by rwa [acceptBlockHeader_stays h.1 (h.2.symm ▸ hheader)])

end

/-! ## Which batches are checked -/

/-- The work check is made for the batch, and passed. -/
def WorkChecked (getHash : CBlockHeader → Uint256) (params : ConsensusParams) (s : NetworkManager)
    (headers : List CBlockHeader) : Prop :=
  s.skipDosChecks getHash headers = false ∧
    ∃ first ∈ headers.head?, ∃ chainStart, s.chainstate.blockIndex[first.hashPrevBlock]? = some chainStart ∧
      getAntiDoSWorkThreshold params s.chainstate.tipIndex ≤ chainStart.nChainWork + calculateHeadersWork headers

/-- The batch repeats no known header whose parent is unknown. -/
def KnownParents (getHash : CBlockHeader → Uint256) (m : BlockMap) (headers : List CBlockHeader) : Prop :=
  ∀ header ∈ headers, getHash header ∈ m → header.hashPrevBlock ∈ m

section
variable {getHash : CBlockHeader → Uint256} {m : BlockMap}

/-- From an unknown header on, every header and every parent is unknown. -/
theorem unknown_after : ∀ {l : List CBlockHeader} {first : CBlockHeader},
    (first :: l).IsChain (fun a b => b.hashPrevBlock = getHash a) → KnownParents getHash m l → getHash first ∉ m →
    ∀ header ∈ l, getHash header ∉ m ∧ header.hashPrevBlock ∉ m
  | [], _, _, _, _, _, h => absurd h List.not_mem_nil
  | b :: l, first, hchain, hknown, hfirst, header, hmem => by
    obtain ⟨hprev, hrest⟩ := List.isChain_cons_cons.mp hchain
    obtain ⟨hb, hl⟩ := List.forall_mem_cons.mp hknown
    have hparent : b.hashPrevBlock ∉ m := by rw [hprev]; exact hfirst
    rcases List.mem_cons.mp hmem with rfl | hmem
    · exact ⟨fun h => hparent (hb h), hparent⟩
    · exact unknown_after hrest hl (fun h => hparent (hb h)) header hmem

/-- A batch with a new header below a known block starts below a known block, and ends new. -/
theorem starts_known_of_new {first : CBlockHeader} {rest : List CBlockHeader}
    (hcont : checkHeadersAreContinuous getHash (first :: rest) = true) (hknown : KnownParents getHash m (first :: rest))
    {header : CBlockHeader} (hmem : header ∈ first :: rest) (hnew : getHash header ∉ m)
    (hparent : header.hashPrevBlock ∈ m) :
    first.hashPrevBlock ∈ m ∧ ∀ last ∈ (first :: rest).getLast?, getHash last ∉ m := by
  rw [checkHeadersAreContinuous_iff] at hcont
  constructor
  · by_contra hprev
    obtain ⟨hfirst, hrest⟩ := List.forall_mem_cons.mp hknown
    have hunknown := unknown_after hcont hrest (fun h => hprev (hfirst h))
    rcases List.mem_cons.mp hmem with rfl | hmem
    · exact hprev hparent
    · exact (hunknown header hmem).2 hparent
  · intro last hlast
    obtain ⟨pre, post, hsplit⟩ := List.append_of_mem hmem
    rw [hsplit] at hcont hlast hknown
    have hunknown := unknown_after hcont.right_of_append (fun x hx => hknown x (by simp [hx])) hnew
    rw [List.getLast?_append_cons] at hlast
    rcases List.mem_cons.mp (List.mem_of_getLast? hlast) with rfl | hpost
    · exact hnew
    · exact (hunknown last hpost).1

end

namespace NetworkManager

section
variable {getHash : CBlockHeader → Uint256} {params : ConsensusParams} {env : NetEnv} {s : NetworkManager}

variable (getHash params env) in
/-- The checks that `processBatch` makes before the loop. -/
def PassesBatchChecks (s : NetworkManager) (skipDos : Bool) (first : CBlockHeader) (headers : List CBlockHeader) : Prop :=
  s.chainstate.checkHeadersPoW env.toEnv headers = true ∧ checkHeadersAreContinuous getHash headers = true ∧
    (skipDos = true ∨ s.isLowWork params headers first = false)

variable (getHash params env) in
theorem processBatch_cases (s : NetworkManager) (p : PeerPtr) (peerId : Int) (skipDos : Bool) (first : CBlockHeader)
    (headers : List CBlockHeader) :
    (PassesBatchChecks getHash params env s skipDos first headers ∧
        s.processBatch getHash params env p peerId skipDos first headers =
          NetworkManager.acceptBatch getHash params env (if first.hashPrevBlock ∈ s.chainstate.blockIndex then
            s.resetUnconnectingHeaders peerId
          else (s.incrementUnconnectingHeaders peerId).removeIfMisbehaving env peerId) p peerId skipDos headers) ∨
      ¬ PassesBatchChecks getHash params env s skipDos first headers ∧
        (s.processBatch getHash params env p peerId skipDos first headers).1.chainstate = s.chainstate := by
  -- what the message does once the parent was looked up, in states with the same blocks
  have htail : ∀ (u v : NetworkManager) (r : NetworkManager × Bool), u.chainstate = s.chainstate →
      v.chainstate = s.chainstate →
      r = (if !u.chainstate.checkHeadersPoW env.toEnv headers then ((u.reportInvalidPoW peerId).dropBatch env peerId, false)
        else if !checkHeadersAreContinuous getHash headers then
          ((u.reportNonContinuousHeaders peerId).dropBatch env peerId, false)
        else if !skipDos && v.isLowWork params headers first then
          (if headers.length = MAX_HEADERS_SIZE then v.requestHeadersFromPeer env p else v, true)
        else v.acceptBatch getHash params env p peerId skipDos headers) →
      (PassesBatchChecks getHash params env s skipDos first headers ∧
          r = v.acceptBatch getHash params env p peerId skipDos headers) ∨
        ¬ PassesBatchChecks getHash params env s skipDos first headers ∧ r.1.chainstate = s.chainstate := by
    intro u v r hu hv hr
    have hlow : v.isLowWork params headers first = s.isLowWork params headers first := by
      unfold isLowWork
      rw [hv]
    rw [hu, hlow] at hr
    unfold PassesBatchChecks
    split at hr
    · rename_i hpow
      refine .inr ⟨fun h => by simp [h.1] at hpow, ?_⟩
      rw [hr, dropBatch_chainstate]
      exact hu
    rename_i hpow
    split at hr
    · rename_i hcont
      refine .inr ⟨fun h => by simp [h.2.1] at hcont, ?_⟩
      rw [hr, dropBatch_chainstate]
      exact hu
    rename_i hcont
    split at hr
    · rename_i hwork
      refine .inr ⟨fun h => by rcases h.2.2 with h | h <;> simp [h] at hwork, ?_⟩
      rw [hr]
      dsimp only
      split
      · rw [requestHeadersFromPeer_chainstate]
        exact hv
      · exact hv
    · rename_i hwork
      exact .inl ⟨⟨by simpa using hpow, by simpa using hcont, by simpa [or_iff_not_imp_left] using hwork⟩, hr⟩
  unfold processBatch
  by_cases hprev : first.hashPrevBlock ∈ s.chainstate.blockIndex
  · simp only [hprev, decide_true, if_true]
    exact htail s _ _ rfl rfl rfl
  · simp only [hprev, decide_false, Bool.false_eq_true, if_false]
    have hu : ((s.incrementUnconnectingHeaders peerId).removeIfMisbehaving env peerId).chainstate = s.chainstate :=
      removeIfMisbehaving_chainstate _ _
    exact htail _ _ _ hu hu rfl

/-- A batch that reaches the accept loop has passed the checks before it. -/
structure ReachesLoop (getHash : CBlockHeader → Uint256) (params : ConsensusParams) (env : NetEnv) (s : NetworkManager)
    (first : CBlockHeader) (headers : List CBlockHeader) : Prop where
  commitment : s.chainstate.checkHeadersPoW env.toEnv headers = true
  continuous : checkHeadersAreContinuous getHash headers = true
  work : s.skipDosChecks getHash headers = false → s.isLowWork params headers first = false

variable (getHash params env) in
theorem processBatch_reaches (p : PeerPtr) (peerId : Int) (first : CBlockHeader) (headers : List CBlockHeader) :
    (s.processBatch getHash params env p peerId (s.skipDosChecks getHash headers) first headers).1.chainstate =
        s.chainstate ∨
      ReachesLoop getHash params env s first headers := by
  rcases processBatch_cases getHash params env s p peerId (s.skipDosChecks getHash headers) first headers with
    ⟨⟨hpow, hcont, hwork⟩, -⟩ | ⟨-, hkeep⟩
  · refine .inr ⟨hpow, hcont, fun hskip => hwork.resolve_left ?_⟩
    rw [hskip]
    exact Bool.false_ne_true
  · exact .inl hkeep

variable (getHash params env) in
theorem processHeaders_reaches (p : PeerPtr) (peerId : Int) (headers : List CBlockHeader) :
    (s.processHeaders getHash params env p peerId headers).1.chainstate = s.chainstate ∨
      ∃ first ∈ headers.head?, ReachesLoop getHash params env s first headers := by
  unfold processHeaders
  dsimp only
  split
  · exact .inl rfl
  · rename_i first rest
    split
    · exact .inl (dropBatch_chainstate _ peerId)
    · rcases processBatch_reaches getHash params env (s := { s with lastHeadersReceivedUs := env.nowUs }) p peerId first (first :: rest) with h | h
      · exact .inl h
      · exact .inr ⟨first, rfl, h.commitment, h.continuous, h.work⟩

variable (getHash params env) in
theorem handleHeadersMessage_reaches (p : PeerPtr) (peer : Peer) (headers : List CBlockHeader) :
    (s.handleHeadersMessage getHash params env p peer headers).1.chainstate.blockIndex = s.chainstate.blockIndex ∨
      ∃ first ∈ headers.head?, ReachesLoop getHash params env s first headers := by
  have hstate := isInitialBlockDownload_latch params env s
  have hrest := processHeaders_reaches getHash params env (s := (s.isInitialBlockDownload params env).1) p peer.id headers
  have hkeep : (s.isInitialBlockDownload params env).1.chainstate.blockIndex = s.chainstate.blockIndex := by
    rw [hstate]
  have hrest : ((s.isInitialBlockDownload params env).1.processHeaders getHash params env p peer.id
      headers).1.chainstate.blockIndex = s.chainstate.blockIndex ∨
      ∃ first ∈ headers.head?, ReachesLoop getHash params env s first headers := by
    rcases hrest with h | ⟨first, hfirst, h⟩
    · exact .inl (by rw [h, hkeep])
    · rw [hstate] at h
      exact .inr ⟨first, hfirst, h.commitment, h.continuous, h.work⟩
  unfold handleHeadersMessage
  rcases hibd : s.isInitialBlockDownload params env with ⟨s1, b⟩
  rw [hibd] at hrest hkeep
  cases b with
  | false => exact hrest
  | true =>
    dsimp only
    split
    · exact .inl hkeep
    · exact hrest

end

end NetworkManager

/-! ## The gate -/

section
variable {getHash : CBlockHeader → Uint256} {params : ConsensusParams} {config : PeerConfig} {env : NetEnv}
  {genesis : BlockPtr} {s : NetworkManager} {headers : List CBlockHeader}

/-- A new header comes from a batch that was checked, and attaches to a header the batch inserted. -/
theorem new_header_attaches (W : Wf getHash genesis s.chainstate)
    (hknown : s.chainstate.checkHeadersPoW env.toEnv headers = true →
      KnownParents getHash s.chainstate.blockIndex headers) (p : PeerPtr) (peer : Peer) {q : BlockPtr}
    (hq : q ∈ (s.handleHeadersMessage getHash params env p peer headers).1.chainstate.blockIndex)
    (hold : q ∉ s.chainstate.blockIndex) :
    WorkChecked getHash params s headers ∧ ∃ header ∈ headers, getHash header ∉ s.chainstate.blockIndex ∧
      Anc (s.handleHeadersMessage getHash params env p peer headers).1.chainstate.blockIndex.pprev (getHash header) q := by
  have hattach := NetworkManager.handleHeadersMessage_kept env
    (attaching_kept getHash params genesis (s.chainstate.blockIndex) (A := fun a => ∃ header ∈ headers, getHash header = a) (· ∈ headers) (fun header hh => ⟨header, hh, rfl⟩))
    (Attaching.refl W) p peer (fun _ h => h)
  obtain ⟨-, ⟨header, hmem, rfl⟩, hnew, hanc⟩ := hattach.below q hq hold
  refine ⟨?_, header, hmem, hnew, hanc⟩
  rcases NetworkManager.handleHeadersMessage_reaches getHash params env (s := s) p peer
    headers with hkeep | ⟨first, hfirst, hreach⟩
  · rw [hkeep] at hq
    exact absurd hq hold
  -- some header of the batch was new below a known block
  have hexists : ∃ x ∈ headers, getHash x ∉ s.chainstate.blockIndex ∧ x.hashPrevBlock ∈ s.chainstate.blockIndex := by
    by_contra hno
    have hindex := NetworkManager.handleHeadersMessage_kept env
      (index_kept getHash params genesis (s.chainstate.blockIndex))
      ⟨W, rfl⟩ p peer (fun x (hx : x ∈ headers) => by
        by_contra hx'
        rw [not_or, not_not] at hx'
        exact hno ⟨x, hx, hx'⟩)
    rw [hindex.2] at hq
    exact hold hq
  obtain ⟨x, hx, hxnew, hxprev⟩ := hexists
  obtain ⟨rest, rfl⟩ := List.head?_eq_some_iff.mp hfirst
  obtain ⟨hprev, hlast⟩ := starts_known_of_new hreach.continuous (hknown hreach.commitment) hx hxnew hxprev
  have hskip : s.skipDosChecks getHash (first :: rest) = false := by
    rw [← Bool.not_eq_true]
    unfold NetworkManager.skipDosChecks
    rw [Option.any_eq_true]
    rintro ⟨last, hl, hon⟩
    rw [Bool.and_eq_true, decide_eq_true_eq] at hon
    exact hlast last hl hon.1
  obtain ⟨chainStart, hstart⟩ := mem_iff.mp hprev
  refine ⟨hskip, first, rfl, chainStart, hstart, ?_⟩
  have hwork := hreach.work hskip
  unfold NetworkManager.isLowWork at hwork
  rw [hstart, Option.any_some, decide_eq_false_iff_not] at hwork
  exact BitVec.not_lt.mp hwork

/-- The events of the network; a batch that passes the checks of proof of work repeats no known
header whose parent is unknown. -/
def Admitted (getHash : CBlockHeader → Uint256) (s : NetworkManager) : NetOp → Prop
  | .handleHeaders env _ headers => s.chainstate.checkHeadersPoW env.toEnv headers = true →
      KnownParents getHash s.chainstate.blockIndex headers
  | .chain _ => False
  | _ => True

/-- The headers of the message that an event handles. -/
def NetOp.Carries (a : NetOp) (header : CBlockHeader) : Prop :=
  ∃ env p headers, a = .handleHeaders env p headers ∧ header ∈ headers

/-- Every block that is in the index at the end only was delivered in, or attaches to, a batch that
met the threshold when it came. -/
def EnterChecked (getHash : CBlockHeader → Uint256) (params : ConsensusParams) (config : PeerConfig)
    (s : NetworkManager) (events : List NetOp) (s' : NetworkManager) : Prop :=
  ∀ q ∈ s'.chainstate.blockIndex, q ∉ s.chainstate.blockIndex →
    ∃ pre env p headers post s₁, events = pre ++ .handleHeaders env p headers :: post ∧
      Run.Trace (NetworkManager.step getHash params config) (fun _ _ => True) s pre s₁ ∧
      WorkChecked getHash params s₁ headers ∧
      ∃ header ∈ headers, getHash header ∉ s₁.chainstate.blockIndex ∧
        Anc s'.chainstate.blockIndex.pprev (getHash header) q

theorem step_attaching (W : Wf getHash genesis s.chainstate) {a : NetOp} (ha : Admitted getHash s a) :
    Attaching getHash genesis s.chainstate.blockIndex (fun b => ∃ header, a.Carries header ∧ getHash header = b)
      (NetworkManager.step getHash params config s a).chainstate := by
  refine NetworkManager.step_kept _ (attaching_kept _ _ _ _ a.Carries fun header hh => ⟨header, hh, rfl⟩) (.refl W) a ?_ ?_
  · rintro env p headers rfl header hmem
    exact ⟨env, p, headers, rfl, hmem⟩
  · rintro op rfl
    exact ha.elim

variable (config) in
/-- An event that brings a block into the index is a message of headers that met the threshold. -/
theorem step_new_block (W : Wf getHash genesis s.chainstate) {a : NetOp} (ha : Admitted getHash s a) {q : BlockPtr}
    (hq : q ∈ (NetworkManager.step getHash params config s a).chainstate.blockIndex) (hold : q ∉ s.chainstate.blockIndex) :
    ∃ env p headers, a = .handleHeaders env p headers ∧ WorkChecked getHash params s headers ∧
      ∃ header ∈ headers, getHash header ∉ s.chainstate.blockIndex ∧
        Anc (NetworkManager.step getHash params config s a).chainstate.blockIndex.pprev (getHash header) q := by
  obtain ⟨b, ⟨header, ⟨env, p, headers, rfl, hmem⟩, rfl⟩, -, -⟩ := (step_attaching W ha).below q hq hold
  refine ⟨env, p, headers, rfl, ?_⟩
  change q ∈ (s.dispatch p _).chainstate.blockIndex at hq
  change _ ∧ ∃ header ∈ headers, _ ∧ Anc (s.dispatch p _).chainstate.blockIndex.pprev _ q
  unfold NetworkManager.dispatch at hq ⊢
  cases hpeer : s.peers[p]? with
  | none =>
    rw [hpeer] at hq
    exact absurd hq hold
  | some peer =>
    rw [hpeer] at hq
    dsimp only at hq ⊢
    split at hq
    · rename_i hconnected
      rw [if_pos hconnected]
      exact new_header_attaches W ha p peer hq hold
    · exact absurd hq hold

/-- Whatever a node has been through, every header that the messages of a run insert comes through
a batch that met the threshold. -/
theorem headers_enter_work_checked {skip : Bool} {events : List NetOp} {s' : NetworkManager}
    (hrun : Run.Reaches (NetworkManager.step getHash params config) (fun _ _ => True)
      (NetworkManager.fresh (ChainstateManager.fresh skip)) s)
    (htrace : Run.Trace (NetworkManager.step getHash params config) (Admitted getHash) s events s') :
    EnterChecked getHash params config s events s' := by
  induction htrace with
  | nil => exact fun q hq hold => absurd hq hold
  | @snoc l s₁ a htrace ha ih =>
    have htrace : Run.Trace (NetworkManager.step getHash params config) (fun _ _ => True) s l s₁ :=
      htrace.mono fun _ _ _ => trivial
    intro q hq hold
    rcases NetworkManager.reaches_blankOrInUse (hrun.trace htrace) with hblank | ⟨genesis, W⟩
    · have hkept := NetworkManager.step_kept config (blank_kept getHash params)
        hblank a (fun _ _ _ _ _ _ => trivial) (fun op h => by subst h; exact ha.elim)
      obtain ⟨b, hb⟩ := mem_iff.mp hq
      rw [hkept.get] at hb
      cases hb
    by_cases hmem : q ∈ s₁.chainstate.blockIndex
    · obtain ⟨pre, env, p, headers, post, s₂, rfl, hpre, hwork, header, hheader, hnew, hanc⟩ := ih q hmem hold
      refine ⟨pre, env, p, headers, post ++ [a], s₂, by simp, hpre, hwork, header, hheader, hnew, ?_⟩
      exact ((step_attaching W ha).grows.anc W.tree.toTreeShape hmem).mpr hanc
    · obtain ⟨env, p, headers, rfl, hwork, hattach⟩ := step_new_block config W ha hq hmem
      exact ⟨l, env, p, headers, [], s₁, rfl, htrace, hwork, hattach⟩

/-- With the checks of proof of work on, no batch that passes them repeats genesis, whose null
`hashRandomX` they refuse. -/
theorem knownParents_of_commitment {c : ChainstateManager} {env : Env} (W : Wf getHash genesis c)
    (hskip : c.testSkipPowChecks = false)
    (hnull : ∀ header, header.hashRandomX = 0 → env.checkProofOfWork header .COMMITMENT_ONLY = false)
    (hgenesis : (c.headerOf genesis).hashRandomX = 0)
    (hsame : ∀ header ∈ headers, getHash header ∈ c.blockIndex → c.headerOf (getHash header) = header)
    (hpow : c.checkHeadersPoW env headers = true) : KnownParents getHash c.blockIndex headers := by
  have T := W.tree.toTreeShape
  intro header hmem hknown
  have hheader := hsame header hmem hknown
  cases hprev : c.blockIndex.pprev (getHash header) with
  | some q =>
    rw [← hheader, headerOf_hashPrevBlock hprev]
    exact T.mem_parent hprev
  | none =>
    have hroot := T.eq_genesis_of_root hknown hprev
    unfold ChainstateManager.checkHeadersPoW ChainstateManager.checkProofOfWork at hpow
    have hcommit := List.all_eq_true.mp hpow header hmem
    rw [hskip, hnull header (by rw [← hheader, hroot]; exact hgenesis)] at hcommit
    cases hcommit

end

/-! ## A node that skips the checks of proof of work -/

/-- A genesis header as the parameters create it. -/
def nullGenesis : CBlockHeader := { nonceHeader 0 1 with hashRandomX := 0 }

/-- The environment refuses a null `hashRandomX`. -/
def refusesNull : NetEnv := { checkProofOfWork := fun header _ => decide (header.hashRandomX ≠ 0) }

def gateParams : ConsensusParams := { nonceParams with nMinimumChainWork := arithToUint256 4004 }

/-- A node at genesis with one inbound peer. -/
def gateNode (params : ConsensusParams) (skip : Bool) : NetworkManager :=
  [NetOp.chain (.setup nullGenesis), .addPeer {} { NetworkManager.outboundPeer with isInbound := true } 0 "",
    .handleVerack 0].foldl (NetworkManager.step nonceHash params {}) (NetworkManager.fresh (ChainstateManager.fresh skip))

theorem gateNode_reaches (params : ConsensusParams) (skip : Bool) :
    Run.Reaches (NetworkManager.step nonceHash params {}) (fun _ _ => True)
      (NetworkManager.fresh (ChainstateManager.fresh skip)) (gateNode params skip) :=
  Run.Reaches.foldl .start fun _ _ _ => trivial

theorem headers_enter_work_checked_nonce :
    EnterChecked nonceHash nonceParams {} (gateNode nonceParams false) [.handleHeaders refusesNull 0 [nonceHeader 1 2]]
      (NetworkManager.step nonceHash nonceParams {} (gateNode nonceParams false)
        (.handleHeaders refusesNull 0 [nonceHeader 1 2])) :=
  headers_enter_work_checked (gateNode_reaches nonceParams false) (.snoc (l := []) .nil fun _ header hmem hm => by
    obtain rfl := List.mem_singleton.mp hmem
    revert hm
    decide +kernel)

/-- The checks of proof of work are skipped, so the message may repeat genesis: the header after it
enters the index without any check of its work. -/
theorem genesis_batch_evades_gate :
    ¬ ∀ (params : ConsensusParams) (config : PeerConfig) (skip : Bool) (s s' : NetworkManager) (events : List NetOp),
      Run.Reaches (NetworkManager.step nonceHash params config) (fun _ _ => True)
        (NetworkManager.fresh (ChainstateManager.fresh skip)) s →
      Run.Trace (NetworkManager.step nonceHash params config) (fun _ a => ∃ env p headers, a = .handleHeaders env p headers)
        s events s' →
      EnterChecked nonceHash params config s events s' := by
  intro h
  obtain ⟨pre, env, p, headers, post, s₁, hsplit, htrace, ⟨-, first, hfirst, chainStart, hstart, -⟩, -⟩ :=
    h gateParams {} true _ _ [.handleHeaders refusesNull 0 [nullGenesis, nonceHeader 1 2]] (gateNode_reaches gateParams true)
      (.snoc (l := []) .nil ⟨_, _, _, rfl⟩) 2 (by decide +kernel) (by decide +kernel)
  obtain rfl : pre = [] := by
    cases pre with
    | nil => rfl
    | cons x pre => simp at hsplit
  obtain rfl := htrace.eq_of_nil
  obtain ⟨-, -, rfl⟩ := NetOp.handleHeaders.inj (List.head_eq_of_cons_eq hsplit)
  obtain rfl : nullGenesis = first := by simpa using hfirst
  have hnone : (0 : Uint256) ∉ (gateNode gateParams true).chainstate.blockIndex := by decide +kernel
  exact hnone (mem_of_get hstart)

end UnicityPow
