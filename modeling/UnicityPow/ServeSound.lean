import UnicityPow.LocatorSound
import UnicityPow.NetworkChain

/-!
# A round of header synchronisation

The locator of a requester ends at genesis, so a server that shares it finds a fork point on
its active chain and answers with the run of its headers above that.
-/

namespace UnicityPow

open Forest BlockMap

/-! ## Locators -/

section
variable {m : BlockMap} {genesis : BlockPtr} (T : TreeShape m genesis)
include T

/-- The hashes of a locator are ancestors of its block, whatever the step becomes. -/
theorem locatorWalk_anc : ∀ (fuel : Nat) (p : BlockPtr) (step : Int) (acc : List Uint256),
    ∀ q ∈ locatorWalk m fuel (some p) step acc, q ∈ acc ∨ Anc m.pprev q p := by
  intro fuel
  induction fuel with
  | zero => intro p step acc q hq; exact .inl hq
  | succ fuel ih =>
    intro p step acc q hq
    have hown : ∀ q ∈ acc ++ [p], q ∈ acc ∨ Anc m.pprev q p := by
      intro q hq
      rcases List.mem_append.mp hq with hq | hq
      · exact .inl hq
      · exact .inr (List.mem_singleton.mp hq ▸ .refl)
    rw [locatorWalk] at hq
    dsimp only at hq
    split at hq
    · exact hown q hq
    cases ha : m.getAncestor p (max (m.nHeight p - step) 0) with
    | none =>
      rw [ha] at hq
      cases fuel <;> exact hown q hq
    | some a =>
      rw [ha] at hq
      rcases ih a _ _ q hq with hq | hq
      · exact hown q hq
      · exact .inr (hq.trans (T.getAncestor_anc ha))

theorem locatorEntries_anc {p q : BlockPtr} (h : q ∈ locatorEntries m (some p)) : Anc m.pprev q p := by
  rcases locatorWalk_anc T _ p 1 [] q h with h | h
  · exact absurd h List.not_mem_nil
  · exact h

end

/-- The block whose hash a request of a node with this tip starts with. -/
def ChainstateManager.requestStart (c : ChainstateManager) (tip : BlockPtr) : BlockPtr :=
  (c.blockIndex.pprev tip).getD tip

section
variable {getHash : CBlockHeader → Uint256} {params : ConsensusParams} {genesis : BlockPtr}
  {c : ChainstateManager} {s : NetworkManager}

theorem getLocatorFromPrev_eq {tip : BlockPtr} (htip : c.getTip = some tip) :
    c.getLocatorFromPrev = locatorEntries c.blockIndex (some (c.requestStart tip)) := by
  unfold ChainstateManager.getLocatorFromPrev ChainstateManager.getLocator ChainstateManager.requestStart
  rw [htip, Option.bind_some]
  cases c.blockIndex.pprev tip <;> rfl

theorem requestStart_spec (W : Wf getHash genesis c) {tip : BlockPtr} (htip : c.getTip = some tip) :
    Anc c.blockIndex.pprev (c.requestStart tip) tip ∧ c.requestStart tip ∈ c.blockIndex := by
  have T := W.tree.toTreeShape
  unfold ChainstateManager.requestStart
  cases hprev : c.blockIndex.pprev tip with
  | none => exact ⟨.refl, W.tip_mem htip⟩
  | some q => exact ⟨.parent hprev, T.mem_parent hprev⟩

/-- The hashes of a request are blocks of the requester on the way to its tip. -/
theorem getLocatorFromPrev_anc (W : Wf getHash genesis c) {tip q : BlockPtr} (htip : c.getTip = some tip)
    (h : q ∈ c.getLocatorFromPrev) : Anc c.blockIndex.pprev q tip := by
  rw [getLocatorFromPrev_eq htip] at h
  exact (locatorEntries_anc W.tree.toTreeShape h).trans (requestStart_spec W htip).1

theorem getLocatorFromPrev_genesis (W : Wf getHash genesis c) {tip : BlockPtr} (htip : c.getTip = some tip)
    (hheight : c.blockIndex.nHeight tip < 2 ^ 30) : genesis ∈ c.getLocatorFromPrev := by
  have T := W.tree.toTreeShape
  obtain ⟨hanc, hmem⟩ := requestStart_spec W htip
  have hle := hanc.rank_le T.ranked
  have h1 := T.rank_cast (c.requestStart tip)
  have h2 := T.rank_cast tip
  rw [getLocatorFromPrev_eq htip]
  exact locatorEntries_genesis T hmem (by omega)

/-! ## The active chain by height -/

theorem height_tip (W : Wf getHash genesis c) {tip : BlockPtr} (htip : c.getTip = some tip) :
    c.activeChain.height = c.blockIndex.nHeight tip := by
  have hlen := (W.isPath htip).length
  have := W.tree.toTreeShape.rank_cast tip
  unfold CChain.height
  omega

theorem getBlockAtHeight_iff (W : Wf getHash genesis c) {tip p : BlockPtr} (htip : c.getTip = some tip) {h : Int} :
    c.getBlockAtHeight h = some p ↔ Anc c.blockIndex.pprev p tip ∧ c.blockIndex.nHeight p = h := by
  have T := W.tree.toTreeShape
  have hpath := W.isPath htip
  have hlen := hpath.length
  have hnonneg := T.nHeight_nonneg p
  have hrank := T.rank_cast p
  have htop := height_tip W htip
  have hranktip := T.rank_cast tip
  unfold ChainstateManager.getBlockAtHeight CChain.entry
  constructor
  · intro hp
    split at hp
    · cases hp
    split at hp
    · cases hp
    rename_i hin _
    rw [Option.join_eq_some_iff] at hp
    obtain ⟨a, ha, hk⟩ := Anc.exists_rank T.ranked T.rooted (b := tip) (n := h.toNat) (by omega)
    have hentry := hpath.entry a ha
    rw [hk, hp] at hentry
    cases hentry
    have := T.rank_cast p
    exact ⟨ha, by omega⟩
  · rintro ⟨hanc, rfl⟩
    have hle := hanc.rank_le T.ranked
    rw [if_neg (by omega), if_neg (by omega), show (c.blockIndex.nHeight p).toNat = c.blockIndex.rank p from rfl,
      hpath.entry p hanc]
    rfl

theorem getBlockAtHeight_none (W : Wf getHash genesis c) {tip : BlockPtr} (htip : c.getTip = some tip) {h : Int}
    (h0 : 0 ≤ h) (hnone : c.getBlockAtHeight h = none) : c.activeChain.height < h := by
  have T := W.tree.toTreeShape
  by_contra hle
  have htop := height_tip W htip
  have hranktip := T.rank_cast tip
  obtain ⟨a, ha, hk⟩ := Anc.exists_rank T.ranked T.rooted (b := tip) (n := h.toNat) (by omega)
  have hranka := T.rank_cast a
  have hsome := (getBlockAtHeight_iff W htip (h := h)).mpr ⟨ha, by omega⟩
  rw [hnone] at hsome
  cases hsome

/-! ## The run of an answer -/

/-- The blocks of the active chain from a height on, `room` of them at most: the run ends early
only with the stop hash or at the tip. -/
structure ServesFrom (c : ChainstateManager) (h : Int) (hashStop : Uint256) (room : Nat) (l : List BlockPtr) :
    Prop where
  consecutive : ∀ (i : Nat) (p : BlockPtr), l[i]? = some p → c.getBlockAtHeight (h + i) = some p
  length_le : l.length ≤ room
  stops : hashStop ≠ 0 → ∀ i : Nat, l[i]? = some hashStop → i + 1 = l.length
  ends : l.length < room → (hashStop ≠ 0 ∧ l.getLast? = some hashStop) ∨ h + l.length = c.activeChain.height + 1

theorem ServesFrom.single {h : Int} {hashStop : Uint256} {room : Nat} {p : BlockPtr}
    (hp : c.getBlockAtHeight h = some p)
    (hend : (hashStop ≠ 0 ∧ p = hashStop) ∨ h = c.activeChain.height) :
    ServesFrom c h hashStop (room + 1) [p] where
  consecutive i q hq := by
    obtain ⟨rfl, rfl⟩ : i = 0 ∧ p = q := by
      cases i with
      | zero => exact ⟨rfl, by simpa using hq⟩
      | succ i => simp at hq
    simpa using hp
  length_le := by simp
  stops _ i hi := by
    cases i with
    | zero => rfl
    | succ i => simp at hi
  ends _ := by
    rcases hend with ⟨h0, rfl⟩ | rfl
    · exact .inl ⟨h0, rfl⟩
    · exact .inr (by simp)

theorem ServesFrom.cons {h : Int} {hashStop : Uint256} {room : Nat} {p : BlockPtr} {l : List BlockPtr}
    (hp : c.getBlockAtHeight h = some p) (hstop : ¬ (hashStop ≠ 0 ∧ p = hashStop))
    (hl : ServesFrom c (h + 1) hashStop room l) : ServesFrom c h hashStop (room + 1) (p :: l) where
  consecutive i q hq := by
    cases i with
    | zero =>
      cases hq
      simpa using hp
    | succ i =>
      have := hl.consecutive i q (by simpa using hq)
      rwa [show h + ((i + 1 : Nat) : Int) = h + 1 + i by push_cast; ring]
  length_le := by simpa using hl.length_le
  stops h0 i hi := by
    cases i with
    | zero =>
      cases hi
      exact absurd ⟨h0, rfl⟩ hstop
    | succ i => simpa using hl.stops h0 i (by simpa using hi)
  ends hlt := by
    rcases hl.ends (by simpa using hlt) with ⟨h0, hlast⟩ | htop
    · refine .inl ⟨h0, ?_⟩
      rw [List.getLast?_cons, hlast]
      rfl
    · refine .inr ?_
      rw [List.length_cons]
      push_cast
      omega

theorem collectHeaders_serves (W : Wf getHash genesis s.chainstate) {tip : BlockPtr}
    (htip : s.chainstate.getTip = some tip) (hashStop : Uint256) : ∀ (room : Nat) (h : Int), 0 ≤ h →
    h ≤ s.chainstate.activeChain.height + 1 →
    ∃ l, s.collectHeaders hashStop room (s.chainstate.getBlockAtHeight h) = l.map s.chainstate.headerOf ∧
      ServesFrom s.chainstate h hashStop room l := by
  intro room
  induction room with
  | zero => intro h _ _; exact ⟨[], rfl, by simp, by simp, by simp, by simp⟩
  | succ room ih =>
    intro h h0 hle
    cases hp : s.chainstate.getBlockAtHeight h with
    | none =>
      have := getBlockAtHeight_none W htip h0 hp
      exact ⟨[], rfl, by simp, by simp, by simp, fun _ => .inr (by simp; omega)⟩
    | some p =>
      obtain ⟨hanc, rfl⟩ := (getBlockAtHeight_iff W htip).mp hp
      rw [NetworkManager.collectHeaders]
      by_cases hstop : hashStop ≠ 0 ∧ p = hashStop
      · rw [if_pos hstop]
        exact ⟨[p], rfl, .single hp (.inl hstop)⟩
      rw [if_neg hstop]
      by_cases htop : s.chainstate.getTip = some p
      · rw [if_pos htop]
        exact ⟨[p], rfl, .single hp (.inr (height_tip W htop).symm)⟩
      · rw [if_neg htop]
        -- below the tip there is a next block
        have hlt : s.chainstate.blockIndex.nHeight p < s.chainstate.activeChain.height := by
          have T := W.tree.toTreeShape
          have hrank := hanc.rank_lt T.ranked (fun heq => htop (heq ▸ htip))
          have h1 := T.rank_cast p
          have h2 := T.rank_cast tip
          rw [height_tip W htip]
          omega
        obtain ⟨l, hl, hserves⟩ := ih (s.chainstate.blockIndex.nHeight p + 1) (by omega) (by omega)
        exact ⟨p :: l, by rw [hl]; rfl, .cons hp hstop hserves⟩

/-! ## The headers of a run -/

theorem getBlockAtHeight_pprev (W : Wf getHash genesis c) {a b : BlockPtr} {h : Int}
    (ha : c.getBlockAtHeight h = some a) (hb : c.getBlockAtHeight (h + 1) = some b) :
    c.blockIndex.pprev b = some a := by
  have T := W.tree.toTreeShape
  obtain ⟨tip, -, htip, -⟩ := W.tip_exists
  obtain ⟨hanca, hha⟩ := (getBlockAtHeight_iff W htip).mp ha
  obtain ⟨hancb, hhb⟩ := (getBlockAtHeight_iff W htip).mp hb
  have hnonneg := T.nHeight_nonneg a
  obtain ⟨q, hq⟩ := T.exists_parent (p := b) (by omega)
  have hheight := T.nHeight_parent hq
  have hqa : q = a := by
    refine ((Anc.parent hq).trans hancb).unique T.ranked hanca ?_
    have h1 := T.rank_cast q
    have h2 := T.rank_cast a
    omega
  rw [hq, hqa]

theorem headerOf_hashPrevBlock {b q : BlockPtr} (h : c.blockIndex.pprev b = some q) :
    (c.headerOf b).hashPrevBlock = q := by
  obtain ⟨e, he⟩ := mem_iff.mp (mem_of_pprev h)
  rw [pprev_of_get he] at h
  unfold BlockManager.headerOf
  rw [he, Option.elim, CBlockIndex.getBlockHeader, h]
  rfl

theorem getHash_headerOf (W : Wf getHash genesis c) {p : BlockPtr} (hp : p ∈ c.blockIndex) :
    getHash (c.headerOf p) = p := by
  obtain ⟨e, he⟩ := mem_iff.mp hp
  unfold BlockManager.headerOf
  rw [he]
  exact W.tree.hash p e he

theorem checkHeadersAreContinuous_iff : ∀ {l : List CBlockHeader},
    checkHeadersAreContinuous getHash l = true ↔ l.IsChain (fun a b => b.hashPrevBlock = getHash a)
  | [] => by simp [checkHeadersAreContinuous]
  | [a] => by simp [checkHeadersAreContinuous]
  | a :: b :: rest => by
    rw [checkHeadersAreContinuous, Bool.and_eq_true, beq_iff_eq, checkHeadersAreContinuous_iff, List.isChain_cons_cons]

theorem checkHeadersAreContinuous_run (W : Wf getHash genesis c) : ∀ (l : List BlockPtr) (h : Int),
    (∀ (i : Nat) (p : BlockPtr), l[i]? = some p → c.getBlockAtHeight (h + i) = some p) →
    checkHeadersAreContinuous getHash (l.map c.headerOf) = true
  | [], _, _ => rfl
  | [_], _, _ => rfl
  | a :: b :: rest, h, hrun => by
    have ha : c.getBlockAtHeight h = some a := by simpa using hrun 0 a rfl
    have hb : c.getBlockAtHeight (h + 1) = some b := by simpa using hrun 1 b rfl
    have hprev := getBlockAtHeight_pprev W ha hb
    have hrest := checkHeadersAreContinuous_run W (b :: rest) (h + 1) (fun i p hp => by
      have := hrun (i + 1) p hp
      rwa [show h + ((i + 1 : Nat) : Int) = h + 1 + i by push_cast; ring] at this)
    change ((c.headerOf b).hashPrevBlock == getHash (c.headerOf a) && _) = true
    rw [headerOf_hashPrevBlock hprev, getHash_headerOf W (W.tree.toTreeShape.mem_parent hprev), beq_self_eq_true,
      Bool.true_and]
    exact hrest

/-! ## The answer to a request -/

/-- The answer above a fork point is the run of the active chain that follows it. -/
theorem serves_above_fork (W : Wf getHash genesis s.chainstate) {locator : List Uint256} {fork : BlockPtr}
    (hfind : s.findForkPoint locator = some fork) (hashStop : Uint256) :
    ∃ pre post l, locator = pre ++ fork :: post ∧ s.chainstate.isOnActiveChain fork = true ∧
      (∀ q ∈ pre, ¬ (q ∈ s.chainstate.blockIndex ∧ s.chainstate.isOnActiveChain q = true)) ∧
      s.collectHeaders hashStop MAX_HEADERS_SIZE
          (s.chainstate.getBlockAtHeight (s.chainstate.blockIndex.nHeight fork + 1)) =
        l.map s.chainstate.headerOf ∧
      ServesFrom s.chainstate (s.chainstate.blockIndex.nHeight fork + 1) hashStop MAX_HEADERS_SIZE l := by
  have T := W.tree.toTreeShape
  obtain ⟨tip, -, htip, -⟩ := W.tip_exists
  obtain ⟨hfork, pre, post, hsplit, hpre⟩ := List.find?_eq_some_iff_append.mp hfind
  simp only [Bool.and_eq_true, decide_eq_true_eq] at hfork
  have hle := ((W.contains_iff htip).mp hfork.2).rank_le T.ranked
  have h1 := T.rank_cast fork
  have h2 := T.rank_cast tip
  obtain ⟨l, hl, hserves⟩ := collectHeaders_serves W htip hashStop MAX_HEADERS_SIZE
    (s.chainstate.blockIndex.nHeight fork + 1) (by omega) (by rw [height_tip W htip]; omega)
  refine ⟨pre, post, l, hsplit, hfork.2, ?_, hl, hserves⟩
  rintro q hq ⟨hmemq, honq⟩
  have := hpre q hq
  simp [hmemq, honq] at this

theorem ServesFrom.hashPrevBlock_head (W : Wf getHash genesis c) {fork p : BlockPtr} {hashStop : Uint256} {room : Nat}
    {l : List BlockPtr} (hfork : c.isOnActiveChain fork = true)
    (hl : ServesFrom c (c.blockIndex.nHeight fork + 1) hashStop room (p :: l)) :
    (c.headerOf p).hashPrevBlock = fork := by
  obtain ⟨tip, -, htip, -⟩ := W.tip_exists
  have hforkAt := (getBlockAtHeight_iff W htip).mpr ⟨(W.contains_iff htip).mp hfork, rfl⟩
  have hp := hl.consecutive 0 p rfl
  rw [Nat.cast_zero, add_zero] at hp
  exact headerOf_hashPrevBlock (getBlockAtHeight_pprev W hforkAt hp)

/-- The answer to a locator that holds genesis: the run above its first hash on the active chain. -/
theorem handleGetHeadersMessage_spec (W : Wf getHash genesis s.chainstate) (hwork : s.lacksWork params = false)
    (peerId : Int) (msg : GetHeadersMessage) (hgen : genesis ∈ msg.blockLocatorHashes) :
    ∃ pre fork post l, msg.blockLocatorHashes = pre ++ fork :: post ∧
      s.chainstate.isOnActiveChain fork = true ∧
      (∀ q ∈ pre, ¬ (q ∈ s.chainstate.blockIndex ∧ s.chainstate.isOnActiveChain q = true)) ∧
      s.handleGetHeadersMessage params peerId msg = l.map s.chainstate.headerOf ∧
      ServesFrom s.chainstate (s.chainstate.blockIndex.nHeight fork + 1) msg.hashStop MAX_HEADERS_SIZE l := by
  have T := W.tree.toTreeShape
  obtain ⟨tip, hmem, htip, -⟩ := W.tip_exists
  have hon : (decide (genesis ∈ s.chainstate.blockIndex) && s.chainstate.isOnActiveChain genesis) = true := by
    simp only [Bool.and_eq_true, decide_eq_true_eq]
    exact ⟨T.genesis_mem, (W.contains_iff htip).mpr (T.anc_genesis hmem)⟩
  cases hfind : s.findForkPoint msg.blockLocatorHashes with
  | none =>
    have := List.find?_eq_none.mp hfind genesis hgen
    exact absurd hon this
  | some fork =>
    obtain ⟨pre, post, l, hsplit, hfork, hpre, hl, hserves⟩ := serves_above_fork W hfind msg.hashStop
    refine ⟨pre, fork, post, l, hsplit, hfork, hpre, ?_, hserves⟩
    unfold NetworkManager.handleGetHeadersMessage
    rw [hwork, hfind]
    exact hl

variable (params) in
theorem lacksWork_of_tip {tip : CBlockIndex} (htip : s.chainstate.tipIndex = some tip)
    (hwork : uintToArith256 params.nMinimumChainWork ≤ tip.nChainWork) : s.lacksWork params = false := by
  unfold NetworkManager.lacksWork
  rw [htip]
  simpa using hwork

theorem ChainstateManager.BlankOrInUse.wf_of_tip {b : CBlockIndex} (h : c.BlankOrInUse getHash)
    (htip : c.tipIndex = some b) : Wf getHash c.genesisHash c := by
  rcases h with h | ⟨genesis, W⟩
  · unfold ChainstateManager.tipIndex BlockManager.getTip at htip
    rw [h.manager] at htip
    cases htip
  · exact W.genesisHash.symm ▸ W

/-- A server with enough work answers the request of any node that shares its genesis block with
the run of its active chain above the first hash of the locator that is on it. The run has at
most 2000 headers and ends early only with the stop hash or at the tip; its first header attaches
to a block of the requester, and it passes the continuity check. -/
theorem header_round_correct {paramsR : ConsensusParams} {config configR : PeerConfig} {skip skipR : Bool}
    {r : NetworkManager}
    (hr : Run.Reaches (NetworkManager.step getHash paramsR configR) (fun _ _ => True)
      (NetworkManager.fresh (ChainstateManager.fresh skipR)) r)
    (hs : Run.Reaches (NetworkManager.step getHash params config) (fun _ _ => True)
      (NetworkManager.fresh (ChainstateManager.fresh skip)) s)
    (hgen : r.chainstate.genesisHash = s.chainstate.genesisHash) {tipR tip : CBlockIndex}
    (htipR : r.chainstate.tipIndex = some tipR) (hheight : tipR.nHeight < 2 ^ 30)
    (htip : s.chainstate.tipIndex = some tip) (hwork : uintToArith256 params.nMinimumChainWork ≤ tip.nChainWork)
    (peerId : Int) (version : BitVec 32) (hashStop : Uint256) :
    ∃ pre fork post l, r.chainstate.getLocatorFromPrev = pre ++ fork :: post ∧
      s.chainstate.isOnActiveChain fork = true ∧
      (∀ q ∈ pre, ¬ (q ∈ s.chainstate.blockIndex ∧ s.chainstate.isOnActiveChain q = true)) ∧
      s.handleGetHeadersMessage params peerId ⟨version, r.chainstate.getLocatorFromPrev, hashStop⟩ =
        l.map s.chainstate.headerOf ∧
      ServesFrom s.chainstate (s.chainstate.blockIndex.nHeight fork + 1) hashStop MAX_HEADERS_SIZE l ∧
      (∀ first ∈ (l.map s.chainstate.headerOf).head?, first.hashPrevBlock ∈ r.chainstate.blockIndex) ∧
      checkHeadersAreContinuous getHash (l.map s.chainstate.headerOf) = true := by
  have WR := (NetworkManager.reaches_blankOrInUse hr).wf_of_tip htipR
  have W := (NetworkManager.reaches_blankOrInUse hs).wf_of_tip htip
  rw [hgen] at WR
  obtain ⟨tipPtr, htipPtr, hget⟩ := Option.bind_eq_some_iff.mp htipR
  have hlocator := getLocatorFromPrev_genesis WR htipPtr (by rwa [nHeight_of_get hget])
  obtain ⟨pre, fork, post, l, hsplit, hfork, hpre, hanswer, hserves⟩ := handleGetHeadersMessage_spec W
    (lacksWork_of_tip _ htip hwork) peerId ⟨version, r.chainstate.getLocatorFromPrev, hashStop⟩ hlocator
  have hsplit : r.chainstate.getLocatorFromPrev = pre ++ fork :: post := hsplit
  refine ⟨pre, fork, post, l, hsplit, hfork, hpre, hanswer, hserves, ?_,
    checkHeadersAreContinuous_run W l _ hserves.consecutive⟩
  intro first hfirst
  cases l with
  | nil => simp at hfirst
  | cons p rest =>
    obtain rfl : s.chainstate.headerOf p = first := by simpa using hfirst
    rw [hserves.hashPrevBlock_head W hfork]
    exact WR.tree.toTreeShape.mem_anc (getLocatorFromPrev_anc WR htipPtr (by rw [hsplit]; simp)) (mem_of_get hget)

end

/-- A node at genesis, and one that is a header ahead of it. -/
def genesisNodeOps : List NetOp := [.chain (.setup (nonceHeader 0 1))]

def aheadNodeOps : List NetOp := genesisNodeOps ++ [.chain (.processNewBlockHeader {} (nonceHeader 1 2) true)]

def nodeAfter (l : List NetOp) : NetworkManager :=
  l.foldl (NetworkManager.step nonceHash nonceParams {}) (NetworkManager.fresh (ChainstateManager.fresh false))

theorem nodeAfter_reaches (l : List NetOp) :
    Run.Reaches (NetworkManager.step nonceHash nonceParams {}) (fun _ _ => True)
      (NetworkManager.fresh (ChainstateManager.fresh false)) (nodeAfter l) :=
  Run.Reaches.foldl .start fun _ _ _ => trivial

theorem header_round_correct_nonce :
    ∃ pre fork post l, (nodeAfter genesisNodeOps).chainstate.getLocatorFromPrev = pre ++ fork :: post ∧
      (nodeAfter aheadNodeOps).chainstate.isOnActiveChain fork = true ∧
      (∀ q ∈ pre, ¬ (q ∈ (nodeAfter aheadNodeOps).chainstate.blockIndex ∧
        (nodeAfter aheadNodeOps).chainstate.isOnActiveChain q = true)) ∧
      (nodeAfter aheadNodeOps).handleGetHeadersMessage nonceParams 7
          ⟨PROTOCOL_VERSION, (nodeAfter genesisNodeOps).chainstate.getLocatorFromPrev, 0⟩ =
        l.map (nodeAfter aheadNodeOps).chainstate.headerOf ∧
      ServesFrom (nodeAfter aheadNodeOps).chainstate ((nodeAfter aheadNodeOps).chainstate.blockIndex.nHeight fork + 1)
        0 MAX_HEADERS_SIZE l ∧
      (∀ first ∈ (l.map (nodeAfter aheadNodeOps).chainstate.headerOf).head?,
        first.hashPrevBlock ∈ (nodeAfter genesisNodeOps).chainstate.blockIndex) ∧
      checkHeadersAreContinuous nonceHash (l.map (nodeAfter aheadNodeOps).chainstate.headerOf) = true := by
  have htipR : (nodeAfter genesisNodeOps).chainstate.tipIndex.isSome = true := by decide +kernel
  have htip : (nodeAfter aheadNodeOps).chainstate.tipIndex.isSome = true := by decide +kernel
  obtain ⟨tipR, hR⟩ := Option.isSome_iff_exists.mp htipR
  obtain ⟨tip, hS⟩ := Option.isSome_iff_exists.mp htip
  have hheight : ((nodeAfter genesisNodeOps).chainstate.tipIndex.elim 0 CBlockIndex.nHeight) < 2 ^ 30 := by
    decide +kernel
  rw [hR] at hheight
  have hnone : uintToArith256 nonceParams.nMinimumChainWork = 0 := by decide +kernel
  exact header_round_correct (nodeAfter_reaches _) (nodeAfter_reaches _) (by decide +kernel) hR hheight hS
    (by simp [hnone, BitVec.le_def]) 7 PROTOCOL_VERSION 0

end UnicityPow
