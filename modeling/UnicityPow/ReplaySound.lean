import UnicityPow.CoherenceSound

/-!
# Replaying the notifications

A subscriber that applies the block events of every call to its own list of blocks holds the
active chain after each of them.
-/

namespace UnicityPow

open Forest BlockMap StackLog

namespace ChainstateManager

section
variable (getHash : CBlockHeader → Uint256) (params : ConsensusParams)

/-- What a call at run time sends; the other calls send nothing. -/
def notifications (s : ChainstateManager) : ChainOp → List Notification
  | .processNewBlockHeader env header minPow => (processNewBlockHeader params getHash env s header minPow).2.2
  | .activateBestChain none => (activateBestChain params s none).2.2
  | .invalidateBlock hash => (s.invalidateBlock hash).2.2
  | _ => []

/-- What the calls answer that the subscriber watches. -/
def answer (s : ChainstateManager) : ChainOp → Bool
  | .processNewBlockHeader env header minPow => (processNewBlockHeader params getHash env s header minPow).2.1
  | .activateBestChain none => (activateBestChain params s none).2.1
  | .invalidateBlock hash => (s.invalidateBlock hash).2.1
  | _ => true

/-- The calls that move the tip at run time. -/
def IsWatchedOp : ChainOp → Prop
  | .processNewBlockHeader _ _ _ => True
  | .activateBestChain none => True
  | .invalidateBlock _ => True
  | _ => False

/-- A call, and the subscriber's replay of its block events; `none` once an event did not apply. -/
def watch (sv : ChainstateManager × Option (List BlockPtr)) (a : ChainOp) :
    ChainstateManager × Option (List BlockPtr) :=
  (step getHash params sv.1 a, sv.2.bind (replay · (blockEdits (notifications getHash params sv.1 a))))

/-- The candidate of a round was refused on the way. -/
def RefusesCandidate (s : ChainstateManager) (a : ChainOp) : Prop :=
  ∃ depth maxDepth, .suspiciousReorg depth maxDepth ∈ notifications getHash params s a

end

end ChainstateManager

open ChainstateManager

/-! ## Moves of the tip -/

section
variable {m : BlockMap} {genesis old p : BlockPtr} {events : List Notification} (T : TreeShape m genesis)
include T

theorem segment_self {l : List BlockPtr} (h : Segment m.pprev p l p) : l = [] := by
  cases h with
  | nil => rfl
  | snoc h hp =>
    have := h.anc.rank_le T.ranked
    have := T.ranked _ _ hp
    omega

theorem Moves.self (h : Moves m p p events) : blockEdits events = [] := by
  obtain ⟨f, l, l', hf, hl, hl', he⟩ := h
  have hfp : f = p := hf.unique T.ranked (.of_anc .refl)
  subst hfp
  rw [he, segment_self T hl, segment_self T hl']
  rfl

/-- The events of a move turn the path to the old tip into the path to the new one. -/
theorem Moves.replay (h : Moves m old p events) (hp : p ∈ m) {c c' : CChain} (hc : CChain.IsPath m c old)
    (hc' : CChain.IsPath m c' p) {v : List BlockPtr} (hv : c = v.map some) :
    ∃ v', replay v (blockEdits events) = some v' ∧ c' = v'.map some := by
  obtain ⟨f, l, l', hf, hl, hl', he⟩ := h
  obtain ⟨lf, hlf⟩ := exists_segment T (T.mem_anc hf.right hp)
  have hpath := (genesis_isPath T).append T hlf
  have hvl : v = (genesis :: lf) ++ l := by
    have := hc.unique T (hpath.append T hl)
    rw [hv, show [some genesis] ++ lf.map some = (genesis :: lf).map some from rfl, ← List.map_append] at this
    exact List.map_injective_iff.mpr (Option.some_injective _) this
  refine ⟨(genesis :: lf) ++ l', ?_, ?_⟩
  · rw [he, hvl]
    refine replay_switch ?_ l l'
    rw [List.getLast?_eq_some_getLast (List.cons_ne_nil genesis lf), hlf.getLast]
  · rw [hc'.unique T (hpath.append T hl'), List.map_append]
    rfl

end

/-! ## One call -/

section
variable {getHash : CBlockHeader → Uint256} {params : ConsensusParams} {genesis : BlockPtr} {s s' : ChainstateManager}

/-- A call that answers `ok` and sends `events` leaves the chain and sends no block event, or
succeeds and sends those of the move of the tip. -/
def Announces (s s' : ChainstateManager) (ok : Bool) (events : List Notification) : Prop :=
  (s'.activeChain = s.activeChain ∧ blockEdits events = []) ∨
    ok = true ∧ ∃ old new, CChain.IsPath s'.blockIndex s.activeChain old ∧
      CChain.IsPath s'.blockIndex s'.activeChain new ∧ Moves s'.blockIndex old new events

variable (params) in
theorem activateBestChain_announces (W : Wf getHash genesis s) :
    Announces s (activateBestChain params s none).1 (activateBestChain params s none).2.1
      (activateBestChain params s none).2.2 := by
  obtain ⟨es, hes, h⟩ := activateBestChain_reports params W none (fun _ h => by cases h)
  rw [List.nil_append] at hes
  rw [hes]
  rcases h with h | ⟨hok, old, p, hold, hpath, -, hmoves⟩
  · exact .inl h
  · refine .inr ⟨hok, old, p, ?_⟩
    rw [activateBestChain_index _ W none (fun _ h => by cases h)]
    exact ⟨W.isPath hold, hpath, hmoves⟩

theorem processNewBlockHeader_announces (W : Wf getHash genesis s) (env : Env) (header : CBlockHeader)
    (minPow : Bool) :
    Announces s (processNewBlockHeader params getHash env s header minPow).1
      (processNewBlockHeader params getHash env s header minPow).2.1
      (processNewBlockHeader params getHash env s header minPow).2.2 := by
  have hchain := acceptBlockHeader_activeChain params env W header minPow
  have W1 := W.acceptBlockHeader params env header minPow
  unfold processNewBlockHeader
  rcases he : s.acceptBlockHeader getHash params env header minPow with ⟨s1, _ | p⟩ <;> rw [he] at hchain W1
  · exact .inl ⟨hchain, rfl⟩
  · rcases activateBestChain_announces params (W1.tryAddCandidate p) with ⟨hc, hes⟩ | ⟨hok, old, new, hold, h⟩
    · exact .inl ⟨hc.trans hchain, hes⟩
    · exact .inr ⟨hok, old, new, hchain ▸ hold, h⟩

theorem invalidateBlock_announces (W : Wf getHash genesis s) (hash : Uint256) :
    Announces s (s.invalidateBlock hash).1 (s.invalidateBlock hash).2.1 (s.invalidateBlock hash).2.2 := by
  rcases invalidateBlock_cases W hash with ⟨he, -⟩ | ⟨s', events, he, -, -, -, hinv, hmove⟩
  · rw [he]
    exact .inl ⟨rfl, rfl⟩
  · rw [he]
    rcases hmove with ⟨hc, hes⟩ | ⟨old, q, hold, hpath, hmoves⟩
    · exact .inl ⟨hc, congrArg blockEdits hes⟩
    · have hlinks := hinv.core.toLinks
      refine .inr ⟨rfl, old, q, (W.isPath hold).links hlinks, hpath.links hlinks, ?_⟩
      unfold Moves at hmoves ⊢
      rw [show s'.blockIndex.pprev = s.blockIndex.pprev from hlinks.pprev_eq]
      exact hmoves

variable (params) in
theorem step_announces (W : Wf getHash genesis s) (a : ChainOp) (ha : IsWatchedOp a) :
    Announces s (step getHash params s a) (answer getHash params s a) (notifications getHash params s a) := by
  cases a with
  | processNewBlockHeader env header minPow => exact processNewBlockHeader_announces W env header minPow
  | activateBestChain given =>
    cases given with
    | none => exact activateBestChain_announces _ W
    | some _ => exact ha.elim
  | invalidateBlock hash => exact invalidateBlock_announces W hash
  | acceptBlockHeader _ _ _ => exact ha.elim
  | tryAddBlockIndexCandidate _ => exact ha.elim
  | acceptAndTryAdd _ _ _ => exact ha.elim
  | addOrphanHeader _ _ _ => exact ha.elim
  | evictOrphanHeaders _ => exact ha.elim
  | setup _ => exact ha.elim
  | load _ _ => exact ha.elim
  | restart _ => exact ha.elim

/-! ## Runs -/

/-- The subscriber's list is the active chain. -/
def InStep (sv : ChainstateManager × Option (List BlockPtr)) : Prop :=
  ∃ l, sv.2 = some l ∧ sv.1.activeChain = l.map some

theorem watch_inStep {sv : ChainstateManager × Option (List BlockPtr)} (h : InUse getHash sv.1 ∧ InStep sv)
    (a : ChainOp) (ha : IsWatchedOp a) :
    InUse getHash (watch getHash params sv a).1 ∧ InStep (watch getHash params sv a) := by
  obtain ⟨s, v⟩ := sv
  obtain ⟨⟨genesis, W⟩, l, rfl, hl⟩ := h
  have hs' := InUse.step params ⟨genesis, W⟩ a
  refine ⟨hs', ?_⟩
  obtain ⟨genesis', W'⟩ := hs'
  rcases step_announces params W a ha with ⟨hc, hes⟩ | ⟨-, old, new, hold, hnew, hmoves⟩
  · refine ⟨l, ?_, hc.trans hl⟩
    unfold watch
    rw [hes]
    rfl
  · obtain ⟨l', hreplay, hl'⟩ := hmoves.replay W'.tree.toTreeShape (W'.tip_mem hnew.tip_eq) hold hnew hl
    exact ⟨l', hreplay, hl'⟩

/-- In every run of the watched calls the subscriber that starts with genesis holds the active
chain after each call. A call that fails or leaves the chain sends no block event, and one that
moves the tip sends exactly those of the move. -/
theorem notifications_replay {skipPow : Bool} {header : CBlockHeader} {s₀ : ChainstateManager}
    {v : Option (List BlockPtr)} (h₀ : (fresh skipPow).setup getHash header = (s₀, true))
    (hrun : Run.Reaches (watch getHash params) (fun _ a => IsWatchedOp a) (s₀, some [getHash header]) (s, v)) :
    InStep (s, v) ∧ ∀ a, IsWatchedOp a →
      (answer getHash params s a = false ∨ (step getHash params s a).activeChain = s.activeChain →
        blockEdits (notifications getHash params s a) = []) ∧
      Announces s (step getHash params s a) (answer getHash params s a) (notifications getHash params s a) := by
  obtain ⟨h0, -, rfl⟩ := setup_fresh_true getHash header skipPow h₀
  have hstart : InUse getHash (genesisState getHash skipPow header) ∧
      InStep (genesisState getHash skipPow header, some [getHash header]) :=
    ⟨⟨_, genesisState_wf getHash header skipPow h0⟩, [getHash header], rfl, rfl⟩
  obtain ⟨⟨genesis, W⟩, hv⟩ := hrun.invariant (P := fun sv => InUse getHash sv.1 ∧ InStep sv) hstart
    (fun _ a h ha => watch_inStep h a ha)
  refine ⟨hv, fun a ha => ?_⟩
  obtain ⟨genesis', W'⟩ := InUse.step params ⟨genesis, W⟩ a
  have hann := step_announces params W a ha
  refine ⟨fun hstay => ?_, hann⟩
  rcases hann with ⟨-, hes⟩ | ⟨hok, old, new, hold, hnew, hmoves⟩
  · exact hes
  · rcases hstay with hfail | hc
    · rw [hok] at hfail
      cases hfail
    · -- a move that leaves the chain goes nowhere
      rw [hc] at hnew
      have : old = new := Option.some.inj (hold.tip_eq.symm.trans hnew.tip_eq)
      subst this
      exact hmoves.self W'.tree.toTreeShape

end

theorem notifications_replay_nonce :
    InStep (watch nonceHash nonceParams (nonceStart, some [1]) (.processNewBlockHeader {} (nonceHeader 1 2) true)) :=
  (notifications_replay nonceStart_setup
    (.next .start (show IsWatchedOp (.processNewBlockHeader {} (nonceHeader 1 2) true) from trivial))).1

/-! ## A refusal and a success in one call -/

/-- Reorganisations of two blocks are refused. -/
def shallowParams : ConsensusParams := { nonceParams with nSuspiciousReorgDepth := 2 }

/-- A chain of 2, 3 and 4 with a sibling 5 of its tip, and a longer branch of 6 to 9 from genesis that
is refused; then 4 is invalidated. -/
def shallowOps : List ChainOp :=
  [(1, 2), (2, 3), (3, 4), (3, 5), (1, 6), (6, 7), (7, 8), (8, 9)].map
    (fun e => .processNewBlockHeader {} (nonceHeader e.1 e.2) true) ++ [.invalidateBlock 4]

def shallowRun : ChainstateManager × Option (List BlockPtr) :=
  shallowOps.foldl (watch nonceHash shallowParams) (nonceStart, some [1])

theorem shallowRun_reaches :
    Run.Reaches (watch nonceHash shallowParams) (fun _ a => IsWatchedOp a) (nonceStart, some [1])
      shallowRun := by
  unfold shallowRun
  refine Run.Reaches.foldl .start fun a ha _ => ?_
  simp only [shallowOps, List.map_cons, List.map_nil, List.cons_append, List.nil_append, List.mem_cons,
    List.not_mem_nil, or_false] at ha
  rcases ha with rfl | rfl | rfl | rfl | rfl | rfl | rfl | rfl | rfl <;> trivial

/-- The next activation refuses 9 and then connects 5. -/
theorem refusing_call_connects :
    ¬ ∀ (s₀ s : ChainstateManager) (v : Option (List BlockPtr)),
      (fresh false).setup nonceHash (nonceHeader 0 1) = (s₀, true) →
      Run.Reaches (watch nonceHash shallowParams) (fun _ a => IsWatchedOp a) (s₀, some [1]) (s, v) →
      ∀ a, IsWatchedOp a → RefusesCandidate nonceHash shallowParams s a →
        blockEdits (notifications nonceHash shallowParams s a) = [] := by
  intro h
  have hnone := h nonceStart shallowRun.1 shallowRun.2 nonceStart_setup
    (Prod.mk.eta.symm ▸ shallowRun_reaches) (.activateBestChain none) trivial ⟨2, 1, by decide +kernel⟩
  exact absurd hnone (by decide +kernel)

end UnicityPow
