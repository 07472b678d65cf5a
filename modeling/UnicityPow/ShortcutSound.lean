import UnicityPow.BatchSound

/-!
# Batches that end on the active chain

The shortcut past the work check looks at the last header of a batch only. In a continuous batch
it vouches for all the others: the index holds the parent of every block it holds, so each header
of the batch is known, and the accept loop has nothing to insert.
-/

namespace UnicityPow

open Forest BlockMap ChainstateManager

/-! ## Known headers -/

/-- No header of the batch has the hash of another header of the index. -/
def CollisionFree (getHash : CBlockHeader → Uint256) (m : BlockMap) (headers : List CBlockHeader) : Prop :=
  ∀ header ∈ headers, ∀ b : CBlockIndex, m[getHash header]? = some b → b.getBlockHeader = header

section
variable {getHash : CBlockHeader → Uint256} {m : BlockMap} {genesis : BlockPtr}

/-- The header before a known one is known, unless its hash is the null hash, which genesis names. -/
theorem parent_known (T : TreeShape m genesis) {a b : CBlockHeader} (hprev : b.hashPrevBlock = getHash a)
    (ha : getHash a ≠ 0) (hb : getHash b ∈ m)
    (hsame : ∀ e : CBlockIndex, m[getHash b]? = some e → e.getBlockHeader = b) : getHash a ∈ m := by
  obtain ⟨e, he⟩ := mem_iff.mp hb
  have hname : e.pprev.getD 0 = getHash a := by
    rw [← hprev, ← hsame e he]
    rfl
  cases hq : e.pprev with
  | none =>
    rw [hq] at hname
    exact absurd hname.symm ha
  | some q =>
    rw [hq] at hname
    cases hname
    exact (T.parent _ e _ he hq).1

/-- Backwards along the batch, from the last header. -/
theorem batch_known (T : TreeShape m genesis) : ∀ {headers : List CBlockHeader},
    headers.IsChain (fun a b => b.hashPrevBlock = getHash a) → CollisionFree getHash m headers →
    (∀ header ∈ headers, getHash header ≠ 0) → (∀ last ∈ headers.getLast?, getHash last ∈ m) →
    ∀ header ∈ headers, getHash header ∈ m
  | [], _, _, _, _, _, h => absurd h List.not_mem_nil
  | [a], _, _, _, hlast, header, h => by
    obtain rfl := List.mem_singleton.mp h
    exact hlast header rfl
  | a :: b :: rest, hchain, hfree, hnull, hlast, header, h => by
    obtain ⟨hprev, hrest⟩ := List.isChain_cons_cons.mp hchain
    obtain ⟨-, hfree'⟩ := List.forall_mem_cons.mp hfree
    obtain ⟨ha, hnull'⟩ := List.forall_mem_cons.mp hnull
    have hknown := batch_known T hrest hfree' hnull' (by simpa using hlast)
    rcases List.mem_cons.mp h with rfl | h
    · exact parent_known T hprev ha (hknown b List.mem_cons_self) (hfree' b List.mem_cons_self)
    · exact hknown header h

end

/-! ## The loop over known headers -/

namespace NetworkManager

section
variable {getHash : CBlockHeader → Uint256} {params : ConsensusParams} {config : PeerConfig} {env : NetEnv}
  {s : NetworkManager} {peerId : Int}

variable (params env peerId) in
/-- A known header is answered from the index; a failed one is a duplicate, which the shortcut passes over. -/
theorem acceptHeader_shortcut {header : CBlockHeader} (hknown : getHash header ∈ s.chainstate.blockIndex) :
    ∃ t l, s.acceptHeader getHash params env peerId true header = (t, true) ∧
      t.chainstate = { s.chainstate with candidates := l } := by
  obtain ⟨b, hb⟩ := mem_iff.mp hknown
  unfold acceptHeader
  cases hfailed : b.isFailed with
  | false =>
    rw [acceptBlockHeader_known hknown (by rw [isFailed_of_get hb, hfailed])]
    exact ⟨_, _, rfl, tryAddCandidate_frame s.chainstate (getHash header)⟩
  | true =>
    have hdup : s.chainstate.acceptBlockHeader getHash params env.toEnv header true =
        (s.chainstate, .error (.invalid "duplicate" "known invalid header re-announced")) := by
      unfold acceptBlockHeader acceptOne
      simp only [hb, hfailed, if_true]
    rw [hdup]
    exact ⟨s, s.chainstate.candidates, by simp [handleRefused, ValidationState.invalid], rfl⟩

variable (params env peerId) in
theorem acceptHeaders_shortcut (headers : List CBlockHeader) : ∀ s : NetworkManager,
    (∀ header ∈ headers, getHash header ∈ s.chainstate.blockIndex) →
    ∃ t l, acceptHeaders getHash params env peerId true headers s = (t, true) ∧
      t.chainstate = { s.chainstate with candidates := l } := by
  induction headers with
  | nil => exact fun s _ => ⟨s, s.chainstate.candidates, rfl, rfl⟩
  | cons header rest ih =>
    intro s hknown
    obtain ⟨hfirst, hrest⟩ := List.forall_mem_cons.mp hknown
    obtain ⟨t, l, ht, hl⟩ := acceptHeader_shortcut params env peerId hfirst
    obtain ⟨u, l', hu, hl'⟩ := ih t (by rw [hl]; exact hrest)
    refine ⟨u, l', ?_, ?_⟩
    · rw [acceptHeaders, ht]
      exact hu
    · rw [hl', hl]

end

end NetworkManager

/-! ## A header with the null hash -/

end UnicityPow
