import UnicityPow.Penalties
import UnicityPow.EvictionSound
import UnicityPow.IsolationSound

/-!
# Penalties are proportionate

The misbehaviour data of an entry is what the events on its account make of a new entry. An
invalid header is charged once for each hash, a missing parent once and after enough of them,
and the flag is set exactly from the threshold on.
-/

namespace UnicityPow

/-! ## One event -/

/-- What an event can add to the score. -/
def PenaltyEvent.penalty : PenaltyEvent → Int
  | unconnecting => MisbehaviorPenalty.TOO_MANY_UNCONNECTING
  | connecting => 0
  | oversizedMessage => MisbehaviorPenalty.OVERSIZED_MESSAGE
  | invalidPoW => MisbehaviorPenalty.INVALID_POW
  | nonContinuousHeaders => MisbehaviorPenalty.NON_CONTINUOUS_HEADERS
  | tooManyOrphans => MisbehaviorPenalty.TOO_MANY_ORPHANS
  | invalidHeader _ => MisbehaviorPenalty.INVALID_HEADER

namespace PeerMisbehaviorData

/-- The flag is set exactly if the score has reached the threshold, without `NoBan`. -/
def FlagOk (d : PeerMisbehaviorData) : Prop :=
  d.shouldDiscourage = true ↔ DISCOURAGEMENT_THRESHOLD ≤ d.misbehaviorScore ∧ d.noBan = false

section
variable {d : PeerMisbehaviorData}

/-- The step that crosses the threshold sets the flag, and no step clears it. -/
theorem FlagOk.misbehaving (h : d.FlagOk) {penalty : Int} (hpos : 0 ≤ penalty) :
    (d.misbehaving penalty).FlagOk := by
  have hban : (d.misbehaving penalty).noBan = d.noBan := rfl
  unfold FlagOk at *
  rw [hban]
  simp only [PeerMisbehaviorData.misbehaving, Bool.or_eq_true, Bool.and_eq_true, decide_eq_true_eq,
    Bool.not_eq_eq_eq_not, Bool.not_true, h]
  by_cases hthreshold : DISCOURAGEMENT_THRESHOLD ≤ d.misbehaviorScore
  · have hstill : DISCOURAGEMENT_THRESHOLD ≤ d.misbehaviorScore + penalty := by omega
    simp [hthreshold, hstill]
  · simp [hthreshold, not_le.mp hthreshold]

/-- A missing parent is charged on the step that sets the latch. -/
theorem incrementUnconnecting_charges :
    d.incrementUnconnecting.misbehaviorScore ≠ d.misbehaviorScore ↔
      d.unconnectingPenalized = false ∧ MAX_UNCONNECTING_HEADERS ≤ d.numUnconnectingHeadersMsgs + 1 := by
  unfold incrementUnconnecting
  split
  · simp_all
  · rename_i hlatch
    dsimp only
    split
    · rename_i hmany
      simp [PeerMisbehaviorData.misbehaving, MisbehaviorPenalty.TOO_MANY_UNCONNECTING, hmany, hlatch]
    · rename_i hfew
      simp [hfew]

theorem incrementUnconnecting_penalized (h : d.incrementUnconnecting.misbehaviorScore ≠ d.misbehaviorScore) :
    d.incrementUnconnecting.unconnectingPenalized = true := by
  obtain ⟨hlatch, hmany⟩ := incrementUnconnecting_charges.mp h
  unfold incrementUnconnecting
  rw [hlatch]
  simp [hmany, PeerMisbehaviorData.misbehaving]

theorem incrementUnconnecting_num_le :
    d.incrementUnconnecting.numUnconnectingHeadersMsgs ≤ d.numUnconnectingHeadersMsgs + 1 := by
  unfold incrementUnconnecting
  split
  · omega
  · dsimp only
    split <;> exact le_rfl

end

end PeerMisbehaviorData

namespace PenaltyEvent

variable {d : PeerMisbehaviorData} {e : PenaltyEvent}

theorem apply_flagOk (h : d.FlagOk) (e : PenaltyEvent) : (e.apply d).FlagOk := by
  cases e with
  | unconnecting =>
    simp only [apply, PeerMisbehaviorData.incrementUnconnecting]
    split
    · exact h
    · split
      · have hlatched : ({ d with
            numUnconnectingHeadersMsgs := d.numUnconnectingHeadersMsgs + 1
            unconnectingPenalized := true } : PeerMisbehaviorData).FlagOk := h
        exact hlatched.misbehaving (by decide)
      · exact h
  | connecting => exact h
  | invalidHeader hash =>
    have hcharged : (d.misbehaving MisbehaviorPenalty.INVALID_HEADER).FlagOk := h.misbehaving (by decide)
    exact hcharged
  | _ => exact h.misbehaving (by decide)

theorem apply_score (d : PeerMisbehaviorData) (e : PenaltyEvent) :
    (e.apply d).misbehaviorScore = d.misbehaviorScore + e.penalty ∨
      e = .unconnecting ∧ (e.apply d).misbehaviorScore = d.misbehaviorScore := by
  cases e with
  | unconnecting =>
    unfold apply PeerMisbehaviorData.incrementUnconnecting
    dsimp only
    split
    · exact .inr ⟨rfl, rfl⟩
    · split
      · exact .inl rfl
      · exact .inr ⟨rfl, rfl⟩
  | connecting => exact .inl (Int.add_zero _).symm
  | _ => exact .inl rfl

theorem apply_penalized (h : d.unconnectingPenalized = true) (e : PenaltyEvent) :
    (e.apply d).unconnectingPenalized = true := by
  cases e with
  | unconnecting => simp [apply, PeerMisbehaviorData.incrementUnconnecting, h]
  | _ => exact h

theorem apply_num (d : PeerMisbehaviorData) (h : e ≠ .unconnecting) (h' : e ≠ .connecting) :
    (e.apply d).numUnconnectingHeadersMsgs = d.numUnconnectingHeadersMsgs := by
  cases e with
  | unconnecting => exact absurd rfl h
  | connecting => exact absurd rfl h'
  | _ => rfl

/-- Only an invalid header is noted. -/
theorem mem_apply_invalidHeaderHashes {text : String} :
    text ∈ (e.apply d).invalidHeaderHashes ↔
      text ∈ d.invalidHeaderHashes ∨ ∃ hash, e = .invalidHeader hash ∧ text = hash.getHex := by
  cases e with
  | invalidHeader hash =>
    simp [apply, PeerMisbehaviorData.noteInvalidHeaderHash, PeerMisbehaviorData.misbehaving,
      List.mem_insert_iff, or_comm]
  | unconnecting => simp [apply, NetworkManager.incrementUnconnecting_invalidHeaderHashes]
  | _ => simp [apply, PeerMisbehaviorData.resetUnconnecting, PeerMisbehaviorData.misbehaving]

end PenaltyEvent

/-! ## Accounts -/

/-- No header is charged that is noted already. -/
def Lawful (d : PeerMisbehaviorData) : List PenaltyEvent → Prop
  | [] => True
  | e :: events => (∀ hash, e = .invalidHeader hash → hash.getHex ∉ d.invalidHeaderHashes) ∧
    Lawful (e.apply d) events

theorem lawful_append {events events' : List PenaltyEvent} {d : PeerMisbehaviorData} :
    Lawful d (events ++ events') ↔ Lawful d events ∧ Lawful (events.foldl PenaltyEvent.apply d) events' := by
  induction events generalizing d with
  | nil => simp [Lawful]
  | cons e events ih =>
    simp only [List.cons_append, Lawful, List.foldl_cons, ih, and_assoc]

theorem lawful_singleton {d : PeerMisbehaviorData} {e : PenaltyEvent} (h : ∀ hash, e ≠ .invalidHeader hash) :
    Lawful d [e] := ⟨fun hash heq => absurd heq (h hash), trivial⟩

theorem Lawful.count_le {events : List PenaltyEvent} {d : PeerMisbehaviorData} (h : Lawful d events)
    (hash : Uint256) :
    events.count (.invalidHeader hash) ≤ if hash.getHex ∈ d.invalidHeaderHashes then 0 else 1 := by
  induction events generalizing d with
  | nil => exact Nat.zero_le _
  | cons e events ih =>
    obtain ⟨hnew, hlawful⟩ := h
    have hrest := ih hlawful
    rw [List.count_cons]
    by_cases heq : e = .invalidHeader hash
    · subst heq
      have hnoted : hash.getHex ∈ (PenaltyEvent.apply d (.invalidHeader hash)).invalidHeaderHashes :=
        PenaltyEvent.mem_apply_invalidHeaderHashes.mpr (.inr ⟨hash, rfl, rfl⟩)
      rw [if_pos hnoted] at hrest
      rw [if_neg (hnew hash rfl)]
      simpa using hrest
    · have hsame : hash.getHex ∈ (e.apply d).invalidHeaderHashes ↔ hash.getHex ∈ d.invalidHeaderHashes := by
        rw [PenaltyEvent.mem_apply_invalidHeaderHashes, or_iff_left]
        rintro ⟨hash', rfl, hhex⟩
        have hinj : hash = hash' := by rw [← Uint256.setHex_getHex hash, hhex, Uint256.setHex_getHex]
        exact heq (hinj ▸ rfl)
      simp only [hsame] at hrest
      simpa [heq] using hrest

namespace PenaltyAccount

/-- A missing parent after these events is charged. -/
def Charges (a : PenaltyAccount) (events : List PenaltyEvent) : Prop :=
  (a.dataAfter (events ++ [.unconnecting])).misbehaviorScore ≠ (a.dataAfter events).misbehaviorScore

/-- The penalties of one connection. Between the messages that count for the penalty of a missing
parent, no message connects. -/
structure Proportionate (a : PenaltyAccount) : Prop where
  penalties : ∀ l e r, a.events = l ++ e :: r →
    (a.dataAfter (l ++ [e])).misbehaviorScore = (a.dataAfter l).misbehaviorScore + e.penalty ∨
      e = .unconnecting ∧ ¬ a.Charges l
  invalidHeader : ∀ hash, a.events.count (.invalidHeader hash) ≤ 1
  unconnecting : ∀ l r l' r', a.events = l ++ .unconnecting :: r → a.events = l' ++ .unconnecting :: r' →
    a.Charges l → a.Charges l' → l = l'
  earned : ∀ l r, a.events = l ++ .unconnecting :: r → a.Charges l → ∃ earlier since,
    l ++ [.unconnecting] = earlier ++ since ∧ .connecting ∉ since ∧
      MAX_UNCONNECTING_HEADERS ≤ since.count .unconnecting
  flag : ∀ l r, a.events = l ++ r → (a.dataAfter l).FlagOk

section
variable {a : PenaltyAccount} {events l r l' r' : List PenaltyEvent}

@[simp] theorem dataAfter_concat (a : PenaltyAccount) (events : List PenaltyEvent) (e : PenaltyEvent) :
    a.dataAfter (events ++ [e]) = e.apply (a.dataAfter events) := by
  simp [dataAfter]

theorem dataAfter_flagOk (a : PenaltyAccount) (events : List PenaltyEvent) : (a.dataAfter events).FlagOk := by
  induction events using List.reverseRecOn with
  | nil => simp [dataAfter, PeerMisbehaviorData.FlagOk, DISCOURAGEMENT_THRESHOLD]
  | append_singleton events e ih =>
    rw [dataAfter_concat]
    exact PenaltyEvent.apply_flagOk ih e

/-- The counter is at most the number of missing parents since the last message that connects. -/
theorem dataAfter_num_le (a : PenaltyAccount) (events : List PenaltyEvent) :
    ∃ earlier since, events = earlier ++ since ∧ .connecting ∉ since ∧
      (a.dataAfter events).numUnconnectingHeadersMsgs ≤ since.count .unconnecting := by
  induction events using List.reverseRecOn with
  | nil => exact ⟨[], [], rfl, List.not_mem_nil, le_rfl⟩
  | append_singleton events e ih =>
    obtain ⟨earlier, since, rfl, hsince, hnum⟩ := ih
    rw [dataAfter_concat]
    by_cases hconnects : e = .connecting
    · subst hconnects
      exact ⟨earlier ++ since ++ [.connecting], [], (List.append_nil _).symm, List.not_mem_nil, le_rfl⟩
    · refine ⟨earlier, since ++ [e], List.append_assoc _ _ _, ?_, ?_⟩
      · simp [hsince, Ne.symm hconnects]
      · rw [List.count_append]
        by_cases hcount : e = .unconnecting
        · subst hcount
          have hstep := PeerMisbehaviorData.incrementUnconnecting_num_le (d := a.dataAfter (earlier ++ since))
          simp only [PenaltyEvent.apply, List.count_singleton_self]
          omega
        · rw [PenaltyEvent.apply_num _ hcount hconnects]
          omega

theorem dataAfter_penalized (a : PenaltyAccount) (events events' : List PenaltyEvent)
    (h : (a.dataAfter events).unconnectingPenalized = true) :
    (a.dataAfter (events ++ events')).unconnectingPenalized = true := by
  induction events' using List.reverseRecOn with
  | nil => rwa [List.append_nil]
  | append_singleton events' e ih =>
    rw [← List.append_assoc, dataAfter_concat]
    exact PenaltyEvent.apply_penalized ih e

theorem charges_iff : a.Charges l ↔ (a.dataAfter l).unconnectingPenalized = false ∧
    MAX_UNCONNECTING_HEADERS ≤ (a.dataAfter l).numUnconnectingHeadersMsgs + 1 := by
  unfold Charges
  rw [dataAfter_concat]
  exact PeerMisbehaviorData.incrementUnconnecting_charges

/-- Of two charges, neither is later than the other. -/
theorem Charges.length_le (h : a.events = l ++ .unconnecting :: r) (h' : a.events = l' ++ .unconnecting :: r')
    (hl : a.Charges l) (hl' : a.Charges l') : l'.length ≤ l.length := by
  by_contra hlt
  rw [not_le] at hlt
  have hearlier : l ++ [.unconnecting] <+: a.events := ⟨r, by rw [h]; simp⟩
  have hlater : l' <+: a.events := ⟨_, h'.symm⟩
  obtain ⟨between, rfl⟩ := List.prefix_of_prefix_length_le hearlier hlater (by simpa using hlt)
  have hlatched : (a.dataAfter (l ++ [.unconnecting])).unconnectingPenalized = true := by
    rw [dataAfter_concat]
    refine PeerMisbehaviorData.incrementUnconnecting_penalized ?_
    have := hl
    unfold Charges at this
    rwa [dataAfter_concat] at this
  have hstill := a.dataAfter_penalized _ between hlatched
  rw [(charges_iff.mp hl').1] at hstill
  cases hstill

/-- What a lawful account owes is proportionate. -/
theorem proportionate (h : Lawful (a.dataAfter []) a.events) : a.Proportionate where
  penalties l e r _ := by
    rw [dataAfter_concat]
    rcases PenaltyEvent.apply_score (a.dataAfter l) e with hcharged | ⟨rfl, hfree⟩
    · exact .inl hcharged
    · refine .inr ⟨rfl, fun hcharges => hcharges ?_⟩
      rw [dataAfter_concat, hfree]
  invalidHeader hash := h.count_le hash
  unconnecting l r l' r' hl hl' hcharges hcharges' := by
    have h1 := hcharges.length_le hl hl' hcharges'
    have h2 := hcharges'.length_le hl' hl hcharges
    exact (List.append_inj (hl.symm.trans hl') (by omega)).1
  earned l r _ hcharges := by
    obtain ⟨earlier, since, rfl, hsince, hnum⟩ := a.dataAfter_num_le l
    have hmany := (charges_iff.mp hcharges).2
    refine ⟨earlier, since ++ [.unconnecting], List.append_assoc _ _ _, ?_, ?_⟩
    · simp [hsince]
    · rw [List.count_append, List.count_singleton_self]
      push_cast
      omega
  flag l r _ := a.dataAfter_flagOk l

end

end PenaltyAccount

namespace NetworkManager

/-! ## What a call does to the entries -/

/-- Each entry that is left was there before, with the data of one peer changed. -/
def Changed (peerId : Int) (f : PeerMisbehaviorData → PeerMisbehaviorData) (s s' : NetworkManager) : Prop :=
  ∀ (id : Int) (d' : PeerTrackingData), s'.peerStates[id]? = some d' → ∃ d, s.peerStates[id]? = some d ∧
    d'.misbehavior = if id = peerId then f d.misbehavior else d.misbehavior

theorem Changed.trans {peerId : Int} {f g : PeerMisbehaviorData → PeerMisbehaviorData} {s s' s'' : NetworkManager}
    (h1 : Changed peerId f s s') (h2 : Changed peerId g s' s'') :
    Changed peerId (g ∘ f) s s'' := fun id d'' hd => by
  obtain ⟨d', hd', heq'⟩ := h2 id d'' hd
  obtain ⟨d, hd, heq⟩ := h1 id d' hd'
  refine ⟨d, hd, ?_⟩
  rw [heq', heq]
  split <;> rfl

theorem changed_modifyMisbehavior (s : NetworkManager) (peerId : Int)
    (f : PeerMisbehaviorData → PeerMisbehaviorData) : Changed peerId f s (s.modifyMisbehavior peerId f) :=
  fun id d' hd => by
    unfold modifyMisbehavior at hd
    rw [Std.ExtTreeMap.getElem?_modify] at hd
    split at hd
    · rename_i heq
      obtain rfl := Std.compare_eq_iff_eq.mp heq
      obtain ⟨d, hget, rfl⟩ := Option.map_eq_some_iff.mp hd
      exact ⟨d, hget, (if_pos rfl).symm⟩
    · rename_i hne
      refine ⟨d', hd, ?_⟩
      rw [if_neg]
      rintro rfl
      exact hne Std.compare_self

/-- The data of one peer are what the events make of them. -/
def Charged (peerId : Int) (events : List PenaltyEvent) : NetworkManager → NetworkManager → Prop :=
  Changed peerId fun d => events.foldl PenaltyEvent.apply d

/-- `processBatch` once a missing parent is counted. -/
def checkedBatch (getHash : CBlockHeader → Uint256) (params : ConsensusParams) (env : NetEnv) (s : NetworkManager)
    (p : PeerPtr) (peerId : Int) (skipDos prevExists : Bool) (first : CBlockHeader) (headers : List CBlockHeader) :
    NetworkManager × Bool :=
  if !s.chainstate.checkHeadersPoW env.toEnv headers then ((s.reportInvalidPoW peerId).dropBatch env peerId, false)
  else if !checkHeadersAreContinuous getHash headers then
    ((s.reportNonContinuousHeaders peerId).dropBatch env peerId, false)
  else
    let s := if prevExists then s.resetUnconnectingHeaders peerId else s
    if !skipDos && s.isLowWork params headers first then
      (if headers.length = MAX_HEADERS_SIZE then s.requestHeadersFromPeer env p else s, true)
    else s.acceptBatch getHash params env p peerId skipDos headers

theorem processBatch_eq (getHash : CBlockHeader → Uint256) (params : ConsensusParams) (env : NetEnv)
    (s : NetworkManager) (p : PeerPtr) (peerId : Int) (skipDos : Bool) (first : CBlockHeader)
    (headers : List CBlockHeader) :
    s.processBatch getHash params env p peerId skipDos first headers =
      (if decide (first.hashPrevBlock ∈ s.chainstate.blockIndex) = true then s
        else (s.incrementUnconnectingHeaders peerId).removeIfMisbehaving env peerId).checkedBatch getHash params env
          p peerId skipDos (decide (first.hashPrevBlock ∈ s.chainstate.blockIndex)) first headers := rfl

namespace Charged

section
variable {peerId id : Int} {events events' : List PenaltyEvent} {s s' s'' : NetworkManager}

theorem of_eq (h : s'.peerStates = s.peerStates) : Charged peerId [] s s' := fun id d' hd =>
  ⟨d', h ▸ hd, by simp⟩

theorem refl (s : NetworkManager) : Charged peerId [] s s := of_eq rfl

theorem trans (h1 : Charged peerId events s s') (h2 : Charged peerId events' s' s'') :
    Charged peerId (events ++ events') s s'' := by
  have hboth := Changed.trans h1 h2
  unfold Charged
  simp only [List.foldl_append]
  exact hboth

/-- A peer without an entry cannot be charged. -/
theorem of_absent (h : Charged peerId events s s') (habsent : peerId ∉ s.peerStates) :
    Charged peerId events' s s' := fun id d' hd => by
  obtain ⟨d, hget, heq⟩ := h id d' hd
  have hne : id ≠ peerId := by
    rintro rfl
    exact habsent (Std.ExtTreeMap.mem_iff_isSome_getElem?.mpr (by rw [hget]; rfl))
  exact ⟨d, hget, by rw [heq, if_neg hne, if_neg hne]⟩

theorem silent (h1 : Charged peerId events s s') (h2 : Charged peerId [] s' s'') : Charged peerId events s s'' :=
  List.append_nil events ▸ h1.trans h2

theorem foldl {α : Type*} {f : NetworkManager → α → NetworkManager} (hf : ∀ s a, Charged peerId [] s (f s a)) :
    ∀ (l : List α) (s : NetworkManager), Charged peerId [] s (l.foldl f s)
  | [], s => refl s
  | a :: l, s => (hf s a).trans (foldl hf l (f s a))

theorem erase (h : s'.peerStates = s.peerStates.erase id) : Charged peerId [] s s' := fun id' d' hd => by
  rw [h, Std.ExtTreeMap.getElem?_erase] at hd
  split at hd
  · cases hd
  · exact ⟨d', hd, by simp⟩

theorem removePeer (env : NetEnv) (s : NetworkManager) (id : Int) : Charged peerId [] s (s.removePeer env id) := by
  cases hd : s.peerStates[id]? with
  | none =>
    unfold NetworkManager.removePeer
    rw [hd]
    exact refl s
  | some d =>
    cases hpeer : s.peerOf d with
    | none =>
      unfold NetworkManager.removePeer
      simp only [hd, hpeer]
      exact refl s
    | some peer => exact erase (removePeer_peerStates hd hpeer)

theorem removeIfMisbehaving (env : NetEnv) (s : NetworkManager) (id : Int) :
    Charged peerId [] s (s.removeIfMisbehaving env id) := by
  unfold NetworkManager.removeIfMisbehaving
  split
  · exact removePeer env s id
  · exact refl s

theorem dropBatch (env : NetEnv) (s : NetworkManager) (id : Int) : Charged peerId [] s (s.dropBatch env id) :=
  (removeIfMisbehaving env s id).trans (of_eq rfl)

/-! ## Messages -/

variable (getHash : CBlockHeader → Uint256) (params : ConsensusParams) (env : NetEnv)

theorem requestHeadersFromPeer (s : NetworkManager) (p : PeerPtr) :
    Charged peerId [] s (s.requestHeadersFromPeer env p) := by
  unfold NetworkManager.requestHeadersFromPeer
  split
  · exact of_eq rfl
  · exact refl s

theorem penaliseHeader (s : NetworkManager) (hash : Uint256) :
    Charged peerId (s.penaliseEvents peerId hash) s (s.penaliseHeader env peerId hash).1 := by
  unfold NetworkManager.penaliseHeader penaliseEvents
  split
  · exact refl s
  · have hreport : Charged peerId [.invalidHeader hash] s
        ((s.reportInvalidHeader peerId).noteInvalidHeaderHash peerId hash) :=
      (changed_modifyMisbehavior s peerId _).trans (changed_modifyMisbehavior _ peerId _)
    exact hreport.silent (dropBatch env _ peerId)

theorem handleRefused (s : NetworkManager) (skipDos : Bool) (header : CBlockHeader) (reason : String) :
    Charged peerId (s.refusedEvents getHash params env peerId skipDos header reason) s
      (s.handleRefused getHash params env peerId skipDos header reason).1 := by
  unfold NetworkManager.handleRefused refusedEvents
  dsimp only
  split
  · rcases s.chainstate.addOrphanHeader getHash params env.toEnv header peerId with ⟨chain, _ | _⟩
    · have hreport : Charged peerId [.tooManyOrphans] { s with chainstate := chain }
          (({ s with chainstate := chain } : NetworkManager).reportTooManyOrphans peerId) :=
        changed_modifyMisbehavior _ peerId _
      exact ((of_eq rfl).trans hreport).silent (dropBatch env _ peerId)
    · exact of_eq rfl
  split
  · cases skipDos with
    | true => exact refl s
    | false =>
      simp only [Bool.false_or, Bool.false_eq_true, if_false]
      split
      · exact refl s
      · exact penaliseHeader env s _
  split
  · exact penaliseHeader env s _
  · exact of_eq rfl

theorem acceptHeader (s : NetworkManager) (skipDos : Bool) (header : CBlockHeader) :
    Charged peerId (s.headerEvents getHash params env peerId skipDos header) s
      (s.acceptHeader getHash params env peerId skipDos header).1 := by
  unfold NetworkManager.acceptHeader headerEvents
  rcases s.chainstate.acceptBlockHeader getHash params env.toEnv header true with ⟨chain, state | pindex⟩
  · exact ((of_eq rfl).trans (handleRefused getHash params env { s with chainstate := chain } skipDos header _) :)
  · exact of_eq rfl

theorem acceptHeaders (skipDos : Bool) : ∀ (headers : List CBlockHeader) (s : NetworkManager),
    Charged peerId (acceptEvents getHash params env peerId skipDos headers s) s
      (acceptHeaders getHash params env peerId skipDos headers s).1
  | [], s => refl s
  | header :: rest, s => by
    have hstep : Charged peerId (s.headerEvents getHash params env peerId skipDos header) s
        (s.acceptHeader getHash params env peerId skipDos header).1 :=
        acceptHeader getHash params env s skipDos header
    unfold NetworkManager.acceptHeaders acceptEvents
    generalize s.acceptHeader getHash params env peerId skipDos header = r at hstep ⊢
    obtain ⟨s', _ | _⟩ := r
    · dsimp only
      rwa [List.append_nil]
    · exact hstep.trans (acceptHeaders skipDos rest s')

theorem finishBatch (s : NetworkManager) (p : PeerPtr) : Charged peerId [] s (s.finishBatch params env p).1 := by
  unfold NetworkManager.finishBatch
  split
  · exact of_eq rfl
  · dsimp only
    split
    · exact (of_eq rfl).trans (requestHeadersFromPeer env _ p)
    · exact of_eq rfl

theorem checkedBatch (s : NetworkManager) (p : PeerPtr) (skipDos prevExists : Bool) (first : CBlockHeader)
    (headers : List CBlockHeader) :
    Charged peerId (s.checkedEvents getHash params env peerId skipDos prevExists first headers) s
      (s.checkedBatch getHash params env p peerId skipDos prevExists first headers).1 := by
  unfold NetworkManager.checkedBatch checkedEvents
  split
  · have hreport : Charged peerId [.invalidPoW] s (s.reportInvalidPoW peerId) :=
      changed_modifyMisbehavior s peerId _
    exact hreport.silent (dropBatch env _ peerId)
  split
  · have hreport : Charged peerId [.nonContinuousHeaders] s (s.reportNonContinuousHeaders peerId) :=
      changed_modifyMisbehavior s peerId _
    exact hreport.silent (dropBatch env _ peerId)
  have hreset : Charged peerId (if prevExists = true then [.connecting] else []) s
      (if prevExists = true then s.resetUnconnectingHeaders peerId else s) := by
    split
    · exact changed_modifyMisbehavior s peerId _
    · exact refl s
  generalize (if prevExists = true then s.resetUnconnectingHeaders peerId else s) = s1 at hreset ⊢
  dsimp only
  refine hreset.trans ?_
  split
  · split
    · exact requestHeadersFromPeer env s1 p
    · exact refl s1
  · have haccept : Charged peerId (acceptEvents getHash params env peerId skipDos headers
          { s1 with lastBatchSize := headers.length }) { s1 with lastBatchSize := headers.length } _ :=
      acceptHeaders getHash params env skipDos headers _
    unfold acceptBatch
    generalize NetworkManager.acceptHeaders getHash params env peerId skipDos headers
      { s1 with lastBatchSize := headers.length } = r at haccept ⊢
    obtain ⟨s2, _ | _⟩ := r
    · exact (of_eq rfl).trans haccept
    · exact ((of_eq rfl).trans haccept).silent (finishBatch params env s2 p)

theorem processBatch (s : NetworkManager) (p : PeerPtr) (skipDos : Bool) (first : CBlockHeader)
    (headers : List CBlockHeader) :
    Charged peerId (s.batchEvents getHash params env peerId skipDos first headers) s
      (s.processBatch getHash params env p peerId skipDos first headers).1 := by
  rw [processBatch_eq]
  unfold batchEvents
  by_cases hprev : first.hashPrevBlock ∈ s.chainstate.blockIndex
  · simp only [if_pos hprev, decide_eq_true hprev, if_true]
    exact checkedBatch getHash params env s p skipDos true first headers
  · simp only [if_neg hprev, decide_eq_false hprev, Bool.false_eq_true, if_false]
    have hcount : Charged peerId [.unconnecting] s
        ((s.incrementUnconnectingHeaders peerId).removeIfMisbehaving env peerId) :=
      silent (changed_modifyMisbehavior s peerId _) (removeIfMisbehaving env _ peerId)
    generalize (s.incrementUnconnectingHeaders peerId).removeIfMisbehaving env peerId = s1 at hcount ⊢
    have hchecked : Charged peerId _ s1 _ := checkedBatch getHash params env s1 p skipDos false first headers
    split
    · exact hcount.trans hchecked
    · exact hcount.trans (hchecked.of_absent ‹_›)

theorem processHeaders (s : NetworkManager) (p : PeerPtr) (headers : List CBlockHeader) :
    Charged peerId (s.processEvents getHash params env peerId headers) s
      (s.processHeaders getHash params env p peerId headers).1 := by
  unfold NetworkManager.processHeaders processEvents
  cases headers with
  | nil => exact of_eq rfl
  | cons first rest =>
    dsimp only
    have hstart : Charged peerId [] s { s with lastHeadersReceivedUs := env.nowUs } := of_eq rfl
    have hall : Charged peerId (if MAX_HEADERS_SIZE < (first :: rest).length then [.oversizedMessage]
        else batchEvents getHash params env { s with lastHeadersReceivedUs := env.nowUs } peerId
          (s.skipDosChecks getHash (first :: rest)) first (first :: rest))
        { s with lastHeadersReceivedUs := env.nowUs } (if MAX_HEADERS_SIZE < (first :: rest).length then
          ((({ s with lastHeadersReceivedUs := env.nowUs } : NetworkManager).reportOversizedMessage
            peerId).dropBatch env peerId, false)
        else NetworkManager.processBatch getHash params env { s with lastHeadersReceivedUs := env.nowUs } p peerId
          (s.skipDosChecks getHash (first :: rest)) first (first :: rest)).1 := by
      split
      · exact silent (changed_modifyMisbehavior _ peerId _) (dropBatch env _ peerId)
      · exact processBatch getHash params env _ p _ first _
    by_cases hmem : peerId ∈ s.peerStates
    · rw [if_neg (not_not_intro hmem)]
      exact hstart.trans hall
    · rw [if_pos hmem]
      exact hstart.trans (hall.of_absent hmem)

theorem handleHeadersMessage (s : NetworkManager) (p : PeerPtr) (peer : Peer) (headers : List CBlockHeader) :
    Charged peer.id (s.headersEvents getHash params env peer.id headers) s
      (s.handleHeadersMessage getHash params env p peer headers).1 := by
  unfold NetworkManager.handleHeadersMessage headersEvents
  have hstart : Charged peer.id [] s (s.isInitialBlockDownload params env).1 := of_eq rfl
  generalize s.isInitialBlockDownload params env = r at hstart ⊢
  obtain ⟨s1, _ | _⟩ := r
  · exact hstart.trans (processHeaders getHash params env s1 p headers)
  · dsimp only
    split
    · exact hstart
    · exact hstart.trans (processHeaders getHash params env s1 p headers)

end

end Charged

/-! ## No hash is charged again -/

section
variable (getHash : CBlockHeader → Uint256) (params : ConsensusParams) (env : NetEnv)
  {s : NetworkManager} {peerId : Int} {d : PeerTrackingData}

theorem penaliseEvents_lawful (hd : s.peerStates[peerId]? = some d) (hash : Uint256) :
    Lawful d.misbehavior (s.penaliseEvents peerId hash) := by
  unfold penaliseEvents hasInvalidHeaderHash
  rw [hd]
  split
  · exact trivial
  · rename_i hnew
    refine ⟨fun hash' heq => ?_, trivial⟩
    cases heq
    simpa using hnew

theorem refusedEvents_lawful (hd : s.peerStates[peerId]? = some d) (skipDos : Bool) (header : CBlockHeader)
    (reason : String) : Lawful d.misbehavior (s.refusedEvents getHash params env peerId skipDos header reason) := by
  unfold refusedEvents
  dsimp only
  split
  · split
    · exact trivial
    · exact lawful_singleton fun _ => nofun
  split
  · split
    · exact trivial
    · exact penaliseEvents_lawful hd _
  split
  · exact penaliseEvents_lawful hd _
  · exact trivial

theorem headerEvents_lawful (hd : s.peerStates[peerId]? = some d) (skipDos : Bool) (header : CBlockHeader) :
    Lawful d.misbehavior (s.headerEvents getHash params env peerId skipDos header) := by
  unfold headerEvents
  split
  · exact trivial
  · rename_i chain state _
    have hchain : ({ s with chainstate := chain } : NetworkManager).peerStates[peerId]? = some d := hd
    exact refusedEvents_lawful getHash params env hchain skipDos header state.rejectReason

theorem penaliseHeader_true {hash : Uint256} (h : (s.penaliseHeader env peerId hash).2 = true) :
    s.penaliseEvents peerId hash = [] ∧ (s.penaliseHeader env peerId hash).1.peerStates = s.peerStates := by
  unfold penaliseHeader penaliseEvents at *
  split
  · exact ⟨rfl, rfl⟩
  · rename_i hnew
    rw [if_neg hnew] at h
    cases h

theorem handleRefused_true {skipDos : Bool} {header : CBlockHeader} {reason : String}
    (h : (s.handleRefused getHash params env peerId skipDos header reason).2 = true) :
    s.refusedEvents getHash params env peerId skipDos header reason = [] ∧
      (s.handleRefused getHash params env peerId skipDos header reason).1.peerStates = s.peerStates := by
  revert h
  unfold handleRefused refusedEvents
  dsimp only
  split
  · rcases s.chainstate.addOrphanHeader getHash params env.toEnv header peerId with ⟨chain, _ | _⟩
    · exact fun h => nomatch h
    · exact fun _ => ⟨rfl, rfl⟩
  split
  · cases skipDos with
    | true => exact fun _ => ⟨rfl, rfl⟩
    | false =>
      simp only [Bool.false_or, Bool.false_eq_true, if_false]
      split
      · exact fun _ => ⟨rfl, rfl⟩
      · exact penaliseHeader_true env
  split
  · exact penaliseHeader_true env
  · exact fun h => nomatch h

/-- The accept loop goes on only if a round has reported nothing. -/
theorem acceptHeader_true {skipDos : Bool} {header : CBlockHeader} 
    (h : (s.acceptHeader getHash params env peerId skipDos header).2 = true) :
    s.headerEvents getHash params env peerId skipDos header = [] ∧
      (s.acceptHeader getHash params env peerId skipDos header).1.peerStates = s.peerStates := by
  revert h
  unfold acceptHeader headerEvents
  rcases s.chainstate.acceptBlockHeader getHash params env.toEnv header true with ⟨chain, state | pindex⟩
  · exact handleRefused_true getHash params env
  · exact fun _ => ⟨rfl, rfl⟩

theorem acceptEvents_lawful (skipDos : Bool) : ∀ (headers : List CBlockHeader) {s : NetworkManager},
    s.peerStates[peerId]? = some d →
      Lawful d.misbehavior (acceptEvents getHash params env peerId skipDos headers s)
  | [], _, _ => trivial
  | header :: rest, s, hd => by
    unfold acceptEvents
    rw [lawful_append]
    refine ⟨headerEvents_lawful getHash params env hd skipDos header, ?_⟩
    cases hr : s.acceptHeader getHash params env peerId skipDos header with
    | mk s' more =>
      cases more with
      | false => exact trivial
      | true =>
        obtain ⟨hnone, hsame⟩ := acceptHeader_true getHash params env (by rw [hr] :
          (s.acceptHeader getHash params env peerId skipDos header).2 = true)
        rw [hr] at hsame
        rw [hnone]
        exact acceptEvents_lawful skipDos rest (hsame ▸ hd)

theorem checkedEvents_lawful (hd : s.peerStates[peerId]? = some d) (skipDos prevExists : Bool)
    (first : CBlockHeader)
    (headers : List CBlockHeader) :
    Lawful d.misbehavior (s.checkedEvents getHash params env peerId skipDos prevExists first headers) := by
  unfold checkedEvents
  split
  · exact lawful_singleton fun _ => nofun
  split
  · exact lawful_singleton fun _ => nofun
  rw [lawful_append]
  dsimp only
  cases prevExists with
  | true =>
    refine ⟨lawful_singleton fun _ => nofun, ?_⟩
    have hreset : ({ s.resetUnconnectingHeaders peerId with lastBatchSize := headers.length } :
        NetworkManager).peerStates[peerId]? = some (d.mapMisbehavior PeerMisbehaviorData.resetUnconnecting) := by
      unfold resetUnconnectingHeaders modifyMisbehavior
      rw [Std.ExtTreeMap.getElem?_modify_self, hd]
      rfl
    simp only [if_true]
    split
    · exact trivial
    · exact acceptEvents_lawful getHash params env skipDos headers hreset
  | false =>
    refine ⟨trivial, ?_⟩
    simp only [Bool.false_eq_true, if_false]
    split
    · exact trivial
    · exact acceptEvents_lawful getHash params env skipDos headers hd

theorem batchEvents_lawful (hd : s.peerStates[peerId]? = some d) (skipDos : Bool) (first : CBlockHeader)
    (headers : List CBlockHeader) :
    Lawful d.misbehavior (s.batchEvents getHash params env peerId skipDos first headers) := by
  unfold batchEvents
  split
  · exact checkedEvents_lawful getHash params env hd skipDos true first headers
  · have hcount : Charged peerId [.unconnecting] s
        ((s.incrementUnconnectingHeaders peerId).removeIfMisbehaving env peerId) :=
      Charged.silent (changed_modifyMisbehavior s peerId _) (.removeIfMisbehaving env _ peerId)
    dsimp only
    generalize (s.incrementUnconnectingHeaders peerId).removeIfMisbehaving env peerId = s1 at hcount ⊢
    refine ⟨fun _ => nofun, ?_⟩
    split
    · rename_i hmem
      obtain ⟨d1, hd1⟩ := Option.isSome_iff_exists.mp (Std.ExtTreeMap.mem_iff_isSome_getElem?.mp hmem)
      obtain ⟨d0, hd0, hdata⟩ := hcount peerId d1 hd1
      obtain rfl := Option.some.inj (hd.symm.trans hd0)
      have hlawful := checkedEvents_lawful getHash params env hd1 skipDos false first headers
      rwa [hdata, if_pos rfl] at hlawful
    · exact trivial

theorem processEvents_lawful (hd : s.peerStates[peerId]? = some d) (headers : List CBlockHeader) :
    Lawful d.misbehavior (s.processEvents getHash params env peerId headers) := by
  unfold processEvents
  cases headers with
  | nil => exact trivial
  | cons first rest =>
    dsimp only
    split
    · exact trivial
    split
    · exact lawful_singleton fun _ => nofun
    · have hstart : ({ s with lastHeadersReceivedUs := env.nowUs } : NetworkManager).peerStates[peerId]? =
        some d := hd
      exact batchEvents_lawful getHash params env hstart _ first _

theorem headersEvents_lawful (hd : s.peerStates[peerId]? = some d) (headers : List CBlockHeader) :
    Lawful d.misbehavior (s.headersEvents getHash params env peerId headers) := by
  unfold headersEvents
  have hstart : (s.isInitialBlockDownload params env).1.peerStates[peerId]? = some d := hd
  generalize s.isInitialBlockDownload params env = r at hstart ⊢
  obtain ⟨s1, _ | _⟩ := r
  · exact processEvents_lawful getHash params env hstart headers
  · dsimp only
    split
    · exact trivial
    · exact processEvents_lawful getHash params env hstart headers

theorem processEvents_absent (habsent : peerId ∉ s.peerStates) (headers : List CBlockHeader) :
    s.processEvents getHash params env peerId headers = [] := by
  unfold processEvents
  cases headers with
  | nil => rfl
  | cons first rest => exact if_pos habsent

theorem headersEvents_absent (habsent : peerId ∉ s.peerStates) (headers : List CBlockHeader) :
    s.headersEvents getHash params env peerId headers = [] := by
  unfold headersEvents
  have hstart : peerId ∉ (s.isInitialBlockDownload params env).1.peerStates := habsent
  generalize s.isInitialBlockDownload params env = r at hstart ⊢
  obtain ⟨s1, _ | _⟩ := r
  · exact processEvents_absent getHash params env hstart headers
  · dsimp only
    split
    · rfl
    · exact processEvents_absent getHash params env hstart headers

end

/-! ## Other calls -/

section
variable {peerId : Int} {env : NetEnv} {s s' s'' : NetworkManager}

theorem Charged.handleInvMessage (params : ConsensusParams) (env : NetEnv) (s : NetworkManager) (p : PeerPtr)
    (peer : Peer)
    (inventory : List InventoryVector) :
    Charged peerId [] s (s.handleInvMessage params env p peer inventory) := by
  have hloop : ∀ (l : List InventoryVector) (s : NetworkManager),
      (processInventory params env p peer l s).1.peerStates = s.peerStates := by
    intro l
    induction l with
    | nil => exact fun _ => rfl
    | cons inv rest ih =>
      intro s
      unfold processInventory
      split
      · exact ih s
      · have hibd : (s.isInitialBlockDownload params env).1.peerStates = s.peerStates := rfl
        generalize s.isInitialBlockDownload params env = r at hibd ⊢
        obtain ⟨s1, _ | _⟩ := r
        · exact hibd
        · dsimp only
          split
          · split
            · exact hibd
            · exact (ih s1).trans hibd
          · split
            · exact hibd
            · exact (ih s1).trans hibd
  unfold NetworkManager.handleInvMessage
  have hinventory := hloop inventory s
  generalize processInventory params env p peer inventory s = r at hinventory ⊢
  obtain ⟨s1, _ | _⟩ := r
  · exact of_eq hinventory
  · exact ((of_eq hinventory).trans (of_eq rfl)).trans (requestHeadersFromPeer env _ p)

theorem Charged.checkInitialSync (env : NetEnv) (s : NetworkManager) :
    Charged peerId [] s (s.checkInitialSync env) := by
  unfold NetworkManager.checkInitialSync
  split
  · exact refl s
  split
  · exact refl s
  · exact (of_eq rfl).trans (requestHeadersFromPeer env _ _)

theorem Charged.processTimers (env : NetEnv) (s : NetworkManager) : Charged peerId [] s (s.processTimers env) := by
  unfold NetworkManager.processTimers
  split
  · exact removePeer env s _
  · exact refl s

/-- No object is added, and the next id stays. -/
def SameStore (s s' : NetworkManager) : Prop := s'.peers.length = s.peers.length ∧ s'.nextPeerId = s.nextPeerId

theorem SameStore.refl (s : NetworkManager) : SameStore s s := ⟨rfl, rfl⟩

theorem SameStore.trans (h1 : SameStore s s') (h2 : SameStore s' s'') : SameStore s s'' :=
  ⟨h2.1.trans h1.1, h2.2.trans h1.2⟩

theorem sameStore_modifyPeer (s : NetworkManager) (p : PeerPtr) (f : Peer → Peer) :
    SameStore s (s.modifyPeer p f) :=
  ⟨List.length_modify .., rfl⟩

theorem sameStore_discourageMisbehaving (env : NetEnv) (s : NetworkManager) (d : PeerMisbehaviorData) :
    SameStore s (s.discourageMisbehaving env d) := by
  unfold discourageMisbehaving
  split
  · cases env.validateAndNormalizeIP d.address with
    | none => exact .refl s
    | some normalized =>
      simp only [Option.elim, discourage]
      split <;> exact ⟨rfl, rfl⟩
  · exact .refl s

theorem sameStore_notifyPeerDisconnected (s : NetworkManager) (id : Int) (e : PeerEvent) :
    SameStore s (s.notifyPeerDisconnected id e) := by
  unfold notifyPeerDisconnected onPeerDisconnected
  split
  · exact List.foldlRecOn (motive := SameStore s) _ _ ⟨rfl, rfl⟩ fun t h p _ => h.trans (sameStore_modifyPeer t p _)
  · exact ⟨rfl, rfl⟩

theorem sameStore_removePeer (env : NetEnv) (s : NetworkManager) (id : Int) :
    SameStore s (s.removePeer env id) := by
  unfold removePeer
  split
  · exact .refl s
  rename_i d _
  split
  · exact .refl s
  dsimp only
  have hdiscourage := sameStore_discourageMisbehaving env s d.misbehavior
  generalize s.discourageMisbehaving env d.misbehavior = s1 at hdiscourage ⊢
  refine hdiscourage.trans (.trans ?_ (sameStore_modifyPeer _ _ _))
  split
  · exact ⟨rfl, rfl⟩
  · exact .trans ⟨rfl, rfl⟩ (sameStore_notifyPeerDisconnected _ _ _)

theorem sameStore_evictInboundPeer (env : NetEnv) (s : NetworkManager) :
    Charged peerId [] s (s.evictInboundPeer env).1 ∧ SameStore s (s.evictInboundPeer env).1 := by
  unfold evictInboundPeer
  split
  · exact ⟨.refl s, .refl s⟩
  dsimp only
  split
  · exact ⟨.removePeer env s _, sameStore_removePeer env s _⟩
  · exact ⟨.refl s, .refl s⟩

theorem addPeer_cases (config : PeerConfig) (env : NetEnv) (s : NetworkManager) (peer : Peer)
    (permissions : NetPermissionFlags) (address : String) :
    ∃ t, Charged peerId [] s t ∧ SameStore s t ∧
      ((s.addPeer config env peer permissions address).1 = t ∨
        (s.addPeer config env peer permissions address).1 =
          t.insertPeer env peer permissions (if address = "" then peer.address else address)) := by
  have hsame : Charged peerId [] s s ∧ SameStore s s := ⟨.refl s, .refl s⟩
  unfold addPeer
  dsimp only
  generalize (if address = "" then peer.address else address) = peerAddress
  split
  · exact ⟨s, hsame.1, hsame.2, .inl rfl⟩
  split
  · exact ⟨s, hsame.1, hsame.2, .inl rfl⟩
  split
  · exact ⟨s, hsame.1, hsame.2, .inl rfl⟩
  split
  · exact ⟨s, hsame.1, hsame.2, .inr rfl⟩
  have hroom : Charged peerId [] s (s.makeRoom config env).1 ∧ SameStore s (s.makeRoom config env).1 := by
    unfold makeRoom
    split
    · exact hsame
    · have hevict : Charged peerId [] s (s.evictInboundPeer env).1 ∧ SameStore s (s.evictInboundPeer env).1 :=
        sameStore_evictInboundPeer env s
      generalize s.evictInboundPeer env = r at hevict ⊢
      obtain ⟨t, _ | _⟩ := r <;> exact hevict
  generalize s.makeRoom config env = r at hroom ⊢
  obtain ⟨t, _ | _⟩ := r
  · exact ⟨t, hroom.1, hroom.2, .inl rfl⟩
  · dsimp only
    split
    · exact ⟨t, hroom.1, hroom.2, .inl rfl⟩
    · exact ⟨t, hroom.1, hroom.2, .inr rfl⟩

end

end NetworkManager

namespace AuditedManager

/-! ## Runs -/

structure Sound (s : AuditedManager) : Prop where
  lawful : ∀ id, Lawful ((s.accounts id).dataAfter []) (s.accounts id).events
  data : ∀ (id : Int) (d : PeerTrackingData), s.peerStates[id]? = some d →
    d.misbehavior = (s.accounts id).dataAfter (s.accounts id).events

section
variable {getHash : CBlockHeader → Uint256} {params : ConsensusParams} {config : PeerConfig} {s : AuditedManager}

/-- Events on the account and on the data of one peer. -/
theorem Sound.record (h : s.Sound) {peerId : Int} {events : List PenaltyEvent} {t : NetworkManager}
    (hcharged : NetworkManager.Charged peerId events s.toNetworkManager t)
    (hlawful : ∀ d, s.peerStates[peerId]? = some d → Lawful d.misbehavior events)
    (habsent : peerId ∉ s.peerStates → events = []) :
    Sound { toNetworkManager := t, accounts := s.recordEvents peerId events } := by
  refine ⟨fun id => ?_, fun id d' hd => ?_⟩
  · by_cases hid : id = peerId
    · subst hid
      simp only [recordEvents, Function.update_self]
      refine lawful_append.mpr ⟨h.lawful id, ?_⟩
      cases hget : s.peerStates[id]? with
      | none =>
        rw [habsent (by rw [Std.ExtTreeMap.mem_iff_isSome_getElem?, hget]; exact Bool.false_ne_true)]
        exact trivial
      | some d =>
        have hdata := hlawful d hget
        rw [h.data id d hget] at hdata
        exact hdata
    · simp only [recordEvents, Function.update_of_ne hid]
      exact h.lawful id
  · obtain ⟨d, hget, heq⟩ := hcharged id d' hd
    by_cases hid : id = peerId
    · subst hid
      simp only [recordEvents, Function.update_self]
      rw [heq, if_pos rfl, h.data id d hget]
      exact (List.foldl_append ..).symm
    · simp only [recordEvents, Function.update_of_ne hid]
      rw [heq, if_neg hid]
      exact h.data id d hget

theorem Sound.silent (h : s.Sound) {peerId : Int} {t : NetworkManager}
    (hcharged : NetworkManager.Charged peerId [] s.toNetworkManager t) :
    Sound { toNetworkManager := t, accounts := s.accounts } := by
  refine ⟨h.lawful, fun id d' hd => ?_⟩
  obtain ⟨d, hget, heq⟩ := hcharged id d' hd
  rw [heq, ← h.data id d hget]
  split <;> rfl

/-- A new entry has the data of a new account. -/
theorem Sound.insertPeer (h : s.Sound) (env : NetEnv) (peer : Peer) (permissions : NetPermissionFlags)
    (address : String) :
    Sound {
      toNetworkManager := s.toNetworkManager.insertPeer env peer permissions address
      accounts := Function.update s.accounts s.nextPeerId { permissions, address } } := by
  refine ⟨fun id => ?_, fun id d' hd => ?_⟩
  · by_cases hid : id = s.nextPeerId
    · subst hid
      simp only [Function.update_self]
      exact trivial
    · simp only [Function.update_of_ne hid]
      exact h.lawful id
  · simp only [NetworkManager.insertPeer] at hd
    rw [Std.ExtTreeMap.getElem?_insert] at hd
    split at hd
    · rename_i heq
      obtain rfl := Std.compare_eq_iff_eq.mp heq
      cases hd
      simp only [Function.update_self]
      rfl
    · rename_i hne
      have hid : id ≠ s.nextPeerId := by
        rintro rfl
        exact hne Std.compare_self
      simp only [Function.update_of_ne hid]
      exact h.data id d' hd

theorem Sound.addPeer (h : s.Sound) (env : NetEnv) (peer : Peer) (permissions : NetPermissionFlags)
    (address : String) :
    Sound (s.step getHash params config (.net (.addPeer env peer permissions address))) := by
  obtain ⟨t, hcharged, hstore, hadd⟩ :
      ∃ t, NetworkManager.Charged 0 [] s.toNetworkManager t ∧ NetworkManager.SameStore s.toNetworkManager t ∧ _ :=
    NetworkManager.addPeer_cases config env s.toNetworkManager peer permissions address
  have hrest := h.silent hcharged
  rcases hadd with heq | heq
  · have hsize : ¬ s.peers.length < (s.addPeer config env peer permissions address).1.peers.length := by
      rw [heq, hstore.1]
      exact lt_irrefl _
    have haudit : s.audit getHash params config (.addPeer env peer permissions address) = s.accounts := if_neg hsize
    simp only [AuditedManager.step, NetworkManager.step, haudit, heq]
    exact hrest
  · have hsize : s.peers.length < (s.addPeer config env peer permissions address).1.peers.length := by
      rw [heq, ← hstore.1]
      simp [NetworkManager.insertPeer]
    have haudit : s.audit getHash params config (.addPeer env peer permissions address) = _ := if_pos hsize
    simp only [AuditedManager.step, NetworkManager.step, haudit, heq, ← hstore.2]
    exact hrest.insertPeer env peer permissions _

theorem Sound.handleHeaders (h : s.Sound) (env : NetEnv) (p : PeerPtr) (headers : List CBlockHeader) :
    Sound (s.step getHash params config (.net (.handleHeaders env p headers))) := by
  simp only [AuditedManager.step, NetworkManager.step, NetworkManager.dispatch, audit]
  cases s.peers[p]? with
  | none => exact h
  | some peer =>
    dsimp only
    split
    · exact h.record (.handleHeadersMessage getHash params env s.toNetworkManager p peer headers)
        (fun d hd => NetworkManager.headersEvents_lawful getHash params env hd headers)
        (fun habsent => NetworkManager.headersEvents_absent getHash params env habsent headers)
    · exact h.silent (.of_eq rfl : NetworkManager.Charged 0 [] _ _)

theorem Sound.step (h : s.Sound) (op : AuditedOp) : Sound (s.step getHash params config op) := by
  cases op with
  | reportOversizedMessage peerId =>
    have hreport : NetworkManager.Charged peerId [.oversizedMessage] s.toNetworkManager
        (s.toNetworkManager.reportOversizedMessage peerId) :=
      NetworkManager.changed_modifyMisbehavior s.toNetworkManager peerId _
    simp only [AuditedManager.step]
    split
    · exact h.record hreport (fun d _ => lawful_singleton fun _ => nofun) fun habsent => absurd ‹_› habsent
    · exact h.silent (hreport.of_absent ‹_›)
  | net op =>
    cases op with
    | addPeer env peer permissions address => exact h.addPeer env peer permissions address
    | handleHeaders env p headers => exact h.handleHeaders env p headers
    | removePeer env peerId =>
      exact h.silent (.removePeer env s.toNetworkManager peerId : NetworkManager.Charged 0 [] _ _)
    | processPeriodic env =>
      have hsweep : NetworkManager.Charged 0 [] s.toNetworkManager (s.toNetworkManager.processPeriodic env) :=
        .foldl (NetworkManager.Charged.removePeer env) _ _
      exact h.silent hsweep
    | checkInitialSync env =>
      exact h.silent (.checkInitialSync env s.toNetworkManager : NetworkManager.Charged 0 [] _ _)
    | processTimers env => exact h.silent (.processTimers env s.toNetworkManager : NetworkManager.Charged 0 [] _ _)
    | handleInv env p inventory =>
      have hinv : NetworkManager.Charged 0 [] s.toNetworkManager
          (s.toNetworkManager.dispatch p fun peer =>
            s.toNetworkManager.handleInvMessage params env p peer inventory) := by
        unfold NetworkManager.dispatch
        split
        · exact .refl _
        · split
          · exact .handleInvMessage params env _ p _ inventory
          · exact .of_eq rfl
      exact h.silent hinv
    | _ => exact h.silent (.of_eq rfl : NetworkManager.Charged 0 [] _ _)

theorem sound_fresh (chainstate : ChainstateManager) : Sound (fresh chainstate) where
  lawful id := trivial
  data id d hd := by simp [fresh, NetworkManager.fresh] at hd

/-- In every run, the penalties of every connection are proportionate, and they are what its
entry has. -/
theorem penalties_proportionate (chainstate : ChainstateManager) {s : AuditedManager}
    (hs : Run.Reaches (step getHash params config) (fun _ _ => True) (fresh chainstate) s) (id : Int) :
    (s.accounts id).Proportionate ∧ ∀ d, s.peerStates[id]? = some d →
      d.misbehavior = (s.accounts id).dataAfter (s.accounts id).events ∧
      (d.misbehavior.shouldDiscourage = true ↔
        DISCOURAGEMENT_THRESHOLD ≤ d.misbehavior.misbehaviorScore ∧ d.misbehavior.noBan = false) := by
  have hsound : s.Sound := hs.invariant (sound_fresh chainstate) fun s op h _ => h.step op
  refine ⟨PenaltyAccount.proportionate (hsound.lawful id), fun d hd => ?_⟩
  have hdata := hsound.data id d hd
  refine ⟨hdata, ?_⟩
  have hflag := (s.accounts id).dataAfter_flagOk (s.accounts id).events
  rwa [← hdata] at hflag

end

/-- A peer whose headers have no known parent, and a node that has its first block only. -/
def strayOps : List AuditedOp :=
  [.net (.chain (.setup (nonceHeader 0 1))), .net (.addPeer {} NetworkManager.outboundPeer 0 ""),
    .net (.handleVerack 0)] ++
    List.replicate 11 (.net (.handleHeaders {} 0 [nonceHeader 7 8]))

def strays : AuditedManager :=
  strayOps.foldl (step nonceHash nonceParams {}) (fresh (ChainstateManager.fresh false))

/-- The tenth message is charged, and the eleventh finds no entry. -/
theorem penalties_proportionate_strays :
    (strays.accounts 1).events = List.replicate 10 .unconnecting ∧
    (strays.accounts 1).Charges (List.replicate 9 .unconnecting) ∧
      (strays.accounts 1).Proportionate := by
  refine ⟨by decide +kernel, by unfold PenaltyAccount.Charges; decide +kernel, ?_⟩
  exact (penalties_proportionate (ChainstateManager.fresh false)
    (Run.Reaches.foldl (l := strayOps) .start fun _ _ _ => trivial) 1).1

end AuditedManager

end UnicityPow
