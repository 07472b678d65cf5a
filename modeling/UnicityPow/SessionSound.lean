import UnicityPow.SessionSteps

/-!
# The end of a session

A session that is DISCONNECTED stays so as long as the loop over its buffer does not come
to a VERACK that completes the handshake. After a violation nothing is handled as long as
that loop comes to no message that would be.
-/

namespace UnicityPow

open Framing

/-! ## States -/

def SessionEvent.state? : SessionEvent → Option PeerConnectionState
  | .state st => some st
  | _ => none

namespace PeerSession

/-- The states of a session, in the order in which it took them. -/
def states (s : PeerSession) : List PeerConnectionState := s.log.filterMap SessionEvent.state?

/-- A property of the states that writes to other fields keep, and changes of a state that
is not final. -/
structure Kept (Q : PeerSession → Prop) : Prop where
  same : ∀ {s t : PeerSession}, Q s → t.log = s.log → t.peer.state = s.peer.state → Q t
  record : ∀ {s : PeerSession} (e : SessionEvent), e.state? = none → Q s → Q (s.record e)
  setState : ∀ {s : PeerSession} (st : PeerConnectionState), s.peer.state ≠ .DISCONNECTED → Q s →
    Q (s.setState st)

section
variable {Q : PeerSession → Prop} (H : Kept Q) {s t : PeerSession}
include H

theorem Kept.alike (h : Alike s t) (hs : Q s) : Q t := H.same hs h.log h.state

theorem Kept.calm (h : Calm s t) (hs : Q s) : Q t := by
  refine h.invariant hs (fun _ _ => H.alike) (fun _ m => H.record (.handed m.1) rfl)
    (fun _ hne => H.setState _ hne) ?_
  intro t hne ht
  exact H.setState _ (by simp [PeerSession.setState, PeerSession.record]) (H.setState _ hne ht)

theorem Kept.violate (reason : Violation) (hs : Q s) : Q (s.violate reason) :=
  H.alike (alike_postDisconnect _) (H.record _ rfl hs)

theorem Kept.sendMessage (steadyTime : Int) (wire : Wire) (m : Message) (hs : Q s) :
    Q (s.sendMessage steadyTime wire m) :=
  H.calm (calm_sendMessage s steadyTime wire m) (H.record _ rfl hs)

theorem Kept.sendVersion (config : SessionConfig) (steadyTime time : Int) (wire : Wire)
    (hne : s.peer.state ≠ .DISCONNECTED) (hs : Q s) : Q (s.sendVersion config steadyTime time wire) := by
  refine H.setState _ ?_ (H.sendMessage steadyTime wire _ hs)
  rw [(alike_sendMessage s steadyTime wire _).state]
  exact hne

theorem Kept.acceptVersion (m : VersionMessage) (hs : Q s) : Q (s.acceptVersion m) := by
  have h : Q ((s.record (.version s.messagesReceived m)).record (.accepted s.peer.state m)) :=
    H.record _ rfl (H.record _ rfl hs)
  exact H.same h rfl rfl

theorem Kept.versionHandled {config : SessionConfig} {env : MessageEnv} {m : VersionMessage}
    (h : VersionHandled config env s m t) (hs : Q s) : Q t := by
  cases h with
  | redundant => exact H.record _ rfl hs
  | obsolete => exact H.violate _ (H.record _ rfl hs)
  | self => exact H.violate _ (H.acceptVersion m hs)
  | answered _ _ _ _ hstate =>
    have hne : (s.acceptVersion m).peer.state ≠ .DISCONNECTED := by
      have heq : (s.acceptVersion m).peer.state = s.peer.state := rfl
      rw [heq, hstate]
      simp
    exact H.sendMessage _ _ _ (H.sendVersion _ _ _ _ hne (H.acceptVersion m hs))
  | late => exact H.sendMessage _ _ _ (H.acceptVersion m hs)
  | sampled => exact H.sendMessage _ _ _ (H.record _ rfl (H.acceptVersion m hs))

theorem Kept.deliver (env : MessageEnv) (m : Message) (hs : Q s) : Q (s.deliver env m) := by
  rcases deliver_cases s env m with ⟨-, h⟩ | ⟨-, h⟩
  · exact H.calm h (H.record _ rfl hs)
  · rw [h]
    exact hs

/-- The first VERACK is the one step that may leave a final state. -/
theorem Kept.handleVerack
    (hready : s.peer.successfullyConnected = false → ∀ t : PeerSession, t.peer.state = s.peer.state → Q t →
      Q (t.setState .READY)) (hs : Q s) : Q s.handleVerack := by
  have hrec : Q (s.record (.verack s.messagesReceived)) := H.record _ rfl hs
  cases hdone : s.peer.successfullyConnected with
  | true =>
    rw [handleVerack_of_done hdone]
    exact hrec
  | false =>
    have hcomplete : Q (s.record (.verack s.messagesReceived)).completeHandshake :=
      H.same (hready hdone (s.record (.verack s.messagesReceived)) rfl hrec) rfl rfl
    exact H.alike (handleVerack_of_first hdone) hcomplete

end

section
variable {config : SessionConfig}

/-- A VERACK that would complete the handshake. -/
def CompletesHandshake (s : PeerSession) (x : MessageHeader × List UInt8) : Prop :=
  s.message? x = some .verack ∧ s.peer.successfullyConnected = false

theorem Kept.processMessage {Q : PeerSession → Prop} (H : Kept Q) {s : PeerSession} (env : MessageEnv)
    {x : MessageHeader × List UInt8}
    (hready : CompletesHandshake s x → ∀ t : PeerSession, t.peer.state = s.peer.state → Q t →
      Q (t.setState .READY)) (hs : Q s) : Q (s.processMessage config env x) := by
  have hcount : Q s.count := H.same hs rfl rfl
  cases hm : s.message? x with
  | none =>
    obtain ⟨t, ht, heq | ⟨reason, -, heq⟩⟩ := processMessage_of_none config env hm
    · rw [heq]
      exact H.alike ht hcount
    · rw [heq]
      exact H.violate reason (H.alike ht hcount)
  | some m =>
    rw [processMessage_of_some config env hm]
    cases m with
    | version m => exact H.deliver env _ (H.versionHandled (PeerSession.versionHandled _ config env m) hcount)
    | verack => exact H.deliver env _ (H.handleVerack (fun hdone => hready ⟨hm, hdone⟩) hcount)
    | ping nonce => exact H.sendMessage _ _ _ hcount
    | pong nonce => exact H.calm (calm_handlePong _ _ _) hcount
    | _ => exact H.deliver env _ hcount

theorem Kept.start {Q : PeerSession → Prop} (H : Kept Q) {s : PeerSession} (steadyTime time : Int)
    (isOpen : Bool) (wire : Wire) (hstart : s.started = false) (hs : Q s) :
    Q (s.start config steadyTime time isOpen wire) := by
  rcases start_cases config steadyTime time isOpen wire hstart with heq | ⟨t, ht, heq⟩
  · rw [heq]
    exact H.same hs rfl rfl
  · have hopen : Q t := by
      rcases ht.log with ⟨hstate, hlog⟩ | ⟨hstate, hlog⟩
      · exact H.same hs hlog (ht.state.trans hstate.symm)
      · have hset : Q (s.setState .CONNECTED) := H.setState _ (by rw [hstate]; simp) hs
        exact H.same hset hlog ht.state
    rw [heq]
    split
    · exact hopen
    · exact H.sendVersion _ _ _ _ (by rw [ht.state]; simp) hopen

end

end PeerSession

namespace PeerLoop

open PeerSession

section
variable {config : SessionConfig} {l l' : PeerLoop}

/-- All steps but that VERACK keep such a property. -/
theorem kept_of_outcome {Q : PeerSession → Prop} (H : Kept Q) {x : Option (MessageHeader × List UInt8)}
    (h : Outcome config l x l')
    (hready : ∀ y, x = some y → CompletesHandshake l.session y → ∀ t : PeerSession,
      t.peer.state = l.session.peer.state → Q t → Q (t.setState .READY)) (hs : Q l.session) : Q l'.session := by
  cases h with
  | calm hcalm => exact H.calm hcalm hs
  | started _ hstart steadyTime time isOpen wire => exact H.start steadyTime time isOpen wire hstart hs
  | received _ halike => exact H.alike halike hs
  | waiting => exact hs
  | misframed => exact H.violate _ hs
  | message => exact H.processMessage _ (hready _ rfl) hs

end

/-! ## DISCONNECTED for good -/

/-- After DISCONNECTED comes no other state. -/
def ForGood (states : List PeerConnectionState) : Prop :=
  states.Pairwise fun earlier later => earlier = .DISCONNECTED → later = .DISCONNECTED

/-- Once DISCONNECTED, a session takes no other state. -/
def DisconnectedForGood (l : PeerLoop) : Prop := ForGood l.session.states

/-- The loop over the buffer comes to no VERACK that completes the handshake of a session
that is DISCONNECTED. -/
def NoLateVerack (config : SessionConfig) (l : PeerLoop) (op : PeerOp) : Prop :=
  ∀ x, l.nextMessage config op = some x → CompletesHandshake l.session x →
    l.session.peer.state ≠ .DISCONNECTED

section
variable {config : SessionConfig} {l : PeerLoop}

theorem states_record {s : PeerSession} {e : SessionEvent} (h : e.state? = none) :
    (s.record e).states = s.states := by
  unfold states record
  rw [List.filterMap_append, List.filterMap_cons_none h, List.filterMap_nil, List.append_nil]

theorem states_setState (s : PeerSession) (st : PeerConnectionState) :
    (s.setState st).states = s.states ++ [st] := by
  unfold states setState record
  rw [List.filterMap_append]
  rfl

/-- The last state in the log is that of the session. -/
def Current (s : PeerSession) : Prop := s.states.getLast? = some s.peer.state

theorem current_setState (s : PeerSession) (st : PeerConnectionState) : Current (s.setState st) := by
  unfold Current
  rw [states_setState, List.getLast?_concat]
  rfl

theorem kept_current : Kept Current where
  same h hlog hstate := by
    unfold Current states at *
    rw [hlog, hstate]
    exact h
  record e he h := by
    unfold Current at *
    rw [states_record he]
    exact h
  setState st _ _ := current_setState _ st

theorem current_step (op : PeerOp) (h : Current l.session) : Current (l.step config op).session :=
  kept_of_outcome kept_current (step_outcome config l op) (fun _ _ _ t _ _ => current_setState t .READY) h

theorem current_run (h : Current l.session) (ops : List PeerOp) : Current (l.run config ops).session := by
  induction ops generalizing l with
  | nil => exact h
  | cons op ops ih => exact ih (current_step op h)

theorem kept_grows (p : List PeerConnectionState) : Kept fun s => p <+: s.states where
  same h hlog _ := by
    unfold states at *
    rw [hlog]
    exact h
  record e he h := by
    rw [states_record he]
    exact h
  setState st _ h := by
    rw [states_setState]
    exact h.trans (List.prefix_append _ _)

theorem states_prefix_step (op : PeerOp) : l.session.states <+: (l.step config op).session.states :=
  kept_of_outcome (kept_grows _) (step_outcome config l op)
    (fun _ _ _ t _ ht => by rw [states_setState]; exact ht.trans (List.prefix_append _ _)) List.prefix_rfl

/-- Nothing but DISCONNECTED follows DISCONNECTED, and the session is DISCONNECTED if it ever was. -/
def Final (s : PeerSession) : Prop :=
  ForGood s.states ∧ (.DISCONNECTED ∈ s.states → s.peer.state = .DISCONNECTED)

theorem final_setState {s : PeerSession} {st : PeerConnectionState} (h : Final s)
    (hne : s.peer.state ≠ .DISCONNECTED) : Final (s.setState st) := by
  have hnot : .DISCONNECTED ∉ s.states := fun hmem => hne (h.2 hmem)
  unfold Final
  rw [states_setState]
  refine ⟨List.pairwise_append.mpr ⟨h.1, List.pairwise_singleton _ _, ?_⟩, fun hmem => ?_⟩
  · rintro a ha b - rfl
    exact absurd ha hnot
  · rcases List.mem_append.mp hmem with hmem | hmem
    · exact absurd hmem hnot
    · exact (List.mem_singleton.mp hmem).symm

theorem kept_final : Kept Final where
  same h hlog hstate := by
    unfold Final states at *
    rw [hlog, hstate]
    exact h
  record e he h := by
    unfold Final at *
    rw [states_record he]
    exact h
  setState _ hne h := final_setState h hne

theorem final_of_current {s : PeerSession} (hcurrent : Current s)
    (h : ForGood s.states) : Final s := by
  refine ⟨h, fun hmem => ?_⟩
  obtain ⟨init, hinit⟩ := List.getLast?_eq_some_iff.mp hcurrent
  rw [hinit] at h hmem
  rcases List.mem_append.mp hmem with hmem | hmem
  · exact (List.pairwise_append.mp h).2.2 _ hmem _ (by simp) rfl
  · exact (List.mem_singleton.mp hmem).symm

/-- A late VERACK makes the session READY, whatever its handler does then. -/
theorem ready_of_completesHandshake {x : MessageHeader × List UInt8} {op : PeerOp}
    (hx : l.nextMessage config op = some x) (h : CompletesHandshake l.session x) :
    l.session.states ++ [.READY] <+: (l.step config op).session.states := by
  have hout := step_outcome config l op
  rw [hx] at hout
  generalize l.step config op = l' at hout
  cases hout with
  | message hprocessing hread hbuffer =>
    rename_i n env buffer
    show _ <+: (l.session.processMessage config env x).states
    rw [processMessage_of_some config env h.1]
    have hdone : l.session.count.peer.successfullyConnected = false := h.2
    have hlog := (handleVerack_of_first hdone).log
    have hstates : l.session.count.handleVerack.states = l.session.states ++ [.READY] :=
      calc l.session.count.handleVerack.states
          = ((l.session.count.record (.verack l.session.count.messagesReceived)).setState .READY).states :=
            congrArg (List.filterMap SessionEvent.state?) hlog
        _ = (l.session.count.record (.verack l.session.count.messagesReceived)).states ++ [.READY] :=
            states_setState _ _
        _ = l.session.states ++ [.READY] := congrArg (· ++ [.READY]) (states_record rfl)
    have hprefix : (l.session.states ++ [.READY]) <+: l.session.count.handleVerack.states := by
      rw [hstates]
    exact (kept_grows _).deliver env .verack hprefix

theorem disconnectedForGood_step (hcurrent : Current l.session) (op : PeerOp) :
    DisconnectedForGood (l.step config op) ↔ DisconnectedForGood l ∧ NoLateVerack config l op := by
  constructor
  · intro h
    refine ⟨List.Pairwise.sublist (states_prefix_step op).sublist h, fun x hx hcomplete hstate => ?_⟩
    have hsub := List.Pairwise.sublist (ready_of_completesHandshake hx hcomplete).sublist h
    have hmem := List.mem_of_getLast? (hcurrent.trans (congrArg some hstate))
    exact absurd ((List.pairwise_append.mp hsub).2.2 _ hmem .READY (by simp) rfl) (by simp)
  · rintro ⟨h, hok⟩
    refine (kept_of_outcome kept_final (step_outcome config l op) ?_ (final_of_current hcurrent h)).1
    intro x hx hcomplete t ht hfinal
    exact final_setState hfinal (ht ▸ hok x hx hcomplete)

/-- In any run a session stays DISCONNECTED if and only if no VERACK comes late. -/
theorem disconnected_for_good_iff (config : SessionConfig) (creation : Creation) (localNonce : BitVec 64)
    (localStartHeight : BitVec 32) (steadyTime : Int) (ops : List PeerOp) :
    ((create creation localNonce localStartHeight steadyTime).run config ops).session.states.getLast? =
        some ((create creation localNonce localStartHeight steadyTime).run config ops).session.peer.state ∧
      ((∀ ops', ops' <+: ops →
          DisconnectedForGood ((create creation localNonce localStartHeight steadyTime).run config ops')) ↔
        Run.Trace (step config) (NoLateVerack config) (create creation localNonce localStartHeight steadyTime) ops
          ((create creation localNonce localStartHeight steadyTime).run config ops)) := by
  have hinit : Current (create creation localNonce localStartHeight steadyTime).session := rfl
  have hgood : DisconnectedForGood (create creation localNonce localStartHeight steadyTime) :=
    List.pairwise_singleton _ _
  exact ⟨current_run hinit ops, Run.always_iff DisconnectedForGood (fun l => Current l.session) hgood hinit
    (fun _ op => current_step op) (fun _ op h => disconnectedForGood_step h op) ops⟩

end

/-- The handler disconnects on the VERSION, and the VERACK behind it is still handled. -/
theorem ready_after_disconnected :
    ¬ DisconnectedForGood
      (inboundPeer.run mainnet (inOneChunk mainnet (.version ownVersion) .verack [.disconnect])) := by
  unfold DisconnectedForGood states
  rw [session_selfConnection]
  have hstates : [.state .CONNECTED, .version 1 ownVersion, .accepted .CONNECTED ownVersion,
      .violation 1 .selfConnection, .delivered 1 (.version ownVersion), .state .DISCONNECTING, .state .DISCONNECTED,
      .verack 2, .state .READY, .delivered 2 .verack].filterMap SessionEvent.state? =
        [.CONNECTED, .DISCONNECTING, .DISCONNECTED, .READY] := rfl
  rw [hstates]
  unfold ForGood
  decide

end PeerLoop

end UnicityPow
