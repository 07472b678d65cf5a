import UnicityPow.SessionSound

/-!
# The handshake

What a session does of the handshake is one of a few transcripts, whatever the peer sends
and however the session ends. All but two lead to READY only with a VERSION and a VERACK
sent: an inbound peer that turns out to be the node itself, and one that was DISCONNECTED
when it took its VERSION.
-/

namespace UnicityPow

namespace SessionEvent

def isVersion : SessionEvent → Bool
  | .handed (.version _) => true
  | _ => false

def isVerack : SessionEvent → Bool
  | .handed .verack => true
  | _ => false

def isSample : SessionEvent → Bool
  | .timeData _ _ => true
  | _ => false

/-- The events that are of the handshake. -/
def isHandshake : SessionEvent → Bool
  | .accepted _ _ | .verack _ => true
  | e => e.isVersion || e.isVerack || e.isSample

end SessionEvent

open SessionEvent

/-- The start of a handshake, up to the VERSION that is taken and the answer to it. -/
inductive Opening (localNonce : BitVec 64) :
    Bool → Option (PeerConnectionState × VersionMessage) → List SessionEvent → Prop
  | waiting (inbound : Bool) : Opening localNonce inbound none []
  | sent (v : VersionMessage) : Opening localNonce false none [.handed (.version v)]
  | agreed (v : VersionMessage) (state : PeerConnectionState) (m : VersionMessage) (address : NetworkAddress)
      (offset : Int) :
      Opening localNonce false (some (state, m))
        [.handed (.version v), .accepted state m, .timeData address offset, .handed .verack]
  | answered (v m : VersionMessage) (h : m.nonce ≠ localNonce) :
      Opening localNonce true (some (.CONNECTED, m))
        [.accepted .CONNECTED m, .handed (.version v), .handed .verack]
  | self (state : PeerConnectionState) (m : VersionMessage) (h : m.nonce = localNonce) :
      Opening localNonce true (some (state, m)) [.accepted state m]
  | late (m : VersionMessage) (h : m.nonce ≠ localNonce) :
      Opening localNonce true (some (.DISCONNECTED, m)) [.accepted .DISCONNECTED m, .handed .verack]

theorem Opening.taken_eq_none {localNonce : BitVec 64} {inbound : Bool}
    {taken : Option (PeerConnectionState × VersionMessage)} (h : Opening localNonce inbound taken []) :
    taken = none := by
  cases h
  rfl

theorem Opening.eq_nil {localNonce : BitVec 64} {events : List SessionEvent}
    (h : Opening localNonce true none events) : events = [] := by
  cases h
  rfl

theorem Opening.eq_sent {localNonce : BitVec 64} {events : List SessionEvent}
    (h : Opening localNonce false none events) (hne : events ≠ []) :
    ∃ v : VersionMessage, events = [.handed (.version v)] := by
  cases h with
  | waiting => exact absurd rfl hne
  | sent v => exact ⟨v, rfl⟩

/-- At most one of each is sent, and one sample of the time is given. -/
theorem Opening.counts {localNonce : BitVec 64} {inbound : Bool}
    {taken : Option (PeerConnectionState × VersionMessage)} {events : List SessionEvent}
    (h : Opening localNonce inbound taken events) :
    events.countP isVersion ≤ 1 ∧ events.countP isVerack ≤ 1 ∧ events.countP isSample ≤ 1 := by
  cases h <;> simp [List.countP_cons, isVersion, isVerack, isSample]

/-- Both are sent but to the peers that are not answered. -/
theorem Opening.answered_iff {localNonce : BitVec 64} {inbound : Bool} {state : PeerConnectionState}
    {m : VersionMessage} {events : List SessionEvent} (h : Opening localNonce inbound (some (state, m)) events) :
    events.countP isVersion = 1 ∧ events.countP isVerack = 1 ↔
      ¬ (inbound = true ∧ (m.nonce = localNonce ∨ ∃ m', .accepted .DISCONNECTED m' ∈ events)) := by
  cases h with
  | agreed => simp [List.countP_cons, isVersion, isVerack]
  | answered v m hne => simp [List.countP_cons, isVersion, isVerack, hne]
  | self state m heq => simp [isVersion, isVerack, heq]
  | late m hne => simp [List.countP_cons, isVersion, isVerack]

theorem Opening.accepted_mem {localNonce : BitVec 64} {inbound : Bool} {state : PeerConnectionState}
    {m : VersionMessage} {events : List SessionEvent} (h : Opening localNonce inbound (some (state, m)) events) :
    .accepted state m ∈ events := by
  cases h <;> simp

namespace PeerSession

def handshake (s : PeerSession) : List SessionEvent := s.log.filter isHandshake

/-- A session with its handshake so far: the VERSION that it took, and the numbers of the
VERACKs that came. -/
structure Transcript (processing : Prop) (taken : Option (PeerConnectionState × VersionMessage))
    (events : List SessionEvent) (veracks : List Nat) (s : PeerSession) : Prop where
  log : s.handshake = events ++ veracks.map .verack
  opening : Opening s.localNonce s.peer.isInbound taken events
  complete : s.peer.successfullyConnected = true ↔ veracks ≠ []
  ready : s.peer.state = .READY → veracks ≠ []
  untaken : taken = none → s.peerVersion = 0 ∧ veracks = [] ∧ (s.peer.isInbound = true →
    s.peer.state = .CONNECTING ∨ s.peer.state = .CONNECTED ∨ s.peer.state = .DISCONNECTED)
  taken : ∀ state m, taken = some (state, m) →
    s.peerVersion = m.version ∧ s.peerNonce = m.nonce ∧ MIN_PROTOCOL_VERSION ≤ m.version.toInt
  unstarted : s.started = false → events = []
  live : processing ∨ s.callbacks = true →
    s.started = true ∧ s.peer.state ≠ .CONNECTING ∧ (s.peer.isInbound = false → events ≠ [])

section
variable {processing : Prop} {s t : PeerSession} {taken : Option (PeerConnectionState × VersionMessage)}
  {events : List SessionEvent} {veracks : List Nat}

theorem handshake_record {e : SessionEvent} (h : e.isHandshake = true) :
    (s.record e).handshake = s.handshake ++ [e] := by
  unfold handshake record
  rw [List.filter_append, List.filter_singleton, h]
  rfl

theorem handshake_record_of_not {e : SessionEvent} (h : e.isHandshake = false) :
    (s.record e).handshake = s.handshake := by
  unfold handshake record
  rw [List.filter_append, List.filter_singleton, h]
  exact List.append_nil _

theorem isHandshake_ordinary (m : OrdinaryMessage) : (SessionEvent.handed m.1).isHandshake = false := by
  obtain ⟨m, hversion, hverack⟩ := m
  cases m with
  | version => exact absurd rfl hversion
  | verack => exact absurd rfl hverack
  | _ => rfl

theorem Transcript.mono {processing' : Prop} (h : Transcript processing taken events veracks s)
    (himp : processing' → processing) : Transcript processing' taken events veracks s :=
  { h with live := fun hlive => h.live (hlive.imp himp id) }

theorem Transcript.alike (h : Transcript processing taken events veracks s) (ha : Alike s t) :
    Transcript processing taken events veracks t where
  log := (congrArg (List.filter isHandshake) ha.log).trans h.log
  opening := by
    rw [ha.localNonce, ha.isInbound]
    exact h.opening
  complete := by
    rw [ha.successfullyConnected]
    exact h.complete
  ready := by
    rw [ha.state]
    exact h.ready
  untaken := by
    rw [ha.peerVersion, ha.isInbound, ha.state]
    exact h.untaken
  taken := by
    rw [ha.peerVersion, ha.peerNonce]
    exact h.taken
  unstarted := by
    rw [ha.started]
    exact h.unstarted
  live hlive := by
    rw [ha.started, ha.isInbound, ha.state]
    exact h.live (hlive.imp id ha.callbacks)

theorem Transcript.record (h : Transcript processing taken events veracks s) {e : SessionEvent}
    (he : e.isHandshake = false) : Transcript processing taken events veracks (s.record e) :=
  { h with log := (handshake_record_of_not he).trans h.log }

theorem Transcript.disconnected (h : Transcript processing taken events veracks s) :
    Transcript processing taken events veracks (s.setState .DISCONNECTED) :=
  { h with
    log := (handshake_record_of_not rfl).trans h.log
    ready := fun heq => by cases heq
    untaken := fun hnone => ⟨(h.untaken hnone).1, (h.untaken hnone).2.1, fun _ => .inr (.inr rfl)⟩
    live := fun hlive => ⟨(h.live hlive).1, by simp [setState, PeerSession.record], (h.live hlive).2.2⟩ }

theorem Transcript.calm (h : Transcript processing taken events veracks s) (hc : Calm s t) :
    Transcript processing taken events veracks t := by
  refine hc.invariant h (fun _ _ ha h => h.alike ha) (fun _ m h => h.record (isHandshake_ordinary m))
    (fun _ _ h => h.disconnected) fun t _ h => ?_
  have hrec : Transcript processing taken events veracks (t.record (.state .DISCONNECTING)) := h.record rfl
  exact hrec.disconnected.alike {}

theorem Transcript.violate (h : Transcript processing taken events veracks s) (reason : Violation) :
    Transcript processing taken events veracks (s.violate reason) := by
  have hrec : Transcript processing taken events veracks (s.record (.violation s.messagesReceived reason)) :=
    h.record rfl
  exact hrec.alike (alike_postDisconnect _)

theorem Transcript.deliver (h : Transcript processing taken events veracks s) (env : MessageEnv) (m : Message) :
    Transcript processing taken events veracks (s.deliver env m) := by
  rcases deliver_cases s env m with ⟨-, hc⟩ | ⟨-, heq⟩
  · have hrec : Transcript processing taken events veracks (s.record (.delivered s.messagesReceived m)) :=
      h.record rfl
    exact hrec.calm hc
  · rw [heq]
    exact h

/-! ## Start -/

/-- An outbound peer sends its VERSION at the start, and no peer sends anything before. -/
theorem Transcript.start (h : Transcript False taken events veracks s) (config : SessionConfig)
    (steadyTime time : Int) (isOpen : Bool) (wire : Wire) (hstart : s.started = false) :
    ∃ events', Transcript False taken events' veracks (s.start config steadyTime time isOpen wire) := by
  obtain rfl := h.unstarted hstart
  obtain rfl := h.opening.taken_eq_none
  obtain ⟨hversion, rfl, -⟩ := h.untaken rfl
  rcases start_cases config steadyTime time isOpen wire hstart with heq | ⟨t, ht, heq⟩
  · rw [heq]
    refine ⟨[], { h with unstarted := fun _ => rfl, live := fun hlive => ?_ }⟩
    rw [(h.live hlive).1] at hstart
    cases hstart
  · have hlog : t.handshake = [] := by
      have hs : s.handshake = [] := h.log
      rcases ht.log with ⟨-, hlog⟩ | ⟨-, hlog⟩
      · exact (congrArg (List.filter isHandshake) hlog).trans hs
      · have hstate : (s.record (.state .CONNECTED)).handshake = s.handshake := handshake_record_of_not rfl
        exact ((congrArg (List.filter isHandshake) hlog).trans hstate).trans hs
    have hcomplete : t.peer.successfullyConnected = false := by
      rw [ht.successfullyConnected, ← Bool.not_eq_true]
      exact fun hdone => h.complete.mp hdone rfl
    rw [heq]
    cases hin : s.peer.isInbound with
    | true =>
      have hin' : t.peer.isInbound = true := ht.isInbound.trans hin
      rw [if_pos rfl]
      exact ⟨[], {
        log := hlog
        opening := .waiting _
        complete := by simp [hcomplete]
        ready := fun hready => by rw [ht.state] at hready; cases hready
        untaken := fun _ => ⟨ht.peerVersion.trans hversion, rfl, fun _ => .inr (.inl ht.state)⟩
        taken := fun _ _ hnone => by cases hnone
        unstarted := fun _ => rfl
        live := fun _ => ⟨ht.started, by rw [ht.state]; simp, by rw [hin']; simp⟩ }⟩
    | false =>
      have hout : t.peer.isInbound = false := ht.isInbound.trans hin
      generalize hv : t.versionMessage config time = v
      have halike : Alike ((t.record (.handed (.version v))).setState .VERSION_SENT)
          (t.sendVersion config steadyTime time wire) := by
        rw [← hv]
        exact (alike_sendMessage t steadyTime wire _).setState _
      refine ⟨[.handed (.version v)], Transcript.alike ?_ halike⟩
      exact {
        log := by
          have hrec : (t.record (.handed (.version v))).handshake = t.handshake ++ [_] := handshake_record rfl
          rw [hlog] at hrec
          exact (handshake_record_of_not rfl).trans hrec
        opening := by
          show Opening _ t.peer.isInbound _ _
          rw [hout]
          exact .sent v
        complete := by
          show t.peer.successfullyConnected = true ↔ _
          simp [hcomplete]
        ready := fun hready => by cases hready
        untaken := fun _ => ⟨ht.peerVersion.trans hversion, rfl, fun hin' => by
          rw [show t.peer.isInbound = true from hin'] at hout; cases hout⟩
        taken := fun _ _ hnone => by cases hnone
        unstarted := fun hno => absurd (ht.started.symm.trans hno) (by simp)
        live := fun _ => ⟨ht.started, by simp [setState, PeerSession.record], by simp⟩ }

/-! ## VERSION -/

/-- A session after the VERSION that it took and what it sent then. -/
structure Took (s : PeerSession) (m : VersionMessage) (t : PeerSession) : Prop where
  isInbound : t.peer.isInbound = s.peer.isInbound := by rfl
  localNonce : t.localNonce = s.localNonce := by rfl
  started : t.started = s.started := by rfl
  successfullyConnected : t.peer.successfullyConnected = s.peer.successfullyConnected := by rfl
  peerVersion : t.peerVersion = m.version := by rfl
  peerNonce : t.peerNonce = m.nonce := by rfl
  state : t.peer.state = s.peer.state ∨ t.peer.state = .VERSION_SENT

theorem Transcript.took {m : VersionMessage} {state : PeerConnectionState}
    (h : Transcript True none events [] s) (ht : Took s m t) (hv : MIN_PROTOCOL_VERSION ≤ m.version.toInt)
    {events' : List SessionEvent} (hlog : t.handshake = events')
    (hopening : Opening s.localNonce s.peer.isInbound (some (state, m)) events') :
    Transcript True (some (state, m)) events' [] t where
  log := hlog.trans (List.append_nil _).symm
  opening := by
    rw [ht.localNonce, ht.isInbound]
    exact hopening
  complete := by
    rw [ht.successfullyConnected]
    exact h.complete
  ready hready := by
    rcases ht.state with hstate | hstate
    · exact h.ready (hstate.symm.trans hready)
    · cases hstate.symm.trans hready
  untaken hnone := by cases hnone
  taken _ _ hsome := by
    obtain ⟨rfl, rfl⟩ := Prod.mk.inj (Option.some.inj hsome)
    exact ⟨ht.peerVersion, ht.peerNonce, hv⟩
  unstarted hno := absurd ((h.live (.inl trivial)).1.symm.trans (ht.started.symm.trans hno)) (by simp)
  live _ := by
    obtain ⟨hstarted, hconnecting, -⟩ := h.live (.inl trivial)
    refine ⟨ht.started.trans hstarted, ?_, fun _ hnil => ?_⟩
    · rcases ht.state with hstate | hstate <;> rw [hstate]
      · exact hconnecting
      · simp
    · rw [hnil] at hopening
      cases hopening.taken_eq_none

theorem Transcript.untaken_of_peerVersion {processing : Prop} (h : Transcript processing taken events veracks s)
    (h0 : s.peerVersion = 0) : taken = none := by
  cases htaken : taken with
  | none => rfl
  | some p =>
    obtain ⟨hversion, -, hmin⟩ := h.taken p.1 p.2 htaken
    rw [← hversion, h0] at hmin
    exact absurd hmin (by decide)

theorem acceptVersion_handshake (s : PeerSession) (m : VersionMessage) :
    (s.acceptVersion m).handshake = s.handshake ++ [.accepted s.peer.state m] := by
  have hversion : (s.record (.version s.messagesReceived m)).handshake = s.handshake := handshake_record_of_not rfl
  rw [← hversion]
  exact handshake_record rfl

theorem Transcript.handleVersion (h : Transcript True taken events veracks s) (config : SessionConfig)
    (env : MessageEnv) (m : VersionMessage) :
    ∃ taken' events', Transcript True taken' events' veracks (s.handleVersion config env m) := by
  have hcases := versionHandled s config env m
  generalize s.handleVersion config env m = t at hcases
  have htook : s.peerVersion = 0 → taken = none ∧ veracks = [] := by
    intro h0
    have hnone := h.untaken_of_peerVersion h0
    exact ⟨hnone, (h.untaken hnone).2.1⟩
  have haccept := acceptVersion_handshake s m
  cases hcases with
  | redundant => exact ⟨taken, events, h.record rfl⟩
  | obsolete =>
    have hrec : Transcript True taken events veracks (s.record (.version s.messagesReceived m)) := h.record rfl
    exact ⟨taken, events, hrec.violate _⟩
  | self h0 hv hin hnonce =>
    obtain ⟨rfl, rfl⟩ := htook h0
    obtain rfl := (hin ▸ h.opening : Opening s.localNonce true none events).eq_nil
    rw [h.log] at haccept
    have hopening : Opening s.localNonce s.peer.isInbound (some (s.peer.state, m)) [.accepted s.peer.state m] := by
      rw [hin]
      exact .self _ m hnonce
    have ht : Took s m (s.acceptVersion m) := { state := .inl rfl }
    exact ⟨_, _, (h.took ht hv haccept hopening).violate _⟩
  | answered h0 hv hin hnonce hstate =>
    obtain ⟨rfl, rfl⟩ := htook h0
    obtain rfl := (hin ▸ h.opening : Opening s.localNonce true none events).eq_nil
    rw [h.log, hstate] at haccept
    generalize hversion : (s.acceptVersion m).versionMessage config env.time = v
    have halike : Alike ((((s.acceptVersion m).record (.handed (.version v))).setState .VERSION_SENT).record
        (.handed .verack)) (((s.acceptVersion m).sendVersion config env.steadyTime env.time
          env.versionWire).sendMessage env.steadyTime env.verackWire .verack) := by
      refine Alike.trans (Alike.record ?_ _) (alike_sendMessage _ _ _ _)
      rw [← hversion]
      exact (alike_sendMessage _ _ _ _).setState _
    have hlog : ((((s.acceptVersion m).record (.handed (.version v))).setState .VERSION_SENT).record
        (.handed .verack)).handshake = [.accepted .CONNECTED m, .handed (.version v), .handed .verack] := by
      have hsent : ((s.acceptVersion m).record (.handed (.version v))).handshake = _ := handshake_record rfl
      have hstate' : (((s.acceptVersion m).record (.handed (.version v))).setState .VERSION_SENT).handshake =
          ((s.acceptVersion m).record (.handed (.version v))).handshake := handshake_record_of_not rfl
      rw [handshake_record rfl, hstate', hsent, haccept]
      rfl
    have hopening : Opening s.localNonce s.peer.isInbound (some (.CONNECTED, m))
        [.accepted .CONNECTED m, .handed (.version v), .handed .verack] := by
      rw [hin]
      exact .answered v m hnonce
    have ht : Took s m ((((s.acceptVersion m).record (.handed (.version v))).setState .VERSION_SENT).record
        (.handed .verack)) := { state := .inr rfl }
    exact ⟨_, _, (h.took ht hv hlog hopening).alike halike⟩
  | late h0 hv hin hnonce hstate =>
    obtain ⟨rfl, rfl⟩ := htook h0
    obtain rfl := (hin ▸ h.opening : Opening s.localNonce true none events).eq_nil
    have hdisconnected : s.peer.state = .DISCONNECTED := by
      rcases (h.untaken rfl).2.2 hin with heq | heq | heq
      · exact absurd heq (h.live (.inl trivial)).2.1
      · exact absurd heq hstate
      · exact heq
    rw [h.log, hdisconnected] at haccept
    have hlog : ((s.acceptVersion m).record (.handed .verack)).handshake =
        [.accepted .DISCONNECTED m, .handed .verack] := by
      rw [handshake_record rfl, haccept]
      rfl
    have hopening : Opening s.localNonce s.peer.isInbound (some (.DISCONNECTED, m))
        [.accepted .DISCONNECTED m, .handed .verack] := by
      rw [hin]
      exact .late m hnonce
    have ht : Took s m ((s.acceptVersion m).record (.handed .verack)) := { state := .inl rfl }
    exact ⟨_, _, (h.took ht hv hlog hopening).alike (alike_sendMessage _ _ _ _)⟩
  | sampled h0 hv hout address =>
    obtain ⟨rfl, rfl⟩ := htook h0
    obtain ⟨v, rfl⟩ := (hout ▸ h.opening : Opening s.localNonce false none events).eq_sent
      ((h.live (.inl trivial)).2.2 hout)
    rw [h.log] at haccept
    have hlog : (((s.acceptVersion m).record (.timeData address (timeOffset m env.time))).record
        (.handed .verack)).handshake = [.handed (.version v), .accepted s.peer.state m,
          .timeData address (timeOffset m env.time), .handed .verack] := by
      rw [handshake_record rfl, handshake_record rfl, haccept]
      rfl
    have hopening : Opening s.localNonce s.peer.isInbound (some (s.peer.state, m))
        [.handed (.version v), .accepted s.peer.state m, .timeData address (timeOffset m env.time),
          .handed .verack] := by
      rw [hout]
      exact .agreed v s.peer.state m address (timeOffset m env.time)
    have ht : Took s m (((s.acceptVersion m).record (.timeData address (timeOffset m env.time))).record
        (.handed .verack)) := { state := .inl rfl }
    exact ⟨_, _, (h.took ht hv hlog hopening).alike (alike_sendMessage _ _ _ _)⟩

/-! ## VERACK -/

/-- A VERACK after a VERSION completes the handshake, if it was not complete. -/
theorem Transcript.handleVerack (h : Transcript processing taken events veracks s) (hversion : s.peerVersion ≠ 0) :
    Transcript processing taken events (veracks ++ [s.messagesReceived]) s.handleVerack := by
  have hlog : (s.record (.verack s.messagesReceived)).handshake =
      events ++ (veracks ++ [s.messagesReceived]).map .verack := by
    rw [handshake_record rfl, h.log, List.map_append, List.append_assoc]
    rfl
  have htaken : taken = none → False := fun hnone => hversion (h.untaken hnone).1
  cases hdone : s.peer.successfullyConnected with
  | true =>
    rw [handleVerack_of_done hdone]
    exact { h with
      log := hlog
      complete := by
        show s.peer.successfullyConnected = true ↔ _
        simp [hdone]
      ready := fun _ => by simp
      untaken := fun hnone => (htaken hnone).elim }
  | false =>
    refine Transcript.alike ?_ (handleVerack_of_first hdone)
    exact { h with
      log := (handshake_record_of_not rfl).trans hlog
      complete := by simp [completeHandshake]
      ready := fun _ => by simp
      untaken := fun hnone => (htaken hnone).elim
      live := fun hlive => ⟨(h.live hlive).1, by simp [completeHandshake, setState, PeerSession.record],
        (h.live hlive).2.2⟩ }

theorem Transcript.processMessage (h : Transcript True taken events veracks s) (config : SessionConfig)
    (env : MessageEnv) (x : MessageHeader × List UInt8) :
    ∃ taken' events' veracks', Transcript True taken' events' veracks' (s.processMessage config env x) := by
  have hcount : Transcript True taken events veracks s.count := { h with }
  cases hm : s.message? x with
  | none =>
    obtain ⟨t, ht, heq | ⟨reason, -, heq⟩⟩ := processMessage_of_none config env hm
    · rw [heq]
      exact ⟨_, _, _, hcount.alike ht⟩
    · rw [heq]
      exact ⟨_, _, _, (hcount.alike ht).violate reason⟩
  | some m =>
    rw [processMessage_of_some config env hm]
    cases m with
    | version m =>
      obtain ⟨taken', events', h'⟩ := hcount.handleVersion config env m
      exact ⟨_, _, _, h'.deliver env _⟩
    | verack =>
      have hversion : s.count.peerVersion ≠ 0 := by
        intro h0
        obtain ⟨v, hv⟩ := version_of_message? hm h0
        cases hv
      exact ⟨_, _, _, (hcount.handleVerack hversion).deliver env _⟩
    | ping nonce => exact ⟨_, _, _, hcount.calm (calm_send _ _ _ ⟨.pong nonce, isOrdinary_pong nonce⟩)⟩
    | pong nonce => exact ⟨_, _, _, hcount.calm (calm_handlePong _ _ _)⟩
    | _ => exact ⟨_, _, _, hcount.deliver env _⟩

/-! ## What a transcript says -/

/-- A handshake both ways: a VERSION that is not obsolete came and then a VERACK, and one of
each was handed to `send_message`. -/
def ShookHands (s : PeerSession) : Prop :=
  (∃ state m n, MIN_PROTOCOL_VERSION ≤ m.version.toInt ∧
      List.Sublist [SessionEvent.accepted state m, .verack n] s.log) ∧
    s.log.countP isVersion = 1 ∧ s.log.countP isVerack = 1

/-- An inbound peer with the node's own nonce, or that took its VERSION when it was DISCONNECTED. -/
def Unanswered (s : PeerSession) : Prop :=
  s.peer.isInbound = true ∧ (s.peerNonce = s.localNonce ∨ ∃ m, .accepted .DISCONNECTED m ∈ s.log)

theorem countP_handshake (s : PeerSession) {p : SessionEvent → Bool} (hp : ∀ e, p e = true → e.isHandshake = true) :
    s.log.countP p = s.handshake.countP p := by
  unfold handshake
  rw [List.countP_filter]
  refine List.countP_congr fun e _ => ?_
  cases he : p e with
  | false => simp
  | true => simp [hp e he]

theorem Transcript.countP (h : Transcript processing taken events veracks s) {p : SessionEvent → Bool}
    (hp : ∀ e, p e = true → e.isHandshake = true) (hverack : ∀ n, p (.verack n) = false) :
    s.log.countP p = events.countP p := by
  have hnone : (veracks.map SessionEvent.verack).countP p = 0 := by
    rw [List.countP_eq_zero]
    intro e he
    obtain ⟨n, -, rfl⟩ := List.mem_map.mp he
    simp [hverack n]
  rw [countP_handshake s hp, h.log, List.countP_append, hnone, Nat.add_zero]

theorem Transcript.versions (h : Transcript processing taken events veracks s) :
    s.log.countP isVersion = events.countP isVersion :=
  h.countP (fun e he => by cases e <;> simp_all [isHandshake, isVersion]) fun _ => rfl

theorem Transcript.veracks_countP (h : Transcript processing taken events veracks s) :
    s.log.countP isVerack = events.countP isVerack :=
  h.countP (fun e he => by cases e <;> simp_all [isHandshake, isVerack]) fun _ => rfl

theorem Transcript.samples (h : Transcript processing taken events veracks s) :
    s.log.countP isSample = events.countP isSample :=
  h.countP (fun e he => by cases e <;> simp_all [isHandshake, isSample]) fun _ => rfl

theorem Transcript.mem_accepted (h : Transcript processing taken events veracks s)
    {state : PeerConnectionState} {m : VersionMessage} :
    .accepted state m ∈ s.log ↔ SessionEvent.accepted state m ∈ events := by
  have hfilter : SessionEvent.accepted state m ∈ s.log ↔ SessionEvent.accepted state m ∈ s.handshake := by
    unfold handshake
    rw [List.mem_filter]
    exact ⟨fun hmem => ⟨hmem, rfl⟩, fun hmem => hmem.1⟩
  rw [hfilter, h.log, List.mem_append]
  refine ⟨fun hmem => hmem.elim id fun hmem => ?_, .inl⟩
  obtain ⟨n, -, hn⟩ := List.mem_map.mp hmem
  cases hn

end

/-! ## What a step changes -/

section
variable {s t : PeerSession}

theorem done_calm (h : Calm s t) : t.peer.successfullyConnected = s.peer.successfullyConnected := by
  induction h with
  | refl => rfl
  | write _ ha ih => exact ha.successfullyConnected.trans ih
  | handed _ _ ih => exact ih
  | dropped _ _ ih => exact ih
  | closed _ _ ha ih => exact ha.successfullyConnected.trans ih

theorem done_deliver (s : PeerSession) (env : MessageEnv) (m : Message) :
    (s.deliver env m).peer.successfullyConnected = s.peer.successfullyConnected := by
  rcases deliver_cases s env m with ⟨-, hc⟩ | ⟨-, heq⟩
  · have hdone := done_calm hc
    exact hdone
  · rw [heq]

theorem done_sendMessage (s : PeerSession) (steadyTime : Int) (wire : Wire) (m : Message) :
    (s.sendMessage steadyTime wire m).peer.successfullyConnected = s.peer.successfullyConnected :=
  (alike_sendMessage s steadyTime wire m).successfullyConnected

theorem done_handleVersion (s : PeerSession) (config : SessionConfig) (env : MessageEnv) (m : VersionMessage) :
    (s.handleVersion config env m).peer.successfullyConnected = s.peer.successfullyConnected := by
  have hcases := versionHandled s config env m
  generalize s.handleVersion config env m = t at hcases
  cases hcases with
  | redundant | obsolete | self => rfl
  | answered => exact (done_sendMessage _ _ _ _).trans (done_sendMessage _ _ _ _)
  | late | sampled => exact done_sendMessage _ _ _ _

theorem done_handleVerack (s : PeerSession) : s.handleVerack.peer.successfullyConnected = true := by
  cases hdone : s.peer.successfullyConnected with
  | true =>
    rw [handleVerack_of_done hdone]
    exact hdone
  | false => exact (handleVerack_of_first hdone).successfullyConnected

theorem done_processMessage (s : PeerSession) (config : SessionConfig) (env : MessageEnv)
    (x : MessageHeader × List UInt8) :
    (s.processMessage config env x).peer.successfullyConnected = true ↔
      s.peer.successfullyConnected = true ∨ CompletesHandshake s x := by
  unfold CompletesHandshake
  cases hm : s.message? x with
  | none =>
    obtain ⟨t, ht, heq | ⟨reason, -, heq⟩⟩ := processMessage_of_none config env hm
    · rw [heq, ht.successfullyConnected]
      simp [count]
    · rw [heq]
      show t.peer.successfullyConnected = true ↔ _
      rw [ht.successfullyConnected]
      simp [count]
  | some m =>
    rw [processMessage_of_some config env hm]
    cases m with
    | version m =>
      have hdone : ((s.count.handleVersion config env m).deliver env (.version m)).peer.successfullyConnected =
          s.peer.successfullyConnected := (done_deliver _ _ _).trans (done_handleVersion _ _ _ _)
      simp [handle, hdone]
    | verack =>
      have hdone : (s.count.handleVerack.deliver env .verack).peer.successfullyConnected = true :=
        (done_deliver _ _ _).trans (done_handleVerack _)
      cases s.peer.successfullyConnected <;> simp [handle, hdone]
    | ping nonce => simp [handle, done_sendMessage, count]
    | pong nonce => simp [handle, done_calm (calm_handlePong _ _ _), count]
    | _ => simp [handle, done_deliver, count]

/-- The same peer, with the same VERSION. -/
structure Settled (s t : PeerSession) : Prop where
  isInbound : t.peer.isInbound = s.peer.isInbound := by rfl
  localNonce : t.localNonce = s.localNonce := by rfl
  peerNonce : t.peerNonce = s.peerNonce := by rfl
  accepted : ∀ state m, .accepted state m ∈ t.log ↔ SessionEvent.accepted state m ∈ s.log

theorem Settled.refl (s : PeerSession) : Settled s s := { accepted := fun _ _ => Iff.rfl }

theorem Settled.trans {u : PeerSession} (h : Settled s t) (h' : Settled t u) : Settled s u where
  isInbound := h'.isInbound.trans h.isInbound
  localNonce := h'.localNonce.trans h.localNonce
  peerNonce := h'.peerNonce.trans h.peerNonce
  accepted state m := (h'.accepted state m).trans (h.accepted state m)

theorem Alike.settled (h : Alike s t) : Settled s t where
  isInbound := h.isInbound
  localNonce := h.localNonce
  peerNonce := h.peerNonce
  accepted _ _ := by rw [h.log]

theorem settled_record (s : PeerSession) {e : SessionEvent} (he : ∀ state m, e ≠ .accepted state m) :
    Settled s (s.record e) where
  accepted state m := by
    show _ ∈ s.log ++ [e] ↔ _
    rw [List.mem_append, List.mem_singleton]
    exact ⟨fun h => h.elim id fun heq => absurd heq.symm (he state m), .inl⟩

theorem settled_setState (s : PeerSession) (st : PeerConnectionState) : Settled s (s.setState st) where
  accepted := (settled_record s (by simp : ∀ state m, SessionEvent.state st ≠ .accepted state m)).accepted

theorem Calm.settled (h : Calm s t) : Settled s t :=
  h.invariant (Settled.refl s) (fun _ _ ha h => h.trans ha.settled) (fun _ _ h => h.trans (settled_record _ (by simp)))
    (fun _ _ h => h.trans (settled_setState _ _))
    fun _ _ h => (h.trans (settled_setState _ _)).trans (settled_setState _ _)

theorem settled_violate (s : PeerSession) (reason : Violation) : Settled s (s.violate reason) :=
  (settled_record s (by simp)).trans (alike_postDisconnect _).settled

theorem settled_deliver (s : PeerSession) (env : MessageEnv) (m : Message) : Settled s (s.deliver env m) := by
  rcases deliver_cases s env m with ⟨-, hc⟩ | ⟨-, heq⟩
  · exact (settled_record s (by simp)).trans hc.settled
  · rw [heq]
    exact .refl s

theorem settled_handleVerack (s : PeerSession) : Settled s s.handleVerack := by
  have hrec : Settled s (s.record (.verack s.messagesReceived)) := settled_record s (by simp)
  cases hdone : s.peer.successfullyConnected with
  | true =>
    rw [handleVerack_of_done hdone]
    exact hrec
  | false =>
    have hready := settled_setState (s.record (.verack s.messagesReceived)) .READY
    have hcomplete : Settled (s.record (.verack s.messagesReceived))
        (s.record (.verack s.messagesReceived)).completeHandshake := { accepted := hready.accepted }
    exact (hrec.trans hcomplete).trans (handleVerack_of_first hdone).settled

theorem settled_processMessage (s : PeerSession) (hversion : s.peerVersion ≠ 0) (config : SessionConfig)
    (env : MessageEnv) (x : MessageHeader × List UInt8) : Settled s (s.processMessage config env x) := by
  have hcount : Settled s s.count := { accepted := fun _ _ => Iff.rfl }
  refine hcount.trans ?_
  cases hm : s.message? x with
  | none =>
    obtain ⟨t, ht, heq | ⟨reason, -, heq⟩⟩ := processMessage_of_none config env hm
    · rw [heq]
      exact ht.settled
    · rw [heq]
      exact ht.settled.trans (settled_violate t reason)
  | some m =>
    rw [processMessage_of_some config env hm]
    cases m with
    | version m =>
      have hredundant : s.count.handleVersion config env m = s.count.record (.version s.count.messagesReceived m) :=
        if_pos hversion
      show Settled _ ((s.count.handleVersion config env m).deliver env (.version m))
      rw [hredundant]
      exact (settled_record _ (by simp)).trans (settled_deliver _ _ _)
    | verack => exact (settled_handleVerack _).trans (settled_deliver _ _ _)
    | ping nonce => exact (calm_send _ _ _ ⟨.pong nonce, isOrdinary_pong nonce⟩).settled
    | pong nonce => exact (calm_handlePong _ _ _).settled
    | _ => exact settled_deliver _ _ _

end

end PeerSession

namespace PeerLoop

open PeerSession

section
variable {config : SessionConfig} {l : PeerLoop}

/-- The session has one of the transcripts. -/
def HasTranscript (l : PeerLoop) : Prop :=
  ∃ taken events veracks, Transcript (l.processing = true) taken events veracks l.session

theorem hasTranscript_step (op : PeerOp) (h : HasTranscript l) : HasTranscript (l.step config op) := by
  obtain ⟨taken, events, veracks, h⟩ := h
  have hout := step_outcome config l op
  generalize l.step config op = l', l.nextMessage config op = x at hout
  cases hout with
  | calm hc => exact ⟨_, _, _, h.calm hc⟩
  | started hidle hstart steadyTime time isOpen wire =>
    have hoff : Transcript False taken events veracks l.session := h.mono False.elim
    obtain ⟨events', h'⟩ := hoff.start config steadyTime time isOpen wire hstart
    refine ⟨_, events', _, h'.mono fun hon => ?_⟩
    rw [hidle] at hon
    cases hon
  | received hcallbacks ha =>
    have hon : Transcript True taken events veracks l.session :=
      { h with live := fun _ => h.live (.inr hcallbacks) }
    exact ⟨_, _, _, (hon.alike ha).mono fun _ => trivial⟩
  | waiting => exact ⟨_, _, _, h.mono fun hon => by cases hon⟩
  | misframed => exact ⟨_, _, _, (h.violate _).mono fun hon => by cases hon⟩
  | message hprocessing =>
    have hon : Transcript True taken events veracks l.session := h.mono fun _ => hprocessing
    obtain ⟨taken', events', veracks', h'⟩ := hon.processMessage config _ _
    exact ⟨_, _, _, h'.mono fun _ => trivial⟩

/-- READY only after the handshake, which is made once. -/
structure HandshakeSafe (l : PeerLoop) : Prop where
  ready : l.session.peer.state = .READY ∨ l.session.peer.successfullyConnected = true → ShookHands l.session
  versions : l.session.log.countP isVersion ≤ 1
  veracks : l.session.log.countP isVerack ≤ 1
  samples : l.session.log.countP isSample ≤ 1

/-- The peers that are READY were answered, and that is all that may go wrong. -/
theorem handshakeSafe_iff (h : HasTranscript l) :
    HandshakeSafe l ↔ (l.session.peer.successfullyConnected = true → ¬ Unanswered l.session) := by
  obtain ⟨taken, events, veracks, h⟩ := h
  have hanswered : ∀ state m, taken = some (state, m) →
      (l.session.log.countP isVersion = 1 ∧ l.session.log.countP isVerack = 1 ↔ ¬ Unanswered l.session) := by
    rintro state m rfl
    unfold Unanswered
    rw [h.versions, h.veracks_countP, (h.taken _ _ rfl).2.1, h.opening.answered_iff]
    simp only [h.mem_accepted]
  have htaken : veracks ≠ [] → ∃ state m, taken = some (state, m) := by
    intro hne
    cases htaken : taken with
    | none => exact absurd (h.untaken htaken).2.1 hne
    | some p => exact ⟨p.1, p.2, rfl⟩
  constructor
  · intro hsafe hdone
    obtain ⟨state, m, hsome⟩ := htaken (h.complete.mp hdone)
    exact (hanswered state m hsome).mp (hsafe.ready (.inr hdone)).2
  · intro hok
    obtain ⟨hversions, hveracks, hsamples⟩ := h.opening.counts
    refine ⟨fun hready => ?_, h.versions ▸ hversions, h.veracks_countP ▸ hveracks, h.samples ▸ hsamples⟩
    have hne : veracks ≠ [] := hready.elim h.ready h.complete.mp
    obtain ⟨state, m, rfl⟩ := htaken hne
    refine ⟨⟨state, m, veracks.head hne, (h.taken _ _ rfl).2.2, ?_⟩,
      (hanswered state m rfl).mpr (hok (h.complete.mpr hne))⟩
    have hmem : SessionEvent.verack (veracks.head hne) ∈ veracks.map SessionEvent.verack :=
      List.mem_map_of_mem (List.head_mem hne)
    have hsub : [SessionEvent.accepted state m, .verack (veracks.head hne)].Sublist l.session.handshake := by
      rw [h.log]
      exact (List.singleton_sublist.mpr h.opening.accepted_mem).append (List.singleton_sublist.mpr hmem)
    exact hsub.trans List.filter_sublist

/-- The loop over the buffer comes to no VERACK that completes the handshake of a peer that
is not answered. -/
def AnsweredFirst (config : SessionConfig) (l : PeerLoop) (op : PeerOp) : Prop :=
  ∀ x, l.nextMessage config op = some x → CompletesHandshake l.session x → ¬ Unanswered l.session

theorem done_step (op : PeerOp) :
    (l.step config op).session.peer.successfullyConnected = true ↔
      l.session.peer.successfullyConnected = true ∨
        ∃ x, l.nextMessage config op = some x ∧ CompletesHandshake l.session x := by
  have hout := step_outcome config l op
  generalize l.step config op = l', l.nextMessage config op = x at hout
  cases hout with
  | calm hc => simp [done_calm hc]
  | started _ hstart steadyTime time isOpen wire =>
    have hdone : (l.session.start config steadyTime time isOpen wire).peer.successfullyConnected =
        l.session.peer.successfullyConnected := by
      rcases start_cases config steadyTime time isOpen wire hstart with heq | ⟨t, ht, heq⟩
      · rw [heq]
      · rw [heq]
        split
        · exact ht.successfullyConnected
        · exact (done_sendMessage _ _ _ _).trans ht.successfullyConnected
    simp [hdone]
  | received _ ha => simp [ha.successfullyConnected]
  | waiting => simp
  | misframed => simp [violate, postDisconnect, PeerSession.record]
  | message => simp [done_processMessage]

theorem settled_step (h : HasTranscript l) (hversion : l.session.peerVersion ≠ 0) (op : PeerOp) :
    Settled l.session (l.step config op).session := by
  obtain ⟨taken, events, veracks, h⟩ := h
  have hout := step_outcome config l op
  generalize l.step config op = l', l.nextMessage config op = x at hout
  cases hout with
  | calm hc => exact hc.settled
  | started _ hstart =>
    obtain rfl := h.unstarted hstart
    exact absurd (h.untaken h.opening.taken_eq_none).1 hversion
  | received _ ha => exact ha.settled
  | waiting => exact .refl _
  | misframed => exact settled_violate _ _
  | message => exact settled_processMessage _ hversion _ _ _

theorem handshakeSafe_step (h : HasTranscript l) (op : PeerOp) :
    HandshakeSafe (l.step config op) ↔ HandshakeSafe l ∧ AnsweredFirst config l op := by
  rw [handshakeSafe_iff h, handshakeSafe_iff (hasTranscript_step op h), done_step]
  unfold AnsweredFirst
  by_cases hversion : l.session.peerVersion = 0
  · -- before the VERSION no handshake is complete, and no VERACK completes it
    have hdone : l.session.peer.successfullyConnected ≠ true := by
      obtain ⟨taken, events, veracks, h⟩ := h
      rw [Ne, h.complete]
      exact fun hne => hne (h.untaken (h.untaken_of_peerVersion hversion)).2.1
    have hnone : ∀ x, ¬ CompletesHandshake l.session x := by
      intro x hx
      obtain ⟨v, hv⟩ := version_of_message? hx.1 hversion
      cases hv
    simp [hdone, hnone]
  · have hsettled : Settled l.session (l.step config op).session := settled_step h hversion op
    have hunanswered : Unanswered (l.step config op).session ↔ Unanswered l.session := by
      unfold Unanswered
      simp only [hsettled.isInbound, hsettled.peerNonce, hsettled.localNonce, hsettled.accepted]
    rw [hunanswered]
    constructor
    · intro hok
      exact ⟨fun hdone => hok (.inl hdone), fun x hx hcomplete => hok (.inr ⟨x, hx, hcomplete⟩)⟩
    · rintro ⟨hold, hnew⟩ (hdone | ⟨x, hx, hcomplete⟩)
      · exact hold hdone
      · exact hnew x hx hcomplete

theorem hasTranscript_create (creation : Creation) (localNonce : BitVec 64) (localStartHeight : BitVec 32)
    (steadyTime : Int) : HasTranscript (create creation localNonce localStartHeight steadyTime) := by
  have hstate : creation.peer.state = .CONNECTING ∨ creation.peer.state = .CONNECTED ∨
      creation.peer.state = .DISCONNECTED := by
    cases creation with
    | inbound connection isOpen | outbound connection isOpen =>
      cases connection <;> cases isOpen <;>
        simp [Creation.peer, Peer.createInbound, Peer.createOutbound, Peer.create]
  have hdone : creation.peer.successfullyConnected = false := by cases creation <;> rfl
  exact ⟨none, [], [], {
    log := rfl
    opening := .waiting _
    complete := by
      show creation.peer.successfullyConnected = true ↔ _
      simp [hdone]
    ready := fun hready => by
      rcases hstate with heq | heq | heq <;> cases heq.symm.trans hready
    untaken := fun _ => ⟨rfl, rfl, fun _ => hstate⟩
    taken := fun _ _ hsome => by cases hsome
    unstarted := fun _ => rfl
    live := fun hlive => by rcases hlive with hlive | hlive <;> cases hlive }⟩

/-- In any run the handshake is safe if and only if no VERACK completes that of a peer that
is not answered. -/
theorem handshake_safe_iff (config : SessionConfig) (creation : Creation) (localNonce : BitVec 64)
    (localStartHeight : BitVec 32) (steadyTime : Int) (ops : List PeerOp) :
    (∀ ops', ops' <+: ops →
        HandshakeSafe ((create creation localNonce localStartHeight steadyTime).run config ops')) ↔
      Run.Trace (step config) (AnsweredFirst config) (create creation localNonce localStartHeight steadyTime) ops
        ((create creation localNonce localStartHeight steadyTime).run config ops) := by
  have hinit := hasTranscript_create creation localNonce localStartHeight steadyTime
  have hsafe : HandshakeSafe (create creation localNonce localStartHeight steadyTime) := by
    rw [handshakeSafe_iff hinit]
    cases creation <;> simp [create, Creation.peer, Peer.createInbound, Peer.createOutbound, Peer.create]
  exact Run.always_iff HandshakeSafe HasTranscript hsafe hinit (fun _ op => hasTranscript_step op)
    (fun _ op h => handshakeSafe_step h op) ops

end

/-- A node that connects to itself is READY with no VERSION sent to it. -/
theorem ready_without_version :
    ¬ HandshakeSafe (inboundPeer.run mainnet (inOneChunk mainnet (.version ownVersion) .verack [.disconnect])) := by
  intro h
  have hinit : Current inboundPeer.session := rfl
  have hcurrent : Current (inboundPeer.run mainnet _).session :=
    current_run hinit (inOneChunk mainnet (.version ownVersion) .verack [.disconnect])
  unfold Current states at hcurrent
  have hlog := session_selfConnection
  rw [hlog] at hcurrent
  have hversions := (h.ready (.inl (Option.some.inj hcurrent).symm)).2.1
  rw [hlog] at hversions
  exact absurd hversions (by decide)

end PeerLoop

end UnicityPow
