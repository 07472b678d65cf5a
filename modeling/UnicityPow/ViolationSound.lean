import UnicityPow.SessionSteps

/-!
# Messages after a violation

The disconnection of a peer is only posted, so the loop over its buffer may go on. A bad
frame stays where it is and ends the loop again; after the other violations, messages are
handled unless the loop comes to none that would be.
-/

namespace UnicityPow

open Framing

namespace SessionEvent

/-- The number of the message that is passed on. -/
def handled? : SessionEvent → Option Nat
  | .version n _ | .verack n | .delivered n _ => some n
  | _ => none

/-- The number of the message that is a violation. -/
def violated? : SessionEvent → Option Nat
  | .violation n _ => some n
  | _ => none

end SessionEvent

namespace PeerSession

/-- Whether a frame is passed to `handle_version`, `handle_verack` or `message_handler_`. -/
def handles (s : PeerSession) (x : MessageHeader × List UInt8) : Bool :=
  match s.message? x with
  | none | some (.ping _) | some (.pong _) => false
  | some (.version _) | some .verack => true
  | some _ => s.messageHandler

/-- Events about the current message: none passes it on without leave, none is a bad frame. -/
def About (leave : Prop) (n : Nat) (e : SessionEvent) : Prop :=
  (∀ k, e.handled? = some k → k = n ∧ leave) ∧ ∀ k reason, e = .violation k reason → k = n ∧ reason ≠ .framing

/-- A session after events about the current message. -/
structure Adds (leave : Prop) (s t : PeerSession) : Prop where
  messagesReceived : t.messagesReceived = s.messagesReceived
  log : ∃ es, t.log = s.log ++ es ∧ ∀ e ∈ es, About leave s.messagesReceived e

section
variable {leave : Prop} {s t u : PeerSession}

theorem Adds.alike (h : Adds leave s t) (ha : Alike t u) : Adds leave s u where
  messagesReceived := ha.messagesReceived.trans h.messagesReceived
  log := by
    rw [ha.log]
    exact h.log

theorem Adds.refl (s : PeerSession) : Adds leave s s := ⟨rfl, [], (List.append_nil _).symm, by simp⟩

theorem Adds.record (h : Adds leave s t) {e : SessionEvent} (he : About leave s.messagesReceived e) :
    Adds leave s (t.record e) := by
  obtain ⟨hn, es, hlog, hes⟩ := h
  refine ⟨hn, es ++ [e], ?_, ?_⟩
  · show t.log ++ [e] = _
    rw [hlog, List.append_assoc]
  · intro e' he'
    rcases List.mem_append.mp he' with he' | he'
    · exact hes e' he'
    · rw [List.mem_singleton.mp he']
      exact he

theorem about_quiet {n : Nat} {e : SessionEvent} (h : e.handled? = none) (h' : e.violated? = none) :
    About leave n e := by
  refine ⟨fun k hk => absurd (h.symm.trans hk) (by simp), fun k reason he => ?_⟩
  rw [he] at h'
  cases h'

theorem about_handled {n : Nat} {e : SessionEvent} (h : e.handled? = some n) (hleave : leave) : About leave n e := by
  refine ⟨fun k hk => ⟨Option.some.inj (hk.symm.trans h), hleave⟩, fun k reason he => ?_⟩
  rw [he] at h
  cases h

theorem Adds.setState (h : Adds leave s t) (st : PeerConnectionState) : Adds leave s (t.setState st) := by
  have hrec : Adds leave s (t.record (.state st)) := h.record (about_quiet rfl rfl)
  exact ⟨hrec.messagesReceived, hrec.log⟩

theorem Adds.calm (h : Adds leave s t) (hc : Calm t u) : Adds leave s u :=
  hc.invariant h (fun _ _ ha h => h.alike ha) (fun _ _ h => h.record (about_quiet rfl rfl))
    (fun _ _ h => h.setState _) (fun _ _ h => (h.setState _).setState _)

theorem Adds.violate (h : Adds leave s t) {reason : Violation} (hreason : reason ≠ .framing) :
    Adds leave s (t.violate reason) := by
  have habout : About leave s.messagesReceived (.violation t.messagesReceived reason) := by
    refine ⟨fun k hk => absurd hk (by simp [SessionEvent.handled?]), fun k r he => ?_⟩
    cases he
    exact ⟨h.messagesReceived, hreason⟩
  exact (h.record habout).alike (alike_postDisconnect _)

theorem Adds.sendMessage (h : Adds leave s t) (steadyTime : Int) (wire : Wire) (m : Message) :
    Adds leave s (t.sendMessage steadyTime wire m) :=
  (h.record (about_quiet rfl rfl)).calm (calm_sendMessage t steadyTime wire m)

theorem Adds.sendVersion (h : Adds leave s t) (config : SessionConfig) (steadyTime time : Int) (wire : Wire) :
    Adds leave s (t.sendVersion config steadyTime time wire) :=
  (h.sendMessage steadyTime wire _).setState _

theorem Adds.acceptVersion (h : Adds leave s t) (hleave : leave) (m : VersionMessage) :
    Adds leave s (t.acceptVersion m) := by
  have hversion : About leave s.messagesReceived (.version t.messagesReceived m) := by
    rw [h.messagesReceived]
    exact about_handled rfl hleave
  have hrec : Adds leave s ((t.record (.version t.messagesReceived m)).record (.accepted t.peer.state m)) :=
    (h.record hversion).record (about_quiet rfl rfl)
  exact ⟨hrec.messagesReceived, hrec.log⟩

theorem Adds.deliver (h : Adds leave s t) (env : MessageEnv) (m : Message)
    (hleave : t.messageHandler = true → leave) : Adds leave s (t.deliver env m) := by
  rcases deliver_cases t env m with ⟨hhandler, hc⟩ | ⟨-, heq⟩
  · have habout : About leave s.messagesReceived (.delivered t.messagesReceived m) := by
      rw [h.messagesReceived]
      exact about_handled rfl (hleave hhandler)
    exact (h.record habout).calm hc
  · rw [heq]
    exact h

theorem Adds.handleVersion (h : Adds leave s t) (hleave : leave) (config : SessionConfig) (env : MessageEnv)
    (m : VersionMessage) : Adds leave s (t.handleVersion config env m) := by
  have hrec : Adds leave s (t.record (.version t.messagesReceived m)) := by
    refine h.record ?_
    rw [h.messagesReceived]
    exact about_handled rfl hleave
  have hcases := versionHandled t config env m
  generalize t.handleVersion config env m = u at hcases
  cases hcases with
  | redundant => exact hrec
  | obsolete => exact hrec.violate (by simp)
  | self => exact (h.acceptVersion hleave m).violate (by simp)
  | answered => exact ((h.acceptVersion hleave m).sendVersion _ _ _ _).sendMessage _ _ _
  | late => exact (h.acceptVersion hleave m).sendMessage _ _ _
  | sampled => exact ((h.acceptVersion hleave m).record (about_quiet rfl rfl)).sendMessage _ _ _

theorem Adds.handleVerack (h : Adds leave s t) (hleave : leave) : Adds leave s t.handleVerack := by
  have hrec : Adds leave s (t.record (.verack t.messagesReceived)) := by
    refine h.record ?_
    rw [h.messagesReceived]
    exact about_handled rfl hleave
  cases hdone : t.peer.successfullyConnected with
  | true =>
    rw [handleVerack_of_done hdone]
    exact hrec
  | false =>
    have hready := hrec.setState .READY
    have hcomplete : Adds leave s (t.record (.verack t.messagesReceived)).completeHandshake :=
      ⟨hready.messagesReceived, hready.log⟩
    exact hcomplete.alike (handleVerack_of_first hdone)

variable (s) in
theorem adds_processMessage (config : SessionConfig) (env : MessageEnv) (x : MessageHeader × List UInt8) :
    Adds (s.handles x = true) s.count (s.processMessage config env x) := by
  unfold handles
  cases hm : s.message? x with
  | none =>
    obtain ⟨t, ht, heq | ⟨reason, hreason, heq⟩⟩ := processMessage_of_none config env hm
    · rw [heq]
      exact (Adds.refl _).alike ht
    · rw [heq]
      exact ((Adds.refl _).alike ht).violate hreason
  | some m =>
    rw [processMessage_of_some config env hm]
    cases m with
    | version m => exact ((Adds.refl _).handleVersion rfl config env m).deliver env _ fun _ => rfl
    | verack => exact ((Adds.refl _).handleVerack rfl).deliver env _ fun _ => rfl
    | ping nonce => exact (Adds.refl _).sendMessage _ _ _
    | pong nonce => exact (Adds.refl _).calm (calm_handlePong _ _ _)
    | _ => exact (Adds.refl _).deliver env _ id

/-! ## What is passed on is logged -/

theorem Adds.mem (h : Adds leave s t) {e : SessionEvent} (he : e ∈ s.log) : e ∈ t.log := by
  obtain ⟨es, hlog, -⟩ := h.log
  rw [hlog]
  exact List.mem_append_left es he

theorem mem_calm (h : Calm s t) {e : SessionEvent} (he : e ∈ s.log) : e ∈ t.log := by
  have hadds : Adds True s t := (Adds.refl s).calm h
  exact hadds.mem he

theorem mem_record (s : PeerSession) (e : SessionEvent) : e ∈ (s.record e).log :=
  List.mem_append_right _ (List.mem_singleton_self e)

theorem mem_deliver (env : MessageEnv) (m : Message) {e : SessionEvent} (he : e ∈ s.log) :
    e ∈ (s.deliver env m).log := by
  rcases deliver_cases s env m with ⟨-, hc⟩ | ⟨-, heq⟩
  · exact mem_calm hc (List.mem_append_left _ he)
  · rw [heq]
    exact he

variable (s) in
theorem mem_handleVersion (config : SessionConfig) (env : MessageEnv) (m : VersionMessage) :
    .version s.messagesReceived m ∈ (s.handleVersion config env m).log := by
  have haccept : .version s.messagesReceived m ∈ (s.acceptVersion m).log :=
    List.mem_append_left _ (mem_record s _)
  have hcases := versionHandled s config env m
  generalize s.handleVersion config env m = u at hcases
  cases hcases with
  | redundant => exact mem_record s _
  | obsolete => exact List.mem_append_left _ (mem_record s _)
  | self => exact List.mem_append_left _ haccept
  | answered =>
    have h : Adds True (s.acceptVersion m) _ := ((Adds.refl _).sendVersion config env.steadyTime env.time
      env.versionWire).sendMessage env.steadyTime env.verackWire .verack
    exact h.mem haccept
  | late => exact mem_calm (calm_sendMessage _ _ _ _) (List.mem_append_left _ haccept)
  | sampled =>
    exact mem_calm (calm_sendMessage _ _ _ _) (List.mem_append_left _ (List.mem_append_left _ haccept))

variable (s) in
theorem mem_handleVerack : .verack s.messagesReceived ∈ s.handleVerack.log := by
  cases hdone : s.peer.successfullyConnected with
  | true =>
    rw [handleVerack_of_done hdone]
    exact mem_record s _
  | false =>
    rw [(handleVerack_of_first hdone).log]
    exact List.mem_append_left _ (mem_record s _)

theorem handled_processMessage (config : SessionConfig) (env : MessageEnv) {x : MessageHeader × List UInt8}
    (h : s.handles x = true) :
    ∃ e ∈ (s.processMessage config env x).log, e.handled? = some (s.messagesReceived + 1) := by
  have hdeliver : ∀ m, s.messageHandler = true →
      ∃ e ∈ (s.count.deliver env m).log, e.handled? = some (s.messagesReceived + 1) := by
    intro m hhandler
    rcases deliver_cases s.count env m with ⟨-, hc⟩ | ⟨hno, -⟩
    · exact ⟨_, mem_calm hc (mem_record _ _), rfl⟩
    · exact absurd (hhandler.symm.trans hno) (by simp)
  unfold handles at h
  cases hm : s.message? x with
  | none => simp [hm] at h
  | some m =>
    rw [hm] at h
    rw [processMessage_of_some config env hm]
    cases m with
    | version m => exact ⟨_, mem_deliver env _ (mem_handleVersion s.count config env m), rfl⟩
    | verack => exact ⟨_, mem_deliver env _ (mem_handleVerack s.count), rfl⟩
    | ping nonce => cases h
    | pong nonce => cases h
    | _ => exact hdeliver _ h

end

end PeerSession

namespace PeerLoop

open PeerSession

/-! ## Nothing handled -/

/-- No message is passed on after one that was a violation. -/
def NothingHandledAfterViolation (l : PeerLoop) : Prop :=
  l.session.log.Pairwise fun earlier later =>
    ∀ n k, earlier.violated? = some n → later.handled? = some k → k ≤ n

/-- After a violation other than a bad frame, the loop over the buffer comes to no message
that the session would handle. -/
def NoMessageAfterViolation (config : SessionConfig) (l : PeerLoop) (op : PeerOp) : Prop :=
  ∀ x, l.nextMessage config op = some x →
    (∃ n reason, reason ≠ .framing ∧ .violation n reason ∈ l.session.log) → l.session.handles x = false

/-- The numbers of the messages in the log are those of messages received. -/
def Bounded (s : PeerSession) : Prop :=
  ∀ e ∈ s.log, ∀ n, e.handled? = some n ∨ e.violated? = some n → n ≤ s.messagesReceived

/-- A bad frame stays at the front of the buffer. -/
def Misframed (config : SessionConfig) (l : PeerLoop) : Prop :=
  ∀ n, .violation n .framing ∈ l.session.log →
    readFrame config.networkMagic config.computeChecksum l.buffer.unread = .bad

section
variable {config : SessionConfig} {l : PeerLoop} {leave : Prop} {s t : PeerSession}

theorem eq_of_violated? {e : SessionEvent} {n : Nat} (h : e.violated? = some n) :
    ∃ reason, e = .violation n reason := by
  cases e with
  | violation k reason =>
    cases h
    exact ⟨reason, rfl⟩
  | _ => cases h

theorem bounded_of_adds (h : Bounded s) (hadds : Adds leave s t) : Bounded t := by
  obtain ⟨hn, es, hlog, hes⟩ := hadds
  intro e he n hnum
  rw [hn]
  rw [hlog] at he
  rcases List.mem_append.mp he with he | he
  · exact h e he n hnum
  · rcases hnum with hnum | hnum
    · exact ((hes e he).1 n hnum).1.le
    · obtain ⟨reason, heq⟩ := eq_of_violated? hnum
      exact ((hes e he).2 n reason heq).1.le

theorem framing_of_adds (hadds : Adds leave s t) {n : Nat} (h : .violation n .framing ∈ t.log) :
    .violation n .framing ∈ s.log := by
  obtain ⟨-, es, hlog, hes⟩ := hadds
  rw [hlog] at h
  rcases List.mem_append.mp h with h | h
  · exact h
  · exact absurd rfl ((hes _ h).2 n _ rfl).2

theorem adds_start (s : PeerSession) (config : SessionConfig) (steadyTime time : Int) (isOpen : Bool) (wire : Wire)
    (h : s.started = false) : Adds False s (s.start config steadyTime time isOpen wire) := by
  rcases start_cases config steadyTime time isOpen wire h with heq | ⟨t, ht, heq⟩
  · rw [heq]
    exact ⟨rfl, [], (List.append_nil _).symm, by simp⟩
  · have hopen : Adds False s t := by
      rcases ht.log with ⟨-, hlog⟩ | ⟨-, hlog⟩
      · exact ⟨ht.messagesReceived, [], by rw [hlog, List.append_nil], by simp⟩
      · exact ⟨ht.messagesReceived, [_], hlog, by simp [About, SessionEvent.handled?]⟩
    rw [heq]
    split
    · exact hopen
    · exact hopen.sendVersion _ _ _ _

/-- A step without a message adds nothing but a bad frame, and takes nothing from the buffer. -/
theorem outcome_none {l' : PeerLoop} (h : Outcome config l none l') :
    (Adds False l.session l'.session ∨ l'.session = l.session.violate .framing ∧
        readFrame config.networkMagic config.computeChecksum l.buffer.unread = .bad) ∧
      ∃ data, l'.buffer.unread = l.buffer.unread ++ data := by
  have hsame : ∃ data, l.buffer.unread = l.buffer.unread ++ data := ⟨[], (List.append_nil _).symm⟩
  cases h with
  | calm hc => exact ⟨.inl ((Adds.refl _).calm hc), hsame⟩
  | started _ hstart => exact ⟨.inl (adds_start _ _ _ _ _ _ hstart), hsame⟩
  | received _ ha hbuffer => exact ⟨.inl ((Adds.refl _).alike ha), _, hbuffer⟩
  | waiting => exact ⟨.inl (Adds.refl _), hsame⟩
  | misframed hread => exact ⟨.inr ⟨rfl, hread⟩, hsame⟩

theorem bounded_violate (h : Bounded s) (reason : Violation) : Bounded (s.violate reason) := by
  intro e he n hnum
  rcases List.mem_append.mp he with he | he
  · exact h e he n hnum
  · rw [List.mem_singleton.mp he] at hnum
    rcases hnum with hnum | hnum
    · cases hnum
    · exact (Option.some.inj hnum).ge

/-- A bad frame is bad whatever follows. -/
theorem bad_append {data : List UInt8} (h : readFrame config.networkMagic config.computeChecksum data = .bad)
    (t : List UInt8) : readFrame config.networkMagic config.computeChecksum (data ++ t) = .bad :=
  (readFrame_append (by rw [h]; simp) t).trans h

theorem numbered_outcome {x : Option (MessageHeader × List UInt8)} {l' : PeerLoop} (h : Outcome config l x l')
    (hb : Bounded l.session) (hf : Misframed config l) : Bounded l'.session ∧ Misframed config l' := by
  cases x with
  | none =>
    obtain ⟨hadds, data, hbuffer⟩ := outcome_none h
    unfold Misframed
    rw [hbuffer]
    rcases hadds with hadds | ⟨heq, hread⟩
    · exact ⟨bounded_of_adds hb hadds, fun n hn => bad_append (hf n (framing_of_adds hadds hn)) data⟩
    · rw [heq]
      exact ⟨bounded_violate hb _, fun _ _ => bad_append hread data⟩
  | some x =>
    cases h with
    | message _ hread =>
      rename_i n env buffer hprocessing hbuffer
      have hadds := adds_processMessage l.session config env x
      have hcount : Bounded l.session.count := fun e he n hn => (hb e he n hn).trans (Nat.le_succ _)
      refine ⟨bounded_of_adds hcount hadds, fun n hn => ?_⟩
      have hbad := hf n (framing_of_adds hadds hn)
      rw [hread] at hbad
      cases hbad

theorem numbered_step (op : PeerOp) (h : Bounded l.session ∧ Misframed config l) :
    Bounded (l.step config op).session ∧ Misframed config (l.step config op) :=
  numbered_outcome (step_outcome config l op) h.1 h.2

/-- Events that pass nothing on add nothing to what may not be. -/
theorem pairwise_append_quiet {log es : List SessionEvent} (hes : ∀ e ∈ es, e.handled? = none) :
    (log ++ es).Pairwise (fun earlier later =>
        ∀ n k, earlier.violated? = some n → later.handled? = some k → k ≤ n) ↔
      log.Pairwise fun earlier later => ∀ n k, earlier.violated? = some n → later.handled? = some k → k ≤ n := by
  have hquiet : ∀ e ∈ es, ∀ k, e.handled? = some k → False := fun e he k hk => by
    rw [hes e he] at hk
    cases hk
  rw [List.pairwise_append]
  refine ⟨fun h => h.1, fun h => ⟨h, ?_, fun a _ b hb n k _ hk => (hquiet b hb k hk).elim⟩⟩
  exact List.pairwise_of_forall_mem_list fun a _ b hb n k _ hk => (hquiet b hb k hk).elim

theorem nothingHandled_step (h : Bounded l.session ∧ Misframed config l) (op : PeerOp) :
    NothingHandledAfterViolation (l.step config op) ↔
      NothingHandledAfterViolation l ∧ NoMessageAfterViolation config l op := by
  have hout := step_outcome config l op
  unfold NoMessageAfterViolation NothingHandledAfterViolation
  generalize l.step config op = l' at hout
  cases hx : l.nextMessage config op with
  | none =>
    rw [hx] at hout
    have hlog : ∃ es, l'.session.log = l.session.log ++ es ∧ ∀ e ∈ es, e.handled? = none := by
      rcases (outcome_none hout).1 with hadds | ⟨heq, -⟩
      · obtain ⟨es, hlog, hes⟩ := hadds.log
        refine ⟨es, hlog, fun e he => Option.eq_none_iff_forall_ne_some.mpr fun k hk => ((hes e he).1 k hk).2⟩
      · rw [heq]
        exact ⟨[_], rfl, by simp [SessionEvent.handled?]⟩
    obtain ⟨es, hlog, hes⟩ := hlog
    rw [hlog, pairwise_append_quiet hes]
    simp
  | some x =>
    rw [hx] at hout
    cases hout with
    | message _ hread =>
      rename_i n env buffer hprocessing hbuffer
      show (l.session.processMessage config env x).log.Pairwise _ ↔ _
      obtain ⟨-, es, hlog, hes⟩ := adds_processMessage l.session config env x
      have hnew : l.session.handles x = true → ∃ e ∈ (l.session.processMessage config env x).log, _ :=
        handled_processMessage config env
      rw [hlog] at hnew ⊢
      have hlogs : l.session.count.log = l.session.log := rfl
      rw [hlogs] at hnew ⊢
      rw [List.pairwise_append]
      constructor
      · rintro ⟨hold, -, hcross⟩
        refine ⟨hold, fun y hy ⟨n, reason, _, hv⟩ => ?_⟩
        obtain rfl := Option.some.inj hy
        rw [← Bool.not_eq_true]
        intro hhandles
        obtain ⟨e, he, hk⟩ := hnew hhandles
        have hn := h.1 _ hv n (.inr rfl)
        rcases List.mem_append.mp he with he | he
        · exact absurd (h.1 e he _ (.inl hk)) (by omega)
        · exact absurd (hcross _ hv e he n _ rfl hk) (by omega)
      · rintro ⟨hold, hok⟩
        refine ⟨hold, ?_, fun a ha b hb n k hn hk => ?_⟩
        · refine List.pairwise_of_forall_mem_list fun a ha b hb n k hn hk => ?_
          obtain ⟨reason, rfl⟩ := eq_of_violated? hn
          rw [((hes b hb).1 k hk).1, ((hes _ ha).2 n reason rfl).1]
        · obtain ⟨reason, rfl⟩ := eq_of_violated? hn
          have hhandles := ((hes b hb).1 k hk).2
          by_cases hframing : reason = .framing
          · rw [hframing] at ha
            have hbad := h.2 n ha
            rw [hread] at hbad
            cases hbad
          · rw [hok x rfl ⟨n, reason, hframing, ha⟩] at hhandles
            cases hhandles

/-- In any run nothing is handled after a violation if and only if the loop over the buffer
comes to no further message that would be. -/
theorem nothing_handled_after_violation_iff (config : SessionConfig) (creation : Creation) (localNonce : BitVec 64)
    (localStartHeight : BitVec 32) (steadyTime : Int) (ops : List PeerOp) :
    (∀ ops', ops' <+: ops → NothingHandledAfterViolation
        ((create creation localNonce localStartHeight steadyTime).run config ops')) ↔
      Run.Trace (step config) (NoMessageAfterViolation config)
        (create creation localNonce localStartHeight steadyTime) ops
        ((create creation localNonce localStartHeight steadyTime).run config ops) := by
  have hgood : NothingHandledAfterViolation (create creation localNonce localStartHeight steadyTime) :=
    List.pairwise_singleton _ _
  have hinit : Bounded (create creation localNonce localStartHeight steadyTime).session ∧
      Misframed config (create creation localNonce localStartHeight steadyTime) := by
    constructor
    · intro e he n hn
      rw [List.mem_singleton.mp he] at hn
      rcases hn with hn | hn <;> cases hn
    · intro n hn
      cases List.mem_singleton.mp hn
  exact Run.always_iff NothingHandledAfterViolation (fun l => Bounded l.session ∧ Misframed config l) hgood hinit
    (fun _ op => numbered_step op) (fun _ op h => nothingHandled_step h op) ops

end

/-- A VERACK that comes before the VERSION. -/
theorem session_verackFirst :
    (inboundPeer.run mainnet (inOneChunk mainnet .verack (.version ownVersion) [])).session.log =
      [.state .CONNECTED, .violation 1 .beforeVersion, .version 2 ownVersion, .accepted .CONNECTED ownVersion,
        .violation 2 .selfConnection, .delivered 2 (.version ownVersion)] := by
  have hlen : (sentBytes mainnet .verack ++ sentBytes mainnet (.version ownVersion)).length ≤
      DEFAULT_RECV_FLOOD_SIZE := by
    rw [List.length_append, Nat.add_comm, ← List.length_append]
    exact length_ownVersion_verack
  rw [run_inOneChunk mainnet verack_withinLimits ownVersion_withinLimits hlen]
  have hcommand : (frameOf mainnet .verack).1.getCommand ≠ "version" := by
    rw [getCommand_frameOf]
    decide
  rw [processMessage_early _ _ rfl hcommand,
    processMessage_of_some _ _ (message?_frameOf mainnet _ ownVersion_withinLimits (.inr rfl))]
  rfl

/-- A peer that does not start with its VERSION is to be disconnected, but the VERSION that
follows is handled. -/
theorem version_after_violation :
    ¬ NothingHandledAfterViolation (inboundPeer.run mainnet (inOneChunk mainnet .verack (.version ownVersion) [])) := by
  unfold NothingHandledAfterViolation
  rw [session_verackFirst]
  intro h
  have hmem : SessionEvent.version 2 ownVersion ∈ [.version 2 ownVersion, .accepted .CONNECTED ownVersion,
      .violation 2 .selfConnection, .delivered 2 (.version ownVersion)] := List.mem_cons_self
  exact absurd (List.rel_of_pairwise_cons (List.Pairwise.of_cons h) hmem 1 2 rfl rfl) (by decide)

end PeerLoop

end UnicityPow
