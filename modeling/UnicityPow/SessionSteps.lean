import UnicityPow.FramingSound
import UnicityPow.PeerSession

/-!
# Steps of a session

What one event can do: all but the handshake's own writes only disconnects, or sends
messages from outside the handshake.
-/

namespace UnicityPow

open Framing

namespace PeerSession

/-! ## Calm steps -/

/-- The same, but for what the handshake and the log do not depend on. -/
structure Alike (s t : PeerSession) : Prop where
  isInbound : t.peer.isInbound = s.peer.isInbound := by rfl
  state : t.peer.state = s.peer.state := by rfl
  successfullyConnected : t.peer.successfullyConnected = s.peer.successfullyConnected := by rfl
  localNonce : t.localNonce = s.localNonce := by rfl
  started : t.started = s.started := by rfl
  callbacks : t.callbacks = true → s.callbacks = true := by exact id
  messagesReceived : t.messagesReceived = s.messagesReceived := by rfl
  peerVersion : t.peerVersion = s.peerVersion := by rfl
  peerNonce : t.peerNonce = s.peerNonce := by rfl
  log : t.log = s.log := by rfl

/-- Writes to such fields, ordinary messages handed over, and disconnections. -/
inductive Calm (s : PeerSession) : PeerSession → Prop
  | refl : Calm s s
  | write {t u} : Calm s t → Alike t u → Calm s u
  | handed {t} (m : OrdinaryMessage) : Calm s t → Calm s (t.record (.handed m.1))
  | dropped {t} : Calm s t → t.peer.state ≠ .DISCONNECTED → Calm s (t.setState .DISCONNECTED)
  | closed {t u} : Calm s t → t.peer.state ≠ .DISCONNECTED → Alike (t.setState .DISCONNECTING) u →
      Calm s (u.setState .DISCONNECTED)

section
variable {s t u : PeerSession}

theorem Alike.calm (h : Alike s t) : Calm s t := .write .refl h

theorem Alike.trans (h : Alike s t) (h' : Alike t u) : Alike s u where
  isInbound := h'.isInbound.trans h.isInbound
  state := h'.state.trans h.state
  successfullyConnected := h'.successfullyConnected.trans h.successfullyConnected
  localNonce := h'.localNonce.trans h.localNonce
  started := h'.started.trans h.started
  callbacks := h.callbacks ∘ h'.callbacks
  messagesReceived := h'.messagesReceived.trans h.messagesReceived
  peerVersion := h'.peerVersion.trans h.peerVersion
  peerNonce := h'.peerNonce.trans h.peerNonce
  log := h'.log.trans h.log

theorem Alike.record (h : Alike s t) (e : SessionEvent) : Alike (s.record e) (t.record e) :=
  { h with log := congrArg (· ++ [e]) h.log }

theorem Alike.setState (h : Alike s t) (st : PeerConnectionState) : Alike (s.setState st) (t.setState st) :=
  { h with state := rfl, log := congrArg (· ++ [SessionEvent.state st]) h.log }

theorem Calm.trans (h : Calm s t) (h' : Calm t u) : Calm s u := by
  induction h' with
  | refl => exact h
  | write _ ha ih => exact .write ih ha
  | handed m _ ih => exact .handed m ih
  | dropped _ hs ih => exact .dropped ih hs
  | closed _ hs ha ih => exact .closed ih hs ha

theorem Calm.invariant {P : PeerSession → Prop} (h : Calm s t) (hs : P s)
    (write : ∀ t u, Alike t u → P t → P u) (handed : ∀ t (m : OrdinaryMessage), P t → P (t.record (.handed m.1)))
    (dropped : ∀ t, t.peer.state ≠ .DISCONNECTED → P t → P (t.setState .DISCONNECTED))
    (closing : ∀ t, t.peer.state ≠ .DISCONNECTED → P t →
      P ((t.setState .DISCONNECTING).setState .DISCONNECTED)) : P t := by
  induction h with
  | refl => exact hs
  | write _ ha ih => exact write _ _ ha ih
  | handed m _ ih => exact handed _ m ih
  | dropped _ hne ih => exact dropped _ hne ih
  | closed _ hne ha ih => exact write _ _ (ha.setState .DISCONNECTED) (closing _ hne ih)

variable (s) in
theorem alike_postDisconnect : Alike s s.postDisconnect := {}

variable (s) in
theorem alike_releaseConnection : Alike s s.releaseConnection where
  callbacks h := (Bool.and_eq_true_iff.mp h).1

theorem state_ne_of_isConnected (h : s.peer.isConnected = true) : s.peer.state ≠ .DISCONNECTED := by
  intro heq
  unfold Peer.isConnected at h
  rw [heq] at h
  cases h

variable (s) in
theorem calm_doDisconnect : Calm s s.doDisconnect := by
  unfold doDisconnect
  split
  · exact .closed .refl (state_ne_of_isConnected ‹_›) (alike_releaseConnection _)
  · exact .refl

variable (s) in
theorem calm_onTransportDisconnect : Calm s s.onTransportDisconnect := by
  unfold onTransportDisconnect
  split
  · exact .dropped (alike_releaseConnection s).calm ‹_›
  · exact .refl

variable (s) in
theorem calm_runPosted : Calm s s.runPosted := by
  unfold runPosted
  split
  · exact .refl
  · have h : Alike s { s with postedDisconnects := s.postedDisconnects - 1 } := {}
    exact h.calm.trans (calm_doDisconnect _)

variable (s) in
theorem alike_sendMessage (steadyTime : Int) (wire : Wire) (m : Message) :
    Alike (s.record (.handed m)) (s.sendMessage steadyTime wire m) := by
  unfold sendMessage
  dsimp only
  split
  · exact {}
  · split
    · exact alike_postDisconnect _
    · split
      · exact {}
      · exact alike_postDisconnect _

variable (s) in
theorem calm_sendMessage (steadyTime : Int) (wire : Wire) (m : Message) :
    Calm (s.record (.handed m)) (s.sendMessage steadyTime wire m) := (alike_sendMessage s steadyTime wire m).calm

variable (s) in
theorem calm_send (steadyTime : Int) (wire : Wire) (m : OrdinaryMessage) :
    Calm s (s.sendMessage steadyTime wire m.1) :=
  (Calm.refl.handed m).trans (calm_sendMessage s steadyTime wire m.1)

variable (s) in
theorem calm_handlePong (steadyTime : Int) (nonce : BitVec 64) : Calm s (s.handlePong steadyTime nonce) := by
  unfold handlePong
  split
  · exact Alike.calm {}
  · exact .refl

variable (s) in
theorem calm_act (steadyTime : Int) (a : HandlerAction) : Calm s (s.act steadyTime a) := by
  cases a with
  | disconnect => exact calm_doDisconnect s
  | send m wire => exact calm_send s steadyTime wire m

variable (s) in
theorem calm_foldl_act (steadyTime : Int) (l : List HandlerAction) :
    Calm s (l.foldl (fun s a => s.act steadyTime a) s) := by
  induction l generalizing s with
  | nil => exact .refl
  | cons a l ih => exact (calm_act s steadyTime a).trans (ih _)

variable (s) in
/-- The handler is told of a message, and does what it likes. -/
theorem deliver_cases (env : MessageEnv) (m : Message) :
    (s.messageHandler = true ∧ Calm (s.record (.delivered s.messagesReceived m)) (s.deliver env m)) ∨
      (s.messageHandler = false ∧ s.deliver env m = s) := by
  unfold deliver
  cases hm : s.messageHandler with
  | true => exact .inl ⟨rfl, calm_foldl_act _ _ _⟩
  | false => exact .inr ⟨rfl, rfl⟩

theorem isOrdinary_ping (nonce : BitVec 64) : (Message.ping nonce).IsOrdinary := by
  simp [Message.IsOrdinary, Message.command]

theorem isOrdinary_pong (nonce : BitVec 64) : (Message.pong nonce).IsOrdinary := by
  simp [Message.IsOrdinary, Message.command]

variable (s) in
theorem calm_pingTimer (steadyTime : Int) (wire : Wire) (nonce : BitVec 64) :
    Calm s (s.pingTimer steadyTime wire nonce) := by
  unfold pingTimer
  split
  · exact .refl
  · split
    · split
      · exact calm_doDisconnect s
      · exact .refl
    · have h : Alike s { s with lastPingNonce := nonce, pingSentTime := steadyTime } := {}
      exact h.calm.trans (calm_send _ steadyTime wire ⟨.ping nonce, isOrdinary_ping nonce⟩)

variable (s) in
theorem calm_handshakeTimer : Calm s s.handshakeTimer := by
  unfold handshakeTimer
  split
  · exact .refl
  · split
    · exact calm_doDisconnect s
    · exact .refl

variable (s) in
theorem calm_inactivityTimer (steadyTime : Int) : Calm s (s.inactivityTimer steadyTime) := by
  unfold inactivityTimer
  split
  · exact .refl
  · split
    · exact calm_doDisconnect s
    · exact .refl

/-! ## The peer of the managers -/

variable (s) in
theorem doDisconnect_peer : s.doDisconnect.peer = s.peer.disconnect := by
  unfold doDisconnect Peer.disconnect
  split <;> rfl

variable (s) in
theorem handleVerack_peer : s.handleVerack.peer = s.peer.handleVerack := by
  unfold handleVerack Peer.handleVerack
  dsimp only
  split
  · rename_i h
    rw [if_pos (by exact h)]
    rfl
  · rename_i h
    have h' : ¬ s.peer.successfullyConnected = true := h
    rw [if_neg h']
    split <;> rfl

/-! ## Messages -/

/-- The message of a frame, where it may come and can be read. -/
def message? (s : PeerSession) (x : MessageHeader × List UInt8) : Option Message :=
  if s.peerVersion = 0 ∧ x.1.getCommand ≠ "version" then none else Message.deserialize x.1.getCommand x.2

theorem createMessage_of_deserialize {command : String} {data : List UInt8} {m : Message}
    (h : Message.deserialize command data = some m) : createMessage command = true := by
  obtain ⟨rfl, -, -⟩ := Message.deserialize_sound h
  cases m <;> rfl

variable (s) in
theorem unknownCommand_cases (steadyTime : Int) :
    ∃ t, Alike s t ∧ (s.unknownCommand steadyTime = t ∨ s.unknownCommand steadyTime = t.violate .unknownCommands) := by
  unfold unknownCommand
  dsimp only
  split
  · split
    · exact ⟨_, {}, .inr rfl⟩
    · exact ⟨_, {}, .inl rfl⟩
  · split
    · exact ⟨_, {}, .inr rfl⟩
    · exact ⟨_, {}, .inl rfl⟩

section
variable (config : SessionConfig) (env : MessageEnv) {x : MessageHeader × List UInt8}

/-- A frame without such a message is dropped, or is a violation. -/
theorem processMessage_of_none (h : s.message? x = none) :
    ∃ t, Alike s.count t ∧ (s.processMessage config env x = t ∨
      ∃ reason, reason ≠ .framing ∧ s.processMessage config env x = t.violate reason) := by
  unfold message? at h
  unfold processMessage
  dsimp only
  split at h
  · rename_i hearly
    rw [if_pos (by exact hearly)]
    exact ⟨_, {}, .inr ⟨_, by simp, rfl⟩⟩
  · rename_i hearly
    rw [if_neg (by exact hearly)]
    split
    · obtain ⟨t, ht, hcase⟩ := unknownCommand_cases s.count env.steadyTime
      exact ⟨t, ht, hcase.imp id fun heq => ⟨_, by simp, heq⟩⟩
    · rw [h]
      exact ⟨_, {}, .inr ⟨_, by simp, rfl⟩⟩

theorem processMessage_early (h0 : s.peerVersion = 0) (hne : x.1.getCommand ≠ "version") :
    s.processMessage config env x = s.count.violate .beforeVersion := if_pos ⟨h0, hne⟩

theorem processMessage_of_some {m : Message} (h : s.message? x = some m) :
    s.processMessage config env x = s.count.handle config env m := by
  unfold message? at h
  unfold processMessage
  dsimp only
  split at h
  · cases h
  · rename_i hearly
    rw [if_neg (by exact hearly), createMessage_of_deserialize h, h]
    rfl

/-- A session that has taken a VERSION. -/
def acceptVersion (s : PeerSession) (m : VersionMessage) : PeerSession :=
  ((s.record (.version s.messagesReceived m)).record (.accepted s.peer.state m)).takeVersion m

/-- What `handle_version` can do. -/
inductive VersionHandled (s : PeerSession) (m : VersionMessage) : PeerSession → Prop
  | redundant (h : s.peerVersion ≠ 0) : VersionHandled s m (s.record (.version s.messagesReceived m))
  | obsolete (h : s.peerVersion = 0) (hv : m.version.toInt < MIN_PROTOCOL_VERSION) :
      VersionHandled s m ((s.record (.version s.messagesReceived m)).violate .obsoleteVersion)
  | self (h : s.peerVersion = 0) (hv : MIN_PROTOCOL_VERSION ≤ m.version.toInt)
      (hin : s.peer.isInbound = true) (hnonce : m.nonce = s.localNonce) :
      VersionHandled s m ((s.acceptVersion m).violate .selfConnection)
  | answered (h : s.peerVersion = 0) (hv : MIN_PROTOCOL_VERSION ≤ m.version.toInt)
      (hin : s.peer.isInbound = true) (hnonce : m.nonce ≠ s.localNonce) (hstate : s.peer.state = .CONNECTED) :
      VersionHandled s m (((s.acceptVersion m).sendVersion config env.steadyTime env.time env.versionWire).sendMessage
        env.steadyTime env.verackWire .verack)
  | late (h : s.peerVersion = 0) (hv : MIN_PROTOCOL_VERSION ≤ m.version.toInt)
      (hin : s.peer.isInbound = true) (hnonce : m.nonce ≠ s.localNonce) (hstate : s.peer.state ≠ .CONNECTED) :
      VersionHandled s m ((s.acceptVersion m).sendMessage env.steadyTime env.verackWire .verack)
  | sampled (h : s.peerVersion = 0) (hv : MIN_PROTOCOL_VERSION ≤ m.version.toInt)
      (hout : s.peer.isInbound = false) (address : NetworkAddress) :
      VersionHandled s m (((s.acceptVersion m).record (.timeData address (timeOffset m env.time))).sendMessage
        env.steadyTime env.verackWire .verack)

variable (s) in
theorem versionHandled (m : VersionMessage) : VersionHandled config env s m (s.handleVersion config env m) := by
  unfold handleVersion
  dsimp only
  split
  · exact .redundant ‹_›
  rename_i h0
  have h0' : s.peerVersion = 0 := not_not.mp h0
  split
  · exact .obsolete h0' ‹_›
  rename_i hv
  have hv' := not_lt.mp hv
  have haccept : ((s.record (.version s.messagesReceived m)).record
      (.accepted (s.record (.version s.messagesReceived m)).peer.state m)).takeVersion m = s.acceptVersion m := rfl
  rw [haccept]
  have hin : (s.acceptVersion m).peer.isInbound = s.peer.isInbound := rfl
  have hstate : (s.acceptVersion m).peer.state = s.peer.state := rfl
  have hnonce : ((s.acceptVersion m).peerNonce == (s.acceptVersion m).localNonce) = (m.nonce == s.localNonce) := rfl
  rw [hin, hnonce]
  cases hside : s.peer.isInbound with
  | false =>
    simp only [Bool.false_and, Bool.false_eq_true, if_false, Bool.not_false, if_true]
    rw [if_neg]
    · exact .sampled h0' hv' hside _
    · have hrec : ((s.acceptVersion m).record (.timeData (config.networkAddressFromString
          (s.acceptVersion m).peer.address (s.acceptVersion m).peer.port) (timeOffset m env.time))).peer.isInbound =
            false := hside
      rw [hrec]
      simp
  | true =>
    simp only [Bool.true_and, Bool.not_true, Bool.false_eq_true, if_false, hin, hside, hstate]
    split
    · rename_i heq
      exact .self h0' hv' hside (beq_iff_eq.mp heq)
    · rename_i hne
      have hne' : m.nonce ≠ s.localNonce := fun heq => hne (beq_iff_eq.mpr heq)
      split
      · rename_i heq
        exact .answered h0' hv' hside hne' (beq_iff_eq.mp heq)
      · rename_i hconnected
        exact .late h0' hv' hside hne' fun heq => hconnected (beq_iff_eq.mpr heq)

theorem handleVerack_of_done (h : s.peer.successfullyConnected = true) :
    s.handleVerack = s.record (.verack s.messagesReceived) := if_pos h

/-- The first VERACK, but for the disconnection that a feeler posts. -/
theorem handleVerack_of_first (h : s.peer.successfullyConnected = false) :
    Alike (s.record (.verack s.messagesReceived)).completeHandshake s.handleVerack := by
  have hdone : ¬ (s.record (.verack s.messagesReceived)).peer.successfullyConnected = true := by
    rw [Bool.not_eq_true]
    exact h
  unfold handleVerack
  dsimp only
  rw [if_neg hdone]
  split
  · exact alike_postDisconnect _
  · exact {}

theorem version_of_message? {m : Message} (h : s.message? x = some m) (h0 : s.peerVersion = 0) :
    ∃ v, m = .version v := by
  unfold message? at h
  split at h
  · cases h
  · rename_i hearly
    have hcommand : x.1.getCommand = "version" := by
      by_contra hne
      exact hearly ⟨h0, hne⟩
    have hm := (Message.deserialize_sound h).1
    rw [hcommand] at hm
    cases m with
    | version v => exact ⟨v, rfl⟩
    | _ => simp [Message.command] at hm

end

/-! ## Start -/

/-- A session whose connection is found open: CONNECTED, with its callbacks set. -/
structure Opened (s t : PeerSession) : Prop where
  isInbound : t.peer.isInbound = s.peer.isInbound
  state : t.peer.state = .CONNECTED
  successfullyConnected : t.peer.successfullyConnected = s.peer.successfullyConnected
  localNonce : t.localNonce = s.localNonce
  started : t.started = true
  messagesReceived : t.messagesReceived = s.messagesReceived
  peerVersion : t.peerVersion = s.peerVersion
  log : s.peer.state = .CONNECTED ∧ t.log = s.log ∨
    s.peer.state = .CONNECTING ∧ t.log = s.log ++ [.state .CONNECTED]

/-- The first `start` fails, or opens the session, and an outbound peer sends its VERSION. -/
theorem start_cases (config : SessionConfig) (steadyTime time : Int) (isOpen : Bool) (wire : Wire)
    (h : s.started = false) :
    s.start config steadyTime time isOpen wire = { s with started := true } ∨
      ∃ t, Opened s t ∧ s.start config steadyTime time isOpen wire =
        if s.peer.isInbound then t else t.sendVersion config steadyTime time wire := by
  unfold start
  rw [if_neg (by rw [h]; simp)]
  dsimp only
  split
  · exact .inl rfl
  · rename_i hstate
    split
    · exact .inl rfl
    · rename_i hopen
      right
      by_cases hconnecting : s.peer.state = .CONNECTING
      · have heq : (if s.peer.state = .CONNECTING then { s with started := true }.setState .CONNECTED
            else { s with started := true }) = { s with started := true }.setState .CONNECTED := if_pos hconnecting
        have hopened : Opened s (({ s with started := true } : PeerSession).setState .CONNECTED |>.register steadyTime) :=
          ⟨rfl, rfl, rfl, rfl, rfl, rfl, rfl, .inr ⟨hconnecting, rfl⟩⟩
        rw [heq]
        exact ⟨_, hopened, rfl⟩
      · have hconnected : s.peer.state = .CONNECTED := by
          by_contra hne
          exact hstate ⟨hconnecting, hne⟩
        have heq : (if s.peer.state = .CONNECTING then { s with started := true }.setState .CONNECTED
            else { s with started := true }) = { s with started := true } := if_neg hconnecting
        have hopened : Opened s (({ s with started := true } : PeerSession).register steadyTime) :=
          ⟨rfl, hconnected, rfl, rfl, rfl, rfl, rfl, .inl ⟨hconnected, rfl⟩⟩
        rw [heq]
        exact ⟨_, hopened, rfl⟩

theorem start_of_started (config : SessionConfig) (steadyTime time : Int) (isOpen : Bool) (wire : Wire)
    (h : s.started = true) : s.start config steadyTime time isOpen wire = s := by
  unfold start
  rw [if_pos h]

end

end PeerSession

/-! ## Events -/

namespace PeerLoop

open PeerSession

section
variable (config : SessionConfig) (l : PeerLoop)

/-- The frame at the front of the buffer. -/
def front : Option (MessageHeader × List UInt8) :=
  match readFrame config.networkMagic config.computeChecksum l.buffer.unread with
  | .item x _ => some x
  | _ => none

/-- The frame that an event passes to `process_message`. -/
def nextMessage : PeerOp → Option (MessageHeader × List UInt8)
  | .round _ => if l.processing then l.front config else none
  | _ => none

/-- What an event can make of a peer, with the frame that it passes on. -/
inductive Outcome : Option (MessageHeader × List UInt8) → PeerLoop → Prop
  | calm {s} (hs : Calm l.session s) : Outcome none { l with session := s }
  | started (hidle : l.processing = false) (hstart : l.session.started = false) (steadyTime time : Int)
      (isOpen : Bool) (wire : Wire) :
      Outcome none { l with session := l.session.start config steadyTime time isOpen wire }
  | received {s data buffer} (hcallbacks : l.session.callbacks = true) (hs : Alike l.session s)
      (hbuffer : buffer.unread = l.buffer.unread ++ data) : Outcome none ⟨s, buffer, true⟩
  | waiting : Outcome none { l with processing := false }
  | misframed (hread : readFrame config.networkMagic config.computeChecksum l.buffer.unread = .bad) :
      Outcome none { l with session := l.session.violate .framing, processing := false }
  | message {x n env buffer} (hprocessing : l.processing = true)
      (hread : readFrame config.networkMagic config.computeChecksum l.buffer.unread = .item x n)
      (hbuffer : buffer.unread = l.buffer.unread.drop n) :
      Outcome (some x) ⟨l.session.processMessage config env x, buffer, true⟩

theorem Outcome.same : Outcome config l none l := .calm .refl

variable {config l} in
theorem unread_of_accept {b buffer : RecvBuffer} {data : List UInt8} (h : b.accept data = some buffer) :
    buffer.unread = b.unread ++ data := by
  have haccept := accept_eq b data
  rw [h] at haccept
  split at haccept
  · cases haccept
  · exact Option.some.inj haccept

theorem receive_outcome (steadyTime : Int) (data : List UInt8) (h : l.session.callbacks = true) :
    Outcome config l none (l.receive steadyTime data) := by
  unfold receive
  split
  · exact .calm (alike_postDisconnect _).calm
  · exact .received h {} (unread_of_accept ‹_›)

theorem round_outcome (env : MessageEnv) (h : l.processing = true) :
    Outcome config l (l.nextMessage config (.round env)) (l.round config env) := by
  have hnext : l.nextMessage config (.round env) = l.front config := if_pos h
  rw [hnext]
  unfold round
  split
  · rename_i hread
    have hfront : l.front config = none := by simp only [front, hread]
    rw [hfront]
    exact .waiting
  · rename_i hread
    have hfront : l.front config = none := by simp only [front, hread]
    rw [hfront]
    exact .misframed hread
  · rename_i x n hread
    have hfront : l.front config = some x := by simp only [front, hread]
    rw [hfront, h]
    exact .message h hread (RecvBuffer.unread_advance _ _)

theorem onSession_outcome (op : PeerOp) (hidle : l.processing = false) :
    Outcome config l none { l with session := l.onSession config op } := by
  cases op with
  | setMessageHandler => exact .calm (Alike.calm {})
  | start steadyTime time isOpen wire =>
    cases hstart : l.session.started with
    | true =>
      have heq : l.onSession config (.start steadyTime time isOpen wire) = l.session :=
        start_of_started config steadyTime time isOpen wire hstart
      rw [heq]
      exact .same config l
    | false => exact .started hidle hstart steadyTime time isOpen wire
  | receive | round => exact .same config l
  | runPosted => exact .calm (calm_runPosted _)
  | disconnect => exact .calm (calm_doDisconnect _)
  | transportDisconnect =>
    have heq : l.onSession config .transportDisconnect =
        if l.session.started then l.session.onTransportDisconnect else l.session := rfl
    rw [heq]
    split
    · exact .calm (calm_onTransportDisconnect _)
    · exact .same config l
  | pingTimer steadyTime wire nonce => exact .calm (calm_pingTimer _ _ _ _)
  | handshakeTimer => exact .calm (calm_handshakeTimer _)
  | inactivityTimer steadyTime => exact .calm (calm_inactivityTimer _ _)
  | send steadyTime wire m => exact .calm (calm_send _ _ _ m)

theorem step_outcome (op : PeerOp) : Outcome config l (l.nextMessage config op) (l.step config op) := by
  have hidle : ∀ op, Outcome config l none
      (if l.processing then l else { l with session := l.onSession config op }) := by
    intro op
    by_cases h : l.processing = true
    · rw [if_pos h]
      exact .same config l
    · rw [if_neg h]
      exact onSession_outcome config l op (Bool.eq_false_iff.mpr h)
  cases op with
  | round env =>
    by_cases h : l.processing = true
    · have heq : l.step config (.round env) = l.round config env := if_pos h
      rw [heq]
      exact round_outcome config l env h
    · have heq : l.step config (.round env) = l := if_neg h
      have hnone : l.nextMessage config (.round env) = none := if_neg h
      rw [heq, hnone]
      exact .same config l
  | receive steadyTime data =>
    by_cases h : (!l.processing && l.session.callbacks) = true
    · have heq : l.step config (.receive steadyTime data) = l.receive steadyTime data := if_pos h
      rw [heq]
      exact receive_outcome config l steadyTime data (Bool.and_eq_true_iff.mp h).2
    · have heq : l.step config (.receive steadyTime data) = l := if_neg h
      rw [heq]
      exact .same config l
  | _ => exact hidle _

/-! ## Frames of messages -/

/-- What `send_message` hands to the transport of the other end. -/
def sentBytes (m : Message) : List UInt8 :=
  fullMessage config.networkMagic config.computeChecksum m.command m.serialize

def frameOf (m : Message) : MessageHeader × List UInt8 :=
  sentFrame config.networkMagic config.computeChecksum (m.command, m.serialize)

theorem getCommand_frameOf (m : Message) : (frameOf config m).1.getCommand = m.command :=
  getCommand_createHeader _ _ (validCommand_command m) _

theorem message?_frameOf (s : PeerSession) {m : Message} (h : m.WithinLimits)
    (hfirst : s.peerVersion ≠ 0 ∨ m.command = "version") : s.message? (frameOf config m) = some m := by
  unfold message?
  rw [getCommand_frameOf, if_neg]
  · exact Message.deserialize_serialize h
  · rintro ⟨h0, hne⟩
    rcases hfirst with hversion | hcommand
    · exact hversion h0
    · exact hne hcommand

theorem round_sentBytes {l : PeerLoop} (h : l.processing = true) {m : Message} (hm : m.WithinLimits)
    {t : List UInt8} (hbuffer : l.buffer.unread = sentBytes config m ++ t) (env : MessageEnv) :
    ∃ buffer : RecvBuffer, buffer.unread = t ∧
      l.step config (.round env) = ⟨l.session.processMessage config env (frameOf config m), buffer, true⟩ := by
  have hsend := sendable_message hm
  have hread : readFrame config.networkMagic config.computeChecksum l.buffer.unread =
      .item (frameOf config m) (sentBytes config m).length := by
    rw [hbuffer]
    exact readFrame_fullMessage _ _ hsend.1 hsend.2.1 hsend.2.2 t
  have hstep : l.step config (.round env) = l.round config env := if_pos h
  rw [hstep]
  unfold round
  split
  · rename_i heq
    rw [heq] at hread
    cases hread
  · rename_i heq
    rw [heq] at hread
    cases hread
  · rename_i x n heq
    have hitem := heq.symm.trans hread
    cases hitem
    refine ⟨_, ?_, by rw [h]⟩
    rw [RecvBuffer.unread_advance, hbuffer]
    exact List.drop_left

/-- An inbound peer from 10.0.0.1 to a node with the nonce 7. -/
def inboundPeer : PeerLoop := create (.inbound (some ("10.0.0.1", 1000)) true) 7 0 0

/-- Two messages that come in one chunk, with what the handler does on the first. -/
def inOneChunk (m m' : Message) (actions : List HandlerAction) : List PeerOp :=
  [.setMessageHandler, .start 0 0 true {}, .receive 0 (sentBytes config m ++ sentBytes config m'),
    .round { actions := actions }, .round {}]

/-- The peer when it waits for messages. -/
def listening : PeerSession := { inboundPeer.session with messageHandler := true, started := true, callbacks := true }

theorem inboundPeer_started :
    inboundPeer.run config [.setMessageHandler, .start 0 0 true {}] = ⟨listening, {}, false⟩ := rfl

theorem listening_receive {data : List UInt8} {buffer : RecvBuffer} (h : ({} : RecvBuffer).accept data = some buffer) :
    (⟨listening, {}, false⟩ : PeerLoop).step config (.receive 0 data) = ⟨listening, buffer, true⟩ := by
  have hstep : (⟨listening, {}, false⟩ : PeerLoop).step config (.receive 0 data) =
      (⟨listening, {}, false⟩ : PeerLoop).receive 0 data := rfl
  rw [hstep]
  unfold receive
  rw [h]
  rfl

theorem run_inOneChunk {m m' : Message} (hm : m.WithinLimits) (hm' : m'.WithinLimits)
    (hlen : (sentBytes config m ++ sentBytes config m').length ≤ DEFAULT_RECV_FLOOD_SIZE)
    (actions : List HandlerAction) :
    (inboundPeer.run config (inOneChunk config m m' actions)).session =
      (listening.processMessage config { actions := actions } (frameOf config m)).processMessage config {}
        (frameOf config m') := by
  have hrun : inboundPeer.run config (inOneChunk config m m' actions) =
      (((inboundPeer.run config [.setMessageHandler, .start 0 0 true {}]).step config
        (.receive 0 (sentBytes config m ++ sentBytes config m'))).step config
          (.round { actions := actions })).step config (.round {}) := by
    unfold run inOneChunk
    simp only [List.foldl_cons, List.foldl_nil]
  rw [hrun, inboundPeer_started]
  generalize hdata : sentBytes config m ++ sentBytes config m' = data at hlen ⊢
  obtain ⟨buffer, hbuffer⟩ : ∃ buffer : RecvBuffer, ({} : RecvBuffer).accept data = some buffer := by
    have haccept := accept_eq {} data
    have hempty : ({} : RecvBuffer).unread = [] := rfl
    rw [hempty, List.length_nil, Nat.zero_add, if_neg (not_lt.mpr hlen)] at haccept
    obtain ⟨buffer, hb, -⟩ := Option.map_eq_some_iff.mp haccept
    exact ⟨buffer, hb⟩
  have hunread : buffer.unread = sentBytes config m ++ sentBytes config m' :=
    (unread_of_accept hbuffer).trans hdata.symm
  obtain ⟨buffer', hunread', hfirst⟩ := round_sentBytes config (l := ⟨listening, buffer, true⟩) rfl hm hunread
    { actions := actions }
  have hrest : buffer'.unread = sentBytes config m' ++ [] := by rw [hunread', List.append_nil]
  obtain ⟨buffer'', -, hsecond⟩ := round_sentBytes config
    (l := ⟨listening.processMessage config { actions := actions } (frameOf config m), buffer', true⟩) rfl hm' hrest {}
  rw [listening_receive config hbuffer, hfirst, hsecond]

/-- Checksums as they are for the two payloads below. -/
def mainnet : SessionConfig where
  networkMagic := 0x554e4943
  computeChecksum payload := if payload = [] then 0x5df6e0e2 else 0x33e34042
  networkAddressFromString _ _ := {}

/-- A VERSION with the nonce of the node that gets it. -/
def ownVersion : VersionMessage := ⟨1, 1, 1700000000, {}, {}, 7, [], 0⟩

theorem ownVersion_withinLimits : (Message.version ownVersion).WithinLimits := Nat.zero_le _

theorem verack_withinLimits : Message.verack.WithinLimits := trivial

theorem length_ownVersion_verack :
    (sentBytes mainnet (.version ownVersion) ++ sentBytes mainnet .verack).length ≤ DEFAULT_RECV_FLOOD_SIZE := by
  have hlen : (Message.version ownVersion).serialize.length = 85 := by decide
  rw [List.length_append]
  unfold sentBytes
  rw [fullMessage_length, fullMessage_length, hlen]
  decide

/-- A node that connects to itself, and a VERACK in the same chunk. -/
theorem session_selfConnection :
    (inboundPeer.run mainnet (inOneChunk mainnet (.version ownVersion) .verack [.disconnect])).session.log =
      [.state .CONNECTED, .version 1 ownVersion, .accepted .CONNECTED ownVersion, .violation 1 .selfConnection,
        .delivered 1 (.version ownVersion), .state .DISCONNECTING, .state .DISCONNECTED, .verack 2, .state .READY,
        .delivered 2 .verack] := by
  rw [run_inOneChunk mainnet ownVersion_withinLimits verack_withinLimits length_ownVersion_verack]
  have hfirst : listening.processMessage mainnet { actions := [.disconnect] } (frameOf mainnet (.version ownVersion)) =
      listening.count.handle mainnet { actions := [.disconnect] } (.version ownVersion) :=
    processMessage_of_some _ _ (message?_frameOf _ _ ownVersion_withinLimits (.inr rfl))
  have hversion : (listening.count.handle mainnet { actions := [.disconnect] } (.version ownVersion)).peerVersion ≠ 0 := by
    decide
  rw [hfirst, processMessage_of_some _ _ (message?_frameOf mainnet _ verack_withinLimits (.inl hversion))]
  rfl

/-! ## The loop -/

/-- `process_message` as the sink of the frames, with what each message reads of the world. -/
def sink (env : Nat → MessageEnv) : Sink (MessageHeader × List UInt8) PeerSession where
  item s x := s.processMessage config (env s.messagesReceived) x
  fault s
    | .framing => s.violate .framing
    | .flood => s.postDisconnect

/-- The rounds, made until the loop ends, are `process_received_data`. -/
theorem rounds_eq_processReceivedData (env : Nat → MessageEnv) (s : PeerSession) (b : RecvBuffer) :
    ∃ rounds : List PeerOp, (∀ op ∈ rounds, ∃ env, op = .round env) ∧
      (⟨s, b, true⟩ : PeerLoop).run config rounds =
        ⟨(processReceivedData config.networkMagic config.computeChecksum (sink config env) b s).2,
          (processReceivedData config.networkMagic config.computeChecksum (sink config env) b s).1, false⟩ := by
  induction hb : b.unread.length using Nat.strong_induction_on generalizing b s with
  | _ k ih =>
    have hround : (⟨s, b, true⟩ : PeerLoop).step config (.round (env s.messagesReceived)) =
        (⟨s, b, true⟩ : PeerLoop).round config (env s.messagesReceived) := rfl
    cases hread : readFrame config.networkMagic config.computeChecksum b.unread with
    | more =>
      refine ⟨[.round (env s.messagesReceived)], by simp, ?_⟩
      rw [processReceivedData_more _ hread]
      show (⟨s, b, true⟩ : PeerLoop).round config _ = _
      unfold round
      split <;> simp_all
    | bad =>
      refine ⟨[.round (env s.messagesReceived)], by simp, ?_⟩
      rw [processReceivedData_bad _ hread]
      show (⟨s, b, true⟩ : PeerLoop).round config _ = _
      unfold round
      split <;> simp_all [sink]
    | item x n =>
      have hsize := readFrame_size hread
      have hadvance := RecvBuffer.unread_advance b hsize.2
      obtain ⟨rounds, hrounds, hrun⟩ := ih (b.advance n hsize.2).unread.length
        (by rw [hadvance, List.length_drop]; omega) (s.processMessage config (env s.messagesReceived) x)
        (b.advance n hsize.2) rfl
      refine ⟨.round (env s.messagesReceived) :: rounds, by simpa using hrounds, ?_⟩
      rw [processReceivedData_item _ hread]
      have hstep : (⟨s, b, true⟩ : PeerLoop).round config (env s.messagesReceived) =
          ⟨s.processMessage config (env s.messagesReceived) x, b.advance n hsize.2, true⟩ := by
        unfold round
        split
        · simp_all
        · simp_all
        · rename_i heq
          have hitem := heq.symm.trans hread
          cases hitem
          rfl
      show PeerLoop.run config ((⟨s, b, true⟩ : PeerLoop).round config _) rounds = _
      rw [hstep]
      exact hrun

end

end PeerLoop

end UnicityPow
