import UnicityPow.HandshakeSound
import UnicityPow.Population

/-!
# What an event loop leaves of its peer

An event of a peer extends the log of its session, and neither turns its peer into another
nor gives it another address.
-/

namespace UnicityPow

namespace PeerSession

/-! ## The peer of a session -/

section
variable {s t : PeerSession} {config : SessionConfig}

/-- The peer of the second session is that of the first, later on. -/
def Tracks (s t : PeerSession) : Prop := t.peer.Follows s.peer

theorem Tracks.refl (s : PeerSession) : Tracks s s := Peer.Follows.refl s.peer

theorem Tracks.trans {u : PeerSession} (h1 : Tracks s t) (h2 : Tracks t u) : Tracks s u := Peer.Follows.trans h2 h1

theorem Tracks.of_eq (h : t.peer = s.peer) : Tracks s t := by
  unfold Tracks
  rw [h]
  exact .refl _

theorem tracks_setState (s : PeerSession) (state : PeerConnectionState) : Tracks s (s.setState state) :=
  ⟨rfl, rfl, rfl, rfl, .inl rfl⟩

theorem tracks_doDisconnect (s : PeerSession) : Tracks s s.doDisconnect := by
  unfold Tracks
  rw [doDisconnect_peer]
  exact Peer.disconnect_follows s.peer

theorem tracks_onTransportDisconnect (s : PeerSession) : Tracks s s.onTransportDisconnect := by
  unfold onTransportDisconnect
  split
  · exact ⟨rfl, rfl, rfl, rfl, .inr rfl⟩
  · exact .refl s

theorem tracks_runPosted (s : PeerSession) : Tracks s s.runPosted := by
  unfold runPosted
  split
  · exact .refl s
  · exact tracks_doDisconnect _

theorem sendMessage_peer (s : PeerSession) (steadyTime : Int) (wire : Wire) (m : Message) :
    (s.sendMessage steadyTime wire m).peer = s.peer := by
  unfold sendMessage
  dsimp only
  split
  · rfl
  · split
    · rfl
    · split <;> rfl

theorem tracks_sendMessage (s : PeerSession) (steadyTime : Int) (wire : Wire) (m : Message) :
    Tracks s (s.sendMessage steadyTime wire m) :=
  .of_eq (sendMessage_peer s steadyTime wire m)

theorem tracks_sendVersion (s : PeerSession) (config : SessionConfig) (steadyTime time : Int) (wire : Wire) :
    Tracks s (s.sendVersion config steadyTime time wire) :=
  (tracks_sendMessage s steadyTime wire _).trans (tracks_setState _ _)

theorem tracks_start (s : PeerSession) (config : SessionConfig) (steadyTime time : Int) (isOpen : Bool)
    (wire : Wire) : Tracks s (s.start config steadyTime time isOpen wire) := by
  unfold start
  split
  · exact .refl s
  · dsimp only
    split
    · exact .of_eq rfl
    · split
      · exact .of_eq rfl
      · have hopened : Tracks s (if s.peer.state = .CONNECTING then { s with started := true }.setState .CONNECTED
            else { s with started := true }) := by
          split
          · exact ⟨rfl, rfl, rfl, rfl, .inl rfl⟩
          · exact .of_eq rfl
        generalize (if s.peer.state = .CONNECTING then { s with started := true }.setState .CONNECTED
          else { s with started := true } : PeerSession) = t at hopened ⊢
        have hregistered : Tracks s (t.register steadyTime) := hopened.trans ⟨rfl, rfl, rfl, rfl, .inl rfl⟩
        split
        · exact hregistered
        · exact hregistered.trans (tracks_sendVersion _ _ _ _ _)

theorem tracks_handleVersion (s : PeerSession) (config : SessionConfig) (env : MessageEnv) (m : VersionMessage) :
    Tracks s (s.handleVersion config env m) := by
  have hcases := versionHandled s config env m
  generalize s.handleVersion config env m = t at hcases
  have haccept : Tracks s (s.acceptVersion m) := .of_eq rfl
  cases hcases with
  | redundant | obsolete | self => exact .of_eq rfl
  | answered => exact (haccept.trans (tracks_sendVersion _ _ _ _ _)).trans (tracks_sendMessage _ _ _ _)
  | late => exact haccept.trans (tracks_sendMessage _ _ _ _)
  | sampled h0 hv hout address =>
    have hrec : Tracks s ((s.acceptVersion m).record (.timeData address (timeOffset m env.time))) := .of_eq rfl
    exact hrec.trans (tracks_sendMessage _ _ _ _)

theorem tracks_handleVerack (s : PeerSession) : Tracks s s.handleVerack := by
  unfold Tracks
  rw [handleVerack_peer]
  exact Peer.handleVerack_follows s.peer

theorem tracks_deliver (s : PeerSession) (env : MessageEnv) (m : Message) : Tracks s (s.deliver env m) := by
  unfold deliver
  split
  · have hrec : Tracks s (s.record (.delivered s.messagesReceived m)) := .of_eq rfl
    generalize s.record (.delivered s.messagesReceived m) = t at hrec ⊢
    induction env.actions generalizing t with
    | nil => exact hrec
    | cons a actions ih =>
      refine ih _ (hrec.trans ?_)
      cases a with
      | disconnect => exact tracks_doDisconnect t
      | send m wire => exact tracks_sendMessage t _ wire m.1
  · exact .refl s

theorem tracks_handlePong (s : PeerSession) (steadyTime : Int) (nonce : BitVec 64) :
    Tracks s (s.handlePong steadyTime nonce) := by
  unfold handlePong
  split
  · exact ⟨rfl, rfl, rfl, rfl, .inl rfl⟩
  · exact .refl s

theorem unknownCommand_peer (s : PeerSession) (steadyTime : Int) : (s.unknownCommand steadyTime).peer = s.peer := by
  unfold unknownCommand
  dsimp only
  split <;> split <;> rfl

theorem tracks_processMessage (s : PeerSession) (config : SessionConfig) (env : MessageEnv)
    (x : MessageHeader × List UInt8) : Tracks s (s.processMessage config env x) := by
  unfold processMessage
  dsimp only
  have hcount : Tracks s s.count := .of_eq rfl
  generalize s.count = t at hcount ⊢
  refine hcount.trans ?_
  split
  · exact .of_eq rfl
  · split
    · exact .of_eq (unknownCommand_peer t _)
    · split
      · exact .of_eq rfl
      · rename_i m _
        cases m with
        | version m => exact (tracks_handleVersion t config env m).trans (tracks_deliver _ _ _)
        | verack => exact (tracks_handleVerack t).trans (tracks_deliver _ _ _)
        | ping nonce => exact tracks_sendMessage t _ _ _
        | pong nonce => exact tracks_handlePong t _ nonce
        | _ => exact tracks_deliver t env _

theorem tracks_pingTimer (s : PeerSession) (steadyTime : Int) (wire : Wire) (nonce : BitVec 64) :
    Tracks s (s.pingTimer steadyTime wire nonce) := by
  unfold pingTimer
  split
  · exact .refl s
  · split
    · split
      · exact tracks_doDisconnect s
      · exact .refl s
    · exact .of_eq (sendMessage_peer _ _ _ _)

theorem tracks_handshakeTimer (s : PeerSession) : Tracks s s.handshakeTimer := by
  unfold handshakeTimer
  split
  · exact .refl s
  · split
    · exact tracks_doDisconnect s
    · exact .refl s

theorem tracks_inactivityTimer (s : PeerSession) (steadyTime : Int) : Tracks s (s.inactivityTimer steadyTime) := by
  unfold inactivityTimer
  split
  · exact .refl s
  · split
    · exact tracks_doDisconnect s
    · exact .refl s

theorem ShookHands.grows (h : ShookHands s) (hlog : s.log <+: t.log)
    (hversions : t.log.countP SessionEvent.isVersion ≤ 1) (hveracks : t.log.countP SessionEvent.isVerack ≤ 1) :
    ShookHands t := by
  obtain ⟨⟨state, m, n, hmin, hsub⟩, h1, h2⟩ := h
  have hv := hlog.sublist.countP_le (p := SessionEvent.isVersion)
  have hk := hlog.sublist.countP_le (p := SessionEvent.isVerack)
  exact ⟨⟨state, m, n, hmin, hsub.trans hlog.sublist⟩, by omega, by omega⟩

end

end PeerSession

namespace PeerLoop

open PeerSession

section
variable (config : SessionConfig) (l : PeerLoop) (op : PeerOp)

theorem tracks_onSession : Tracks l.session (l.onSession config op) := by
  cases op with
  | setMessageHandler | receive | round => exact .of_eq rfl
  | start steadyTime time isOpen wire => exact tracks_start _ _ _ _ _ _
  | runPosted => exact tracks_runPosted _
  | disconnect => exact tracks_doDisconnect _
  | transportDisconnect =>
    simp only [onSession]
    split
    · exact tracks_onTransportDisconnect _
    · exact .refl _
  | pingTimer steadyTime wire nonce => exact tracks_pingTimer _ _ _ _
  | handshakeTimer => exact tracks_handshakeTimer _
  | inactivityTimer steadyTime => exact tracks_inactivityTimer _ _
  | send steadyTime wire m => exact tracks_sendMessage _ _ _ _

theorem tracks_receive (steadyTime : Int) (data : List UInt8) :
    Tracks l.session (l.receive steadyTime data).session := by
  unfold receive
  split <;> exact .of_eq rfl

theorem tracks_round (env : MessageEnv) : Tracks l.session (l.round config env).session := by
  unfold round
  split
  · exact .refl _
  · exact .of_eq rfl
  · exact tracks_processMessage _ _ _ _

theorem tracks_step : Tracks l.session (l.step config op).session := by
  have hidle : ∀ op, Tracks l.session
      (if l.processing then l else { l with session := l.onSession config op }).session := by
    intro op
    split
    · exact .refl _
    · exact tracks_onSession config l op
  cases op with
  | round env =>
    simp only [step]
    split
    · exact tracks_round config l env
    · exact .refl _
  | receive steadyTime data =>
    simp only [step]
    split
    · exact tracks_receive l steadyTime data
    · exact .refl _
  | _ => exact hidle _

/-! ## The log -/

theorem kept_log (p : List SessionEvent) : Kept fun s => p <+: s.log where
  same h hlog _ := hlog ▸ h
  record _ _ h := h.trans (List.prefix_append _ _)
  setState _ _ h := h.trans (List.prefix_append _ _)

theorem log_prefix_step : l.session.log <+: (l.step config op).session.log :=
  kept_of_outcome (kept_log l.session.log) (step_outcome config l op)
    (fun _ _ _ _ _ h => h.trans (List.prefix_append _ _)) List.prefix_rfl

variable {l} in
theorem HasTranscript.counts (h : HasTranscript l) :
    l.session.log.countP SessionEvent.isVersion ≤ 1 ∧ l.session.log.countP SessionEvent.isVerack ≤ 1 := by
  obtain ⟨taken, events, veracks, h⟩ := h
  obtain ⟨hversions, hveracks, -⟩ := h.opening.counts
  exact ⟨h.versions ▸ hversions, h.veracks_countP ▸ hveracks⟩

variable {l} in
theorem HasTranscript.shookHands (h : HasTranscript l) (hout : l.session.peer.isInbound = false)
    (hdone : l.session.peer.successfullyConnected = true) : ShookHands l.session := by
  refine ((handshakeSafe_iff h).mpr fun _ hun => ?_).ready (.inr hdone)
  rw [hun.1] at hout
  cases hout

end

end PeerLoop

end UnicityPow
