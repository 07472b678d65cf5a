import UnicityPow.Transport

/-!
# The send queue of a connection

While a connection is open its byte counter is the size of the queue, the front of the
queue is the one write in flight, and the socket has got what was accepted up to there.
-/

namespace UnicityPow

namespace RealTransportConnection

/-- The send side of an open connection. -/
structure SendOk (limitOverride : Nat) (c : RealTransportConnection) : Prop where
  bytes : c.sendQueueBytes = (c.sendQueue.map List.length).sum
  limit : c.sendQueueBytes ≤ sendQueueLimit limitOverride
  writing : c.writing = true ↔ c.sendQueue ≠ []
  writes : c.writes = c.sendQueue.take 1
  accepted : c.accepted = c.handed ++ c.sendQueue.tail

/-- The send side before a write is started on a queue that is not empty. -/
structure BeforeWrite (limitOverride : Nat) (c : RealTransportConnection) : Prop where
  bytes : c.sendQueueBytes = (c.sendQueue.map List.length).sum
  limit : c.sendQueueBytes ≤ sendQueueLimit limitOverride
  writing : c.writing = true
  nonempty : c.sendQueue ≠ []
  writes : c.writes = []
  accepted : c.accepted = c.handed ++ c.sendQueue

/-- An outbound connection that is still being made has sent nothing. -/
structure Connecting (limitOverride : Nat) (c : RealTransportConnection) : Prop where
  closed : c.isOpen = false
  empty : c.sendQueue = []
  sendOk : SendOk limitOverride c

structure TransportOk (limitOverride : Nat) (c : RealTransportConnection) : Prop where
  sendOk : c.isOpen = true → SendOk limitOverride c
  connecting : c.isInbound = false → c.connectDone = false → Connecting limitOverride c
  handed : c.handed <+: c.accepted
  callback : c.posted + c.disconnectRuns ≤ if c.disconnectDelivered then 1 else 0

section
variable {limitOverride : Nat} {c : RealTransportConnection}

theorem SendOk.handed (h : SendOk limitOverride c) : c.handed <+: c.accepted :=
  h.accepted ▸ List.prefix_append _ _

/-- Two states that differ neither in their send side nor in whether they are open. -/
structure SameSend (c c' : RealTransportConnection) : Prop where
  isInbound : c'.isInbound = c.isInbound
  isOpen : c'.isOpen = c.isOpen
  connectDone : c'.connectDone = c.connectDone
  sendQueue : c'.sendQueue = c.sendQueue
  sendQueueBytes : c'.sendQueueBytes = c.sendQueueBytes
  writing : c'.writing = c.writing
  writes : c'.writes = c.writes
  accepted : c'.accepted = c.accepted
  handed : c'.handed = c.handed

theorem SendOk.of_same {c' : RealTransportConnection} (h : SendOk limitOverride c) (hs : SameSend c c') :
    SendOk limitOverride c' where
  bytes := by rw [hs.sendQueueBytes, hs.sendQueue, h.bytes]
  limit := hs.sendQueueBytes ▸ h.limit
  writing := by rw [hs.writing, hs.sendQueue, h.writing]
  writes := by rw [hs.writes, hs.sendQueue, h.writes]
  accepted := by rw [hs.accepted, hs.handed, hs.sendQueue, h.accepted]

theorem TransportOk.of_same {c' : RealTransportConnection} (h : TransportOk limitOverride c) (hs : SameSend c c')
    (hcallback : c'.posted + c'.disconnectRuns ≤ if c'.disconnectDelivered then 1 else 0) :
    TransportOk limitOverride c' where
  sendOk ho := (h.sendOk (hs.isOpen ▸ ho)).of_same hs
  connecting h1 h2 := by
    obtain ⟨hclosed, hempty, hsend⟩ := h.connecting (hs.isInbound ▸ h1) (hs.connectDone ▸ h2)
    exact ⟨hs.isOpen.trans hclosed, hs.sendQueue.trans hempty, hsend.of_same hs⟩
  handed := by
    rw [hs.handed, hs.accepted]
    exact h.handed
  callback := hcallback

/-- An open connection is not being made any more. -/
theorem TransportOk.of_sendOk {c' : RealTransportConnection} (h : TransportOk limitOverride c)
    (hopen : c.isOpen = true) (hs : SendOk limitOverride c') (hin : c'.isInbound = c.isInbound)
    (hdone : c'.connectDone = c.connectDone) (hposted : c'.posted = c.posted)
    (hruns : c'.disconnectRuns = c.disconnectRuns) (hdel : c'.disconnectDelivered = c.disconnectDelivered) :
    TransportOk limitOverride c' where
  sendOk _ := hs
  connecting h1 h2 := by
    have hclosed := (h.connecting (hin ▸ h1) (hdone ▸ h2)).closed
    rw [hopen] at hclosed
    cases hclosed
  handed := hs.handed
  callback := by
    rw [hposted, hruns, hdel]
    exact h.callback

/-! ## The parts of the handlers -/

theorem TransportOk.deliverDisconnectOnce (h : TransportOk limitOverride c) :
    TransportOk limitOverride c.deliverDisconnectOnce := by
  unfold RealTransportConnection.deliverDisconnectOnce
  split
  · exact h
  · rename_i hdel
    have hnone : c.posted + c.disconnectRuns ≤ 0 := by simpa [hdel] using h.callback
    refine h.of_same ⟨rfl, rfl, rfl, rfl, rfl, rfl, rfl, rfl, rfl⟩ ?_
    simp only [if_true]
    split <;> omega

theorem TransportOk.closeImpl (h : TransportOk limitOverride c) : TransportOk limitOverride c.closeImpl := by
  unfold RealTransportConnection.closeImpl
  split
  · exact h
  · rename_i hopen
    refine ⟨fun ho => absurd ho Bool.false_ne_true, fun h1 h2 => ?_, h.handed, h.callback⟩
    have hclosed := (h.connecting h1 h2).closed
    simp [hclosed] at hopen

theorem TransportOk.disconnect (h : TransportOk limitOverride c) :
    TransportOk limitOverride c.deliverDisconnectOnce.closeImpl :=
  h.deliverDisconnectOnce.closeImpl

/-- A failed write leaves no front of the queue in flight, but the queue is gone. -/
theorem disconnect_ok (hopen : c.isOpen = true) (hmade : ¬ (c.isInbound = false ∧ c.connectDone = false))
    (hhanded : c.handed <+: c.accepted)
    (hcallback : c.posted + c.disconnectRuns ≤ if c.disconnectDelivered then 1 else 0) :
    TransportOk limitOverride c.deliverDisconnectOnce.closeImpl := by
  unfold RealTransportConnection.closeImpl RealTransportConnection.deliverDisconnectOnce
  split
  · rw [if_neg (by simp [hopen])]
    exact ⟨fun ho => absurd ho Bool.false_ne_true, fun h1 h2 => absurd ⟨h1, h2⟩ hmade, hhanded, hcallback⟩
  · rename_i hdel
    have hnone : c.posted + c.disconnectRuns ≤ 0 := by simpa [hdel] using hcallback
    rw [if_neg (by simp [hopen])]
    refine ⟨fun ho => absurd ho Bool.false_ne_true, fun h1 h2 => absurd ⟨h1, h2⟩ hmade, hhanded, ?_⟩
    simp only [if_true]
    split <;> omega

theorem doWriteImpl_cons (hopen : c.isOpen = true) {data : Payload} {rest : List Payload}
    (hq : c.sendQueue = data :: rest) :
    c.doWriteImpl = { c with writes := c.writes ++ [data], handed := c.handed ++ [data] } := by
  unfold RealTransportConnection.doWriteImpl
  rw [if_neg (by simp [hopen]), hq]

theorem BeforeWrite.doWriteImpl (h : BeforeWrite limitOverride c) (hopen : c.isOpen = true) :
    SendOk limitOverride c.doWriteImpl := by
  obtain ⟨data, rest, hq⟩ := List.exists_cons_of_ne_nil h.nonempty
  rw [doWriteImpl_cons hopen hq]
  refine ⟨h.bytes, h.limit, ?_, ?_, ?_⟩
  · simp [h.writing, hq]
  · simp [h.writes, hq]
  · simp [h.accepted, hq]

theorem doWriteImpl_fields (c : RealTransportConnection) :
    c.doWriteImpl.isInbound = c.isInbound ∧ c.doWriteImpl.connectDone = c.connectDone ∧
      c.doWriteImpl.posted = c.posted ∧ c.doWriteImpl.disconnectRuns = c.disconnectRuns ∧
      c.doWriteImpl.disconnectDelivered = c.disconnectDelivered := by
  unfold RealTransportConnection.doWriteImpl
  split
  · exact ⟨rfl, rfl, rfl, rfl, rfl⟩
  · split <;> exact ⟨rfl, rfl, rfl, rfl, rfl⟩

theorem TransportOk.startReadImpl (h : TransportOk limitOverride c) : TransportOk limitOverride c.startReadImpl := by
  unfold RealTransportConnection.startReadImpl
  split
  · exact h
  · exact h.of_same ⟨rfl, rfl, rfl, rfl, rfl, rfl, rfl, rfl, rfl⟩ h.callback

/-! ## Tasks -/

theorem TransportOk.sendOnStrand (h : TransportOk limitOverride c) (payload : Payload) :
    TransportOk limitOverride (c.sendOnStrand limitOverride payload) := by
  unfold RealTransportConnection.sendOnStrand
  split
  · exact h
  · rename_i hopen
    have hopen : c.isOpen = true := by simpa using hopen
    have hs := h.sendOk hopen
    split
    · exact h.disconnect
    · rename_i hroom
      have hbytes : c.sendQueueBytes + payload.length = ((c.sendQueue ++ [payload]).map List.length).sum := by
        simp [hs.bytes]
      dsimp only
      split
      · -- a write is in flight, and the payload waits behind it
        rename_i hwriting
        obtain ⟨data, rest, hq⟩ := List.exists_cons_of_ne_nil (hs.writing.mp hwriting)
        refine h.of_sendOk hopen ⟨hbytes, not_lt.mp hroom, ?_, ?_, ?_⟩ rfl rfl rfl rfl rfl
        · simp [hwriting]
        · simp [hs.writes, hq]
        · simp [hs.accepted, hq]
      · rename_i hidle
        have hq : c.sendQueue = [] := Classical.byContradiction fun hne => hidle (hs.writing.mpr hne)
        obtain ⟨f1, f2, f3, f4, f5⟩ := doWriteImpl_fields { c with
          sendQueue := c.sendQueue ++ [payload], sendQueueBytes := c.sendQueueBytes + payload.length
          accepted := c.accepted ++ [payload], writing := true }
        refine h.of_sendOk hopen (BeforeWrite.doWriteImpl ?_ hopen) f1 f2 f3 f4 f5
        refine ⟨hbytes, not_lt.mp hroom, rfl, ?_, ?_, ?_⟩
        · simp
        · simp [hs.writes, hq]
        · simp [hs.accepted, hq]

theorem TransportOk.runTask (h : TransportOk limitOverride c) (t : ConnectionCall) :
    TransportOk limitOverride (c.runTask limitOverride t) := by
  cases t with
  | start =>
    simp only [RealTransportConnection.runTask]
    split
    · exact h
    · exact h.startReadImpl
  | send data => exact h.sendOnStrand data
  | close => exact h.closeImpl
  | setReceiveCallback callback => exact h.of_same ⟨rfl, rfl, rfl, rfl, rfl, rfl, rfl, rfl, rfl⟩ h.callback
  | setDisconnectCallback callback => exact h.of_same ⟨rfl, rfl, rfl, rfl, rfl, rfl, rfl, rfl, rfl⟩ h.callback

theorem TransportOk.callInline (h : TransportOk limitOverride c) (t : ConnectionCall) :
    TransportOk limitOverride (c.callInline limitOverride t) := by
  unfold RealTransportConnection.callInline
  split
  · exact h.runTask t
  · exact h

theorem TransportOk.runCalls (h : TransportOk limitOverride c) (calls : List ConnectionCall) :
    TransportOk limitOverride (c.runCalls limitOverride calls) := by
  unfold RealTransportConnection.runCalls
  induction calls generalizing c with
  | nil => exact h
  | cons t calls ih => exact ih (h.callInline t)

/-! ## Handlers -/

theorem TransportOk.readHandler (h : TransportOk limitOverride c) (r : ReadResult) :
    TransportOk limitOverride (c.readHandler limitOverride r) := by
  unfold RealTransportConnection.readHandler
  split
  · exact h.disconnect
  · cases r with
    | error => exact h.disconnect
    | bytes bytesTransferred calls =>
      dsimp only
      split
      · have hcalls : TransportOk limitOverride
            (if c.receiveCallback then c.runCalls limitOverride calls else c) := by
          split
          · exact h.runCalls calls
          · exact h
        generalize (if c.receiveCallback then c.runCalls limitOverride calls else c) = c' at hcalls ⊢
        split
        · exact hcalls
        · exact hcalls.startReadImpl
      · exact h.startReadImpl

/-- The connection opens with nothing queued. -/
theorem TransportOk.connectHandler (h : TransportOk limitOverride c) (hin : c.isInbound = false) (ok : Bool)
    (calls : List ConnectionCall) : TransportOk limitOverride (c.connectHandler limitOverride ok calls) := by
  unfold RealTransportConnection.connectHandler
  split
  · exact h
  · rename_i hdone
    have hconn := h.connecting hin (by simpa using hdone)
    refine TransportOk.runCalls (c := { c with connectDone := true, isOpen := if ok then true else c.isOpen })
      ⟨fun _ => ?_, fun _ h2 => ?_, h.handed, h.callback⟩ calls
    · obtain ⟨h1, h2, h3, h4, h5⟩ := hconn.sendOk
      exact ⟨h1, h2, h3, h4, h5⟩
    · cases h2

/-- The write that completes is the front of the queue, and no other is in flight. -/
theorem SendOk.front (h : SendOk limitOverride c) {i : Nat} {data : Payload} (hdata : c.writes[i]? = some data) :
    ∃ rest, c.sendQueue = data :: rest ∧ c.writes.eraseIdx i = [] := by
  rw [h.writes] at hdata ⊢
  cases hq : c.sendQueue with
  | nil => simp [hq] at hdata
  | cons d rest =>
    rw [hq, List.take_succ_cons, List.take_zero] at hdata
    obtain ⟨hlt, hget⟩ := List.getElem?_eq_some_iff.mp hdata
    obtain rfl : i = 0 := by simpa using hlt
    exact ⟨rest, by rw [← hget]; rfl, rfl⟩

theorem TransportOk.writeHandler (h : TransportOk limitOverride c) {i : Nat} {data : Payload}
    (hdata : c.writes[i]? = some data) (ok : Bool) :
    TransportOk limitOverride ({ c with writes := c.writes.eraseIdx i }.writeHandler data ok) := by
  by_cases hopen : c.isOpen = true
  · have hs := h.sendOk hopen
    obtain ⟨rest, hq, herase⟩ := hs.front hdata
    have hbytes : c.sendQueueBytes - data.length = (rest.map List.length).sum := by
      rw [hs.bytes, hq, List.map_cons, List.sum_cons]
      omega
    have hlimit : c.sendQueueBytes - data.length ≤ sendQueueLimit limitOverride := (Nat.sub_le _ _).trans hs.limit
    have hrest : c.accepted = c.handed ++ rest := by rw [hs.accepted, hq, List.tail_cons]
    rw [herase]
    unfold RealTransportConnection.writeHandler
    rw [if_neg (by simp [hopen])]
    simp only [hq, List.tail_cons]
    split
    · refine disconnect_ok hopen (fun hmade => ?_) hs.handed h.callback
      exact absurd hopen (by simp [(h.connecting hmade.1 hmade.2).closed])
    · split
      · rename_i hne
        have hwriting : c.writing = true := hs.writing.mpr (by simp [hq])
        obtain ⟨f1, f2, f3, f4, f5⟩ := doWriteImpl_fields { c with
          writes := [], sendQueue := rest, sendQueueBytes := c.sendQueueBytes - data.length }
        refine h.of_sendOk hopen (BeforeWrite.doWriteImpl ?_ hopen) f1 f2 f3 f4 f5
        exact ⟨hbytes, hlimit, hwriting, hne, rfl, hrest⟩
      · rename_i hnil
        obtain rfl : rest = [] := by simpa using hnil
        exact h.of_sendOk hopen ⟨hbytes, hlimit, by simp, rfl, hrest⟩ rfl rfl rfl rfl rfl
  · -- nothing is left of the queue, and the late completion changes nothing
    unfold RealTransportConnection.writeHandler
    rw [if_pos (by simpa using hopen)]
    refine ⟨fun ho => absurd ho hopen, fun h1 h2 => ?_, h.handed, h.callback⟩
    obtain ⟨-, hempty, hsend⟩ := h.connecting h1 h2
    simp [hsend.writes, hempty] at hdata

/-! ## Runs -/

theorem TransportOk.step (h : TransportOk limitOverride c) (e : ConnectionEvent) :
    TransportOk limitOverride (c.step limitOverride e) := by
  cases e with
  | call t =>
    simp only [RealTransportConnection.step]
    unfold RealTransportConnection.call
    split
    · exact h.of_same ⟨rfl, rfl, rfl, rfl, rfl, rfl, rfl, rfl, rfl⟩ h.callback
    · exact h
  | runTask i =>
    simp only [RealTransportConnection.step]
    cases c.strand[i]? with
    | none => exact h
    | some t =>
      have hpopped : TransportOk limitOverride { c with strand := c.strand.eraseIdx i } :=
        h.of_same ⟨rfl, rfl, rfl, rfl, rfl, rfl, rfl, rfl, rfl⟩ h.callback
      exact hpopped.runTask t
  | writeDone i ok =>
    simp only [RealTransportConnection.step]
    cases hdata : c.writes[i]? with
    | none => exact h
    | some data => exact h.writeHandler hdata ok
  | readDone r =>
    simp only [RealTransportConnection.step]
    split
    · exact h
    · have hread : TransportOk limitOverride { c with reads := c.reads - 1 } :=
        h.of_same ⟨rfl, rfl, rfl, rfl, rfl, rfl, rfl, rfl, rfl⟩ h.callback
      exact hread.readHandler r
  | connectDone ok calls =>
    simp only [RealTransportConnection.step]
    split
    · exact h
    · rename_i hin
      exact h.connectHandler (by simpa using hin) ok calls
  | runDisconnectCallback =>
    simp only [RealTransportConnection.step]
    split
    · exact h
    · rename_i hposted
      have hcallback := h.callback
      refine h.of_same ⟨rfl, rfl, rfl, rfl, rfl, rfl, rfl, rfl, rfl⟩ ?_
      dsimp only
      omega

variable (limitOverride) in
theorem transportOk_createInbound : TransportOk limitOverride createInbound :=
  ⟨fun _ => ⟨rfl, Nat.zero_le _, by decide, rfl, rfl⟩, fun h1 => (by cases h1), List.prefix_rfl, Nat.zero_le _⟩

variable (limitOverride) in
theorem transportOk_createOutbound : TransportOk limitOverride createOutbound :=
  ⟨fun ho => (by cases ho), fun _ _ => ⟨rfl, rfl, rfl, Nat.zero_le _, by decide, rfl, rfl⟩, List.prefix_rfl,
    Nat.zero_le _⟩

end

theorem transportOk_run (limitOverride : Nat) (inbound : Bool) (events : List ConnectionEvent) :
    TransportOk limitOverride (run limitOverride inbound events) := by
  unfold run
  induction events using List.reverseRecOn with
  | nil =>
    cases inbound with
    | false => exact transportOk_createOutbound limitOverride
    | true => exact transportOk_createInbound limitOverride
  | append_singleton l e ih =>
    rw [List.foldl_append]
    exact ih.step e

/-- The queue, its counter, the flag, the writes in flight and what the socket got. -/
structure QueueOk (limitOverride : Nat) (c : RealTransportConnection) : Prop where
  bytes : c.sendQueueBytes = (c.sendQueue.map List.length).sum
  limit : c.sendQueueBytes ≤ sendQueueLimit limitOverride
  writing : c.writing = true ↔ c.writes.length = 1
  oneWrite : c.writes.length ≤ 1
  wakeup : c.sendQueue ≠ [] → ∃ data, c.sendQueue.head? = some data ∧ c.writes = [data]
  fifo : c.accepted = c.handed ++ c.sendQueue.tail

theorem SendOk.queueOk {limitOverride : Nat} {c : RealTransportConnection} (h : SendOk limitOverride c) :
    QueueOk limitOverride c := by
  refine ⟨h.bytes, h.limit, ?_, ?_, fun hne => ?_, h.accepted⟩
  · rw [h.writing, h.writes]
    cases c.sendQueue <;> simp
  · rw [h.writes]
    exact List.length_take_le 1 _
  · obtain ⟨data, rest, hq⟩ := List.exists_cons_of_ne_nil hne
    exact ⟨data, by rw [hq]; rfl, by rw [h.writes, hq]; rfl⟩

/-- Open or closed, the socket got a prefix of what was accepted, and one disconnect callback
at most is ever run. -/
theorem send_queue_run (limitOverride : Nat) (inbound : Bool) (events : List ConnectionEvent) :
    ((run limitOverride inbound events).isOpen = true →
        QueueOk limitOverride (run limitOverride inbound events)) ∧
      (run limitOverride inbound events).handed <+: (run limitOverride inbound events).accepted ∧
      (run limitOverride inbound events).posted + (run limitOverride inbound events).disconnectRuns ≤ 1 := by
  have h := transportOk_run limitOverride inbound events
  exact ⟨fun ho => (h.sendOk ho).queueOk, h.handed, h.callback.trans (by split <;> omega)⟩

/-- Two sends, the first of them written. -/
example : (run 0 true [.call (.send [1, 2]), .runTask 0, .call (.send [3]), .runTask 0, .writeDone 0 true]).handed =
    [[1, 2], [3]] := by decide

end RealTransportConnection

end UnicityPow
