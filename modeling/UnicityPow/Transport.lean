import Mathlib.Tactic

/-!
# A transport connection

The strand side of `RealTransportConnection`: its send queue, its callbacks and the
operations it has in flight on the socket. Handlers run one at a time, and a call from a
handler runs its task at once, where a call from elsewhere leaves it to the strand.
-/

namespace UnicityPow

def DEFAULT_SEND_QUEUE_SIZE : Nat := 5 * 1000 * 1000

/-- The bytes of one message. -/
abbrev Payload := List UInt8

/-- A call on a connection; of a callback only whether there is one matters here. -/
inductive ConnectionCall
  | start
  | send (data : Payload)
  | close
  | setReceiveCallback (callback : Bool)
  | setDisconnectCallback (callback : Bool)

/-- The result of a read, with the calls that the receive callback makes on the connection. -/
inductive ReadResult
  | error
  | bytes (bytesTransferred : Nat) (calls : List ConnectionCall)

/-- `writes` and `reads` are the operations in flight, `strand` the tasks not run yet, and
`posted` the disconnect callbacks not run yet. `handed` lists the buffers given to
`async_write` and `accepted` the payloads put into the queue, the oldest first. -/
structure RealTransportConnection where
  isInbound : Bool
  isOpen : Bool
  connectDone : Bool := false
  receiveCallback : Bool := false
  disconnectCallback : Bool := false
  disconnectDelivered : Bool := false
  sendQueue : List Payload := []
  sendQueueBytes : Nat := 0
  writing : Bool := false
  strand : List ConnectionCall := []
  writes : List Payload := []
  reads : Nat := 0
  posted : Nat := 0
  disconnectRuns : Nat := 0
  accepted : List Payload := []
  handed : List Payload := []

namespace RealTransportConnection

def createInbound : RealTransportConnection := { isInbound := true, isOpen := true }

def createOutbound : RealTransportConnection := { isInbound := false, isOpen := false }

section
variable (c : RealTransportConnection)

/-! ## Closing -/

def deliverDisconnectOnce : RealTransportConnection :=
  if c.disconnectDelivered then c
  else
    { c with
      disconnectDelivered := true
      disconnectCallback := false
      posted := if c.disconnectCallback then c.posted + 1 else c.posted }

/-- `close_impl`. The socket is gone, and what is in flight on it completes later. -/
def closeImpl : RealTransportConnection :=
  if !c.isOpen then c
  else
    { c with
      isOpen := false
      receiveCallback := false
      disconnectCallback := false
      sendQueue := []
      sendQueueBytes := 0
      writing := false }

/-! ## Writing -/

def doWriteImpl : RealTransportConnection :=
  if !c.isOpen then c
  else
    match c.sendQueue with
    | [] => { c with writing := false }
    | data :: _ => { c with writes := c.writes ++ [data], handed := c.handed ++ [data] }

/-- The limit on the queue; an override of zero is none. -/
def sendQueueLimit (limitOverride : Nat) : Nat :=
  if limitOverride = 0 then DEFAULT_SEND_QUEUE_SIZE else limitOverride

/-- The task of `send`. -/
def sendOnStrand (limitOverride : Nat) (payload : Payload) : RealTransportConnection :=
  if !c.isOpen then c
  else if sendQueueLimit limitOverride < c.sendQueueBytes + payload.length then c.deliverDisconnectOnce.closeImpl
  else
    let c := { c with
      sendQueue := c.sendQueue ++ [payload]
      sendQueueBytes := c.sendQueueBytes + payload.length
      accepted := c.accepted ++ [payload] }
    if c.writing then c else { c with writing := true }.doWriteImpl

/-- The handler of `async_write`. -/
def writeHandler (data : Payload) (ok : Bool) : RealTransportConnection :=
  if !c.isOpen then c
  else if !ok then c.deliverDisconnectOnce.closeImpl
  else
    let c := { c with sendQueue := c.sendQueue.tail, sendQueueBytes := c.sendQueueBytes - data.length }
    if c.sendQueue ≠ [] then c.doWriteImpl else { c with writing := false }

/-! ## Calls -/

def startReadImpl : RealTransportConnection := if !c.isOpen then c else { c with reads := c.reads + 1 }

/-- The task that a call dispatches. -/
def runTask (limitOverride : Nat) : ConnectionCall → RealTransportConnection
  | .start => if !c.isOpen then c else c.startReadImpl
  | .send data => c.sendOnStrand limitOverride data
  | .close => c.closeImpl
  | .setReceiveCallback callback => { c with receiveCallback := callback }
  | .setDisconnectCallback callback => { c with disconnectCallback := callback }

/-- `send` dispatches nothing on a closed connection. -/
def dispatches : ConnectionCall → Bool
  | .send _ => c.isOpen
  | _ => true

/-- A call from outside the strand. -/
def call (t : ConnectionCall) : RealTransportConnection :=
  if c.dispatches t then { c with strand := c.strand ++ [t] } else c

/-- A call from a handler. -/
def callInline (limitOverride : Nat) (t : ConnectionCall) : RealTransportConnection :=
  if c.dispatches t then c.runTask limitOverride t else c

/-- The calls that a callback makes. -/
def runCalls (limitOverride : Nat) (calls : List ConnectionCall) : RealTransportConnection :=
  calls.foldl (fun c t => c.callInline limitOverride t) c

/-! ## Reading and connecting -/

/-- The handler of `async_read_some`. -/
def readHandler (limitOverride : Nat) (r : ReadResult) : RealTransportConnection :=
  if !c.isOpen then c.deliverDisconnectOnce.closeImpl
  else
    match r with
    | .error => c.deliverDisconnectOnce.closeImpl
    | .bytes bytesTransferred calls =>
      if 0 < bytesTransferred then
        let c := if c.receiveCallback then c.runCalls limitOverride calls else c
        if !c.isOpen then c else c.startReadImpl
      else c.startReadImpl

/-- The end of `do_connect`, by its timeout or by a result; `calls` are those of the connect
callback. -/
def connectHandler (limitOverride : Nat) (ok : Bool) (calls : List ConnectionCall) : RealTransportConnection :=
  if c.connectDone then c
  else
    { c with connectDone := true, isOpen := if ok then true else c.isOpen }.runCalls limitOverride calls

end

/-! ## Runs -/

inductive ConnectionEvent
  | call (t : ConnectionCall)
  | runTask (i : Nat)
  | writeDone (i : Nat) (ok : Bool)
  | readDone (r : ReadResult)
  | connectDone (ok : Bool) (calls : List ConnectionCall)
  | runDisconnectCallback

/-- One event. The strand may run its tasks in any order, and completes only what is in
flight. -/
def step (limitOverride : Nat) (c : RealTransportConnection) : ConnectionEvent → RealTransportConnection
  | .call t => c.call t
  | .runTask i =>
    match c.strand[i]? with
    | none => c
    | some t => { c with strand := c.strand.eraseIdx i }.runTask limitOverride t
  | .writeDone i ok =>
    match c.writes[i]? with
    | none => c
    | some data => { c with writes := c.writes.eraseIdx i }.writeHandler data ok
  | .readDone r => if c.reads = 0 then c else { c with reads := c.reads - 1 }.readHandler limitOverride r
  | .connectDone ok calls => if c.isInbound then c else c.connectHandler limitOverride ok calls
  | .runDisconnectCallback =>
    if c.posted = 0 then c else { c with posted := c.posted - 1, disconnectRuns := c.disconnectRuns + 1 }

/-- A new connection after some events. -/
def run (limitOverride : Nat) (inbound : Bool) (events : List ConnectionEvent) : RealTransportConnection :=
  events.foldl (step limitOverride) (if inbound then createInbound else createOutbound)

end RealTransportConnection

end UnicityPow
