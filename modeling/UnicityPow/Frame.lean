import UnicityPow.Framing
import UnicityPow.Message

/-!
# Frames on the wire

The header of a message, the receive buffer of a peer, and the loop that reads frames from
it. The buffer is read from an offset, which the constructor bounds.
-/

namespace UnicityPow

open Framing

/-! ## Limits -/

def MESSAGE_HEADER_SIZE : Nat := 24

def COMMAND_SIZE : Nat := 12

def DEFAULT_RECV_FLOOD_SIZE : Nat := 5 * 1000 * 1000

/-- The largest chunk that the transport hands over. -/
def RECV_BUFFER_SIZE : Nat := 256 * 1024

/-! ## Headers -/

/-- The command is an array of twelve bytes. -/
structure MessageHeader where
  magic : BitVec 32
  command : List UInt8
  length : BitVec 32
  checksum : BitVec 32
deriving DecidableEq

namespace MessageHeader

/-- The bytes of the array before its first NUL. -/
def getCommand (h : MessageHeader) : String :=
  String.ofList ((h.command.takeWhile (· != 0)).map fun b => Char.ofNat b.toNat)

end MessageHeader

/-- `set_command` on an array of zeros. -/
def setCommand (cmd : String) : List UInt8 :=
  let bytes := (cmd.toList.map fun c => UInt8.ofNat c.toNat).take COMMAND_SIZE
  bytes ++ List.replicate (COMMAND_SIZE - bytes.length) 0

section
variable (computeChecksum : List UInt8 → BitVec 32)

def createHeader (magic : BitVec 32) (command : String) (payload : List UInt8) : MessageHeader where
  magic := magic
  command := setCommand command
  length := BitVec.ofNat 32 payload.length
  checksum := computeChecksum payload

end

def serializeHeader (header : MessageHeader) : List UInt8 :=
  writeLE32 header.magic ++ header.command ++ writeLE32 header.length ++
    MessageSerializer.writeBlob 4 header.checksum

/-- The loop over the command's bytes: printable ones, then NULs to the end. -/
def commandOk : Bool → List UInt8 → Bool
  | foundNul, [] => foundNul
  | false, c :: l => if c = 0 then commandOk true l else if c < 0x20 ∨ 0x7e < c then false else commandOk false l
  | true, c :: l => if c ≠ 0 then false else commandOk true l

def deserializeHeader (data : List UInt8) : Option MessageHeader :=
  if data.length < MESSAGE_HEADER_SIZE then none
  else
    let command := (data.drop 4).take COMMAND_SIZE
    if !commandOk false command then none
    else
      let length := readLE32 ((data.drop 16).take 4)
      if MAX_PROTOCOL_MESSAGE_LENGTH < length.toNat then none
      else some {
        magic := readLE32 (data.take 4)
        command
        length
        checksum := readBE 32 ((data.drop 20).take 4) }

/-! ## Receiving -/

/-- `recv_buffer_` and `recv_buffer_offset_`. -/
structure RecvBuffer where
  recvBuffer : List UInt8 := []
  recvBufferOffset : Nat := 0
  offset_le : recvBufferOffset ≤ recvBuffer.length := by simp

namespace RecvBuffer

def empty : RecvBuffer := {}

/-- The bytes from the offset on. -/
def unread (b : RecvBuffer) : List UInt8 := b.recvBuffer.drop b.recvBufferOffset

theorem unread_length (b : RecvBuffer) : b.unread.length = b.recvBuffer.length - b.recvBufferOffset :=
  List.length_drop

/-- The bytes before the offset are erased once they are half of the buffer. -/
def compact (b : RecvBuffer) : RecvBuffer :=
  if 0 < b.recvBufferOffset ∧ b.recvBuffer.length / 2 ≤ b.recvBufferOffset then { recvBuffer := b.unread }
  else b

def append (b : RecvBuffer) (data : List UInt8) : RecvBuffer where
  recvBuffer := b.recvBuffer ++ data
  recvBufferOffset := b.recvBufferOffset
  offset_le := by
    have := b.offset_le
    rw [List.length_append]
    omega

/-- The buffer with a chunk, or `none` for one that is refused. -/
def accept (b : RecvBuffer) (data : List UInt8) : Option RecvBuffer :=
  if DEFAULT_RECV_FLOOD_SIZE < data.length then none
  else if DEFAULT_RECV_FLOOD_SIZE < b.recvBuffer.length - b.recvBufferOffset + data.length then none
  else some (b.compact.append data)

def advance (b : RecvBuffer) (n : Nat) (h : n ≤ b.unread.length) : RecvBuffer where
  recvBuffer := b.recvBuffer
  recvBufferOffset := b.recvBufferOffset + n
  offset_le := by
    have := b.offset_le
    rw [unread_length] at h
    omega

@[simp] theorem unread_advance (b : RecvBuffer) {n : Nat} (h : n ≤ b.unread.length) :
    (b.advance n h).unread = b.unread.drop n := by
  unfold unread advance
  rw [List.drop_drop]

end RecvBuffer

section
variable (networkMagic : BitVec 32) (computeChecksum : List UInt8 → BitVec 32)

/-- One round of `process_received_data`, up to `process_message`. -/
def readFrame (data : List UInt8) : Verdict (MessageHeader × List UInt8) :=
  if data.length < MESSAGE_HEADER_SIZE then .more
  else
    match deserializeHeader (data.take MESSAGE_HEADER_SIZE) with
    | none => .bad
    | some header =>
      if header.magic ≠ networkMagic then .bad
      else if MAX_PROTOCOL_MESSAGE_LENGTH < header.length.toNat then .bad
      else
        let totalMessageSize := MESSAGE_HEADER_SIZE + header.length.toNat
        if data.length < totalMessageSize then .more
        else
          let payload := (data.drop MESSAGE_HEADER_SIZE).take header.length.toNat
          if computeChecksum payload ≠ header.checksum then .bad
          -- an empty payload is for two commands only
          else if header.length = 0 ∧ header.getCommand ≠ "verack" ∧ header.getCommand ≠ "getaddr" then .bad
          else .item (header, payload) totalMessageSize

variable {networkMagic computeChecksum}

theorem readFrame_size {data : List UInt8} {x : MessageHeader × List UInt8} {n : Nat}
    (h : readFrame networkMagic computeChecksum data = .item x n) : 0 < n ∧ n ≤ data.length := by
  unfold readFrame at h
  dsimp only at h
  split at h
  · cases h
  · split at h
    · cases h
    · split at h
      · cases h
      · split at h
        · cases h
        · split at h
          · cases h
          · rename_i hlen
            split at h
            · cases h
            · split at h
              · cases h
              · cases h
                exact ⟨by simp [MESSAGE_HEADER_SIZE], not_lt.mp hlen⟩

variable (networkMagic computeChecksum)

/-- The loop. What is posted for a violation is up to the sink, and so is what becomes of a
message. -/
def processReceivedData {σ : Type*} (K : Sink (MessageHeader × List UInt8) σ) (b : RecvBuffer) (s : σ) :
    RecvBuffer × σ :=
  match h : readFrame networkMagic computeChecksum b.unread with
  | .more => (b, s)
  | .bad => (b, K.fault s .framing)
  | .item x n => processReceivedData K (b.advance n (readFrame_size h).2) (K.item s x)
termination_by b.unread.length
decreasing_by
  have hn := readFrame_size h
  rw [RecvBuffer.unread_advance, List.length_drop]
  omega

def onTransportReceive {σ : Type*} (K : Sink (MessageHeader × List UInt8) σ) (b : RecvBuffer × σ)
    (data : List UInt8) : RecvBuffer × σ :=
  match b.1.accept data with
  | none => (b.1, K.fault b.2 .flood)
  | some buffer => processReceivedData networkMagic computeChecksum K buffer b.2

/-- What `send_message` hands to the transport. -/
def fullMessage (command : String) (payload : List UInt8) : List UInt8 :=
  serializeHeader (createHeader computeChecksum networkMagic command payload) ++ payload

end

end UnicityPow
