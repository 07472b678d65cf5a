import UnicityPow.Frame
import UnicityPow.WireSound

/-!
# Chunks of the stream

The receive buffer with its offset is a framing buffer of the bytes that are left, so the
messages do not depend on how the stream is cut. What `send_message` sends is read back.
-/

namespace UnicityPow

open Framing

section
variable (networkMagic : BitVec 32) (computeChecksum : List UInt8 → BitVec 32)

/-! ## The reader -/

variable {networkMagic computeChecksum} in
/-- What is read depends on the frame alone. -/
theorem readFrame_append {data : List UInt8} (h : readFrame networkMagic computeChecksum data ≠ .more)
    (t : List UInt8) :
    readFrame networkMagic computeChecksum (data ++ t) = readFrame networkMagic computeChecksum data := by
  unfold readFrame at h ⊢
  by_cases hlen : data.length < MESSAGE_HEADER_SIZE
  · exact absurd (if_pos hlen) h
  · have hlen' : ¬ (data ++ t).length < MESSAGE_HEADER_SIZE := by rw [List.length_append]; omega
    rw [if_neg hlen] at h
    rw [if_neg hlen, if_neg hlen', List.take_append_of_le_length (not_lt.mp hlen)]
    cases hheader : deserializeHeader (data.take MESSAGE_HEADER_SIZE) with
    | none => rfl
    | some header =>
      rw [hheader] at h
      dsimp only at h ⊢
      split
      · rfl
      · rename_i hmagic
        rw [if_neg hmagic] at h
        split
        · rfl
        · rename_i hsize
          rw [if_neg hsize] at h
          by_cases htotal : data.length < MESSAGE_HEADER_SIZE + header.length.toNat
          · exact absurd (if_pos htotal) h
          · have htotal' : ¬ (data ++ t).length < MESSAGE_HEADER_SIZE + header.length.toNat := by
              rw [List.length_append]
              omega
            have hpayload : ((data ++ t).drop MESSAGE_HEADER_SIZE).take header.length.toNat =
                (data.drop MESSAGE_HEADER_SIZE).take header.length.toNat := by
              rw [List.drop_append_of_le_length (not_lt.mp hlen), List.take_append_of_le_length]
              rw [List.length_drop]
              omega
            rw [if_neg htotal, if_neg htotal', hpayload]

/-- `process_received_data` as a reader of frames. -/
def frameReader : Reader UInt8 (MessageHeader × List UInt8) where
  read := readFrame networkMagic computeChecksum
  read_nil := rfl
  size_pos h := (readFrame_size h).1
  size_le h := (readFrame_size h).2
  stable := readFrame_append

theorem frameReader_read (l : List UInt8) :
    (frameReader networkMagic computeChecksum).read l = readFrame networkMagic computeChecksum l := rfl

/-- A frame that is waited for is no longer than the longest message. -/
theorem readFrame_more {data : List UInt8} (h : readFrame networkMagic computeChecksum data = .more) :
    data.length < MESSAGE_HEADER_SIZE + MAX_PROTOCOL_MESSAGE_LENGTH := by
  unfold readFrame at h
  by_cases hlen : data.length < MESSAGE_HEADER_SIZE
  · omega
  · rw [if_neg hlen] at h
    cases hheader : deserializeHeader (data.take MESSAGE_HEADER_SIZE) with
    | none => simp [hheader] at h
    | some header =>
      rw [hheader] at h
      dsimp only at h
      split at h
      · cases h
      · split at h
        · cases h
        · rename_i hsize
          split at h
          · omega
          · split at h
            · cases h
            · split at h <;> cases h

/-! ## The buffer -/

variable {σ : Type*} (K : Sink (MessageHeader × List UInt8) σ)

variable {networkMagic computeChecksum} in
theorem processReceivedData_more {b : RecvBuffer} (h : readFrame networkMagic computeChecksum b.unread = .more)
    (s : σ) : processReceivedData networkMagic computeChecksum K b s = (b, s) := by
  rw [processReceivedData]
  split <;> simp_all

variable {networkMagic computeChecksum} in
theorem processReceivedData_bad {b : RecvBuffer} (h : readFrame networkMagic computeChecksum b.unread = .bad)
    (s : σ) : processReceivedData networkMagic computeChecksum K b s = (b, K.fault s .framing) := by
  rw [processReceivedData]
  split <;> simp_all

variable {networkMagic computeChecksum} in
theorem processReceivedData_item {b : RecvBuffer} {x : MessageHeader × List UInt8} {n : Nat}
    (h : readFrame networkMagic computeChecksum b.unread = .item x n) (s : σ) :
    processReceivedData networkMagic computeChecksum K b s =
      processReceivedData networkMagic computeChecksum K (b.advance n (readFrame_size h).2) (K.item s x) := by
  rw [processReceivedData]
  split
  · simp_all
  · simp_all
  · rename_i heq
    rw [h] at heq
    cases heq
    rfl

theorem processReceivedData_eq (b : RecvBuffer) (s : σ) :
    ((processReceivedData networkMagic computeChecksum K b s).1.unread,
        (processReceivedData networkMagic computeChecksum K b s).2) =
      drain (frameReader networkMagic computeChecksum) K b.unread s := by
  induction hb : b.unread using induct (frameReader networkMagic computeChecksum) generalizing b s with
  | more l h =>
    subst hb
    rw [processReceivedData_more K h, drain_more h]
  | bad l h =>
    subst hb
    rw [processReceivedData_bad K h, drain_bad h]
  | item l x n h ih =>
    subst hb
    rw [processReceivedData_item K h, drain_item h]
    exact ih _ _ (RecvBuffer.unread_advance b (readFrame_size h).2)

theorem unread_compact (b : RecvBuffer) : b.compact.unread = b.unread := by
  unfold RecvBuffer.compact
  split
  · exact List.drop_zero
  · rfl

theorem unread_append (b : RecvBuffer) (data : List UInt8) : (b.append data).unread = b.unread ++ data :=
  List.drop_append_of_le_length b.offset_le

/-- A chunk is refused when the bytes that are left would be too many with it. -/
theorem accept_eq (b : RecvBuffer) (data : List UInt8) :
    (b.accept data).map RecvBuffer.unread =
      if DEFAULT_RECV_FLOOD_SIZE < b.unread.length + data.length then none else some (b.unread ++ data) := by
  unfold RecvBuffer.accept
  rw [b.unread_length]
  by_cases hflood : DEFAULT_RECV_FLOOD_SIZE < b.recvBuffer.length - b.recvBufferOffset + data.length
  · rw [if_pos hflood, if_pos hflood, ite_self]
    rfl
  · rw [if_neg hflood, if_neg hflood, if_neg (by omega), Option.map_some, unread_append, unread_compact]

theorem onTransportReceive_eq (b : RecvBuffer × σ) (data : List UInt8) :
    ((onTransportReceive networkMagic computeChecksum K b data).1.unread,
        (onTransportReceive networkMagic computeChecksum K b data).2) =
      receive (frameReader networkMagic computeChecksum) K DEFAULT_RECV_FLOOD_SIZE (b.1.unread, b.2) data := by
  have haccept := accept_eq b.1 data
  unfold onTransportReceive receive
  cases hb : b.1.accept data with
  | none =>
    rw [hb] at haccept
    split at haccept
    · rename_i hflood
      rw [if_pos hflood]
    · cases haccept
  | some buffer =>
    rw [hb] at haccept
    split at haccept
    · cases haccept
    · rename_i hflood
      rw [if_neg hflood, ← Option.some.inj haccept]
      exact processReceivedData_eq networkMagic computeChecksum K buffer b.2

theorem foldl_onTransportReceive_eq (chunks : List (List UInt8)) (b : RecvBuffer × σ) :
    ((chunks.foldl (onTransportReceive networkMagic computeChecksum K) b).1.unread,
        (chunks.foldl (onTransportReceive networkMagic computeChecksum K) b).2) =
      chunks.foldl (receive (frameReader networkMagic computeChecksum) K DEFAULT_RECV_FLOOD_SIZE)
        (b.1.unread, b.2) := by
  induction chunks generalizing b with
  | nil => rfl
  | cons chunk chunks ih =>
    rw [List.foldl_cons, List.foldl_cons, ih, onTransportReceive_eq]

end

/-! ## What is sent -/

/-- A command that leaves room for its NUL and is printable. -/
def ValidCommand (command : String) : Prop :=
  command.toList.length < COMMAND_SIZE ∧ ∀ c ∈ command.toList, 0x20 ≤ c.toNat ∧ c.toNat ≤ 0x7e

instance (command : String) : Decidable (ValidCommand command) := inferInstanceAs (Decidable (_ ∧ _))

theorem validCommand_command (m : Message) : ValidCommand m.command := by
  cases m <;> simp [ValidCommand, Message.command, COMMAND_SIZE]

section
variable {command : String}

theorem setCommand_eq (h : ValidCommand command) :
    setCommand command = (command.toList.map fun c => UInt8.ofNat c.toNat) ++
      List.replicate (COMMAND_SIZE - command.toList.length) 0 := by
  have hlen := h.1
  unfold setCommand
  dsimp only
  rw [List.take_of_length_le (by rw [List.length_map]; omega), List.length_map]

theorem setCommand_length (command : String) : (setCommand command).length = COMMAND_SIZE := by
  unfold setCommand
  simp only [List.length_append, List.length_take, List.length_map, List.length_replicate]
  omega

/-- A printable byte. -/
def Printable (b : UInt8) : Prop := 0x20 ≤ b ∧ b ≤ 0x7e

instance (b : UInt8) : Decidable (Printable b) := inferInstanceAs (Decidable (_ ∧ _))

theorem not_printable_iff {b : UInt8} : b < 0x20 ∨ 0x7e < b ↔ ¬ Printable b := by
  unfold Printable
  rw [UInt8.lt_iff_toNat_lt, UInt8.lt_iff_toNat_lt, UInt8.le_iff_toNat_le, UInt8.le_iff_toNat_le]
  omega

theorem Printable.ne_zero {b : UInt8} (h : Printable b) : b ≠ 0 := by
  rintro rfl
  exact absurd h (by decide)

/-- After the first NUL only NULs are accepted. -/
theorem commandOk_true_iff (l : List UInt8) : commandOk true l = true ↔ l = List.replicate l.length 0 := by
  induction l with
  | nil => simp [commandOk]
  | cons b l ih =>
    rw [commandOk, List.length_cons, List.replicate_succ, List.cons.injEq]
    by_cases hb : b = 0
    · rw [if_neg (not_not.mpr hb), ih]
      exact ⟨fun h => ⟨hb, h⟩, fun h => h.2⟩
    · rw [if_pos hb]
      exact ⟨fun h => (by cases h), fun h => absurd h.1 hb⟩

/-- The accepted commands: printable bytes and at least one NUL. -/
theorem commandOk_iff (l : List UInt8) : commandOk false l = true ↔
    ∃ text n, l = text ++ List.replicate (n + 1) 0 ∧ ∀ b ∈ text, Printable b := by
  induction l with
  | nil =>
    refine ⟨fun h => (by cases h), ?_⟩
    rintro ⟨text, n, h, -⟩
    simp at h
  | cons b l ih =>
    rw [commandOk]
    by_cases hb : b = 0
    · rw [if_pos hb, commandOk_true_iff]
      constructor
      · intro h
        exact ⟨[], l.length, by rw [List.nil_append, List.replicate_succ, hb, ← h], by simp⟩
      · rintro ⟨text, n, h, htext⟩
        cases text with
        | nil =>
          obtain ⟨-, rfl⟩ : b = 0 ∧ l = List.replicate n 0 := by simpa [List.replicate_succ] using h
          rw [List.length_replicate]
        | cons c text =>
          cases h
          exact absurd hb (htext b (by simp)).ne_zero
    · rw [if_neg hb]
      by_cases hp : Printable b
      · rw [if_neg (fun h => not_printable_iff.mp h hp), ih]
        constructor
        · rintro ⟨text, n, rfl, htext⟩
          exact ⟨b :: text, n, rfl, List.forall_mem_cons.mpr ⟨hp, htext⟩⟩
        · rintro ⟨text, n, h, htext⟩
          cases text with
          | nil => simp [List.replicate_succ, hb] at h
          | cons c text =>
            cases h
            exact ⟨text, n, rfl, fun c hc => htext c (by simp [hc])⟩
      · rw [if_pos (not_printable_iff.mpr hp)]
        refine ⟨fun h => (by cases h), ?_⟩
        rintro ⟨text, n, h, htext⟩
        cases text with
        | nil => simp [List.replicate_succ, hb] at h
        | cons c text =>
          cases h
          exact absurd (htext b (by simp)) hp

theorem toNat_printable {c : Char} (h : 0x20 ≤ c.toNat ∧ c.toNat ≤ 0x7e) :
    (UInt8.ofNat c.toNat).toNat = c.toNat := by
  rw [UInt8.toNat_ofNat']
  omega

theorem printable_ofNat {c : Char} (h : 0x20 ≤ c.toNat ∧ c.toNat ≤ 0x7e) : Printable (UInt8.ofNat c.toNat) := by
  unfold Printable
  rw [UInt8.le_iff_toNat_le, UInt8.le_iff_toNat_le, toNat_printable h]
  exact h

theorem commandOk_setCommand (h : ValidCommand command) : commandOk false (setCommand command) = true := by
  obtain ⟨hlen, hc⟩ := h
  rw [commandOk_iff, setCommand_eq ⟨hlen, hc⟩]
  refine ⟨_, COMMAND_SIZE - command.toList.length - 1, by rw [Nat.sub_add_cancel (by omega)], fun b hb => ?_⟩
  obtain ⟨c, hmem, rfl⟩ := List.mem_map.mp hb
  exact printable_ofNat (hc c hmem)

variable (networkMagic : BitVec 32) (computeChecksum : List UInt8 → BitVec 32)

theorem getCommand_createHeader (h : ValidCommand command) (payload : List UInt8) :
    (createHeader computeChecksum networkMagic command payload).getCommand = command := by
  have hne : ∀ c ∈ command.toList, (UInt8.ofNat c.toNat != 0) = true := fun c hc =>
    bne_iff_ne.mpr (printable_ofNat (h.2 c hc)).ne_zero
  have hpos : 0 < COMMAND_SIZE - command.toList.length := by
    have := h.1
    omega
  obtain ⟨m, hm⟩ := Nat.exists_eq_succ_of_ne_zero (Nat.ne_of_gt hpos)
  unfold MessageHeader.getCommand createHeader
  dsimp only
  rw [setCommand_eq h, List.takeWhile_append_of_pos (by simpa using hne), hm, List.replicate_succ,
    List.takeWhile_cons_of_neg (by simp), List.append_nil, List.map_map]
  have hid : command.toList.map ((fun b : UInt8 => Char.ofNat b.toNat) ∘ fun c => UInt8.ofNat c.toNat) =
      command.toList := by
    refine (List.map_congr_left fun c hc => ?_).trans (List.map_id _)
    rw [Function.comp_apply, toNat_printable (h.2 c hc), Char.ofNat_toNat]
    rfl
  rw [hid, String.ofList_toList]

theorem createHeader_length (command : String) {payload : List UInt8}
    (hlength : payload.length ≤ MAX_PROTOCOL_MESSAGE_LENGTH) :
    (createHeader computeChecksum networkMagic command payload).length.toNat = payload.length := by
  unfold createHeader
  rw [BitVec.toNat_ofNat, Nat.mod_eq_of_lt]
  unfold MAX_PROTOCOL_MESSAGE_LENGTH at hlength
  omega

theorem serializeHeader_length (header : MessageHeader) (hcommand : header.command.length = COMMAND_SIZE) :
    (serializeHeader header).length = MESSAGE_HEADER_SIZE := by
  simp [serializeHeader, hcommand, COMMAND_SIZE, MESSAGE_HEADER_SIZE, writeLE32, writeLE,
    MessageSerializer.writeBlob, writeBE]

theorem deserializeHeader_serializeHeader (header : MessageHeader) (hcommand : header.command.length = COMMAND_SIZE)
    (hok : commandOk false header.command = true) (hlength : header.length.toNat ≤ MAX_PROTOCOL_MESSAGE_LENGTH) :
    deserializeHeader (serializeHeader header) = some header := by
  have h4 : ∀ v : BitVec 32, (writeLE32 v).length = 4 := fun v => by simp [writeLE32, writeLE]
  have hsum : (MessageSerializer.writeBlob 4 header.checksum).length = 4 := by
    simp [MessageSerializer.writeBlob, writeBE, writeLE]
  have hlen := serializeHeader_length header hcommand
  have hmagic : (serializeHeader header).take 4 = writeLE32 header.magic := by
    simp [serializeHeader, h4]
  have hcmd : ((serializeHeader header).drop 4).take COMMAND_SIZE = header.command := by
    simp [serializeHeader, h4, hcommand]
  have hlen' : ((serializeHeader header).drop 16).take 4 = writeLE32 header.length := by
    simp [serializeHeader, h4, hcommand, COMMAND_SIZE, List.drop_append, List.drop_eq_nil_of_le]
  have hchecksum : ((serializeHeader header).drop 20).take 4 = MessageSerializer.writeBlob 4 header.checksum := by
    simp [serializeHeader, h4, hsum, hcommand, COMMAND_SIZE, List.drop_append, List.drop_eq_nil_of_le]
  have hread : ∀ v : BitVec 32, readLE32 (writeLE32 v) = v := fun v => readLE_writeLE (by decide) v
  unfold deserializeHeader
  rw [if_neg (by omega)]
  dsimp only
  rw [hcmd, hlen', hmagic, hchecksum, hread, hread, hok, if_neg (by simp), if_neg (not_lt.mpr hlength)]
  have hblob : readBE 32 (MessageSerializer.writeBlob 4 header.checksum) = header.checksum :=
    readBE_writeBE (by decide) _
  rw [hblob]

/-- What the loop and the limit let through, and nothing is lost: the bytes are written back. -/
theorem deserializeHeader_iff {data : List UInt8} (hlen : data.length = MESSAGE_HEADER_SIZE)
    (header : MessageHeader) :
    deserializeHeader data = some header ↔
      commandOk false ((data.drop 4).take COMMAND_SIZE) = true ∧
        (readLE32 ((data.drop 16).take 4)).toNat ≤ MAX_PROTOCOL_MESSAGE_LENGTH ∧
        header = ⟨readLE32 (data.take 4), (data.drop 4).take COMMAND_SIZE, readLE32 ((data.drop 16).take 4),
          readBE 32 ((data.drop 20).take 4)⟩ := by
  unfold deserializeHeader
  rw [if_neg (by omega)]
  dsimp only
  by_cases hok : commandOk false ((data.drop 4).take COMMAND_SIZE) = true
  · rw [if_neg (by simp [hok])]
    by_cases hbig : MAX_PROTOCOL_MESSAGE_LENGTH < (readLE32 ((data.drop 16).take 4)).toNat
    · rw [if_pos hbig]
      exact ⟨fun h => (by cases h), fun h => absurd h.2.1 (by omega)⟩
    · rw [if_neg hbig, Option.some.injEq]
      exact ⟨fun h => ⟨hok, by omega, h.symm⟩, fun h => h.2.2.symm⟩
  · rw [if_pos (by simpa using hok)]
    exact ⟨fun h => (by cases h), fun h => absurd h.1 hok⟩

theorem serializeHeader_deserializeHeader {data : List UInt8} (hlen : data.length = MESSAGE_HEADER_SIZE)
    {header : MessageHeader} (h : deserializeHeader data = some header) : serializeHeader header = data := by
  have hlen24 : data.length = 24 := hlen
  obtain ⟨-, -, rfl⟩ := (deserializeHeader_iff hlen header).mp h
  unfold serializeHeader writeLE32 readLE32 MessageSerializer.writeBlob
  dsimp only
  rw [writeLE_readLE (by decide) (by simp [hlen24]), writeLE_readLE (by decide) (by simp [hlen24]),
    writeBE_readBE (by decide) (by simp [hlen24]), List.take_of_length_le (l := data.drop 20) (by simp [hlen24])]
  have h16 : (data.drop 16).take 4 ++ data.drop 20 = data.drop 16 := by
    rw [show data.drop 20 = (data.drop 16).drop 4 by rw [List.drop_drop], List.take_append_drop]
  have h4 : (data.drop 4).take COMMAND_SIZE ++ data.drop 16 = data.drop 4 := by
    rw [show data.drop 16 = (data.drop 4).drop COMMAND_SIZE by rw [List.drop_drop]; rfl, List.take_append_drop]
  rw [List.append_assoc, List.append_assoc, h16, h4, List.take_append_drop]

/-- The grammar of a header: which 24 bytes are accepted, that they are written back, and that
what `create_header` makes is read back. -/
theorem deserializeHeader_grammar :
    (∀ data : List UInt8, data.length = MESSAGE_HEADER_SIZE →
      ((∃ header, deserializeHeader data = some header) ↔
        (∃ text n, (data.drop 4).take COMMAND_SIZE = text ++ List.replicate (n + 1) 0 ∧
          ∀ b ∈ text, 0x20 ≤ b ∧ b ≤ 0x7e) ∧
        (readLE32 ((data.drop 16).take 4)).toNat ≤ MAX_PROTOCOL_MESSAGE_LENGTH) ∧
      ∀ header, deserializeHeader data = some header → serializeHeader header = data) ∧
    ∀ (magic : BitVec 32) (command : String) (payload : List UInt8), command.toList.length ≤ 11 →
      (∀ c ∈ command.toList, 0x20 ≤ c.toNat ∧ c.toNat ≤ 0x7e) → payload.length ≤ MAX_PROTOCOL_MESSAGE_LENGTH →
      ∃ header, deserializeHeader (serializeHeader (createHeader computeChecksum magic command payload)) =
          some header ∧
        header.magic = magic ∧ header.getCommand = command ∧ header.length.toNat = payload.length ∧
        header.checksum = computeChecksum payload := by
  refine ⟨fun data hlen => ⟨?_, fun header => serializeHeader_deserializeHeader hlen⟩, ?_⟩
  · have hcommand := commandOk_iff ((data.drop 4).take COMMAND_SIZE)
    unfold Printable at hcommand
    rw [← hcommand]
    constructor
    · rintro ⟨header, h⟩
      obtain ⟨hok, hlength, -⟩ := (deserializeHeader_iff hlen header).mp h
      exact ⟨hok, hlength⟩
    · rintro ⟨hok, hlength⟩
      exact ⟨_, (deserializeHeader_iff hlen _).mpr ⟨hok, hlength, rfl⟩⟩
  · intro magic command payload hlen hc hlength
    have hvalid : ValidCommand command := ⟨Nat.lt_succ_of_le hlen, hc⟩
    have hnat := createHeader_length magic computeChecksum command hlength
    exact ⟨_, deserializeHeader_serializeHeader _ (setCommand_length command) (commandOk_setCommand hvalid)
      (hnat ▸ hlength), rfl, getCommand_createHeader magic computeChecksum hvalid payload, hnat, rfl⟩

theorem deserializeHeader_grammar_ping :
    ∃ header, deserializeHeader (serializeHeader (createHeader (fun _ => 7) 5 "ping" [1, 2])) = some header ∧
      header.magic = 5 ∧ header.getCommand = "ping" ∧ header.length.toNat = 2 ∧ header.checksum = 7 :=
  (deserializeHeader_grammar fun _ => 7).2 5 "ping" [1, 2] (by simp) (by simp)
    (by simp [MAX_PROTOCOL_MESSAGE_LENGTH])

theorem fullMessage_length (command : String) (payload : List UInt8) :
    (fullMessage networkMagic computeChecksum command payload).length = MESSAGE_HEADER_SIZE + payload.length := by
  unfold fullMessage
  rw [List.length_append, serializeHeader_length _ (setCommand_length command)]

theorem readFrame_fullMessage (h : ValidCommand command) {payload : List UInt8}
    (hlength : payload.length ≤ MAX_PROTOCOL_MESSAGE_LENGTH)
    (hempty : payload = [] → command = "verack" ∨ command = "getaddr") (t : List UInt8) :
    readFrame networkMagic computeChecksum (fullMessage networkMagic computeChecksum command payload ++ t) =
      .item (createHeader computeChecksum networkMagic command payload, payload)
        (fullMessage networkMagic computeChecksum command payload).length := by
  have hnat := createHeader_length networkMagic computeChecksum command hlength
  have hheader := deserializeHeader_serializeHeader (createHeader computeChecksum networkMagic command payload)
    (setCommand_length command) (commandOk_setCommand h) (hnat ▸ hlength)
  have hlen := serializeHeader_length (createHeader computeChecksum networkMagic command payload)
    (setCommand_length command)
  have htotal := fullMessage_length networkMagic computeChecksum command payload
  have htake : (fullMessage networkMagic computeChecksum command payload ++ t).take MESSAGE_HEADER_SIZE =
      serializeHeader (createHeader computeChecksum networkMagic command payload) := by
    unfold fullMessage
    rw [List.append_assoc, List.take_append_of_le_length hlen.ge, List.take_of_length_le hlen.le]
  have hdrop : (fullMessage networkMagic computeChecksum command payload ++ t).drop MESSAGE_HEADER_SIZE =
      payload ++ t := by
    unfold fullMessage
    rw [List.append_assoc, ← hlen, List.drop_left]
  have hzero : ¬ ((createHeader computeChecksum networkMagic command payload).length = 0 ∧
      (createHeader computeChecksum networkMagic command payload).getCommand ≠ "verack" ∧
      (createHeader computeChecksum networkMagic command payload).getCommand ≠ "getaddr") := by
    rintro ⟨hz, hne, hne'⟩
    rw [getCommand_createHeader networkMagic computeChecksum h] at hne hne'
    rw [hz] at hnat
    rcases hempty (List.length_eq_zero_iff.mp hnat.symm) with heq | heq
    · exact hne heq
    · exact hne' heq
  unfold readFrame
  rw [if_neg (by rw [List.length_append, htotal]; omega), htake, hheader]
  dsimp only
  have hmagic : (createHeader computeChecksum networkMagic command payload).magic = networkMagic := rfl
  have hsum : (createHeader computeChecksum networkMagic command payload).checksum =
      computeChecksum payload := rfl
  rw [if_neg (not_not.mpr hmagic), hnat, if_neg (not_lt.mpr hlength),
    if_neg (by rw [List.length_append, htotal]; omega), hdrop, List.take_left,
    if_neg (not_not.mpr hsum.symm), if_neg hzero, htotal]

end

/-- The messages that `send_message` can send, and that are accepted: with a valid command, a
payload within the limit, and an empty one for two commands only. -/
def Sendable (m : String × List UInt8) : Prop :=
  ValidCommand m.1 ∧ m.2.length ≤ MAX_PROTOCOL_MESSAGE_LENGTH ∧ (m.2 = [] → m.1 = "verack" ∨ m.1 = "getaddr")

theorem sendable_message {m : Message} (h : m.WithinLimits) : Sendable (m.command, m.serialize) := by
  refine ⟨validCommand_command m, Message.serialize_length_le h, fun hnil => ?_⟩
  have hlen := congrArg List.length hnil
  cases m with
  | verack => exact .inl rfl
  | getaddr => exact .inr rfl
  | version m => simp [Message.serialize, VersionMessage.serialize, writeLE32] at hlen
  | ping nonce => simp [Message.serialize, writeLE64] at hlen
  | pong nonce => simp [Message.serialize, writeLE64] at hlen
  | getheaders m => simp [Message.serialize, GetHeadersMessage.serialize, writeLE32] at hlen
  | addr l | inv l | headers l =>
    rcases VarInt.encode_cases (BitVec.ofNat 64 l.length) with
      ⟨-, heq⟩ | ⟨-, -, heq⟩ | ⟨-, -, heq⟩ | ⟨-, -, heq⟩ <;>
      simp [Message.serialize, MessageSerializer.writeVector, MessageSerializer.writeVarint, heq] at hlen

section
variable (networkMagic : BitVec 32) (computeChecksum : List UInt8 → BitVec 32)

/-- The bytes of some messages, one after another. -/
def sentStream (messages : List (String × List UInt8)) : List UInt8 :=
  messages.flatMap fun m => fullMessage networkMagic computeChecksum m.1 m.2

/-- What `process_message` is to be given for a message. -/
def sentFrame (m : String × List UInt8) : MessageHeader × List UInt8 :=
  (createHeader computeChecksum networkMagic m.1 m.2, m.2)

theorem frames_sentStream (messages : List (String × List UInt8)) (h : ∀ m ∈ messages, Sendable m) :
    frames (frameReader networkMagic computeChecksum) (sentStream networkMagic computeChecksum messages) =
      ⟨messages.map (sentFrame networkMagic computeChecksum), [], false⟩ := by
  induction messages with
  | nil => exact frames_more (frameReader networkMagic computeChecksum).read_nil
  | cons m messages ih =>
    obtain ⟨hvalid, hlength, hempty⟩ := h m (by simp)
    have hread := readFrame_fullMessage networkMagic computeChecksum hvalid hlength hempty
      (sentStream networkMagic computeChecksum messages)
    rw [← frameReader_read] at hread
    have hcons : sentStream networkMagic computeChecksum (m :: messages) =
        fullMessage networkMagic computeChecksum m.1 m.2 ++
          sentStream networkMagic computeChecksum messages := rfl
    rw [hcons, frames_item hread, List.drop_left, ih fun m' hm' => h m' (by simp [hm'])]
    rfl

/-- However the stream is cut, the messages before the first bad frame are processed in order,
then nothing but violations is reported, the first of them the bad frame; and what was sent
is what is processed. -/
theorem framing_independent_of_chunks {σ : Type} (K : Sink (MessageHeader × List UInt8) σ) (s : σ)
    (chunks : List (List UInt8)) (hchunks : ∀ chunk ∈ chunks, chunk.length ≤ RECV_BUFFER_SIZE) :
    (chunks.foldl (onTransportReceive networkMagic computeChecksum K) ({}, s)).1.recvBufferOffset ≤
        (chunks.foldl (onTransportReceive networkMagic computeChecksum K) ({}, s)).1.recvBuffer.length ∧
      (∃ tail : List Fault,
        (chunks.foldl (onTransportReceive networkMagic computeChecksum K) ({}, s)).2 =
          tail.foldl K.fault
            ((frames (frameReader networkMagic computeChecksum) chunks.flatten).items.foldl K.item s) ∧
        tail.head? =
          if (frames (frameReader networkMagic computeChecksum) chunks.flatten).bad then some .framing else none) ∧
      ∀ messages : List (String × List UInt8), (∀ m ∈ messages, Sendable m) →
        chunks.flatten = sentStream networkMagic computeChecksum messages →
        (chunks.foldl (onTransportReceive networkMagic computeChecksum K) ({}, s)).2 =
          (messages.map (sentFrame networkMagic computeChecksum)).foldl K.item s := by
  have hlimit : MESSAGE_HEADER_SIZE + MAX_PROTOCOL_MESSAGE_LENGTH + RECV_BUFFER_SIZE ≤
      DEFAULT_RECV_FLOOD_SIZE + 1 := by decide
  have hfed : Fed (frameReader networkMagic computeChecksum) K s chunks.flatten _ :=
    fed_chunks s (fun l h => readFrame_more networkMagic computeChecksum h) hlimit chunks hchunks
  have heq := foldl_onTransportReceive_eq networkMagic computeChecksum K chunks ({}, s)
  have hempty : ({} : RecvBuffer).unread = [] := rfl
  rw [hempty] at heq
  rw [← heq] at hfed
  obtain ⟨-, -, tail, htail, hhead⟩ := hfed
  refine ⟨RecvBuffer.offset_le _, ⟨tail, htail, hhead⟩, fun messages hm hstream => ?_⟩
  have hframes := frames_sentStream networkMagic computeChecksum messages hm
  rw [← hstream] at hframes
  rw [hframes] at htail hhead
  obtain rfl : tail = [] := by simpa using hhead
  exact htail

theorem framing_verack_in_two :
    ([(sentStream 0x554e4943 (fun _ => 0x5df6e0e2) [("verack", [])]).take 10,
        (sentStream 0x554e4943 (fun _ => 0x5df6e0e2) [("verack", [])]).drop 10].foldl
      (onTransportReceive 0x554e4943 (fun _ => 0x5df6e0e2) ⟨fun log x => log ++ [x], fun log _ => log⟩)
      ({}, [])).2 = [sentFrame 0x554e4943 (fun _ => 0x5df6e0e2) ("verack", [])] := by
  have hlen : (sentStream 0x554e4943 (fun _ => 0x5df6e0e2) [("verack", [])]).length = 24 := by decide
  have hchunks : ∀ chunk ∈ [(sentStream 0x554e4943 (fun _ => 0x5df6e0e2) [("verack", [])]).take 10,
      (sentStream 0x554e4943 (fun _ => 0x5df6e0e2) [("verack", [])]).drop 10],
      chunk.length ≤ RECV_BUFFER_SIZE := by
    intro chunk hchunk
    simp only [List.mem_cons, List.not_mem_nil, or_false] at hchunk
    rcases hchunk with rfl | rfl
    · rw [List.length_take]
      exact (Nat.min_le_left _ _).trans (by decide)
    · rw [List.length_drop, hlen]
      decide
  have hsend : ∀ m ∈ [(("verack" : String), ([] : List UInt8))], Sendable m := by
    intro m hm
    obtain rfl := List.mem_singleton.mp hm
    exact ⟨validCommand_command .verack, Nat.zero_le _, fun _ => .inl rfl⟩
  have hresult := framing_independent_of_chunks 0x554e4943 (fun _ => 0x5df6e0e2)
    ⟨fun log x => log ++ [x], fun log _ => log⟩ [] _ hchunks
  exact hresult.2.2 _ hsend (by rw [List.flatten_cons, List.flatten_singleton, List.take_append_drop])

end

end UnicityPow
