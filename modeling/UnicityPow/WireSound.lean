import UnicityPow.Message

/-!
# The codec of message payloads

Every reader of the deserializer matches what the serializer writes, from the integers up to
the nine payloads: what is written is read back, and what is accepted begins with its own
encoding.
-/

namespace UnicityPow

open Codec MessageSerializer MessageDeserializer

/-! ## Fixed-width integers -/

@[simp] theorem writeLE_length {w : Nat} (n : Nat) (v : BitVec w) : (writeLE n v).length = n := by simp [writeLE]

@[simp] theorem writeBE_length {w : Nat} (n : Nat) (v : BitVec w) : (writeBE n v).length = n := by simp [writeBE]

theorem toNat_ofNat_bytes {l : List Nat} (h : ∀ b ∈ l, b < 256) : (l.map UInt8.ofNat).map UInt8.toNat = l := by
  rw [List.map_map]
  exact (List.map_congr_left fun b hb => UInt8.toNat_ofNat_of_lt (h b hb)).trans (List.map_id l)

theorem readLE_writeLE_of_lt {w n : Nat} {v : BitVec w} (h : v.toNat < 256 ^ n) : readLE w (writeLE n v) = v := by
  unfold readLE writeLE
  rw [toNat_ofNat_bytes (fun b hb => toBytes_lt hb), ofBytes_toBytes]
  apply BitVec.eq_of_toNat_eq
  rw [Nat.mod_eq_of_lt h, BitVec.toNat_ofNat, Nat.mod_eq_of_lt v.isLt]

theorem readLE_writeLE {w n : Nat} (h : w ≤ 8 * n) (v : BitVec w) : readLE w (writeLE n v) = v :=
  readLE_writeLE_of_lt <| calc v.toNat < 2 ^ w := v.isLt
    _ ≤ 2 ^ (8 * n) := Nat.pow_le_pow_right (by decide) h
    _ = 256 ^ n := by rw [Nat.pow_mul]

theorem toNat_lt_of_mem {l : List UInt8} {b : Nat} (h : b ∈ l.map UInt8.toNat) : b < 256 := by
  obtain ⟨c, -, rfl⟩ := List.mem_map.mp h
  exact c.toNat_lt

theorem ofBytes_toNat_lt {n : Nat} {l : List UInt8} (hl : l.length = n) :
    ofBytes (l.map UInt8.toNat) < 256 ^ n := by
  have := ofBytes_lt (l.map UInt8.toNat) fun b hb => toNat_lt_of_mem hb
  simpa [hl] using this

theorem readLE_lt {w n : Nat} {l : List UInt8} (hl : l.length = n) : (readLE w l).toNat < 256 ^ n := by
  unfold readLE
  rw [BitVec.toNat_ofNat]
  calc ofBytes (l.map UInt8.toNat) % 2 ^ w ≤ ofBytes (l.map UInt8.toNat) := Nat.mod_le _ _
    _ < 256 ^ n := ofBytes_toNat_lt hl

theorem writeLE_readLE {w n : Nat} (h : 8 * n ≤ w) {l : List UInt8} (hl : l.length = n) :
    writeLE n (readLE w l) = l := by
  have hb : ∀ b ∈ l.map UInt8.toNat, b < 256 := fun b hb => toNat_lt_of_mem hb
  have hlt : ofBytes (l.map UInt8.toNat) < 2 ^ w := by
    calc ofBytes (l.map UInt8.toNat) < 256 ^ n := ofBytes_toNat_lt hl
      _ = 2 ^ (8 * n) := by rw [Nat.pow_mul]
      _ ≤ 2 ^ w := Nat.pow_le_pow_right (by decide) h
  have hback := toBytes_ofBytes _ hb
  rw [List.length_map, hl] at hback
  unfold writeLE readLE
  rw [BitVec.toNat_ofNat, Nat.mod_eq_of_lt hlt, hback, List.map_map]
  exact (List.map_congr_left fun b _ => UInt8.ofNat_toNat).trans (List.map_id l)

theorem readBE_writeBE {w n : Nat} (h : w ≤ 8 * n) (v : BitVec w) : readBE w (writeBE n v) = v := by
  unfold readBE writeBE
  rw [List.reverse_reverse, readLE_writeLE h]

theorem writeBE_readBE {w n : Nat} (h : 8 * n ≤ w) {l : List UInt8} (hl : l.length = n) :
    writeBE n (readBE w l) = l := by
  unfold readBE writeBE
  rw [writeLE_readLE h (by rwa [List.length_reverse]), List.reverse_reverse]

/-! ## Variable-length integers -/

namespace VarInt

theorem writeLE_setWidth {w : Nat} (n : Nat) {v : BitVec 64} (h : v.toNat < 2 ^ w) :
    writeLE n (v.setWidth w) = writeLE n v := by
  unfold writeLE
  rw [BitVec.toNat_setWidth, Nat.mod_eq_of_lt h]

theorem encode_cases (v : BitVec 64) :
    v.toNat < 0xfd ∧ encode v = [UInt8.ofNat v.toNat] ∨
      0xfd ≤ v.toNat ∧ v.toNat < 256 ^ 2 ∧ encode v = 0xfd :: writeLE 2 v ∨
      0x10000 ≤ v.toNat ∧ v.toNat < 256 ^ 4 ∧ encode v = 0xfe :: writeLE 4 v ∨
      0x100000000 ≤ v.toNat ∧ v.toNat < 256 ^ 8 ∧ encode v = 0xff :: writeLE 8 v := by
  unfold encode
  by_cases h1 : v.toNat < 0xfd
  · exact .inl ⟨h1, if_pos h1⟩
  rw [if_neg h1]
  by_cases h2 : v.toNat ≤ 0xffff
  · rw [if_pos h2]
    exact .inr (.inl ⟨by omega, by omega, congrArg _ (writeLE_setWidth 2 (by omega))⟩)
  rw [if_neg h2]
  by_cases h3 : v.toNat ≤ 0xffffffff
  · rw [if_pos h3]
    exact .inr (.inr (.inl ⟨by omega, by omega, congrArg _ (writeLE_setWidth 4 (by omega))⟩))
  · rw [if_neg h3]
    exact .inr (.inr (.inr ⟨by omega, by have := v.isLt; omega, rfl⟩))

theorem decodeWide_encode {n least : Nat} (first : UInt8) {v : BitVec 64} (hleast : least ≤ v.toNat)
    (hlt : v.toNat < 256 ^ n) (t : List UInt8) :
    decodeWide n least (first :: writeLE n v ++ t) = some (v, n + 1) := by
  unfold decodeWide
  simp [readLE_writeLE_of_lt hlt, Nat.not_lt.mpr hleast]

/-- The marker of a wide form, the bytes that follow it and the least value it stands for. -/
theorem decode_cons (first : UInt8) (rest : List UInt8) :
    decode (first :: rest) =
      if first < 0xfd then some (BitVec.ofNat 64 first.toNat, 1)
      else if first = 0xfd then decodeWide 2 0xfd (first :: rest)
      else if first = 0xfe then decodeWide 4 0x10000 (first :: rest)
      else decodeWide 8 0x100000000 (first :: rest) := rfl

theorem decode_encode (v : BitVec 64) (t : List UInt8) : decode (encode v ++ t) = some (v, (encode v).length) := by
  rcases encode_cases v with ⟨hlt, heq⟩ | ⟨hle, hlt, heq⟩ | ⟨hle, hlt, heq⟩ | ⟨hle, hlt, heq⟩
  · have hone : (UInt8.ofNat v.toNat).toNat = v.toNat := UInt8.toNat_ofNat_of_lt (by change _ < 256; omega)
    have hsmall : UInt8.ofNat v.toNat < 0xfd := by
      rw [UInt8.lt_iff_toNat_lt, hone]
      exact hlt
    rw [heq, List.singleton_append, decode_cons, if_pos hsmall, hone]
    simp
  · rw [heq, List.cons_append, decode_cons, if_neg (by decide), if_pos rfl, ← List.cons_append,
      decodeWide_encode 0xfd hle hlt t]
    simp
  · rw [heq, List.cons_append, decode_cons, if_neg (by decide), if_neg (by decide), if_pos rfl, ← List.cons_append,
      decodeWide_encode 0xfe hle hlt t]
    simp
  · rw [heq, List.cons_append, decode_cons, if_neg (by decide), if_neg (by decide), if_neg (by decide),
      ← List.cons_append, decodeWide_encode 0xff hle hlt t]
    simp

theorem decodeWide_sound {n least c : Nat} (hn : n ≤ 8) {buffer : List UInt8} {v : BitVec 64}
    (h : decodeWide n least buffer = some (v, c)) :
    c = n + 1 ∧ c ≤ buffer.length ∧ least ≤ v.toNat ∧ v.toNat < 256 ^ n ∧ (buffer.drop 1).take n = writeLE n v := by
  unfold decodeWide at h
  split at h
  · cases h
  rename_i hlen
  dsimp only at h
  split at h
  · cases h
  rename_i hleast
  cases h
  have hl : ((buffer.drop 1).take n).length = n := by simp; omega
  exact ⟨rfl, by omega, by omega, readLE_lt hl, (writeLE_readLE (by omega) hl).symm⟩

theorem decode_sound {buffer : List UInt8} {v : BitVec 64} {c : Nat} (h : decode buffer = some (v, c)) :
    c ≤ buffer.length ∧ buffer.take c = encode v := by
  cases buffer with
  | nil => cases h
  | cons first rest =>
    rw [decode_cons] at h
    by_cases hsmall : first < 0xfd
    · rw [if_pos hsmall] at h
      cases h
      have hlt : first.toNat < 0xfd := UInt8.lt_iff_toNat_lt.mp hsmall
      have hv : (BitVec.ofNat 64 first.toNat).toNat = first.toNat := by
        rw [BitVec.toNat_ofNat]
        omega
      refine ⟨by simp, ?_⟩
      unfold encode
      rw [hv, if_pos hlt, UInt8.ofNat_toNat]
      rfl
    rw [if_neg hsmall] at h
    have hcases := encode_cases v
    by_cases h2 : first = 0xfd
    · rw [if_pos h2] at h
      obtain ⟨rfl, hlen, hle, hlt, hbytes⟩ := decodeWide_sound (by decide) h
      have henc : encode v = 0xfd :: writeLE 2 v := by
        rcases hcases with ⟨hr, -⟩ | ⟨-, -, heq⟩ | ⟨hr, -⟩ | ⟨hr, -⟩
        · omega
        · exact heq
        · omega
        · omega
      rw [henc, ← hbytes, h2]
      exact ⟨hlen, rfl⟩
    rw [if_neg h2] at h
    by_cases h4 : first = 0xfe
    · rw [if_pos h4] at h
      obtain ⟨rfl, hlen, hle, hlt, hbytes⟩ := decodeWide_sound (by decide) h
      have henc : encode v = 0xfe :: writeLE 4 v := by
        rcases hcases with ⟨hr, -⟩ | ⟨-, hr, -⟩ | ⟨-, -, heq⟩ | ⟨hr, -⟩
        · omega
        · omega
        · exact heq
        · omega
      rw [henc, ← hbytes, h4]
      exact ⟨hlen, rfl⟩
    · rw [if_neg h4] at h
      obtain ⟨rfl, hlen, hle, hlt, hbytes⟩ := decodeWide_sound (by decide) h
      have henc : encode v = 0xff :: writeLE 8 v := by
        rcases hcases with ⟨hr, -⟩ | ⟨-, hr, -⟩ | ⟨-, hr, -⟩ | ⟨-, -, heq⟩
        · omega
        · omega
        · omega
        · exact heq
      -- the one marker left
      have h8 : first = 0xff := by
        rw [UInt8.lt_iff_toNat_lt] at hsmall
        rw [← UInt8.toNat_inj] at h2 h4 ⊢
        have := first.toNat_lt
        simp only [UInt8.reduceToNat] at hsmall h2 h4 ⊢
        omega
      rw [henc, ← hbytes, h8]
      exact ⟨hlen, rfl⟩

end VarInt

/-! ## The reads of the deserializer -/

namespace MessageDeserializer

theorem bytesRemaining_eq (d : MessageDeserializer) : d.bytesRemaining = d.remaining.length := by
  simp [bytesRemaining, remaining]

@[simp] theorem remaining_advance (d : MessageDeserializer) (n : Nat) :
    (d.advance n).remaining = d.remaining.drop n := by
  simp [advance, remaining]

theorem checkAvailable_of_le {d : MessageDeserializer} {n : Nat} (h : n ≤ d.remaining.length) :
    d.checkAvailable n = d := by
  unfold checkAvailable
  rw [bytesRemaining_eq, if_neg (by omega)]

theorem of_checkAvailable {d : MessageDeserializer} {n : Nat} (h : (d.checkAvailable n).error = false) :
    d.error = false ∧ n ≤ d.remaining.length := by
  unfold checkAvailable at h
  rw [bytesRemaining_eq] at h
  split at h
  · cases h
  · exact ⟨h, by omega⟩

/-- A read of `n` bytes that takes apart what `enc` puts together. -/
theorem reads_readFixed {α : Type} {n : Nat} {dflt : α} {read : List UInt8 → α} {D : α → Prop} {enc : α → List UInt8}
    (hwrite : ∀ a, D a → (enc a).length = n ∧ read (enc a) = a)
    (hread : ∀ l, l.length = n → D (read l) ∧ enc (read l) = l) : Reads D enc (readFixed n dflt read) where
  complete a t d ha hd hrest := by
    obtain ⟨hlen, hback⟩ := hwrite a ha
    have hrest : d.remaining = enc a ++ t := hrest
    have hd : d.error = false := hd
    refine ⟨d.advance n, ?_, hd, ?_⟩
    · unfold readFixed
      rw [checkAvailable_of_le (by rw [hrest, List.length_append]; omega)]
      simp [hd, hrest, List.take_left' hlen, hback]
    · exact (remaining_advance d n).trans (by rw [hrest, List.drop_left' hlen])
  sound d a d' hr hd' := by
    unfold readFixed at hr
    dsimp only at hr
    split at hr
    · rename_i herr
      cases hr
      exact absurd (show (d.checkAvailable n).error = false from hd') (by simp [herr])
    · rename_i herr
      obtain ⟨hd, hlen⟩ := of_checkAvailable (by simpa using herr)
      rw [checkAvailable_of_le hlen] at hr
      cases hr
      have hl : (d.remaining.take n).length = n := by simp [hlen]
      obtain ⟨hD, henc⟩ := hread _ hl
      refine ⟨hd, hD, ?_⟩
      change d.remaining = enc (read (d.remaining.take n)) ++ (d.advance n).remaining
      rw [henc, remaining_advance, List.take_append_drop]

theorem reads_readUint32 : Reads (fun _ => True) writeLE32 readUint32 :=
  reads_readFixed (fun v _ => ⟨writeLE_length 4 v, readLE_writeLE (by decide) v⟩)
    fun _ hl => ⟨trivial, writeLE_readLE (by decide) hl⟩

theorem reads_readUint64 : Reads (fun _ => True) writeLE64 readUint64 :=
  reads_readFixed (fun v _ => ⟨writeLE_length 8 v, readLE_writeLE (by decide) v⟩)
    fun _ hl => ⟨trivial, writeLE_readLE (by decide) hl⟩

theorem reads_readBE {w n : Nat} {dflt : BitVec w} (h : w = 8 * n) :
    Reads (fun _ => True) (writeBE n) (readFixed n dflt (readBE w)) :=
  reads_readFixed (fun v _ => ⟨writeBE_length n v, readBE_writeBE (by omega) v⟩)
    fun _ hl => ⟨trivial, writeBE_readBE (by omega) hl⟩

theorem reads_readBytes (n : Nat) : Reads (fun l => l.length = n) id (readBytes n) :=
  reads_readFixed (fun _ hl => ⟨hl, rfl⟩) fun _ hl => ⟨hl, rfl⟩

theorem reads_readVarint : Reads (fun v => v.toNat ≤ MAX_SIZE) VarInt.encode readVarint where
  complete v t d hv hd hrest := by
    have hrest : d.remaining = VarInt.encode v ++ t := hrest
    have hd : d.error = false := hd
    have hpos : 1 ≤ (VarInt.encode v).length := by
      rcases VarInt.encode_cases v with ⟨-, heq⟩ | ⟨-, -, heq⟩ | ⟨-, -, heq⟩ | ⟨-, -, heq⟩ <;> simp [heq]
    refine ⟨d.advance (VarInt.encode v).length, ?_, hd, ?_⟩
    · unfold readVarint
      rw [checkAvailable_of_le (by rw [hrest, List.length_append]; omega)]
      simp [hd, hrest, VarInt.decode_encode, Nat.not_lt.mpr hv]
    · exact (remaining_advance d _).trans (by rw [hrest, List.drop_left])
  sound d v d' hr hd' := by
    unfold readVarint at hr
    dsimp only at hr
    split at hr
    · rename_i herr
      cases hr
      exact absurd (show (d.checkAvailable 1).error = false from hd') (by simp [herr])
    rename_i herr
    obtain ⟨hd, hlen⟩ := of_checkAvailable (by simpa using herr)
    rw [checkAvailable_of_le hlen] at hr
    split at hr
    · cases hr
      cases hd'
    rename_i hdec
    split at hr
    · cases hr
      cases hd'
    rename_i hmax
    cases hr
    obtain ⟨-, htake⟩ := VarInt.decode_sound hdec
    refine ⟨hd, by omega, ?_⟩
    change d.remaining = _ ++ (d.advance _).remaining
    rw [← htake, remaining_advance, List.take_append_drop]

/-! ## Counted data -/

theorem toNat_length {n : Nat} (h : n ≤ MAX_SIZE) : (BitVec.ofNat 64 n).toNat = n := by
  unfold MAX_SIZE at h
  rw [BitVec.toNat_ofNat]
  omega

/-- What follows a count `p`: it must be the number of what is read. -/
theorem Reads.counted {α : Type} {limit : Nat} (hlimit : limit ≤ MAX_SIZE) {D : List α → Prop}
    (enc : List α → List UInt8) {r : BitVec 64 → Deserialize (List α)}
    (h : ∀ count : BitVec 64,
      Reads (fun l => l.length = count.toNat ∧ l.length ≤ limit ∧ D l) enc (r count)) :
    Reads (fun l => l.length ≤ limit ∧ D l) (fun l => writeVarint l.length ++ enc l) (readVarint >>= r) := by
  have hbind : Reads (fun l : List α => True ∧ (BitVec.ofNat 64 l.length).toNat ≤ MAX_SIZE ∧ l.length ≤ limit ∧ D l)
      (fun l => VarInt.encode (BitVec.ofNat 64 l.length) ++ enc l) (readVarint >>= r) :=
    Reads.bind (fun l => BitVec.ofNat 64 l.length) reads_readVarint fun count => (h count).congr
      (fun l => ?_) (fun _ _ => rfl)
  · refine hbind.congr (fun l => ?_) (fun _ _ => rfl)
    constructor
    · rintro ⟨hlen, hl⟩
      exact ⟨trivial, by rw [toNat_length (by omega)]; omega, hlen, hl⟩
    · rintro ⟨-, -, hl⟩
      exact hl
  · constructor
    · rintro ⟨⟨-, rfl⟩, hlen, hl⟩
      exact ⟨(toNat_length (by omega)).symm, hlen, hl⟩
    · rintro ⟨hcount, hlen, hl⟩
      refine ⟨⟨trivial, BitVec.eq_of_toNat_eq ?_⟩, hlen, hl⟩
      rw [toNat_length (by omega), hcount]

theorem reads_readString {maxLength : Nat} (hmax : maxLength ≤ MAX_SIZE) :
    Reads (fun s => s.length ≤ maxLength) writeString (readString maxLength) := by
  refine (Reads.counted (D := fun _ => True) hmax id fun count => ?_).congr (fun s => by simp)
    (fun _ _ => rfl)
  refine ⟨?_, ?_⟩
  · rintro s t d ⟨hlen, hs, -⟩ hd hrest
    have hrest : d.remaining = s ++ t := hrest
    have hd : d.error = false := hd
    refine ⟨d.advance count.toNat, ?_, hd, ?_⟩
    · have hroom : ¬ d.bytesRemaining < s.length := by
        rw [bytesRemaining_eq, hrest, List.length_append]
        omega
      simp [hd, hroom, hrest, ← hlen, Nat.not_lt.mpr hs]
    · exact (remaining_advance d _).trans (by rw [hrest, ← hlen, List.drop_left])
  · intro d s d' hr hd'
    split at hr
    · cases hr
      cases hd'
    rename_i hok
    simp only [Bool.or_eq_true, decide_eq_true_eq, not_or, not_lt, Bool.not_eq_true, bytesRemaining_eq] at hok
    cases hr
    obtain ⟨⟨hd, hlimit⟩, hroom⟩ := hok
    have hlen : (d.remaining.take count.toNat).length = count.toNat := by simp [hroom]
    refine ⟨hd, ⟨hlen, by omega, trivial⟩, ?_⟩
    change d.remaining = _ ++ (d.advance _).remaining
    rw [remaining_advance]
    exact (List.take_append_drop _ _).symm

theorem reads_readVector {α : Type} (limit : Nat) (hlimit : limit ≤ MAX_SIZE) {D : α → Prop}
    {enc : α → List UInt8} {read : Deserialize α} (h : Reads D enc read) :
    Reads (fun l => l.length ≤ limit ∧ ∀ a ∈ l, D a) (writeVector enc) (readVector limit read) := by
  refine (Reads.counted hlimit _ fun count => ?_).congr (fun _ => Iff.rfl) (fun _ _ => rfl)
  refine (Reads.giveUpIf fun _ => Reads.list h count.toNat).congr (fun l => ?_) (fun _ _ => rfl)
  rw [decide_eq_false_iff_not, Nat.not_lt]
  constructor
  · rintro ⟨hlen, hl, hD⟩
    exact ⟨by omega, hlen, hD⟩
  · rintro ⟨hcount, hlen, hD⟩
    exact ⟨hlen, by omega, hD⟩

/-! ## Records -/

theorem reads_readNetworkAddress : Reads (fun _ => True) writeNetworkAddress readNetworkAddress := by
  refine (Reads.bind (K := fun _ => True) NetworkAddress.services reads_readUint64 fun services =>
    Reads.bind NetworkAddress.ip (reads_readBE rfl) fun ip =>
    Reads.bind NetworkAddress.port (reads_readBE rfl) fun port => Reads.pure fun addr => ?_).congr
      (fun addr => by simp) (fun addr _ => by simp [writeNetworkAddress, writeBlob, writeBE16])
  cases addr
  simp [and_assoc]

theorem reads_readTimestampedAddress : Reads (fun _ => True) writeTimestampedAddress readTimestampedAddress := by
  refine (Reads.bind (K := fun _ => True) TimestampedAddress.timestamp reads_readUint32 fun timestamp =>
    Reads.bind TimestampedAddress.address reads_readNetworkAddress fun address => Reads.pure fun addr => ?_).congr
      (fun addr => by simp) (fun addr _ => by simp [writeTimestampedAddress])
  cases addr
  simp

theorem reads_readInventoryVector : Reads (fun _ => True) writeInventoryVector readInventoryVector := by
  refine (Reads.bind (K := fun _ => True) InventoryVector.type reads_readUint32 fun type =>
    Reads.bind InventoryVector.hash (reads_readBE rfl) fun hash => Reads.pure fun inv => ?_).congr
      (fun inv => by simp) (fun inv _ => by simp [writeInventoryVector, writeBlob])
  cases inv
  simp

theorem reads_parsed {α : Type} {n : Nat} {enc : α → List UInt8} (parse : List UInt8 → Option α)
    (hwrite : ∀ a, (enc a).length = n ∧ parse (enc a) = some a)
    (hread : ∀ l a, l.length = n → parse l = some a → enc a = l) :
    Reads (fun _ => True) enc
      (readBytes n >>= fun bytes => giveUpIf (bytes.length != n) >>= fun _ => lift (parse bytes)) := by
  have hbytes : ∀ bytes : List UInt8, Reads (fun a => (True ∧ enc a = bytes) ∧ True) (fun _ => [])
      (giveUpIf (σ := MessageDeserializer) (bytes.length != n) >>= fun _ => lift (parse bytes)) := by
    intro bytes
    refine (Reads.giveUpIf fun hlen => Reads.lift (K := fun a => enc a = bytes) fun a => ?_).congr (fun a => ?_)
      fun _ _ => rfl
    · constructor
      · rintro rfl
        exact (hwrite a).2
      · exact hread bytes a (by simpa using hlen)
    · constructor
      · rintro ⟨⟨-, rfl⟩, -⟩
        exact ⟨by simp [(hwrite a).1], rfl, trivial⟩
      · rintro ⟨-, h, -⟩
        exact ⟨⟨trivial, h⟩, trivial⟩
  refine (Reads.bind (K := fun _ => True) enc (reads_readBytes n) hbytes).congr (fun a => ?_) (fun a _ => ?_)
  · simp [(hwrite a).1]
  · simp

theorem reads_readHash : Reads (fun _ => True) (writeBlob 32) readHash :=
  reads_parsed (fun bytes => some (readBE 256 bytes))
    (fun hash => ⟨writeBE_length 32 hash, congrArg some (readBE_writeBE (by decide) hash)⟩)
    fun l hash hl h => Option.some.inj h ▸ writeBE_readBE (by decide) hl

end MessageDeserializer

namespace CBlockHeader

theorem serialize_length (header : CBlockHeader) : header.serialize.length = HEADER_SIZE := by
  simp [serialize, writeLE32, writeBlob, HEADER_SIZE]

theorem deserialize_serialize (header : CBlockHeader) : deserialize header.serialize = some header := by
  unfold deserialize
  rw [if_neg (by simp [serialize_length])]
  simp [serialize, writeLE32, writeBlob, readLE32, List.drop_append, List.drop_eq_nil_of_le,
    List.take_of_length_le, readLE_writeLE, readBE_writeBE]

theorem serialize_of_deserialize {data : List UInt8} {header : CBlockHeader} (h : deserialize data = some header) :
    header.serialize = data := by
  unfold deserialize at h
  split at h
  · cases h
  rename_i hlen
  cases h
  have hlen : data.length = 100 := by simpa [HEADER_SIZE] using hlen
  have hle : ∀ i, i + 4 ≤ 100 → writeLE 4 (readLE 32 ((data.drop i).take 4)) = (data.drop i).take 4 :=
    fun i hi => writeLE_readLE (by decide) (by simp; omega)
  have hbe : ∀ w i n, w = 8 * n → i + n ≤ 100 →
      writeBE n (readBE w ((data.drop i).take n)) = (data.drop i).take n :=
    fun w i n hw hi => writeBE_readBE (by omega) (by simp; omega)
  -- the fields lie side by side
  have hjoin : ∀ i n j, i + n = j → (data.drop i).take n ++ data.drop j = data.drop i := by
    rintro i n _ rfl
    rw [← List.drop_drop]
    exact List.take_append_drop n _
  have hlast : (data.drop 68).take 32 = data.drop 68 := List.take_of_length_le (by simp; omega)
  unfold serialize writeLE32 writeBlob readLE32
  rw [hle 56 (by decide), hle 60 (by decide), hle 64 (by decide), hbe 256 4 32 rfl (by decide),
    hbe 160 36 20 rfl (by decide), hbe 256 68 32 rfl (by decide), hlast]
  simp only [List.append_assoc]
  rw [hjoin 64 4 68 rfl, hjoin 60 4 64 rfl, hjoin 56 4 60 rfl, hjoin 36 20 56 rfl, hjoin 4 32 36 rfl]
  have hfirst := hle 0 (by decide)
  rw [List.drop_zero] at hfirst
  rw [hfirst, List.take_append_drop]

theorem reads_read : Reads (fun _ => True) serialize read :=
  reads_parsed _ (fun header => ⟨header.serialize_length, header.deserialize_serialize⟩)
    fun _ _ _ h => serialize_of_deserialize h

end CBlockHeader

/-! ## Payloads -/

theorem VersionMessage.reads_read :
    Reads (fun m => m.userAgent.length ≤ MAX_SUBVERSION_LENGTH) VersionMessage.serialize VersionMessage.read := by
  refine (Reads.bind (K := fun _ => True) VersionMessage.version reads_readUint32 fun version =>
    Reads.bind VersionMessage.services reads_readUint64 fun services =>
    Reads.bind VersionMessage.timestamp reads_readUint64 fun timestamp =>
    Reads.bind VersionMessage.addrRecv reads_readNetworkAddress fun addrRecv =>
    Reads.bind VersionMessage.addrFrom reads_readNetworkAddress fun addrFrom =>
    Reads.bind VersionMessage.nonce reads_readUint64 fun nonce =>
    Reads.bind VersionMessage.userAgent (reads_readString (by decide)) fun userAgent =>
    Reads.bind VersionMessage.startHeight reads_readUint32 fun startHeight => Reads.pure fun m => ?_).congr
      (fun m => by simp) (fun m _ => by simp [serialize])
  cases m
  simp [and_assoc]

theorem GetHeadersMessage.reads_read :
    Reads (fun m => m.blockLocatorHashes.length ≤ MAX_LOCATOR_SZ) GetHeadersMessage.serialize
      GetHeadersMessage.read := by
  refine (Reads.bind (K := fun _ => True) GetHeadersMessage.version reads_readUint32 fun version =>
    Reads.bind GetHeadersMessage.blockLocatorHashes (reads_readVector _ (by decide) reads_readHash) fun hashes =>
    Reads.bind GetHeadersMessage.hashStop reads_readHash fun hashStop => Reads.pure fun m => ?_).congr
      (fun m => by simp) (fun m _ => by simp [serialize])
  cases m
  simp [and_assoc]

theorem deserializeWith_serialize {α : Type} {D : α → Prop} {enc : α → List UInt8} {read : Deserialize α}
    (h : Reads D enc read) {a : α} (ha : D a) : deserializeWith read (enc a) = some a :=
  h.run_encode ha rfl (List.append_nil _).symm

theorem deserializeWith_sound {α : Type} {D : α → Prop} {enc : α → List UInt8} {read : Deserialize α}
    (h : Reads D enc read) {data : List UInt8} {a : α} (hrun : deserializeWith read data = some a) :
    D a ∧ enc a <+: data :=
  h.run_sound hrun

namespace Message

/-- The limits on the lists and the string of a message. -/
def WithinLimits : Message → Prop
  | version m => m.userAgent.length ≤ MAX_SUBVERSION_LENGTH
  | addr l => l.length ≤ MAX_ADDR_SIZE
  | inv l => l.length ≤ MAX_INV_SIZE
  | getheaders m => m.blockLocatorHashes.length ≤ MAX_LOCATOR_SZ
  | headers l => l.length ≤ MAX_HEADERS_SIZE
  | _ => True

theorem deserialize_serialize {m : Message} (h : m.WithinLimits) :
    deserialize m.command m.serialize = some m := by
  cases m with
  | version m => simp [deserialize, command, serialize, deserializeWith_serialize VersionMessage.reads_read h]
  | verack => simp [deserialize, command, serialize]
  | ping nonce => simp [deserialize, command, serialize, deserializeWith_serialize reads_readUint64 trivial]
  | pong nonce => simp [deserialize, command, serialize, deserializeWith_serialize reads_readUint64 trivial]
  | addr l =>
    have hread := reads_readVector MAX_ADDR_SIZE (by decide) reads_readTimestampedAddress
    simp [deserialize, command, serialize, deserializeWith_serialize hread ⟨h, fun _ _ => trivial⟩]
  | getaddr => simp [deserialize, command, serialize]
  | inv l =>
    have hread := reads_readVector MAX_INV_SIZE (by decide) reads_readInventoryVector
    simp [deserialize, command, serialize, deserializeWith_serialize hread ⟨h, fun _ _ => trivial⟩]
  | getheaders m =>
    simp [deserialize, command, serialize, deserializeWith_serialize GetHeadersMessage.reads_read h]
  | headers l =>
    have hread := reads_readVector MAX_HEADERS_SIZE (by decide) CBlockHeader.reads_read
    simp [deserialize, command, serialize, deserializeWith_serialize hread ⟨h, fun _ _ => trivial⟩]

/-- An accepted payload is of a message within the limits and begins with its encoding. -/
theorem deserialize_sound {name : String} {data : List UInt8} {m : Message} (h : deserialize name data = some m) :
    m.command = name ∧ m.WithinLimits ∧ m.serialize <+: data := by
  unfold deserialize at h
  split at h
  · obtain ⟨a, ha, rfl⟩ := Option.map_eq_some_iff.mp h
    obtain ⟨hD, hpre⟩ := deserializeWith_sound VersionMessage.reads_read ha
    exact ⟨Eq.symm ‹_›, hD, hpre⟩
  split at h
  · split at h
    · cases h
      exact ⟨Eq.symm ‹_›, trivial, List.nil_prefix⟩
    · cases h
  split at h
  · obtain ⟨a, ha, rfl⟩ := Option.map_eq_some_iff.mp h
    exact ⟨Eq.symm ‹_›, trivial, (deserializeWith_sound reads_readUint64 ha).2⟩
  split at h
  · obtain ⟨a, ha, rfl⟩ := Option.map_eq_some_iff.mp h
    exact ⟨Eq.symm ‹_›, trivial, (deserializeWith_sound reads_readUint64 ha).2⟩
  split at h
  · obtain ⟨a, ha, rfl⟩ := Option.map_eq_some_iff.mp h
    obtain ⟨hD, hpre⟩ := deserializeWith_sound (reads_readVector _ (by decide) reads_readTimestampedAddress) ha
    exact ⟨Eq.symm ‹_›, hD.1, hpre⟩
  split at h
  · split at h
    · cases h
      exact ⟨Eq.symm ‹_›, trivial, List.nil_prefix⟩
    · cases h
  split at h
  · obtain ⟨a, ha, rfl⟩ := Option.map_eq_some_iff.mp h
    obtain ⟨hD, hpre⟩ := deserializeWith_sound (reads_readVector _ (by decide) reads_readInventoryVector) ha
    exact ⟨Eq.symm ‹_›, hD.1, hpre⟩
  split at h
  · obtain ⟨a, ha, rfl⟩ := Option.map_eq_some_iff.mp h
    obtain ⟨hD, hpre⟩ := deserializeWith_sound GetHeadersMessage.reads_read ha
    exact ⟨Eq.symm ‹_›, hD, hpre⟩
  split at h
  · obtain ⟨a, ha, rfl⟩ := Option.map_eq_some_iff.mp h
    obtain ⟨hD, hpre⟩ := deserializeWith_sound (reads_readVector _ (by decide) CBlockHeader.reads_read) ha
    exact ⟨Eq.symm ‹_›, hD.1, hpre⟩
  · cases h

/-! ## Sizes -/

theorem writeVarint_length_le (n : Nat) : (writeVarint n).length ≤ 9 := by
  unfold writeVarint
  rcases VarInt.encode_cases (BitVec.ofNat 64 n) with ⟨-, heq⟩ | ⟨-, -, heq⟩ | ⟨-, -, heq⟩ | ⟨-, -, heq⟩ <;>
    simp [heq]

theorem writeVector_length_le {α : Type} (write : α → List UInt8) {k : Nat} (hk : ∀ a, (write a).length = k)
    (l : List α) : (writeVector write l).length ≤ 9 + l.length * k := by
  have hbody : (l.flatMap write).length = l.length * k := by simp [List.length_flatMap, hk]
  have hcount := writeVarint_length_le l.length
  unfold writeVector
  rw [List.length_append, hbody]
  omega

theorem writeNetworkAddress_length (addr : NetworkAddress) : (writeNetworkAddress addr).length = 26 := by
  simp [writeNetworkAddress, writeLE64, writeBlob, writeBE16]

theorem serialize_length_le {m : Message} (h : m.WithinLimits) :
    m.serialize.length ≤ MAX_PROTOCOL_MESSAGE_LENGTH := by
  unfold MAX_PROTOCOL_MESSAGE_LENGTH
  cases m with
  | version m =>
    have hcount := writeVarint_length_le m.userAgent.length
    have hlen : m.userAgent.length ≤ 256 := h
    simp only [serialize, VersionMessage.serialize, writeString, writeLE32, writeLE64, List.length_append,
      writeLE_length, writeNetworkAddress_length]
    omega
  | verack => decide
  | ping nonce => simp [serialize, writeLE64]
  | pong nonce => simp [serialize, writeLE64]
  | addr l =>
    have hlen : l.length ≤ 1000 := h
    have hsize := writeVector_length_le writeTimestampedAddress (k := 30)
      (fun addr => by simp [writeTimestampedAddress, writeLE32, writeNetworkAddress_length]) l
    exact hsize.trans (by omega)
  | getaddr => decide
  | inv l =>
    have hlen : l.length ≤ 50000 := h
    have hsize := writeVector_length_le writeInventoryVector (k := 36)
      (fun inv => by simp [writeInventoryVector, writeLE32, writeBlob]) l
    exact hsize.trans (by omega)
  | getheaders m =>
    have hlen : m.blockLocatorHashes.length ≤ 101 := h
    have hsize := writeVector_length_le (writeBlob 32) (k := 32) (writeBE_length (w := 256) 32)
      m.blockLocatorHashes
    simp only [serialize, GetHeadersMessage.serialize, writeLE32, writeBlob, List.length_append, writeLE_length,
      writeBE_length] at hsize ⊢
    omega
  | headers l =>
    have hlen : l.length ≤ 2000 := h
    have hsize := writeVector_length_le CBlockHeader.serialize (k := 100)
      (fun header => header.serialize_length) l
    exact hsize.trans (by omega)

/-- What is serialized within the limits is read back and fits a message, and whatever is
accepted begins with the one encoding of its message. -/
theorem wire_codec_round_trip :
    (∀ m : Message, m.WithinLimits →
      deserialize m.command m.serialize = some m ∧ m.serialize.length ≤ MAX_PROTOCOL_MESSAGE_LENGTH) ∧
    ∀ name data m, deserialize name data = some m → m.command = name ∧ m.serialize <+: data := by
  refine ⟨fun m h => ⟨deserialize_serialize h, serialize_length_le h⟩, fun name data m h => ?_⟩
  obtain ⟨hname, -, hpre⟩ := deserialize_sound h
  exact ⟨hname, hpre⟩

end Message

end UnicityPow
