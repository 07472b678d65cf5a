import UnicityPow.Deserializer
import UnicityPow.WireSound

/-!
# No read leaves the buffer

The reads over memory do what the reads of the list of bytes do, and touch no byte beyond its end. So
what the codec says of the list holds of the buffer.
-/

namespace UnicityPow

open Codec MessageSerializer

namespace BufferReader

/-- The buffer as a list of bytes. -/
def view (r : BufferReader) : MessageDeserializer where
  data := (List.range r.size.toNat).map r.data
  position := r.position.toNat
  error := r.error

/-- The position is in the buffer, and so are the bytes touched so far. -/
structure Safe (r : BufferReader) : Prop where
  position : r.position.toNat ≤ r.size.toNat
  touched : ∀ i ∈ r.touched, i < r.size.toNat

/-- A step leaves the buffer where it is, and safe. -/
structure Keeps (r r' : BufferReader) : Prop where
  safe : Safe r'
  data : r'.data = r.data
  size : r'.size = r.size

theorem Keeps.trans {r₁ r₂ r₃ : BufferReader} (h : Keeps r₁ r₂) (h' : Keeps r₂ r₃) : Keeps r₁ r₃ :=
  ⟨h'.safe, h'.data.trans h.data, h'.size.trans h.size⟩

/-- From a safe buffer the read over memory does what the read of the list does. -/
structure Refines {α : Type} (f : BufferRead α) (g : Deserialize α) : Prop where
  keeps : ∀ r, Safe r → Keeps r (f r).2
  answer : ∀ r, Safe r → g r.view = some ((f r).1, (f r).2.view)

section
variable {α β : Type} {f : BufferRead α} {g : Deserialize α}

theorem Refines.pure (a : α) : Refines (Pure.pure a : BufferRead α) (Pure.pure a) :=
  ⟨fun _ h => ⟨h, rfl, rfl⟩, fun _ _ => rfl⟩

theorem Refines.bind {f' : α → BufferRead β} {g' : α → Deserialize β} (h : Refines f g)
    (h' : ∀ a, Refines (f' a) (g' a)) : Refines (f >>= f') (g >>= g') where
  keeps r hr := (h.keeps r hr).trans ((h' (f r).1).keeps (f r).2 (h.keeps r hr).safe)
  answer r hr := Codec.bind_eq_some.mpr ⟨_, _, h.answer r hr, (h' (f r).1).answer (f r).2 (h.keeps r hr).safe⟩

theorem Refines.map (k : α → β) (h : Refines f g) : Refines (k <$> f) (k <$> g) := by
  have := h.bind fun a => Refines.pure (k a)
  exact this

end

/-! ## Lengths -/

theorem toNat_bytesRemaining {r : BufferReader} (hr : Safe r) :
    r.bytesRemaining.toNat = r.size.toNat - r.position.toNat :=
  BitVec.toNat_sub_of_le (BitVec.le_def.mpr hr.position)

theorem length_remaining (r : BufferReader) : r.view.remaining.length = r.size.toNat - r.position.toNat := by
  simp [view, MessageDeserializer.remaining]

/-- Bytes of the memory within the buffer are bytes of the list. -/
theorem take_drop_remaining (r : BufferReader) {offset n : Nat} (h : r.position.toNat + offset + n ≤ r.size.toNat) :
    (r.view.remaining.drop offset).take n = (List.range n).map fun i => r.data (r.position.toNat + offset + i) := by
  apply List.ext_getElem
  · simp [view, MessageDeserializer.remaining]
    omega
  · intro i h₁ h₂
    simp [view, MessageDeserializer.remaining]

/-! ## One step over memory -/

section
variable {α β : Type}

theorem bind_apply (f : BufferRead α) (g : α → BufferRead β) (r : BufferReader) : (f >>= g) r = g (f r).1 (f r).2 := rfl

theorem pure_apply (a : α) (r : BufferReader) : (pure a : BufferRead α) r = (a, r) := rfl

theorem hasError_apply (r : BufferReader) : hasError r = (r.error, r) := rfl

theorem get_apply (r : BufferReader) : (get : BufferRead BufferReader) r = (r, r) := rfl

end

theorem fst_bytesAt (r : BufferReader) {offset n : Nat} (h : r.position.toNat + offset + n ≤ r.size.toNat) :
    (bytesAt offset n r).1 = (r.view.remaining.drop offset).take n := (take_drop_remaining r h).symm

theorem safe_bytesAt {r : BufferReader} (hr : Safe r) {offset n : Nat}
    (h : r.position.toNat + offset + n ≤ r.size.toNat) : Safe (bytesAt offset n r).2 where
  position := hr.position
  touched i hi := by
    rcases List.mem_append.mp hi with hi | hi
    · exact hr.touched i hi
    · obtain ⟨j, hj, rfl⟩ := List.mem_map.mp hi
      have hj := List.mem_range.mp hj
      change r.position.toNat + offset + j < r.size.toNat
      omega

theorem safe_fail {r : BufferReader} (hr : Safe r) : Safe (fail r).2 := ⟨hr.position, hr.touched⟩

/-- The position does not wrap. -/
theorem toNat_position_add {r : BufferReader} {n : BitVec 64} (h : r.position.toNat + n.toNat ≤ r.size.toNat) :
    (r.position + n).toNat = r.position.toNat + n.toNat := by
  have := r.size.isLt
  rw [BitVec.toNat_add, Nat.mod_eq_of_lt (by omega)]

theorem safe_advance {r : BufferReader} (hr : Safe r) {n : BitVec 64} (h : r.position.toNat + n.toNat ≤ r.size.toNat) :
    Safe (advance n r).2 where
  position := by
    change (r.position + n).toNat ≤ r.size.toNat
    rwa [toNat_position_add h]
  touched := hr.touched

theorem view_advance {r : BufferReader} {n : BitVec 64} (h : r.position.toNat + n.toNat ≤ r.size.toNat) :
    (advance n r).2.view = r.view.advance n.toNat := by
  have := toNat_position_add h
  simp only [advance, view, MessageDeserializer.advance, this]

theorem bytesRemaining_lt {r : BufferReader} (hr : Safe r) (n : BitVec 64) :
    r.bytesRemaining < n ↔ r.size.toNat - r.position.toNat < n.toNat := by
  rw [BitVec.lt_def, toNat_bytesRemaining hr]

/-! ## Reads of fixed length -/

/-- A failed check sets the error; a read that finds one set goes no further. -/
theorem readFixed_apply {α : Type} (n : BitVec 64) (dflt : α) (read : List UInt8 → α) (r : BufferReader) :
    readFixed n dflt read r =
      if r.bytesRemaining < n then (dflt, (fail r).2)
      else if r.error then (dflt, r)
      else (read (bytesAt 0 n.toNat r).1, (advance n (bytesAt 0 n.toNat r).2).2) := by
  unfold readFixed
  rw [bind_apply, bind_apply, hasError_apply]
  by_cases h : r.bytesRemaining < n
  · have hc : (checkAvailable n r).2 = (fail r).2 := if_pos h
    rw [hc, if_pos h]
    rfl
  · have hc : (checkAvailable n r).2 = r := if_neg h
    rw [hc, if_neg h]
    by_cases he : r.error = true
    · rw [if_pos he, if_pos he, pure_apply]
    · rw [if_neg he, if_neg he]
      rfl

theorem refines_readFixed {α : Type} (n : BitVec 64) (dflt : α) (read : List UInt8 → α) :
    Refines (readFixed n dflt read) (MessageDeserializer.readFixed n.toNat dflt read) where
  keeps r hr := by
    rw [readFixed_apply]
    split
    · exact ⟨safe_fail hr, rfl, rfl⟩
    · rename_i hroom
      rw [bytesRemaining_lt hr] at hroom
      have := hr.position
      split
      · exact ⟨hr, rfl, rfl⟩
      · have hlook : Safe (bytesAt 0 n.toNat r).2 := safe_bytesAt hr (by omega)
        exact ⟨safe_advance hlook (by change r.position.toNat + _ ≤ r.size.toNat; omega), rfl, rfl⟩
  answer r hr := by
    have hlen := length_remaining r
    have hpos := hr.position
    rw [readFixed_apply]
    unfold MessageDeserializer.readFixed MessageDeserializer.checkAvailable
    rw [MessageDeserializer.bytesRemaining_eq, hlen]
    by_cases hroom : r.bytesRemaining < n
    · rw [if_pos hroom, if_pos ((bytesRemaining_lt hr n).mp hroom)]
      rfl
    · have hroom' : ¬ r.size.toNat - r.position.toNat < n.toNat := fun h => hroom ((bytesRemaining_lt hr n).mpr h)
      rw [if_neg hroom, if_neg hroom']
      dsimp only
      change (if r.error = true then _ else _) = _
      by_cases he : r.error = true
      · rw [if_pos he, if_pos he]
      · rw [if_neg he, if_neg he, fst_bytesAt r (by omega), List.drop_zero,
          view_advance (by change r.position.toNat + _ ≤ r.size.toNat; omega)]
        rfl

/-! ## Variable-length integers -/

/-- A step that looks at bytes and moves nothing. -/
structure Looks (r r' : BufferReader) : Prop extends Keeps r r' where
  position : r'.position = r.position
  error : r'.error = r.error

theorem Looks.refl {r : BufferReader} (hr : Safe r) : Looks r r := ⟨⟨hr, rfl, rfl⟩, rfl, rfl⟩

theorem Looks.trans {r₁ r₂ r₃ : BufferReader} (h : Looks r₁ r₂) (h' : Looks r₂ r₃) : Looks r₁ r₃ :=
  ⟨h.toKeeps.trans h'.toKeeps, h'.position.trans h.position, h'.error.trans h.error⟩

theorem Looks.view_eq {r r' : BufferReader} (h : Looks r r') : r'.view = r.view := by
  unfold view
  rw [h.data, h.size, h.position, h.error]

theorem looks_bytesAt {r : BufferReader} (hr : Safe r) {offset n : Nat}
    (h : r.position.toNat + offset + n ≤ r.size.toNat) : Looks r (bytesAt offset n r).2 :=
  ⟨⟨safe_bytesAt hr h, rfl, rfl⟩, rfl, rfl⟩

theorem decodeWide_apply (n least : Nat) (available : BitVec 64) (r : BufferReader) :
    decodeWide n least available r =
      if available.toNat < n + 1 then (none, r)
      else (if (readLE 64 (bytesAt 1 n r).1).toNat < least then none
        else some (readLE 64 (bytesAt 1 n r).1, BitVec.ofNat 64 (n + 1)), (bytesAt 1 n r).2) := by
  unfold decodeWide
  by_cases h : available.toNat < n + 1
  · rw [if_pos h, if_pos h, pure_apply]
  · rw [if_neg h, if_neg h, bind_apply]
    split <;> rw [pure_apply]

theorem decodeWide_view {r : BufferReader} (hr : Safe r) (n least : Nat) (hn : n < 2 ^ 32) :
    Looks r (decodeWide n least r.bytesRemaining r).2 ∧
      (decodeWide n least r.bytesRemaining r).1.map (fun vc => (vc.1, vc.2.toNat)) =
        VarInt.decodeWide n least r.view.remaining := by
  have hpos := hr.position
  rw [decodeWide_apply, toNat_bytesRemaining hr]
  unfold VarInt.decodeWide
  rw [length_remaining]
  by_cases hroom : r.size.toNat - r.position.toNat < n + 1
  · rw [if_pos hroom, if_pos hroom]
    exact ⟨Looks.refl hr, rfl⟩
  · rw [if_neg hroom, if_neg hroom]
    refine ⟨looks_bytesAt hr (by omega), ?_⟩
    rw [fst_bytesAt r (by omega)]
    dsimp only
    split
    · rfl
    · have hn' : (BitVec.ofNat 64 (n + 1)).toNat = n + 1 := by
        rw [BitVec.toNat_ofNat, Nat.mod_eq_of_lt (by omega)]
      rw [Option.map_some, hn']

theorem decodeVarint_apply (available : BitVec 64) (r : BufferReader) :
    decodeVarint available r =
      if available.toNat < 1 then (none, r)
      else if (bytesAt 0 1 r).1.headD 0 < 0xfd then
        (some (BitVec.ofNat 64 ((bytesAt 0 1 r).1.headD 0).toNat, 1), (bytesAt 0 1 r).2)
      else if (bytesAt 0 1 r).1.headD 0 = 0xfd then decodeWide 2 0xfd available (bytesAt 0 1 r).2
      else if (bytesAt 0 1 r).1.headD 0 = 0xfe then decodeWide 4 0x10000 available (bytesAt 0 1 r).2
      else decodeWide 8 0x100000000 available (bytesAt 0 1 r).2 := by
  unfold decodeVarint
  by_cases h : available.toNat < 1
  · rw [if_pos h, if_pos h, pure_apply]
  · rw [if_neg h, if_neg h, bind_apply]
    split
    · rw [pure_apply]
    · split
      · rfl
      · split <;> rfl

theorem decodeVarint_view {r : BufferReader} (hr : Safe r) :
    Looks r (decodeVarint r.bytesRemaining r).2 ∧
      (decodeVarint r.bytesRemaining r).1.map (fun vc => (vc.1, vc.2.toNat)) = VarInt.decode r.view.remaining := by
  have hlen := length_remaining r
  have hpos := hr.position
  rw [decodeVarint_apply, toNat_bytesRemaining hr]
  by_cases hempty : r.size.toNat - r.position.toNat < 1
  · rw [if_pos hempty, List.eq_nil_of_length_eq_zero (show r.view.remaining.length = 0 by omega)]
    exact ⟨Looks.refl hr, rfl⟩
  rw [if_neg hempty, fst_bytesAt r (by omega), List.drop_zero]
  have hlook : Looks r (bytesAt 0 1 r).2 := looks_bytesAt hr (by omega)
  have hwide : ∀ n least, n < 2 ^ 32 → Looks r (decodeWide n least r.bytesRemaining (bytesAt 0 1 r).2).2 ∧
      (decodeWide n least r.bytesRemaining (bytesAt 0 1 r).2).1.map (fun vc => (vc.1, vc.2.toNat)) =
        VarInt.decodeWide n least r.view.remaining := by
    intro n least hn
    obtain ⟨hl, hv⟩ := decodeWide_view hlook.safe n least hn
    exact ⟨hlook.trans hl, hv⟩
  cases hrest : r.view.remaining with
  | nil =>
    rw [hrest] at hlen
    simp only [List.length_nil] at hlen
    omega
  | cons first rest =>
    rw [hrest] at hwide
    rw [VarInt.decode_cons]
    have hhead : ((first :: rest).take 1).headD 0 = first := rfl
    rw [hhead]
    by_cases hsmall : first < 0xfd
    · rw [if_pos hsmall, if_pos hsmall]
      exact ⟨hlook, rfl⟩
    rw [if_neg hsmall, if_neg hsmall]
    by_cases h2 : first = 0xfd
    · rw [if_pos h2, if_pos h2]
      exact hwide 2 0xfd (by decide)
    rw [if_neg h2, if_neg h2]
    by_cases h4 : first = 0xfe
    · rw [if_pos h4, if_pos h4]
      exact hwide 4 0x10000 (by decide)
    · rw [if_neg h4, if_neg h4]
      exact hwide 8 0x100000000 (by decide)

theorem readVarint_apply (r : BufferReader) :
    readVarint r =
      if r.bytesRemaining < 1 then (0, (fail r).2)
      else if r.error then (0, r)
      else match decodeVarint r.bytesRemaining r with
        | (none, s) => (0, (fail s).2)
        | (some (value, consumed), s) => if MAX_SIZE < value.toNat then (0, (fail s).2) else (value, (advance consumed s).2) := by
  unfold readVarint
  rw [bind_apply, bind_apply, hasError_apply]
  by_cases h : r.bytesRemaining < 1
  · have hc : (checkAvailable 1 r).2 = (fail r).2 := if_pos h
    rw [hc, if_pos h]
    rfl
  · have hc : (checkAvailable 1 r).2 = r := if_neg h
    rw [hc, if_neg h]
    by_cases he : r.error = true
    · rw [if_pos he, if_pos he, pure_apply]
    · rw [if_neg he, if_neg he, bind_apply, get_apply, bind_apply]
      obtain ⟨_ | ⟨value, consumed⟩, s⟩ := decodeVarint r.bytesRemaining r
      · rfl
      · dsimp only
        split <;> rfl

theorem refines_readVarint : Refines readVarint MessageDeserializer.readVarint := by
  have hstep : ∀ r, Safe r → Keeps r (readVarint r).2 ∧
      MessageDeserializer.readVarint r.view = some ((readVarint r).1, (readVarint r).2.view) := by
    intro r hr
    have hlen := length_remaining r
    have hpos := hr.position
    rw [readVarint_apply]
    unfold MessageDeserializer.readVarint MessageDeserializer.checkAvailable
    rw [MessageDeserializer.bytesRemaining_eq, hlen]
    have hiff : r.bytesRemaining < 1 ↔ r.size.toNat - r.position.toNat < 1 := bytesRemaining_lt hr 1
    by_cases hroom : r.bytesRemaining < 1
    · rw [if_pos hroom, if_pos (hiff.mp hroom)]
      exact ⟨⟨safe_fail hr, rfl, rfl⟩, rfl⟩
    rw [if_neg hroom, if_neg (fun h => hroom (hiff.mpr h))]
    dsimp only
    change _ ∧ (if r.error = true then _ else _) = _
    by_cases he : r.error = true
    · rw [if_pos he, if_pos he]
      exact ⟨⟨hr, rfl, rfl⟩, rfl⟩
    rw [if_neg he, if_neg he]
    obtain ⟨hlook, hview⟩ := decodeVarint_view hr
    have hsound := @VarInt.decode_sound r.view.remaining
    rw [← hview] at hsound ⊢
    generalize decodeVarint r.bytesRemaining r = answer at hlook hsound
    obtain ⟨_ | ⟨value, consumed⟩, s⟩ := answer
    · refine ⟨⟨safe_fail hlook.safe, hlook.data, hlook.size⟩, ?_⟩
      change some (0, r.view.fail) = some (0, s.view.fail)
      rw [hlook.view_eq]
    · obtain ⟨hfit, -⟩ : consumed.toNat ≤ r.view.remaining.length ∧ _ := hsound rfl
      have hfit' : s.position.toNat + consumed.toNat ≤ s.size.toNat := by
        rw [hlook.position, hlook.size]
        omega
      dsimp only [Option.map_some]
      by_cases hmax : MAX_SIZE < value.toNat
      · rw [if_pos hmax, if_pos hmax, ← hlook.view_eq]
        exact ⟨⟨safe_fail hlook.safe, hlook.data, hlook.size⟩, rfl⟩
      · rw [if_neg hmax, if_neg hmax, view_advance hfit', hlook.view_eq]
        exact ⟨⟨safe_advance hlook.safe hfit', hlook.data, hlook.size⟩, rfl⟩
  exact ⟨fun r hr => (hstep r hr).1, fun r hr => (hstep r hr).2⟩

theorem readChars_apply (maxLength len : BitVec 64) (r : BufferReader) :
    readChars maxLength len r =
      if r.error || decide (maxLength < len) || decide (r.bytesRemaining < len) then ([], (fail r).2)
      else ((bytesAt 0 len.toNat r).1, (advance len (bytesAt 0 len.toNat r).2).2) := by
  unfold readChars
  rw [bind_apply, hasError_apply, bind_apply, get_apply]
  dsimp only
  split <;> rfl

theorem refines_readString (maxLength : BitVec 64) :
    Refines (readString maxLength) (MessageDeserializer.readString maxLength.toNat) := by
  refine refines_readVarint.bind fun len => ?_
  have hiff : ∀ r, Safe r → (r.error || decide (maxLength < len) || decide (r.bytesRemaining < len)) =
      (r.view.error || decide (maxLength.toNat < len.toNat) || decide (r.view.bytesRemaining < len.toNat)) := by
    intro r hr
    rw [MessageDeserializer.bytesRemaining_eq, length_remaining, decide_eq_decide.mpr BitVec.lt_def,
      decide_eq_decide.mpr (bytesRemaining_lt hr len)]
    rfl
  have hroom : ∀ r, Safe r → (r.error || decide (maxLength < len) || decide (r.bytesRemaining < len)) = false →
      r.position.toNat + 0 + len.toNat ≤ r.size.toNat := by
    intro r hr h
    have hpos := hr.position
    simp only [Bool.or_eq_false_iff, decide_eq_false_iff_not, bytesRemaining_lt hr] at h
    omega
  constructor
  · intro r hr
    rw [readChars_apply]
    split
    · exact ⟨safe_fail hr, rfl, rfl⟩
    · rename_i hok
      have hfit := hroom r hr (by simpa using hok)
      exact ⟨safe_advance (safe_bytesAt hr hfit) hfit, rfl, rfl⟩
  · intro r hr
    rw [readChars_apply, hiff r hr]
    split
    · rfl
    · rename_i hok
      have hfit := hroom r hr (by rw [hiff r hr]; simpa using hok)
      have hadvance : (advance len (bytesAt 0 len.toNat r).2).2.view = r.view.advance len.toNat := view_advance hfit
      rw [fst_bytesAt r hfit, List.drop_zero]
      dsimp only
      rw [hadvance]

/-! ## Records -/

theorem refines_readNetworkAddress :
    Refines (readNetworkAddress false) MessageDeserializer.readNetworkAddress := by
  refine (refines_readFixed 8 0 readLE64).bind fun services => ?_
  refine (refines_readFixed 16 0 (readBE 128)).bind fun ip => ?_
  exact (refines_readFixed 2 0 readBE16).bind fun port => Refines.pure _

theorem refines_readTimestampedAddress :
    Refines readTimestampedAddress MessageDeserializer.readTimestampedAddress := by
  refine (refines_readFixed 4 0 readLE32).bind fun timestamp => ?_
  exact refines_readNetworkAddress.bind fun address => Refines.pure _

theorem refines_readInventoryVector :
    Refines readInventoryVector MessageDeserializer.readInventoryVector := by
  refine (refines_readFixed 4 0 readLE32).bind fun type => ?_
  exact (refines_readFixed 32 0 (readBE 256)).bind fun hash => Refines.pure _

/-! ## After an error -/

/-- Once an error is set the read changes nothing. -/
def Sticks {α : Type} (f : BufferRead α) : Prop := ∀ r : BufferReader, r.error = true → (f r).2 = r

section
variable {α β : Type}

theorem Sticks.bind {f : BufferRead α} {g : α → BufferRead β} (h : Sticks f) (h' : ∀ a, Sticks (g a)) :
    Sticks (f >>= g) := by
  intro r hr
  rw [bind_apply, h r hr]
  exact h' _ r hr

theorem sticks_pure (a : α) : Sticks (pure a : BufferRead α) := fun _ _ => rfl

theorem Sticks.map {f : BufferRead α} (k : α → β) (h : Sticks f) : Sticks (k <$> f) := by
  have := h.bind fun a => sticks_pure (k a)
  exact this

theorem fail_of_error {r : BufferReader} (hr : r.error = true) : (fail r).2 = r := by
  obtain ⟨data, size, position, error, touched⟩ := r
  cases hr
  rfl

theorem sticks_readFixed (n : BitVec 64) (dflt : α) (read : List UInt8 → α) : Sticks (readFixed n dflt read) := by
  intro r hr
  rw [readFixed_apply, if_pos hr]
  split
  · exact fail_of_error hr
  · rfl

end

theorem sticks_readVarint : Sticks readVarint := by
  intro r hr
  rw [readVarint_apply, if_pos hr]
  split
  · exact fail_of_error hr
  · rfl

theorem sticks_readString (maxLength : BitVec 64) : Sticks (readString maxLength) := by
  refine sticks_readVarint.bind fun len r hr => ?_
  rw [readChars_apply, if_pos (by rw [hr]; rfl)]
  exact fail_of_error hr

theorem sticks_readNetworkAddress (hasTimestamp : Bool) : Sticks (readNetworkAddress hasTimestamp) := by
  have haddress : Sticks (readNetworkAddress false) := by
    refine (sticks_readFixed 8 0 readLE64).bind fun services => ?_
    refine (sticks_readFixed 16 0 (readBE 128)).bind fun ip => ?_
    exact (sticks_readFixed 2 0 readBE16).bind fun port => sticks_pure _
  cases hasTimestamp with
  | false => exact haddress
  | true => exact (sticks_readFixed 4 0 readLE32).bind fun _ => haddress

theorem sticks_readInventoryVector : Sticks readInventoryVector := by
  refine (sticks_readFixed 4 0 readLE32).bind fun type => ?_
  exact (sticks_readFixed 32 0 (readBE 256)).bind fun hash => sticks_pure _

end BufferReader

/-! ## Calls -/

open BufferReader

namespace ReadCall

/-- The read of the list of bytes that a call stands for. -/
def runList : ReadCall → Deserialize ReadValue
  | uint8 => ReadValue.uint8 <$> MessageDeserializer.readFixed 1 0 (readLE 8)
  | uint16 => ReadValue.uint16 <$> MessageDeserializer.readFixed 2 0 (readLE 16)
  | uint32 => ReadValue.uint32 <$> MessageDeserializer.readUint32
  | uint64 => ReadValue.uint64 <$> MessageDeserializer.readUint64
  | int32 => ReadValue.int32 <$> MessageDeserializer.readInt32
  | int64 => ReadValue.int64 <$> MessageDeserializer.readInt64
  | bool => ReadValue.bool <$> (MessageDeserializer.readFixed 1 0 (readLE 8) >>= fun v => pure (v != 0))
  | varint => ReadValue.varint <$> MessageDeserializer.readVarint
  | string maxLength => ReadValue.string <$> MessageDeserializer.readString maxLength.toNat
  | bytes count => ReadValue.bytes <$> MessageDeserializer.readBytes count.toNat
  | networkAddress false => ReadValue.networkAddress <$> MessageDeserializer.readNetworkAddress
  | networkAddress true => ReadValue.networkAddress <$> (MessageDeserializer.readUint32 >>= fun _ =>
      MessageDeserializer.readNetworkAddress)
  | timestampedAddress => ReadValue.timestampedAddress <$> MessageDeserializer.readTimestampedAddress
  | inventoryVector => ReadValue.inventoryVector <$> MessageDeserializer.readInventoryVector

theorem refines_run : ∀ call : ReadCall, Refines call.run call.runList
  | uint8 => (refines_readFixed 1 0 (readLE 8)).map _
  | uint16 => (refines_readFixed 2 0 (readLE 16)).map _
  | uint32 => (refines_readFixed 4 0 readLE32).map _
  | uint64 => (refines_readFixed 8 0 readLE64).map _
  | int32 => (refines_readFixed 4 0 readLE32).map _
  | int64 => (refines_readFixed 8 0 readLE64).map _
  | bool => ((refines_readFixed 1 0 (readLE 8)).bind fun _ => Refines.pure _).map _
  | varint => refines_readVarint.map _
  | string maxLength => (refines_readString maxLength).map _
  | bytes count => (refines_readFixed count [] id).map _
  | networkAddress false => refines_readNetworkAddress.map _
  | networkAddress true =>
    ((refines_readFixed 4 0 readLE32).bind fun _ => refines_readNetworkAddress).map _
  | timestampedAddress => refines_readTimestampedAddress.map _
  | inventoryVector => refines_readInventoryVector.map _

theorem sticks_run : ∀ call : ReadCall, Sticks call.run
  | uint8 => (sticks_readFixed 1 0 (readLE 8)).map _
  | uint16 => (sticks_readFixed 2 0 (readLE 16)).map _
  | uint32 => (sticks_readFixed 4 0 readLE32).map _
  | uint64 => (sticks_readFixed 8 0 readLE64).map _
  | int32 => (sticks_readFixed 4 0 readLE32).map _
  | int64 => (sticks_readFixed 8 0 readLE64).map _
  | bool => ((sticks_readFixed 1 0 (readLE 8)).bind fun _ => sticks_pure _).map _
  | varint => sticks_readVarint.map _
  | string maxLength => (sticks_readString maxLength).map _
  | bytes count => (sticks_readFixed count [] id).map _
  | networkAddress hasTimestamp => (sticks_readNetworkAddress hasTimestamp).map _
  | timestampedAddress =>
    ((sticks_readFixed 4 0 readLE32).bind fun _ => (sticks_readNetworkAddress false).bind fun _ => sticks_pure _).map _
  | inventoryVector => sticks_readInventoryVector.map _

/-- The bytes a call may consume for its answer: what the serializer writes, for a boolean up to the byte that
stands for true, and after a timestamp that is skipped. -/
def Encodes : ReadCall → ReadValue → List UInt8 → Prop
  | bool, .bool v, chunk => ∃ b : UInt8, chunk = [b] ∧ (v = true ↔ b ≠ 0)
  | networkAddress true, v, chunk => ∃ timestamp : BitVec 32, chunk = writeLE32 timestamp ++ v.write
  | _, v, chunk => chunk = v.write

/-- Without an error at the end there was none before, and what was read is what `Encodes` says. -/
def Sound (call : ReadCall) : Prop := ∀ (d : MessageDeserializer) (v : ReadValue) (d' : MessageDeserializer),
  call.runList d = some (v, d') → d'.error = false →
    d.error = false ∧ ∃ chunk, call.Encodes v chunk ∧ d.remaining = chunk ++ d'.remaining

theorem map_eq_some {α β : Type} {k : α → β} {read : Deserialize α} {d d' : MessageDeserializer} {v : β}
    (h : (k <$> read) d = some (v, d')) : ∃ a, read d = some (a, d') ∧ v = k a := by
  have h : (read >>= fun a => pure (k a)) d = some (v, d') := h
  obtain ⟨a, d1, hread, hpure⟩ := Codec.bind_eq_some.mp h
  cases hpure
  exact ⟨a, hread, rfl⟩

theorem sound_of_reads {α : Type} {call : ReadCall} {k : α → ReadValue} {D : α → Prop} {enc : α → List UInt8}
    {read : Deserialize α} (h : Reads D enc read) (heq : call.runList = k <$> read)
    (henc : ∀ a, D a → call.Encodes (k a) (enc a)) : Sound call := by
  intro d v d' hrun hd'
  rw [heq] at hrun
  obtain ⟨a, hread, rfl⟩ := map_eq_some hrun
  obtain ⟨hd, ha, hrest⟩ := h.sound d a d' hread hd'
  exact ⟨hd, enc a, henc a ha, hrest⟩

theorem reads_readLE {w n : Nat} {dflt : BitVec w} (h : w = 8 * n) :
    Reads (fun _ => True) (writeLE n) (MessageDeserializer.readFixed n dflt (readLE w)) :=
  MessageDeserializer.reads_readFixed (fun v _ => ⟨writeLE_length n v, readLE_writeLE (by omega) v⟩)
    fun _ hl => ⟨trivial, writeLE_readLE (by omega) hl⟩

theorem sound_bool : Sound bool := by
  intro d v d' hrun hd'
  change (ReadValue.bool <$> (MessageDeserializer.readFixed 1 0 (readLE 8) >>= fun v => pure (v != 0))) d = _ at hrun
  obtain ⟨b, hbool, rfl⟩ := map_eq_some hrun
  obtain ⟨v, d1, hread, hpure⟩ := Codec.bind_eq_some.mp hbool
  cases hpure
  obtain ⟨hd, -, hrest⟩ := (reads_readLE (w := 8) (n := 1) rfl).sound d v d' hread hd'
  have hv : (UInt8.ofNat (v.toNat % 256)).toNat = v.toNat := by
    have := v.isLt
    rw [UInt8.toNat_ofNat']
    omega
  refine ⟨hd, writeLE 1 v, ⟨UInt8.ofNat (v.toNat % 256), rfl, ?_⟩, hrest⟩
  rw [bne_iff_ne, ne_eq, ne_eq, ← UInt8.toNat_inj, hv, ← BitVec.toNat_inj]
  rfl

theorem sound_string (maxLength : BitVec 64) : Sound (string maxLength) := by
  intro d v d' hrun hd'
  change (ReadValue.string <$> MessageDeserializer.readString maxLength.toNat) d = _ at hrun
  obtain ⟨s, hread, rfl⟩ := map_eq_some hrun
  obtain ⟨len, d1, hlen, hchars⟩ := Codec.bind_eq_some.mp hread
  split at hchars
  · cases hchars
    cases hd'
  rename_i hok
  cases hchars
  simp only [Bool.or_eq_true, decide_eq_true_eq, not_or, not_lt, Bool.not_eq_true,
    MessageDeserializer.bytesRemaining_eq] at hok
  obtain ⟨⟨hd1, -⟩, hroom⟩ := hok
  obtain ⟨hd, -, hrest⟩ := MessageDeserializer.reads_readVarint.sound d len d1 hlen hd1
  have hlength : (d1.remaining.take len.toNat).length = len.toNat := by simp [hroom]
  refine ⟨hd, writeString (d1.remaining.take len.toNat), rfl, ?_⟩
  have hrest : d.remaining = VarInt.encode len ++ d1.remaining := hrest
  rw [hrest, MessageDeserializer.remaining_advance, writeString, hlength, writeVarint, BitVec.ofNat_toNat,
    BitVec.setWidth_eq, List.append_assoc, List.take_append_drop]

theorem sound_skip : Sound (networkAddress true) := by
  intro d v d' hrun hd'
  change (ReadValue.networkAddress <$> (MessageDeserializer.readUint32 >>= fun _ =>
    MessageDeserializer.readNetworkAddress)) d = _ at hrun
  obtain ⟨addr, hread, rfl⟩ := map_eq_some hrun
  obtain ⟨timestamp, d1, htime, haddr⟩ := Codec.bind_eq_some.mp hread
  obtain ⟨hd1, -, hrest1⟩ := MessageDeserializer.reads_readNetworkAddress.sound d1 addr d' haddr hd'
  obtain ⟨hd, -, hrest⟩ := MessageDeserializer.reads_readUint32.sound d timestamp d1 htime hd1
  refine ⟨hd, _, ⟨timestamp, rfl⟩, ?_⟩
  have hrest : d.remaining = writeLE32 timestamp ++ d1.remaining := hrest
  have hrest1 : d1.remaining = writeNetworkAddress addr ++ d'.remaining := hrest1
  rw [hrest, hrest1, List.append_assoc]
  rfl

theorem sound_run : ∀ call : ReadCall, Sound call
  | uint8 => sound_of_reads (k := ReadValue.uint8) (reads_readLE rfl) rfl fun _ _ => rfl
  | uint16 => sound_of_reads (k := ReadValue.uint16) (reads_readLE rfl) rfl fun _ _ => rfl
  | uint32 => sound_of_reads (k := ReadValue.uint32) MessageDeserializer.reads_readUint32 rfl fun _ _ => rfl
  | uint64 => sound_of_reads (k := ReadValue.uint64) MessageDeserializer.reads_readUint64 rfl fun _ _ => rfl
  | int32 => sound_of_reads (k := ReadValue.int32) MessageDeserializer.reads_readUint32 rfl fun _ _ => rfl
  | int64 => sound_of_reads (k := ReadValue.int64) MessageDeserializer.reads_readUint64 rfl fun _ _ => rfl
  | bool => sound_bool
  | varint => sound_of_reads (k := ReadValue.varint) MessageDeserializer.reads_readVarint rfl fun _ _ => rfl
  | string maxLength => sound_string maxLength
  | bytes count => sound_of_reads (k := ReadValue.bytes) (MessageDeserializer.reads_readBytes count.toNat) rfl fun _ _ => rfl
  | networkAddress false =>
    sound_of_reads (k := ReadValue.networkAddress) MessageDeserializer.reads_readNetworkAddress rfl fun _ _ => rfl
  | networkAddress true => sound_skip
  | timestampedAddress =>
    sound_of_reads (k := ReadValue.timestampedAddress) MessageDeserializer.reads_readTimestampedAddress rfl fun _ _ => rfl
  | inventoryVector =>
    sound_of_reads (k := ReadValue.inventoryVector) MessageDeserializer.reads_readInventoryVector rfl fun _ _ => rfl

end ReadCall

/-! ## Sequences -/

/-- The bytes are those of the answers, one call after another. -/
inductive Consumes : List ReadCall → List ReadValue → List UInt8 → Prop
  | nil : Consumes [] [] []
  | cons {call : ReadCall} {value : ReadValue} {chunk : List UInt8} {calls : List ReadCall}
    {values : List ReadValue} {bytes : List UInt8} : call.Encodes value chunk → Consumes calls values bytes →
      Consumes (call :: calls) (value :: values) (chunk ++ bytes)

theorem sticks_runCalls : ∀ calls : List ReadCall, Sticks (runCalls calls)
  | [] => sticks_pure []
  | call :: calls => call.sticks_run.bind fun _ => (sticks_runCalls calls).bind fun _ => sticks_pure _

theorem runCalls_keeps : ∀ (calls : List ReadCall) (r : BufferReader), Safe r → Keeps r (runCalls calls r).2
  | [], _, hr => ⟨hr, rfl, rfl⟩
  | call :: calls, r, hr => by
    have hcall := call.refines_run.keeps r hr
    exact hcall.trans (runCalls_keeps calls (call.run r).2 hcall.safe)

theorem runCalls_consumes : ∀ (calls : List ReadCall) (r : BufferReader), Safe r →
    (runCalls calls r).2.error = false → r.error = false ∧ ∃ bytes, Consumes calls (runCalls calls r).1 bytes ∧
      r.view.remaining = bytes ++ (runCalls calls r).2.view.remaining
  | [], _, _, he => ⟨he, [], .nil, rfl⟩
  | call :: calls, r, hr, he => by
    have hcall := call.refines_run
    obtain ⟨he', bytes, hbytes, hrest⟩ := runCalls_consumes calls (call.run r).2 (hcall.keeps r hr).safe he
    obtain ⟨he, chunk, hchunk, hrest'⟩ := call.sound_run r.view _ _ (hcall.answer r hr) he'
    refine ⟨he, chunk ++ bytes, .cons hchunk hbytes, ?_⟩
    rw [hrest', hrest, List.append_assoc]
    rfl

theorem safe_start (data : Nat → UInt8) (size : BitVec 64) : Safe { data, size } :=
  ⟨Nat.zero_le _, fun _ hi => absurd hi List.not_mem_nil⟩

/-- The state of the deserializer of a buffer after a sequence of calls, and the answers. -/
def readsFrom (data : Nat → UInt8) (size : BitVec 64) (calls : List ReadCall) : List ReadValue × BufferReader :=
  runCalls calls { data, size }

theorem deserializer_safe (data : Nat → UInt8) (size : BitVec 64) (calls : List ReadCall) :
    (readsFrom data size calls).2.position.toNat ≤ size.toNat ∧
    (∀ i ∈ (readsFrom data size calls).2.touched, i < size.toNat) ∧
    ((readsFrom data size calls).2.error = true →
      ∀ more, (runCalls more (readsFrom data size calls).2).2 = (readsFrom data size calls).2) ∧
    ((readsFrom data size calls).2.error = false → Consumes calls (readsFrom data size calls).1
      ((List.range (readsFrom data size calls).2.position.toNat).map data)) := by
  have hkeeps := runCalls_keeps calls { data, size } (safe_start data size)
  have hsafe := hkeeps.safe
  refine ⟨?_, ?_, fun he more => sticks_runCalls more _ he, fun he => ?_⟩
  · have := hsafe.position
    rwa [hkeeps.size] at this
  · have := hsafe.touched
    rwa [hkeeps.size] at this
  · obtain ⟨-, bytes, hbytes, hrest⟩ := runCalls_consumes calls _ (safe_start data size) he
    have hposition : (readsFrom data size calls).2.position.toNat ≤ size.toNat := by
      have := hsafe.position
      rwa [hkeeps.size] at this
    have hbuffer : (List.range size.toNat).map data =
        bytes ++ ((List.range size.toNat).map data).drop (readsFrom data size calls).2.position.toNat := by
      have hend : (readsFrom data size calls).2.view.remaining =
          ((List.range size.toNat).map data).drop (readsFrom data size calls).2.position.toNat := by
        unfold view MessageDeserializer.remaining
        dsimp only
        rw [show (readsFrom data size calls).2.data = data from hkeeps.data,
          show (readsFrom data size calls).2.size = size from hkeeps.size]
      rw [← hend]
      exact hrest
    have htake : bytes = ((List.range size.toNat).map data).take (readsFrom data size calls).2.position.toNat :=
      List.append_cancel_right (hbuffer.symm.trans (List.take_append_drop _ _).symm)
    rw [← List.map_take, List.take_range, Nat.min_eq_left hposition] at htake
    rw [← htake]
    exact hbytes

/-- Of the 30 bytes that the read of an address with its timestamp consumes, its answer accounts for 26. -/
theorem skipped_timestamp_not_answered :
    (readsFrom (fun _ => 0) 30 [.networkAddress true]).2.error = false ∧
    (readsFrom (fun _ => 0) 30 [.networkAddress true]).2.position = 30 ∧
    (readsFrom (fun _ => 0) 30 [.networkAddress true]).1 = [.networkAddress {}] ∧
    (ReadValue.networkAddress {}).write.length = 26 := by decide +kernel

end UnicityPow
