import UnicityPow.BaseUintSound
import UnicityPow.SaveSound
import UnicityPow.StringParsing

/-!
# The hexadecimal codec

What is written as hexadecimal digits is read back, and a string of digits of the right length is
the text of what is read from it.
-/

namespace UnicityPow

/-! ## Blobs -/

theorem BaseBlob.setHex_getHex {w : Nat} (b : BitVec (8 * w)) : BaseBlob.setHex (8 * w) (BaseBlob.getHex b) = b := by
  have hw : 8 * w / 8 = w := Nat.mul_div_cancel_left w (by decide)
  have hlt : b.toNat < 256 ^ w := by
    have := b.isLt
    rwa [pow_mul] at this
  unfold BaseBlob.setHex BaseBlob.getHex
  rw [String.toList_ofList, setHexChars_getHexChars, hw, Nat.mod_eq_of_lt hlt, BitVec.ofNat_toNat, BitVec.setWidth_eq]

/-! ## A text read and shown again -/

/-- `std::tolower`. -/
def tolower (c : UInt8) : UInt8 := if 65 ≤ c.toNat ∧ c.toNat ≤ 90 then UInt8.ofNat (c.toNat + 32) else c

theorem isxdigit_fin : ∀ n : Fin 256, (isxdigit (UInt8.ofNat n) = true → ∃ d < 16, hexDigit (Char.ofNat n) = some d ∧
    hexChar d = Char.ofNat (tolower (UInt8.ofNat n)).toNat) := by decide +kernel

theorem digit_of_isxdigit {c : UInt8} (h : isxdigit c = true) : ∃ d < 16, hexDigit (Char.ofNat c.toNat) = some d ∧
    hexChar d = Char.ofNat (tolower c).toNat := by
  have hc : UInt8.ofNat c.toNat = c := UInt8.ofNat_toNat
  have := isxdigit_fin (Fin.mk c.toNat c.toNat_lt)
  dsimp only at this
  rw [hc] at this
  exact this h

/-- The digits of a string, as numbers and as they are shown. -/
theorem hexRun_charsOf {str : List UInt8} (h : ∀ c ∈ str, isxdigit c = true) :
    (hexRun (charsOf str)).length = str.length ∧ (∀ d ∈ hexRun (charsOf str), d < 16) ∧
      (hexRun (charsOf str)).map hexChar = charsOf (str.map tolower) := by
  induction str with
  | nil => exact ⟨rfl, by simp [charsOf, hexRun], rfl⟩
  | cons c str ih =>
    obtain ⟨hlen, hlt, hshown⟩ := ih fun d hd => h d (List.mem_cons_of_mem _ hd)
    obtain ⟨d, hd, hdigit, hchar⟩ := digit_of_isxdigit (h c List.mem_cons_self)
    have hrun : hexRun (charsOf (c :: str)) = d :: hexRun (charsOf str) := by
      change hexRun (Char.ofNat c.toNat :: charsOf str) = _
      rw [hexRun, hdigit]
    rw [hrun]
    refine ⟨by rw [List.length_cons, hlen, List.length_cons], ?_, ?_⟩
    · intro e he
      rcases List.mem_cons.mp he with rfl | he
      · exact hd
      · exact hlt e he
    · rw [List.map_cons, hshown, hchar]
      rfl

theorem skip0x_charsOf {str : List UInt8} (h : ∀ c ∈ str, isxdigit c = true) : skip0x (charsOf str) = charsOf str := by
  have hx : ∀ c ∈ charsOf str, c ≠ 'x' ∧ c ≠ 'X' := by
    intro c hc
    obtain ⟨b, hb, rfl⟩ := List.mem_map.mp hc
    obtain ⟨d, hd, hdigit, -⟩ := digit_of_isxdigit (h b hb)
    constructor <;> intro e <;> rw [e] at hdigit <;> cases hdigit
  unfold skip0x
  split
  · rename_i he
    exact absurd rfl (hx 'x' (by rw [he]; simp)).1
  · rename_i he
    exact absurd rfl (hx 'X' (by rw [he]; simp)).2
  · rfl

/-- Pairs of digits, read from the end and shown from the other, are the digits as they were. -/
theorem flatMap_pairDigits : ∀ ds : List Nat, Even ds.length → (∀ d ∈ ds, d < 16) →
    (pairDigits ds.reverse).length = ds.length / 2 ∧ (∀ b ∈ pairDigits ds.reverse, b < 256) ∧
      (pairDigits ds.reverse).reverse.flatMap hexByte = ds.map hexChar
  | [], _, _ => ⟨rfl, by simp [pairDigits], rfl⟩
  | [_], heven, _ => by simp at heven
  | hi :: lo :: ds, heven, hds => by
    have hlen : Even ds.length := by
      simp only [List.length_cons] at heven
      obtain ⟨k, hk⟩ := heven
      exact ⟨k - 1, by omega⟩
    obtain ⟨hcount, hlt, hshown⟩ := flatMap_pairDigits ds hlen fun d hd => hds d (by simp [hd])
    have hhi := hds hi (by simp)
    have hlo := hds lo (by simp)
    have hpairs : pairDigits (hi :: lo :: ds).reverse = pairDigits ds.reverse ++ [lo + 16 * hi] := by
      rw [List.reverse_cons, List.reverse_cons, List.append_assoc]
      exact pairDigits_append_pair _ lo hi (by rwa [List.length_reverse])
    rw [hpairs]
    refine ⟨?_, ?_, ?_⟩
    · rw [List.length_append, hcount]
      simp only [List.length_cons, List.length_nil]
      omega
    · intro b hb
      rcases List.mem_append.mp hb with hb | hb
      · exact hlt b hb
      · obtain rfl := List.mem_singleton.mp hb
        omega
    · rw [List.reverse_append, List.reverse_cons, List.reverse_nil, List.nil_append, List.singleton_append,
        List.flatMap_cons, hshown]
      simp only [hexByte, List.map_cons, show (lo + 16 * hi) / 16 = hi by omega, show (lo + 16 * hi) % 16 = lo by omega]
      rfl

/-- A string of all the digits of a blob is its text but for the case. -/
theorem getHexChars_setHexChars {w : Nat} {str : List UInt8} (hlen : str.length = 2 * w)
    (h : ∀ c ∈ str, isxdigit c = true) :
    setHexChars w (charsOf str) < 256 ^ w ∧
      getHexChars w (setHexChars w (charsOf str)) = charsOf (str.map tolower) := by
  obtain ⟨hrun, hlt, hshown⟩ := hexRun_charsOf h
  obtain ⟨hcount, hbyte, hflat⟩ := flatMap_pairDigits _ (by rw [hrun, hlen]; simp) hlt
  rw [hrun, hlen, Nat.mul_div_cancel_left w (by decide)] at hcount
  have hvalue : setHexChars w (charsOf str) = ofBytes (pairDigits (hexRun (charsOf str)).reverse).reverse := by
    unfold setHexChars
    rw [skip0x_charsOf h, List.take_of_length_le (Nat.le_of_eq hcount)]
    simp only [hcount, Nat.sub_self, List.replicate_zero, List.append_nil]
  have hpairs : ∀ b ∈ (pairDigits (hexRun (charsOf str)).reverse).reverse, b < 256 := fun b hb =>
    hbyte b (List.mem_reverse.mp hb)
  have hlt' := ofBytes_lt _ hpairs
  have hbytes := toBytes_ofBytes _ hpairs
  rw [List.length_reverse, hcount] at hlt' hbytes
  rw [hvalue]
  exact ⟨hlt', by rw [getHexChars, hbytes, hflat, hshown]⟩

theorem safeParseHash_eq_some {str : List UInt8} (hlen : str.length = 64) (h : ∀ c ∈ str, isxdigit c = true) :
    safeParseHash str = some (Uint256.setHex (String.ofList (charsOf str))) := by
  have hvalid : isValidHex str = true := by
    unfold isValidHex
    rw [Bool.and_eq_true, List.all_eq_true]
    refine ⟨?_, h⟩
    cases str with
    | nil => cases hlen
    | cons c str => rfl
  unfold safeParseHash
  rw [if_neg (not_not.mpr hlen), hvalid]
  rfl

theorem isSome_safeParseHash (str : List UInt8) :
    (safeParseHash str).isSome = true ↔ str.length = 64 ∧ ∀ c ∈ str, isxdigit c = true := by
  constructor
  · intro hsome
    unfold safeParseHash at hsome
    split at hsome
    · cases hsome
    · rename_i hlen
      split at hsome
      · cases hsome
      · rename_i hvalid
        simp only [isValidHex, Bool.not_eq_true', Bool.not_eq_false, Bool.and_eq_true, List.all_eq_true] at hvalid
        exact ⟨not_not.mp hlen, hvalid.2⟩
  · rintro ⟨hlen, h⟩
    rw [safeParseHash_eq_some hlen h]
    rfl

theorem getHex_safeParseHash {str : List UInt8} (hlen : str.length = 64) (h : ∀ c ∈ str, isxdigit c = true) :
    ∃ hash, safeParseHash str = some hash ∧ hash.getHex.toList = charsOf (str.map tolower) := by
  refine ⟨_, safeParseHash_eq_some hlen h, ?_⟩
  obtain ⟨hlt, hshown⟩ := getHexChars_setHexChars (w := 32) hlen h
  rw [show (256 : Nat) ^ 32 = 2 ^ 256 by norm_num] at hlt
  unfold Uint256.getHex Uint256.setHex
  rw [String.toList_ofList, String.toList_ofList, BitVec.toNat_ofNat, Nat.mod_eq_of_lt hlt]
  exact hshown

/-! ## Wide integers -/

theorem ofBytes_append (l m : List Nat) : ofBytes (l ++ m) = ofBytes l + 256 ^ l.length * ofBytes m :=
  Nat.ofDigits_append ..

/-- The block at `i` of equal blocks put one after another. -/
theorem take_drop_blocks {α : Type} {f : Nat → List α} {k : Nat} (hf : ∀ i, (f i).length = k) {n i : Nat} (hi : i < n) :
    (((List.range n).flatMap f).drop (i * k)).take k = f i := by
  have hlength : ∀ m, ((List.range m).flatMap f).length = m * k := by
    intro m
    induction m with
    | zero => simp
    | succ m ih =>
      rw [List.range_succ, List.flatMap_append, List.length_append, ih, List.flatMap_singleton, hf, Nat.succ_mul]
  obtain ⟨m, rfl⟩ : ∃ m, n = i + 1 + m := ⟨n - (i + 1), by omega⟩
  rw [List.range_add, List.flatMap_append, List.range_succ, List.flatMap_append, List.append_assoc,
    List.drop_left' (hlength i), List.flatMap_singleton]
  exact List.take_left' (hf i)

namespace BaseUint

open Digits

variable {WIDTH : Nat}

theorem length_blobBytes (x : BaseUint WIDTH) : x.blobBytes.length = 4 * WIDTH := by
  unfold blobBytes
  rw [List.length_flatMap]
  simp [Nat.mul_comm]

theorem blobBytes_lt (x : BaseUint WIDTH) : ∀ b ∈ x.blobBytes, b < 256 := by
  intro b hb
  obtain ⟨i, -, hi⟩ := List.mem_flatMap.mp hb
  exact toBytes_lt hi

/-- The bytes of the digits are those of the number, the least significant first. -/
theorem ofBytes_blobBytes (x : BaseUint WIDTH) : ofBytes x.blobBytes = x.toNat := by
  have h : ∀ n, ofBytes ((List.range n).flatMap fun i => toBytes 4 (x.digit i).toNat) =
      value (2 ^ 32) (fun i => (x.digit i).toNat) n := by
    intro n
    induction n with
    | zero => rfl
    | succ n ih =>
      have hlen : ((List.range n).flatMap fun i => toBytes 4 (x.digit i).toNat).length = 4 * n := by
        rw [List.length_flatMap]
        simp [Nat.mul_comm]
      have hd := x.digit_lt n
      rw [List.range_succ, List.flatMap_append, ofBytes_append, ih, hlen, List.flatMap_singleton, ofBytes_toBytes,
        pow_mul, show (256 : Nat) ^ 4 = 2 ^ 32 by norm_num, Nat.mod_eq_of_lt hd, value_succ, Nat.mul_comm]
  exact h WIDTH

theorem setHex_getHex (x : BaseUint WIDTH) : setHex WIDTH x.getHex = x := by
  have hrev : ∀ b ∈ x.blobBytes.reverse, b < 256 := fun b hb => x.blobBytes_lt b (List.mem_reverse.mp hb)
  have hlt := ofBytes_lt _ hrev
  have hbytes := toBytes_ofBytes _ hrev
  rw [List.length_reverse, length_blobBytes] at hlt hbytes
  have hblob : (toBytes (4 * WIDTH) (setHexChars (4 * WIDTH) x.getHex.toList)).reverse = x.blobBytes := by
    unfold getHex
    rw [String.toList_ofList, setHexChars_getHexChars, Nat.mod_eq_of_lt hlt, hbytes, List.reverse_reverse]
  unfold setHex
  rw [hblob]
  refine ext_digit fun i hi => ?_
  have hblock : (x.blobBytes.drop (i * 4)).take 4 = toBytes 4 (x.digit i).toNat :=
    take_drop_blocks (fun j => toBytes_length 4 (x.digit j).toNat) hi
  have hd := x.digit_lt i
  have hdigit : BitVec.ofNat 32 (ofBytes ((x.blobBytes.drop (i * 4)).take 4)) = x.digit i := by
    rw [hblock, ofBytes_toBytes, show (256 : Nat) ^ 4 = 2 ^ 32 by norm_num, Nat.mod_eq_of_lt hd,
      BitVec.ofNat_toNat, BitVec.setWidth_eq]
  conv_lhs => unfold digit
  simp [hi, hdigit]

/-- Both models of the integer show the same text. -/
theorem getHex_ofNat (x : BaseUint 8) : ArithUint256.getHex (BitVec.ofNat 256 x.toNat) = x.getHex := by
  have hlen := x.length_blobBytes
  have hbytes : toBytes 32 x.toNat = x.blobBytes := by
    have := toBytes_ofBytes _ x.blobBytes_lt
    rwa [hlen, ofBytes_blobBytes] at this
  have hrev := ofBytes_lt x.blobBytes.reverse fun b hb => x.blobBytes_lt b (List.mem_reverse.mp hb)
  rw [List.length_reverse, hlen, show (256 : Nat) ^ (4 * 8) = 2 ^ 256 by norm_num] at hrev
  unfold ArithUint256.getHex Uint256.getHex arithToUint256 byteReverse getHex
  rw [BitVec.toNat_ofNat, BitVec.toNat_ofNat, Nat.mod_eq_of_lt x.toNat_lt, hbytes, Nat.mod_eq_of_lt hrev]

end BaseUint

/-! ## Saved files -/

/-- The hashes and the work in a saved record are read back. -/
theorem saveRecord_read_back (m : BlockMap) (p : BlockPtr) :
    parseHeader (saveRecord m p) = .ok (p, (m[p]?.getD {}).getBlockHeader) ∧
      readMetadata (saveRecord m p) = .ok (toInt32 (m[p]?.getD {}).nHeight, (m[p]?.getD {}).nChainWork) := by
  constructor
  · simp [parseHeader, saveRecord, Json.read, Json.field, List.lookup, Json.getString, Json.getInt, bind,
      Except.bind, pure, Except.pure, CBlockIndex.getBlockHeader]
  · simp [readMetadata, saveRecord, Json.read, Json.field, List.lookup, Json.getString, Json.getInt, bind,
      Except.bind, pure, Except.pure]

theorem hex_codec :
    (∀ b : Uint160, BaseBlob.setHex 160 (BaseBlob.getHex b) = b) ∧
    (∀ b : Uint256, BaseBlob.setHex 256 (BaseBlob.getHex b) = b) ∧
    (∀ b : BitVec 512, BaseBlob.setHex 512 (BaseBlob.getHex b) = b) ∧
    (∀ str : List UInt8, str.length = 64 → (∀ c ∈ str, isxdigit c = true) →
      ∃ hash, safeParseHash str = some hash ∧ hash.getHex.toList = charsOf (str.map tolower)) ∧
    (∀ str : List UInt8, (safeParseHash str).isSome = true ↔ str.length = 64 ∧ ∀ c ∈ str, isxdigit c = true) ∧
    (∀ x : BaseUint 8, BaseUint.setHex 8 x.getHex = x) ∧
    (∀ x : BaseUint 8, ArithUint256.getHex (BitVec.ofNat 256 x.toNat) = x.getHex) ∧
    (∀ x : ArithUint256, ArithUint256.setHex x.getHex = x) ∧
    (∀ (m : BlockMap) (p : BlockPtr),
      parseHeader (saveRecord m p) = .ok (p, (m[p]?.getD {}).getBlockHeader) ∧
        readMetadata (saveRecord m p) = .ok (toInt32 (m[p]?.getD {}).nHeight, (m[p]?.getD {}).nChainWork)) ∧
    (∀ s : ChainstateManager, s.save.Opens s.genesisHash) ∧
    (∀ (s : ChainstateManager) (tip : BlockPtr), s.getTip = some tip → s.save.savedTip = tip) := by
  refine ⟨fun b => BaseBlob.setHex_getHex (w := 20) b, fun b => BaseBlob.setHex_getHex (w := 32) b,
    fun b => BaseBlob.setHex_getHex (w := 64) b, fun str hlen h => getHex_safeParseHash hlen h, isSome_safeParseHash,
    BaseUint.setHex_getHex, BaseUint.getHex_ofNat, ArithUint256.setHex_getHex, saveRecord_read_back, fun s => opens_save rfl,
    fun s tip ht => (savedTip_save ht).2⟩

end UnicityPow
