import UnicityPow.Sha256Rounds

/-!
# The hasher is SHA-256

Whatever is written to a hasher and in whatever pieces, its state is that of the standard after the full
blocks, and its buffer holds the rest.
-/

namespace UnicityPow

open Fips180 (State)
open SHA256

namespace CSHA256

abbrev consumed (m : List UInt8) : State × List UInt8 := Blockwise.consume 64 Fips180.compress Fips180.initial m

/-- The hasher has taken in the message. -/
structure Absorbed (m : List UInt8) (hasher : CSHA256) : Prop where
  s : hasher.s = (consumed m).1
  rest : hasher.buf.take (m.length % 64) = (consumed m).2
  buf_length : hasher.buf.length = 64
  bytes : hasher.bytes = BitVec.ofNat 64 m.length

/-- The hasher is to take in the data that is left of the message; `bufsize` bytes of the buffer are in use. -/
structure Pending (m : List UInt8) (hasher : CSHA256) (data : List UInt8) (bufsize : Nat) : Prop where
  consumed : consumed m = Blockwise.consume 64 Fips180.compress hasher.s (hasher.buf.take bufsize ++ data)
  buf_length : hasher.buf.length = 64
  bytes : hasher.bytes + BitVec.ofNat 64 data.length = BitVec.ofNat 64 m.length
  fits : bufsize = 0 ∨ bufsize + data.length < 64

theorem absorbed_new (buf : Vector UInt8 64) : Absorbed [] { buf := buf.toList } where
  s := by rw [consumed, Blockwise.consume_nil]; rfl
  rest := by rw [consumed, Blockwise.consume_nil]; rfl
  buf_length := buf.length_toList
  bytes := rfl

section
variable {m : List UInt8} {hasher : CSHA256}

theorem Absorbed.bufsize (h : Absorbed m hasher) : (hasher.bytes % 64).toNat = m.length % 64 := by
  rw [h.bytes, BitVec.toNat_umod, BitVec.toNat_ofNat]
  exact Nat.mod_mod_of_dvd _ (by decide)

theorem Absorbed.reset (h : Absorbed m hasher) : Absorbed [] hasher.reset where
  s := by rw [consumed, Blockwise.consume_nil]; rfl
  rest := by rw [consumed, Blockwise.consume_nil]; rfl
  buf_length := h.buf_length
  bytes := rfl

theorem transform_eq {blocks : Nat} {data : List UInt8} (h : 64 * blocks ≤ data.length) (s : State) :
    Blockwise.consume 64 Fips180.compress s data =
      Blockwise.consume 64 Fips180.compress (transform s data blocks) (data.drop (64 * blocks)) := by
  induction blocks generalizing data s with
  | zero => rfl
  | succ blocks ih =>
    rw [Blockwise.consume_of_le _ (by decide) (by omega), transform_succ, ih (by rw [List.length_drop]; omega),
      List.drop_drop, Nat.mul_succ, Nat.add_comm]

theorem memcpy_length {buf data : List UInt8} {offset : Nat} (h : offset + data.length ≤ buf.length) :
    (memcpy buf offset data).length = buf.length := by
  simp [memcpy]
  omega

/-- What is copied behind the bytes in use. -/
theorem take_memcpy {buf data : List UInt8} {offset : Nat} (h : offset + data.length ≤ buf.length) :
    (memcpy buf offset data).take (offset + data.length) = buf.take offset ++ data := by
  rw [memcpy, List.take_left']
  simp
  omega

/-- Where the data fills the buffer, it is processed as a block. -/
theorem Absorbed.fillBuffer (h : Absorbed m hasher) (d : List UInt8) :
    Pending (m ++ d) (hasher.fillBuffer d).1 (hasher.fillBuffer d).2.1 (hasher.fillBuffer d).2.2 := by
  have hlt : m.length % 64 < 64 := Nat.mod_lt _ (by decide)
  have hsplit : CSHA256.consumed (m ++ d) =
      Blockwise.consume 64 Fips180.compress hasher.s (hasher.buf.take (m.length % 64) ++ d) := by
    rw [h.s, h.rest]
    exact Blockwise.consume_append _ (by decide) m d _
  unfold CSHA256.fillBuffer
  rw [h.bufsize]
  dsimp only
  split
  case isTrue hfull =>
    have hd : (d.take (64 - m.length % 64)).length = 64 - m.length % 64 := List.length_take_of_le (by omega)
    have hfit : m.length % 64 + (d.take (64 - m.length % 64)).length ≤ hasher.buf.length := by
      rw [hd, h.buf_length]
      omega
    have hblock : memcpy hasher.buf (m.length % 64) (d.take (64 - m.length % 64)) =
        hasher.buf.take (m.length % 64) ++ d.take (64 - m.length % 64) := by
      refine (List.take_of_length_le ?_).symm.trans (take_memcpy hfit)
      rw [memcpy_length hfit, h.buf_length, hd]
      omega
    constructor
    · have hlen : (hasher.buf.take (m.length % 64) ++ d.take (64 - m.length % 64)).length = 64 := by
        rw [← hblock, memcpy_length hfit, h.buf_length]
      dsimp only
      rw [hsplit, List.take_zero, List.nil_append, transform_one, hblock, List.take_of_length_le hlen.le,
        ← Blockwise.consume_block _ (by decide) hlen, List.append_assoc, List.take_append_drop]
    · exact (memcpy_length hfit).trans h.buf_length
    · dsimp only
      rw [h.bytes, ← BitVec.ofNat_add, ← BitVec.ofNat_add, List.length_drop, List.length_append]
      congr 1
      omega
    · exact Or.inl rfl
  case isFalse hfull =>
    refine ⟨hsplit, h.buf_length, ?_, by dsimp only; omega⟩
    rw [h.bytes, ← BitVec.ofNat_add, List.length_append]

variable {data : List UInt8} {bufsize : Nat}

/-- No full block is left. -/
theorem Pending.processBlocks (h : Pending m hasher data bufsize) :
    Pending m (hasher.processBlocks data).1 (hasher.processBlocks data).2 bufsize ∧
      bufsize + (hasher.processBlocks data).2.length < 64 := by
  unfold CSHA256.processBlocks
  split
  case isTrue hlen =>
    have hzero : bufsize = 0 := h.fits.resolve_right (by omega)
    have hblocks : 64 * (data.length / 64) ≤ data.length := Nat.mul_div_le _ _
    subst hzero
    refine ⟨⟨?_, h.buf_length, ?_, Or.inl rfl⟩, ?_⟩
    · have hall := h.consumed
      rw [List.take_zero, List.nil_append, transform_eq hblocks] at hall
      exact hall
    · dsimp only
      rw [← h.bytes, BitVec.add_assoc, ← BitVec.ofNat_add, List.length_drop]
      congr 2
      omega
    · dsimp only
      rw [List.length_drop]
      omega
  case isFalse hlen =>
    have hfits := h.fits
    exact ⟨h, by dsimp only; omega⟩

theorem Pending.absorbed (h : Pending m hasher data bufsize) (hlt : bufsize + data.length < 64) :
    Absorbed m (if data = [] then hasher else
      { hasher with
        buf := memcpy hasher.buf bufsize data
        bytes := hasher.bytes + BitVec.ofNat 64 data.length }) := by
  have hfit : bufsize + data.length ≤ hasher.buf.length := by
    rw [h.buf_length]
    omega
  have hlen : (hasher.buf.take bufsize ++ data).length = bufsize + data.length := by
    rw [List.length_append, List.length_take_of_le (by omega)]
  have hcons : CSHA256.consumed m = (hasher.s, hasher.buf.take bufsize ++ data) := by
    rw [h.consumed, Blockwise.consume_of_lt _ (by omega)]
  have hmod : m.length % 64 = bufsize + data.length := by
    have hrest := Blockwise.consume_rest_length Fips180.compress (show 0 < 64 by decide) m Fips180.initial
    rw [← hrest, ← hlen]
    exact congrArg (fun r => r.2.length) hcons
  split
  case isTrue hnil =>
    subst hnil
    refine ⟨by rw [hcons], ?_, h.buf_length, ?_⟩
    · rw [hcons, hmod, List.append_nil]
      rfl
    · rw [← h.bytes]
      simp
  case isFalse =>
    refine ⟨by rw [hcons], ?_, (memcpy_length hfit).trans h.buf_length, h.bytes⟩
    rw [hcons, hmod]
    exact take_memcpy hfit

theorem Absorbed.write (h : Absorbed m hasher) (d : List UInt8) : Absorbed (m ++ d) (hasher.write d) := by
  obtain ⟨hblocks, hlt⟩ := (h.fillBuffer d).processBlocks
  exact hblocks.absorbed hlt

theorem take_pad {k : Nat} (h : k ≤ 63) :
    ((0x80 : UInt8) :: List.replicate 63 0).take (1 + k) = 0x80 :: List.replicate k 0 := by
  rw [Nat.add_comm, List.take_succ_cons, List.take_replicate, Nat.min_eq_left h]

theorem Absorbed.padSize (h : Absorbed m hasher) :
    ((119 - hasher.bytes % 64) % 64).toNat = Fips180.fill m.length := by
  have hlt : m.length % 64 < 64 := Nat.mod_lt _ (by decide)
  have hsub : (119 - hasher.bytes % 64).toNat = 119 - m.length % 64 := by
    rw [BitVec.toNat_sub_of_le, h.bufsize]
    · rfl
    · rw [BitVec.le_def, h.bufsize]
      exact hlt.le.trans (by decide)
  rw [BitVec.toNat_umod, hsub, Fips180.fill]
  change (119 - m.length % 64) % 64 = _
  omega

theorem Absorbed.sizedesc (h : Absorbed m hasher) :
    writeBE 8 (hasher.bytes <<< 3) = Fips180.toBytes 8 (8 * m.length) := by
  rw [writeBE_eq, h.bytes, ← Fips180_toBytes_mod 8 (8 * m.length), BitVec.toNat_shiftLeft, BitVec.toNat_ofNat,
    Nat.shiftLeft_eq]
  congr 1
  omega

/-- `Finalize` writes the padding. -/
theorem Absorbed.finalize (h : Absorbed m hasher) :
    Absorbed (m ++ Fips180.padding m.length) hasher.finalize.1 ∧ hasher.finalize.2 = Fips180.sha256 m := by
  have hpad : Absorbed (m ++ Fips180.padding m.length) hasher.finalize.1 := by
    have hfill : Fips180.fill m.length ≤ 63 := by
      unfold Fips180.fill
      omega
    have hwrite := (h.write (0x80 :: List.replicate (Fips180.fill m.length) 0)).write
      (Fips180.toBytes 8 (8 * m.length))
    unfold CSHA256.finalize
    dsimp only
    rw [h.padSize, h.sizedesc, take_pad hfill]
    rwa [List.append_assoc] at hwrite
  refine ⟨hpad, ?_⟩
  rw [Fips180.sha256, ← writeState_eq]
  exact congrArg writeState hpad.s

end

/-! ## Uses of a hasher -/

inductive Use
  | write (data : List UInt8)
  | finalize
  | reset

def use (hasher : CSHA256) : Use → CSHA256
  | .write data => hasher.write data
  | .finalize => hasher.finalize.1
  | .reset => hasher.reset

/-- The message that a hasher has taken in after a use. -/
def Use.after (m : List UInt8) : Use → List UInt8
  | .write data => m ++ data
  | .finalize => m ++ Fips180.padding m.length
  | .reset => []

theorem Absorbed.use {m : List UInt8} {hasher : CSHA256} (h : Absorbed m hasher) (u : Use) :
    Absorbed (u.after m) (hasher.use u) := by
  cases u with
  | write data => exact h.write data
  | finalize => exact h.finalize.1
  | reset => exact h.reset

theorem Absorbed.uses {m : List UInt8} {hasher : CSHA256} (h : Absorbed m hasher) (uses : List Use) :
    Absorbed (uses.foldl Use.after m) (uses.foldl CSHA256.use hasher) := by
  induction uses generalizing m hasher with
  | nil => exact h
  | cons u uses ih => exact ih (h.use u)

end CSHA256

/-! ## Hashes -/

theorem sha256_eq (buf : Vector UInt8 64) (data : List UInt8) : sha256 buf data = Fips180.sha256 data :=
  ((CSHA256.absorbed_new buf).write data).finalize.2

theorem length_sha256 (m : List UInt8) : (Fips180.sha256 m).length = 32 := Fips180.length_digest _

namespace CBlockHeader

def IsCollision (x y : List UInt8) : Prop := x ≠ y ∧ Fips180.sha256 x = Fips180.sha256 y

theorem getHash_eq (buf buf' : Vector UInt8 64) (header : CBlockHeader) :
    header.getHash buf buf' = readBE 256 (Fips180.sha256 (Fips180.sha256 header.serialize)) := by
  unfold getHash
  dsimp only
  rw [sha256_eq, sha256_eq]

theorem serialize_injective : Function.Injective serialize := fun header header' h => by
  have hread := deserialize_serialize header
  rw [h, deserialize_serialize] at hread
  exact (Option.some.inj hread).symm

/-- Two headers have one id only as a collision of one of the two hashes, whatever was in the buffers. -/
theorem getHash_eq_iff (buf₁ buf₁' buf₂ buf₂' : Vector UInt8 64) (header header' : CBlockHeader) :
    header.getHash buf₁ buf₁' = header'.getHash buf₂ buf₂' ↔
      header = header' ∨ IsCollision header.serialize header'.serialize ∨
        IsCollision (Fips180.sha256 header.serialize) (Fips180.sha256 header'.serialize) := by
  rw [getHash_eq, getHash_eq]
  constructor
  · intro h
    have houter : Fips180.sha256 (Fips180.sha256 header.serialize) =
        Fips180.sha256 (Fips180.sha256 header'.serialize) := by
      have hbytes := congrArg (writeBE 32) h
      rwa [writeBE_readBE (by decide) (length_sha256 _), writeBE_readBE (by decide) (length_sha256 _)] at hbytes
    by_cases hinner : Fips180.sha256 header.serialize = Fips180.sha256 header'.serialize
    · by_cases hser : header.serialize = header'.serialize
      · exact Or.inl (serialize_injective hser)
      · exact Or.inr (Or.inl ⟨hser, hinner⟩)
    · exact Or.inr (Or.inr ⟨hinner, houter⟩)
  · rintro (rfl | ⟨-, h⟩ | ⟨-, h⟩)
    · rfl
    · rw [h]
    · rw [h]

end CBlockHeader

end UnicityPow
