import UnicityPow.Fips180
import UnicityPow.Message

/-!
# The hasher

`CSHA256` with the transformations of `sha256.cpp`, whose rounds are written out one after another.
-/

namespace UnicityPow

open Fips180 (Var State)

namespace SHA256

abbrev Word := BitVec 32

/-! ## Rounds -/

def ch (x y z : Word) : Word := z ^^^ (x &&& (y ^^^ z))

def maj (x y z : Word) : Word := (x &&& y) ||| (z &&& (x ||| y))

def Sigma0 (x : Word) : Word := (x >>> 2 ||| x <<< 30) ^^^ (x >>> 13 ||| x <<< 19) ^^^ (x >>> 22 ||| x <<< 10)

def Sigma1 (x : Word) : Word := (x >>> 6 ||| x <<< 26) ^^^ (x >>> 11 ||| x <<< 21) ^^^ (x >>> 25 ||| x <<< 7)

def sigma0 (x : Word) : Word := (x >>> 7 ||| x <<< 25) ^^^ (x >>> 18 ||| x <<< 14) ^^^ (x >>> 3)

def sigma1 (x : Word) : Word := (x >>> 17 ||| x <<< 15) ^^^ (x >>> 19 ||| x <<< 13) ^^^ (x >>> 10)

/-- The local variables: `a` to `h`, and `w0` to `w15`. -/
structure Locals where
  reg : Var → Word
  w : Nat → Word

/-- The last argument of `Round`, which may assign one of `w0` to `w15`. -/
abbrev Arg := Locals → Locals × Word

set_option linter.constructorNameAsVariable false in
def round (a b c d e f g h : Var) (k : Arg) (l : Locals) : Locals :=
  let (l, k) := k l
  let t1 := l.reg h + Sigma1 (l.reg e) + ch (l.reg e) (l.reg f) (l.reg g) + k
  let t2 := Sigma0 (l.reg a) + maj (l.reg a) (l.reg b) (l.reg c)
  { l with reg := Function.update (Function.update l.reg d (l.reg d + t1)) h (t1 + t2) }

def before : Var → Var
  | .a => .h
  | .b => .a
  | .c => .b
  | .d => .c
  | .e => .d
  | .f => .e
  | .g => .f
  | .h => .g

/-- The calls of `Round` one after another: at each the names of the variables have moved on by one, from
`Round(a, b, c, d, e, f, g, h, ..)` to `Round(h, a, b, c, d, e, f, g, ..)`. -/
def rounds : Nat → List Arg → Locals → Locals
  | _, [], l => l
  | i, k :: ks, l =>
    let name := before^[i]
    rounds (i + 1) ks
      (round (name .a) (name .b) (name .c) (name .d) (name .e) (name .f) (name .g) (name .h) k l)

/-! ## The arguments -/

def const (k : Word) : Arg := fun l => (l, k)

def plus (k : Word) (x : Locals → Word) : Arg := fun l => (l, k + x l)

/-- `k + (w = x)`. -/
def assign (k : Word) (w : Nat) (x : Locals → Word) : Arg := fun l =>
  ({ l with w := Function.update l.w w (x l) }, k + x l)

/-- `k + (w += x)`. -/
def addTo (k : Word) (w : Nat) (x : Locals → Word) : Arg := assign k w fun l => l.w w + x l

def readBE32 (ptr : List UInt8) : Word := readBE 32 (ptr.take 4)

def load (chunk : List UInt8) (k : Word) (w offset : Nat) : Arg := assign k w fun _ => readBE32 (chunk.drop offset)

def mix (i j k : Nat) (l : Locals) : Word := sigma1 (l.w i) + l.w j + sigma0 (l.w k)

def rounds0 (chunk : List UInt8) : List Arg :=
  [load chunk 0x428a2f98 0 0, load chunk 0x71374491 1 4, load chunk 0xb5c0fbcf 2 8, load chunk 0xe9b5dba5 3 12,
   load chunk 0x3956c25b 4 16, load chunk 0x59f111f1 5 20, load chunk 0x923f82a4 6 24,
   load chunk 0xab1c5ed5 7 28, load chunk 0xd807aa98 8 32, load chunk 0x12835b01 9 36,
   load chunk 0x243185be 10 40, load chunk 0x550c7dc3 11 44, load chunk 0x72be5d74 12 48,
   load chunk 0x80deb1fe 13 52, load chunk 0x9bdc06a7 14 56, load chunk 0xc19bf174 15 60]

def rounds16 : List Arg :=
  [addTo 0xe49b69c1 0 (mix 14 9 1), addTo 0xefbe4786 1 (mix 15 10 2), addTo 0x0fc19dc6 2 (mix 0 11 3),
   addTo 0x240ca1cc 3 (mix 1 12 4), addTo 0x2de92c6f 4 (mix 2 13 5), addTo 0x4a7484aa 5 (mix 3 14 6),
   addTo 0x5cb0a9dc 6 (mix 4 15 7), addTo 0x76f988da 7 (mix 5 0 8), addTo 0x983e5152 8 (mix 6 1 9),
   addTo 0xa831c66d 9 (mix 7 2 10), addTo 0xb00327c8 10 (mix 8 3 11), addTo 0xbf597fc7 11 (mix 9 4 12),
   addTo 0xc6e00bf3 12 (mix 10 5 13), addTo 0xd5a79147 13 (mix 11 6 14), addTo 0x06ca6351 14 (mix 12 7 15),
   addTo 0x14292967 15 (mix 13 8 0)]

def rounds32 : List Arg :=
  [addTo 0x27b70a85 0 (mix 14 9 1), addTo 0x2e1b2138 1 (mix 15 10 2), addTo 0x4d2c6dfc 2 (mix 0 11 3),
   addTo 0x53380d13 3 (mix 1 12 4), addTo 0x650a7354 4 (mix 2 13 5), addTo 0x766a0abb 5 (mix 3 14 6),
   addTo 0x81c2c92e 6 (mix 4 15 7), addTo 0x92722c85 7 (mix 5 0 8), addTo 0xa2bfe8a1 8 (mix 6 1 9),
   addTo 0xa81a664b 9 (mix 7 2 10), addTo 0xc24b8b70 10 (mix 8 3 11), addTo 0xc76c51a3 11 (mix 9 4 12),
   addTo 0xd192e819 12 (mix 10 5 13), addTo 0xd6990624 13 (mix 11 6 14), addTo 0xf40e3585 14 (mix 12 7 15),
   addTo 0x106aa070 15 (mix 13 8 0)]

/-- The last two do not assign. -/
def rounds48 : List Arg :=
  [addTo 0x19a4c116 0 (mix 14 9 1), addTo 0x1e376c08 1 (mix 15 10 2), addTo 0x2748774c 2 (mix 0 11 3),
   addTo 0x34b0bcb5 3 (mix 1 12 4), addTo 0x391c0cb3 4 (mix 2 13 5), addTo 0x4ed8aa4a 5 (mix 3 14 6),
   addTo 0x5b9cca4f 6 (mix 4 15 7), addTo 0x682e6ff3 7 (mix 5 0 8), addTo 0x748f82ee 8 (mix 6 1 9),
   addTo 0x78a5636f 9 (mix 7 2 10), addTo 0x84c87814 10 (mix 8 3 11), addTo 0x8cc70208 11 (mix 9 4 12),
   addTo 0x90befffa 12 (mix 10 5 13), addTo 0xa4506ceb 13 (mix 11 6 14),
   plus 0xbef9a3f7 fun l => l.w 14 + sigma1 (l.w 12) + l.w 7 + sigma0 (l.w 15),
   plus 0xc67178f2 fun l => l.w 15 + sigma1 (l.w 13) + l.w 8 + sigma0 (l.w 0)]

/-! ## Transformations -/

def initializeState : State where
  a := 0x6a09e667
  b := 0xbb67ae85
  c := 0x3c6ef372
  d := 0xa54ff53a
  e := 0x510e527f
  f := 0x9b05688c
  g := 0x1f83d9ab
  h := 0x5be0cd19

/-- The 64 rounds that both transformations begin with. -/
def allRounds (chunk : List UInt8) : List Arg := rounds0 chunk ++ rounds16 ++ rounds32 ++ rounds48

/-- `Transform`; the state is indexed by the variables that it is copied to. -/
def transform (s : State) (chunk : List UInt8) : Nat → State
  | 0 => s
  | blocks + 1 =>
    let l := rounds 0 (allRounds chunk) { reg := s.get, w := fun _ => 0 }
    transform (s.map fun x y => y + l.reg x) (chunk.drop 64) blocks

/-- The rounds of `Transform 2`: the padding of a message of 64 bytes is in the constants. -/
def secondRounds : List Arg :=
  [0xc28a2f98, 0x71374491, 0xb5c0fbcf, 0xe9b5dba5, 0x3956c25b, 0x59f111f1, 0x923f82a4, 0xab1c5ed5,
   0xd807aa98, 0x12835b01, 0x243185be, 0x550c7dc3, 0x72be5d74, 0x80deb1fe, 0x9bdc06a7, 0xc19bf374,
   0x649b69c1, 0xf0fe4786, 0x0fe1edc6, 0x240cf254, 0x4fe9346f, 0x6cc984be, 0x61b9411e, 0x16f988fa,
   0xf2c65152, 0xa88e5a6d, 0xb019fc65, 0xb9d99ec7, 0x9a1231c3, 0xe70eeaa0, 0xfdb1232b, 0xc7353eb0,
   0x3069bad5, 0xcb976d5f, 0x5a0f118f, 0xdc1eeefd, 0x0a35b689, 0xde0b7a04, 0x58f4ca9d, 0xe15d5b16,
   0x007f3e86, 0x37088980, 0xa507ea32, 0x6fab9537, 0x17406110, 0x0d8cd6f1, 0xcdaa3b6d, 0xc0bbbe37,
   0x83613bda, 0xdb48a363, 0x0b02e931, 0x6fd15ca7, 0x521afaca, 0x31338431, 0x6ed41a95, 0x6d437890,
   0xc39c91f2, 0x9eccabbd, 0xb5c9a0e6, 0x532fb63c, 0xd2c741c6, 0x07237ea3, 0xa4954b68, 0x4c191d76].map const

/-- The first 32 rounds of `Transform 3`, on a hash with its padding: `w8` to `w15` are not in use yet. -/
def thirdRounds : List Arg :=
  [plus 0x428a2f98 fun l => l.w 0,
   plus 0x71374491 fun l => l.w 1,
   plus 0xb5c0fbcf fun l => l.w 2,
   plus 0xe9b5dba5 fun l => l.w 3,
   plus 0x3956c25b fun l => l.w 4,
   plus 0x59f111f1 fun l => l.w 5,
   plus 0x923f82a4 fun l => l.w 6,
   plus 0xab1c5ed5 fun l => l.w 7,
   const 0x5807aa98,
   const 0x12835b01,
   const 0x243185be,
   const 0x550c7dc3,
   const 0x72be5d74,
   const 0x80deb1fe,
   const 0x9bdc06a7,
   const 0xc19bf274,
   addTo 0xe49b69c1 0 fun l => sigma0 (l.w 1),
   addTo 0xefbe4786 1 fun l => 0xa00000 + sigma0 (l.w 2),
   addTo 0x0fc19dc6 2 fun l => sigma1 (l.w 0) + sigma0 (l.w 3),
   addTo 0x240ca1cc 3 fun l => sigma1 (l.w 1) + sigma0 (l.w 4),
   addTo 0x2de92c6f 4 fun l => sigma1 (l.w 2) + sigma0 (l.w 5),
   addTo 0x4a7484aa 5 fun l => sigma1 (l.w 3) + sigma0 (l.w 6),
   addTo 0x5cb0a9dc 6 fun l => sigma1 (l.w 4) + 0x100 + sigma0 (l.w 7),
   addTo 0x76f988da 7 fun l => sigma1 (l.w 5) + l.w 0 + 0x11002000,
   assign 0x983e5152 8 fun l => 0x80000000 + sigma1 (l.w 6) + l.w 1,
   assign 0xa831c66d 9 fun l => sigma1 (l.w 7) + l.w 2,
   assign 0xb00327c8 10 fun l => sigma1 (l.w 8) + l.w 3,
   assign 0xbf597fc7 11 fun l => sigma1 (l.w 9) + l.w 4,
   assign 0xc6e00bf3 12 fun l => sigma1 (l.w 10) + l.w 5,
   assign 0xd5a79147 13 fun l => sigma1 (l.w 11) + l.w 6,
   assign 0x06ca6351 14 fun l => sigma1 (l.w 12) + l.w 7 + 0x400022,
   assign 0x14292967 15 fun l => 0x100 + sigma1 (l.w 13) + l.w 8 + sigma0 (l.w 0)]

def writeState (s : State) : List UInt8 := s.toList.flatMap (writeBE 4)

def transformD64 (chunk : List UInt8) : List UInt8 :=
  let l := rounds 0 (allRounds chunk) { reg := initializeState.get, w := fun _ => 0 }
  let t := initializeState.map fun x y => l.reg x + y
  let l := rounds 0 secondRounds { l with reg := t.get }
  let w : Nat → Word
    | 0 => t.a + l.reg .a
    | 1 => t.b + l.reg .b
    | 2 => t.c + l.reg .c
    | 3 => t.d + l.reg .d
    | 4 => t.e + l.reg .e
    | 5 => t.f + l.reg .f
    | 6 => t.g + l.reg .g
    | 7 => t.h + l.reg .h
    | i => l.w i
  let l := rounds 0 (thirdRounds ++ rounds32 ++ rounds48) { reg := initializeState.get, w := w }
  writeState (initializeState.map fun x y => l.reg x + y)

/-- `TransformD64Wrapper`: the same from a transformation of single blocks. -/
def transformD64Wrapper (tr : State → List UInt8 → Nat → State) (chunk : List UInt8) : List UInt8 :=
  let padding1 : List UInt8 := 0x80 :: List.replicate 61 0 ++ [2, 0]
  let s := tr (tr initializeState chunk 1) padding1 1
  let buffer2 : List UInt8 := writeState s ++ 0x80 :: List.replicate 29 0 ++ [1, 0]
  writeState (tr initializeState buffer2 1)

/-- `SHA256D64` without the transformations of more than one block at a time. -/
def d64 : Nat → List UInt8 → List UInt8
  | 0, _ => []
  | blocks + 1, chunk => transformD64 chunk ++ d64 blocks (chunk.drop 64)

end SHA256

open SHA256

/-! ## The hasher -/

/-- The buffer of a new hasher is not initialised. -/
structure CSHA256 where
  s : State := initializeState
  buf : List UInt8
  bytes : BitVec 64 := 0

namespace CSHA256

def memcpy (buf : List UInt8) (offset : Nat) (data : List UInt8) : List UInt8 :=
  buf.take offset ++ data ++ buf.drop (offset + data.length)

/-- Fill the buffer, and process it: with what is left of the data, and the new `bufsize`. -/
def fillBuffer (hasher : CSHA256) (data : List UInt8) : CSHA256 × List UInt8 × Nat :=
  let bufsize := (hasher.bytes % 64).toNat
  if bufsize ≠ 0 ∧ 64 ≤ bufsize + data.length then
    let buf := memcpy hasher.buf bufsize (data.take (64 - bufsize))
    ({ s := transform hasher.s buf 1, buf := buf, bytes := hasher.bytes + BitVec.ofNat 64 (64 - bufsize) },
      data.drop (64 - bufsize), 0)
  else (hasher, data, bufsize)

def processBlocks (hasher : CSHA256) (data : List UInt8) : CSHA256 × List UInt8 :=
  if 64 ≤ data.length then
    let blocks := data.length / 64
    ({ hasher with
        s := transform hasher.s data blocks
        bytes := hasher.bytes + BitVec.ofNat 64 (64 * blocks) },
      data.drop (64 * blocks))
  else (hasher, data)

def write (hasher : CSHA256) (data : List UInt8) : CSHA256 :=
  let (hasher, data, bufsize) := hasher.fillBuffer data
  let (hasher, data) := hasher.processBlocks data
  if data = [] then hasher
  else
    { hasher with
      buf := memcpy hasher.buf bufsize data
      bytes := hasher.bytes + BitVec.ofNat 64 data.length }

/-- `Finalize`, with the digest. -/
def finalize (hasher : CSHA256) : CSHA256 × List UInt8 :=
  let pad : List UInt8 := 0x80 :: List.replicate 63 0
  let sizedesc := writeBE 8 (hasher.bytes <<< 3)
  let hasher := hasher.write (pad.take (1 + ((119 - hasher.bytes % 64) % 64).toNat))
  let hasher := hasher.write sizedesc
  (hasher, writeState hasher.s)

def reset (hasher : CSHA256) : CSHA256 := { hasher with bytes := 0, s := initializeState }

end CSHA256

/-! ## Hashes -/

/-- What happens to be in the buffer of a new hasher is given to each of these. -/
def sha256 (buf : Vector UInt8 64) (data : List UInt8) : List UInt8 :=
  (CSHA256.write { buf := buf.toList } data).finalize.2

def doubleSha256 (buf buf' : Vector UInt8 64) (data : List UInt8) : List UInt8 := sha256 buf' (sha256 buf data)

def computeChecksum (buf buf' : Vector UInt8 64) (payload : List UInt8) : BitVec 32 :=
  readBE 32 ((doubleSha256 buf buf' payload).take 4)

/-- `CBlockHeader::GetHash`. -/
def CBlockHeader.getHash (buf buf' : Vector UInt8 64) (header : CBlockHeader) : Uint256 :=
  let tmp := sha256 buf header.serialize
  readBE 256 (sha256 buf' tmp)

end UnicityPow
