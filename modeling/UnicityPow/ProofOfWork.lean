import UnicityPow.Validation

/-!
# Proof of work

`CheckProofOfWork` in its three modes. RandomX is a parameter: a hash of the header without its
hash under the key of an epoch, and the commitment of such a header to a hash.
-/

namespace UnicityPow

/-- `hash` is none for an epoch whose VM cannot be obtained. -/
structure RandomX where
  nRandomXEpochDuration : BitVec 32
  hash : BitVec 32 → CBlockHeader → Option Uint256
  commitment : CBlockHeader → Uint256 → Uint256

def getEpoch (nTime nDuration : BitVec 32) : BitVec 32 := nTime / nDuration

/-- The copy that is hashed. -/
def CBlockHeader.withoutHash (header : CBlockHeader) : CBlockHeader := { header with hashRandomX := 0 }

namespace RandomX

variable (rx : RandomX)

def getRandomXCommitment (block : CBlockHeader) (inHash : Option Uint256) : Uint256 :=
  rx.commitment block.withoutHash (inHash.getD block.hashRandomX)

def exceeds (commitment : Uint256) (bnTarget : BaseUint 8) : Bool :=
  0 < (BaseUint.ofArith (uintToArith256 commitment)).compareTo bnTarget

/-- `CheckProofOfWork`: the hash that `outHash` gets on success, none on failure, and an error
where an exception is thrown. -/
def checkProofOfWork (block : CBlockHeader) (nBits : BitVec 32) (mode : POWVerifyMode) (outHash : Bool) :
    Except String (Option Uint256) :=
  let bnTarget := BaseUint.setCompact nBits
  if bnTarget.negative || bnTarget.value.equalTo 0 || bnTarget.overflow then .ok none
  else if !outHash && mode = .MINING then .error "MINING mode requires outHash parameter"
  else if mode ≠ .MINING &&
      (block.hashRandomX = 0 || exceeds (rx.getRandomXCommitment block none) bnTarget.value) then
    .ok none
  else if mode = .COMMITMENT_ONLY then .ok (some block.hashRandomX)
  else
    match rx.hash (getEpoch block.nTime rx.nRandomXEpochDuration) block.withoutHash with
    | none => .error "Could not obtain VM for RandomX"
    | some rxHash =>
      if mode ≠ .MINING then if rxHash ≠ block.hashRandomX then .ok none else .ok (some block.hashRandomX)
      else if exceeds (rx.getRandomXCommitment block (some rxHash)) bnTarget.value then .ok none
      else .ok (some rxHash)

end RandomX

end UnicityPow
