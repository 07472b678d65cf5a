import UnicityPow.ProofOfWork

/-!
# The miner

Templates and the loop of the mining thread. What a round of the loop reads of the world (the
chain, the clock, and what came of its calls) is given with the round.
-/

namespace UnicityPow

structure BlockTemplate where
  header : CBlockHeader
  nBits : BitVec 32
  nHeight : Int
  hashPrevBlock : Uint256
deriving DecidableEq

/-- What `CreateBlockTemplate` reads. -/
structure MinerView where
  blockIndex : BlockMap
  tip : Option BlockPtr
  time : Int
  miningAddress : Uint160 := 0

/-- `CreateBlockTemplate`; none if an assertion of `GetNextWorkRequired` fails. -/
def createBlockTemplate (params : PowParams) (view : MinerView) : Option BlockTemplate :=
  (getNextWorkRequired params view.blockIndex view.tip).map (fun nBits =>
    let hashPrevBlock := view.tip.getD 0
    let nTime : BitVec 32 := BitVec.ofInt 32 view.time
    let nTime := match view.tip.map view.blockIndex.getMedianTimePast with
      | none => nTime
      | some medianTimePast =>
        if (nTime.toNat : Int) ≤ medianTimePast then BitVec.ofInt 32 (medianTimePast + 1) else nTime
    { header := { nVersion := 1, hashPrevBlock, minerAddress := view.miningAddress, nTime, nBits }
      nBits
      nHeight := view.tip.elim 0 (fun p => view.blockIndex.nHeight p + 1)
      hashPrevBlock })

/-! ## The loop -/

/-- The local variables of `MiningWorker`. -/
structure MinerWorker where
  nonce : BitVec 32
  localTemplate : BlockTemplate
  templatePrevHash : Uint256

/-- The calls that matter: a new template, a proof-of-work check, and a block that is handed to
`ProcessNewBlockHeader`. -/
inductive MinerEvent
  | template
  | check (header : CBlockHeader)
  | block (header : CBlockHeader)
deriving DecidableEq

/-- One round of the loop: what is read at its head, the outcome of the proof-of-work check, that
of `ProcessNewBlockHeader`, and what is read after. -/
structure MinerRound where
  stopRequested : Bool := false
  templateInvalidated : Bool := false
  polledTip : Option Uint256
  before : MinerView
  pow : Except String (Option Uint256)
  processed : Bool := true
  targetHeight : Int := -1
  tipHeight : Option Int
  after : MinerView

def MinerRound.shouldRegenerateTemplate (r : MinerRound) (prevHash : Uint256) : Bool :=
  r.templateInvalidated || r.polledTip.any (· != prevHash)

/-- Two hours ahead of the clock, in `uint32_t`. -/
def maxFutureTime (time : Int) : BitVec 32 := BitVec.ofInt 32 time + 2 * 60 * 60

namespace MinerWorker

variable (params : PowParams)

/-- A new template, with the nonce from zero. -/
def create (view : MinerView) : Option MinerWorker :=
  (createBlockTemplate params view).map (fun tmpl => ⟨0, tmpl, tmpl.hashPrevBlock⟩)

/-- The header of the next attempt. -/
def header (w : MinerWorker) : CBlockHeader := { w.localTemplate.header with nNonce := w.nonce }

def withHeader (w : MinerWorker) (header : CBlockHeader) : MinerWorker :=
  { w with localTemplate := { w.localTemplate with header } }

/-- The round from the check on. No worker is left when the loop ends. -/
def attempt (w : MinerWorker) (r : MinerRound) : Option MinerWorker × List MinerEvent :=
  let header := w.header
  let w := w.withHeader header
  match r.pow with
  | .error _ => (none, [.check header])
  | .ok (some rxHash) =>
    let foundHeader := { header with hashRandomX := rxHash }
    -- the nonce stays as it is
    if !r.processed then (some w, [.check header, .block foundHeader])
    else if r.targetHeight ≠ -1 ∧ r.targetHeight ≤ r.tipHeight.getD (-1) then
      (none, [.check header, .block foundHeader])
    else (create params r.after, [.check header, .block foundHeader, .template])
  | .ok none =>
    let w := { w with nonce := w.nonce + 1 }
    if w.nonce ≠ 0 then (some w, [.check header])
    else if header.nTime < maxFutureTime r.after.time then
      (some (w.withHeader { header with nTime := header.nTime + 1 }), [.check header])
    else (create params r.after, [.check header, .template])

def iteration (w : MinerWorker) (r : MinerRound) : Option MinerWorker × List MinerEvent :=
  if r.stopRequested then (none, [])
  else if r.shouldRegenerateTemplate w.templatePrevHash then
    match create params r.before with
    | none => (none, [.template])
    | some w => ((w.attempt params r).1, .template :: (w.attempt params r).2)
  else w.attempt params r

/-- The loop over some rounds. -/
def run : Option MinerWorker → List MinerRound → List MinerEvent
  | none, _ => []
  | some _, [] => []
  | some w, r :: rounds => (w.iteration params r).2 ++ run (w.iteration params r).1 rounds

end MinerWorker

/-- The calls of `MiningWorker`. -/
def miningWorker (params : PowParams) (view : MinerView) (rounds : List MinerRound) : List MinerEvent :=
  .template :: MinerWorker.run params (MinerWorker.create params view) rounds

end UnicityPow
