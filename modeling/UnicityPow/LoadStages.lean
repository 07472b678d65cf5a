import UnicityPow.Runs

/-!
# The stages of a load

The calls on the chainstate manager with what they leave when they fail, and the states in between
that a load goes through: the index is cleared and written again long before the candidates are
cleared.
-/

namespace UnicityPow

/-- `BlockManager::Load` gets as far as `m_block_index.clear()`, if only in its `catch`. -/
def HeaderFile.clearsIndex (genesis : Uint256) : HeaderFile → Bool
  | .missing => false
  | .malformed => true
  | .doc root =>
    match BlockManager.readPreamble root with
    | .error .refused => false
    | .error .threw => true
    | .ok (_, genesisHashStr, _) => Uint256.setHex genesisHashStr == genesis

namespace ChainstateManager

section
variable (getHash : CBlockHeader → Uint256) (params : ConsensusParams)

/-- The states of a load: the index cleared, what `BlockManager::Load` leaves, each round of the
re-validation loop, the candidates cleared, rebuilt, and the tip selected. -/
def loadStages (env : Env) (s : ChainstateManager) (file : HeaderFile) : List ChainstateManager :=
  if file.clearsIndex params.hashGenesisBlock then
    { s with blockIndex := ∅, activeChain := [] } ::
      match s.toBlockManager.load getHash file params.hashGenesisBlock with
      | (bm, false) => [{ s with toBlockManager := bm }]
      | (bm, true) =>
        let s := { s with toBlockManager := bm }
        let revalidated := s.blockIndex.byHeight.foldl (revalidate env) s
        s.blockIndex.byHeight.scanl (revalidate env) s ++
          [{ revalidated with candidates := [], bestHeader := none }, revalidated.rebuildCandidates,
            revalidated.rebuildCandidates.selectTip]
  else [(s.load getHash params env file).1]

/-- A call with what it leaves, also if it fails. -/
def call (s : ChainstateManager) : ChainOp → ChainstateManager
  | .setup genesisHeader => (s.setup getHash genesisHeader).1
  | .load env file => (s.load getHash params env file).1
  | .restart env => (s.restart getHash params env).1
  | op => s.step getHash params op

/-- The states that a call goes through: one for most, which write the height and the work of new
entries only. A restart begins with a new manager. -/
def stages (s : ChainstateManager) : ChainOp → List ChainstateManager
  | .load env file => s.loadStages getHash params env file
  | .restart env => fresh s.testSkipPowChecks :: (fresh s.testSkipPowChecks).loadStages getHash params env s.save
  | op => [s.call getHash params op]

theorem loadStages_getLast (env : Env) (s : ChainstateManager) (file : HeaderFile) :
    (s.loadStages getHash params env file).getLast? = some (s.load getHash params env file).1 := by
  unfold loadStages
  split
  · unfold load
    rcases s.toBlockManager.load getHash file params.hashGenesisBlock with ⟨bm, _ | _⟩
    · rfl
    · dsimp only
      rw [List.getLast?_cons, List.getLast?_append]
      rfl
  · rfl

/-- The last stage is what the call leaves. -/
theorem stages_getLast (s : ChainstateManager) (op : ChainOp) :
    (s.stages getHash params op).getLast? = some (s.call getHash params op) := by
  cases op with
  | load env file => exact loadStages_getLast getHash params env s file
  | restart env =>
    have h := loadStages_getLast getHash params env (fresh s.testSkipPowChecks) s.save
    change (_ :: (fresh s.testSkipPowChecks).loadStages getHash params env s.save).getLast? = _
    rw [List.getLast?_cons, h]
    rfl
  | _ => rfl

end

end ChainstateManager

end UnicityPow
