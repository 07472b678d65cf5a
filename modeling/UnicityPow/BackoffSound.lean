import UnicityPow.AddrSound
import UnicityPow.Run

/-!
# When failures drop an address

`is_terrible` protects an address that was tried within the last minute, but not one tried in the same
second; and the three calls that account for one failed dial do not count it once.
-/

namespace UnicityPow

/-! ## The tests of an entry -/

namespace AddrInfo

/-- The grace period: tried in the last minute, though not in this second. -/
def Graced (info : AddrInfo) (now : BitVec 32) : Prop :=
  0 < info.lastTry ∧ info.lastTry < now ∧ now - info.lastTry < TERRIBLE_GRACE_PERIOD_SEC

/-- Not seen for long, or seen in the future. -/
def Outdated (info : AddrInfo) (now : BitVec 32) : Prop :=
  (now < info.timestamp ∧ TERRIBLE_FUTURE_TIMESTAMP_SEC < info.timestamp - now) ∨
    (0 < info.timestamp ∧ info.timestamp < now ∧ ADDRMAN_HORIZON_DAYS < (now - info.timestamp) / SECONDS_PER_DAY)

/-- Failed too often. -/
def Exhausted (info : AddrInfo) (now : BitVec 32) : Prop :=
  (info.lastSuccess = 0 ∧ ADDRMAN_RETRIES ≤ info.attempts) ∨
    (0 < info.lastSuccess ∧ info.lastSuccess < now ∧ ADDRMAN_MAX_FAILURES ≤ info.attempts ∧
      ADDRMAN_MIN_FAIL_DAYS ≤ (now - info.lastSuccess) / SECONDS_PER_DAY)

instance (info : AddrInfo) (now : BitVec 32) : Decidable (info.Graced now) := inferInstanceAs (Decidable (_ ∧ _ ∧ _))

instance (info : AddrInfo) (now : BitVec 32) : Decidable (info.Outdated now) := inferInstanceAs (Decidable (_ ∨ _))

instance (info : AddrInfo) (now : BitVec 32) : Decidable (info.Exhausted now) := inferInstanceAs (Decidable (_ ∨ _))

theorem isTerrible_iff {info : AddrInfo} {now : BitVec 32} :
    info.isTerrible now = true ↔ ¬ info.Graced now ∧ (info.Outdated now ∨ info.Exhausted now) := by
  unfold isTerrible Graced Outdated Exhausted
  split <;> rename_i hgrace
  · exact ⟨nofun, fun h => absurd hgrace h.1⟩
  split <;> rename_i hfuture
  · exact ⟨fun _ => ⟨hgrace, .inl (.inl hfuture)⟩, fun _ => rfl⟩
  split <;> rename_i hpast
  · exact ⟨fun _ => ⟨hgrace, .inl (.inr hpast)⟩, fun _ => rfl⟩
  split <;> rename_i hnever
  · exact ⟨fun _ => ⟨hgrace, .inr (.inl hnever)⟩, fun _ => rfl⟩
  split <;> rename_i hsince
  · exact ⟨fun _ => ⟨hgrace, .inr (.inr hsince)⟩, fun _ => rfl⟩
  · refine ⟨nofun, ?_⟩
    rintro ⟨-, (h | h) | (h | h)⟩
    · exact absurd h hfuture
    · exact absurd h hpast
    · exact absurd h hnever
    · exact absurd h hsince

/-- What a failure makes of an entry. -/
def countFailure (info : AddrInfo) : AddrInfo := { info with attempts := info.attempts + 1 }

end AddrInfo

namespace AddressManager

variable {s : AddressManager} {key : AddrKey} {info : AddrInfo}

/-! ## The grace period -/

theorem get_failed (now : BitVec 32) {addr : NetworkAddress} (h : s.new[key]? = some info)
    (hkey : addrKey (normalizeAddress addr) = key) :
    (s.failed now addr).new[key]? = if info.countFailure.isTerrible now then none else some info.countFailure := by
  unfold failed
  dsimp only
  rw [hkey, h]
  change (if info.countFailure.isTerrible now = true then _ else _ : AddressManager).new[key]? = _
  split
  · simp
  · exact Std.ExtTreeMap.getElem?_insert_self

/-- Calls about other addresses leave an entry alone. -/
theorem get_failed_other (now : BitVec 32) {addr : NetworkAddress} (h : s.new[key]? = some info)
    (hkey : addrKey (normalizeAddress addr) ≠ key) : (s.failed now addr).new[key]? = some info := by
  unfold failed
  dsimp only
  cases hnew : s.new[addrKey (normalizeAddress addr)]? with
  | some info' =>
    dsimp only
    split
    · rw [Std.ExtTreeMap.getElem?_erase, if_neg (by simpa using hkey), h]
    · rw [Std.ExtTreeMap.getElem?_insert, if_neg (by simpa using hkey), h]
  | none =>
    dsimp only
    cases s.tried[addrKey (normalizeAddress addr)]? with
    | none => exact h
    | some info' =>
      dsimp only
      split
      · rw [Std.ExtTreeMap.getElem?_insert, if_neg (by simpa using hkey), h]
      · exact h

theorem get_cleanupStale (now : BitVec 32) (h : s.new[key]? = some info) :
    (s.cleanupStale now).new[key]? = if info.isStale now || info.isTerrible now then none else some info := by
  unfold cleanupStale
  dsimp only
  split
  · change (s.new.filter _)[key]? = _
    rw [Tally.getElem?_filter, h, Option.filter_some]
    cases info.isStale now || info.isTerrible now <;> rfl
  · rename_i hsize
    have hall := Std.ExtTreeMap.size_filter_eq_size_iff.mp
      (Nat.le_antisymm Std.ExtTreeMap.size_filter_le_size (Nat.not_lt.mp hsize))
    have hmem := mem_of_getElem h
    have hkept := hall key hmem
    rw [Std.ExtTreeMap.getElem_eq_get_getElem?] at hkept
    simp only [h, Option.get_some, Bool.not_eq_true'] at hkept
    rw [hkept]
    exact h

/-- Which entries of the new table survive: the grace period keeps an entry from `failed` unless it was tried in
this very second, and does not keep it from being stale. -/
theorem grace_period_iff (s : AddressManager) (now : BitVec 32) (key : AddrKey) (info : AddrInfo)
    (h : s.new[key]? = some info) :
    (∀ addr, key ∈ (s.failed now addr).new ↔ addrKey (normalizeAddress addr) ≠ key ∨ info.Graced now ∨
      ¬ (info.Outdated now ∨ info.countFailure.Exhausted now)) ∧
    (key ∈ (s.cleanupStale now).new ↔ info.isStale now = false ∧
      (info.Graced now ∨ ¬ (info.Outdated now ∨ info.Exhausted now))) := by
  have hterrible : ∀ i : AddrInfo, i.isTerrible now = false ↔ i.Graced now ∨ ¬ (i.Outdated now ∨ i.Exhausted now) := by
    intro i
    rw [Bool.eq_false_iff, ne_eq, AddrInfo.isTerrible_iff, not_and_or, not_not]
  constructor
  · intro addr
    by_cases hkey : addrKey (normalizeAddress addr) = key
    · have hget := get_failed now h hkey
      have hmem : key ∈ (s.failed now addr).new ↔ info.countFailure.isTerrible now = false := by
        rw [Std.ExtTreeMap.mem_iff_isSome_getElem?, hget]
        cases info.countFailure.isTerrible now <;> simp
      rw [hmem, hterrible]
      exact ⟨.inr, fun h => h.resolve_left (fun hne => hne hkey)⟩
    · exact ⟨fun _ => .inl hkey, fun _ => mem_of_getElem (get_failed_other now h hkey)⟩
  · have hget := get_cleanupStale now h
    rw [← hterrible, Std.ExtTreeMap.mem_iff_isSome_getElem?, hget]
    cases info.isStale now <;> cases info.isTerrible now <;> simp

/-- An address of the tests: 1.2.3.4, port 8333. -/
def dialed : NetworkAddress := { ip := 0xffff01020304, port := 8333 }

/-- Twice dialed in the second in which it was heard of, and once failed. -/
def dialedTwice : AddressManager := [
  .add 1000 dialed 1000, .attempt 1000 dialed true, .failed 1000 dialed, .attempt 1000 dialed true].foldl step {}

/-- Heard of a month ago and dialed a moment ago. -/
def dialedLate : AddressManager := [.add 1000 dialed 1000, .attempt 2593090 dialed true].foldl step {}

theorem grace_period_iff_dialed : addrKey dialed ∉ (dialedTwice.failed 1000 dialed).new := by
  have h := (grace_period_iff dialedTwice 1000 (addrKey dialed)
    { address := dialed, timestamp := 1000, lastTry := 1000, lastCountAttempt := 1000, attempts := 2 }
    (by decide +kernel)).1 dialed
  rw [h]
  decide +kernel

theorem recently_tried_removed :
    (dialedTwice.new[addrKey dialed]?).map AddrInfo.lastTry = some 1000 ∧
      addrKey dialed ∉ (dialedTwice.failed 1000 dialed).new ∧
    (dialedLate.new[addrKey dialed]?).map AddrInfo.lastTry = some 2593090 ∧
      addrKey dialed ∉ (dialedLate.cleanupStale 2593100).new := by
  decide +kernel

/-! ## Dials that fail -/

/-- Where a dial stands: between `Attempt` and its completion, and between the two calls of the completion. -/
inductive DialPhase
  | idle
  | connecting
  | completing
deriving DecidableEq

structure DialRun where
  manager : AddressManager
  phase : DialPhase := .idle
  /-- The dials that have failed so far. -/
  dials : Nat := 0

/-- `Attempt` of `AttemptOutboundConnections`, the two calls of a completion that fails, and a `Good`. -/
inductive DialEvent
  | attempt (now : BitVec 32)
  | onAttempt (now : BitVec 32)
  | failed (now : BitVec 32)
  | good (now : BitVec 32) (other : NetworkAddress)

namespace DialRun

def step (addr : NetworkAddress) (r : DialRun) : DialEvent → DialRun
  | .attempt now => { r with manager := r.manager.attempt now addr true, phase := .connecting }
  | .onAttempt now => { r with manager := r.manager.attempt now addr true, phase := .completing }
  | .failed now => { r with manager := r.manager.failed now addr, phase := .idle, dials := r.dials + 1 }
  | .good now other => { r with manager := r.manager.good now other }

/-- The entry of the dialed address in the new table. -/
def entry (addr : NetworkAddress) (r : DialRun) : Option AddrInfo := r.manager.new[addrKey (normalizeAddress addr)]?

/-- One dial after another to an address in the new table, and a `Good` for another address at any time. -/
def Dials (addr : NetworkAddress) (r : DialRun) : DialEvent → Prop
  | .attempt _ => r.phase = .idle ∧ (r.entry addr).isSome = true
  | .onAttempt _ => r.phase = .connecting
  | .failed _ => r.phase = .completing
  | .good _ other => addrKey (normalizeAddress other) ≠ addrKey (normalizeAddress addr)

/-- No `Good` since the entry's last counted attempt; and a failure finds it in date or in its grace period. -/
def CountsOnce (addr : NetworkAddress) (r : DialRun) : DialEvent → Prop
  | .attempt _ => ∀ info ∈ r.entry addr, r.manager.mLastGood ≤ info.lastCountAttempt
  | .onAttempt _ => ∀ info ∈ r.entry addr, r.manager.mLastGood ≤ info.lastCountAttempt
  | .failed now => ∀ info ∈ r.entry addr, info.Graced now ∨ ¬ info.Outdated now
  | .good _ _ => True

end DialRun

theorem get_attempt (now : BitVec 32) (s : AddressManager) (addr : NetworkAddress) (f : Bool) :
    (s.attempt now addr f).new[addrKey (normalizeAddress addr)]? =
      s.new[addrKey (normalizeAddress addr)]?.map (AddrInfo.attempted now s.mLastGood f) := by
  unfold attempt
  dsimp only
  split
  · exact Std.ExtTreeMap.getElem?_modify_self
  · rename_i hnew
    rw [Std.ExtTreeMap.getElem?_eq_none hnew]
    rfl

theorem get_good_other (now : BitVec 32) {other : NetworkAddress} (hkey : addrKey (normalizeAddress other) ≠ key) :
    (s.good now other).new[key]? = s.new[key]? := by
  unfold good
  dsimp only
  cases s.new[addrKey (normalizeAddress other)]? with
  | some info =>
    dsimp only
    rw [Std.ExtTreeMap.getElem?_erase, if_neg (by simpa using hkey)]
  | none => rfl

/-- An attempt that is not after a newer `Good` only sets the time of the last try. -/
theorem attempted_uncounted {now lastGood : BitVec 32} (h : lastGood ≤ info.lastCountAttempt) :
    AddrInfo.attempted now lastGood true info = { info with lastTry := now } := by
  unfold AddrInfo.attempted
  rw [if_neg (by simpa using h)]

namespace DialRun

/-- The entry has failed once for each dial at most; or it is gone, and had failed often enough for that. -/
inductive Counted (addr : NetworkAddress) (info : AddrInfo) (r : DialRun) : Prop
  | kept (info' : AddrInfo) (entry : r.entry addr = some info') (lastSuccess : info'.lastSuccess = info.lastSuccess)
    (attempts : info'.attempts.toNat ≤ info.attempts.toNat + r.dials)
  | dropped (entry : r.entry addr = none) (phase : r.phase = .idle)
    (attempts : info.lastSuccess = 0 → ADDRMAN_RETRIES.toNat ≤ info.attempts.toNat + r.dials)

theorem Counted.attempt {addr : NetworkAddress} {r : DialRun} (h : Counted addr info r) (now : BitVec 32)
    (hphase : r.phase = .idle → (r.entry addr).isSome = true)
    (hcount : ∀ info ∈ r.entry addr, r.manager.mLastGood ≤ info.lastCountAttempt) (phase : DialPhase) :
    Counted addr info { r with manager := r.manager.attempt now addr true, phase } := by
  cases h with
  | kept info' hentry hsuccess hattempts =>
    refine .kept { info' with lastTry := now } ?_ hsuccess hattempts
    have hget := get_attempt now r.manager addr true
    have hentry : r.manager.new[addrKey (normalizeAddress addr)]? = some info' := hentry
    rw [hentry, Option.map_some, attempted_uncounted (hcount info' hentry)] at hget
    exact hget
  | dropped hentry hidle _ =>
    have := hphase hidle
    rw [hentry] at this
    cases this

theorem Counted.step {addr : NetworkAddress} {r : DialRun} {e : DialEvent} (h : Counted addr info r)
    (hd : Dials addr r e) (hc : CountsOnce addr r e) : Counted addr info (r.step addr e) := by
  cases e with
  | attempt now => exact h.attempt now (fun _ => hd.2) hc .connecting
  | onAttempt now =>
    have hd : r.phase = .connecting := hd
    exact h.attempt now (fun hidle => by rw [hd] at hidle; cases hidle) hc .completing
  | failed now =>
    have hd : r.phase = .completing := hd
    cases h with
    | kept info' hentry hsuccess hattempts =>
      have hentry : r.manager.new[addrKey (normalizeAddress addr)]? = some info' := hentry
      have hget := get_failed now hentry rfl
      have hgrow : info'.countFailure.attempts.toNat ≤ info.attempts.toNat + (r.dials + 1) := by
        have : info'.countFailure.attempts.toNat ≤ info'.attempts.toNat + 1 := by
          change (info'.attempts + 1).toNat ≤ _
          rw [BitVec.toNat_add]
          exact Nat.mod_le _ _
        omega
      by_cases hterrible : info'.countFailure.isTerrible now = true
      · rw [if_pos hterrible] at hget
        refine .dropped hget rfl fun hnever => ?_
        obtain ⟨hgrace, hreason⟩ := AddrInfo.isTerrible_iff.mp hterrible
        have hdate : ¬ info'.Outdated now := (hc info' hentry).resolve_left hgrace
        rcases hreason with hout | ⟨-, hretries⟩ | ⟨hpos, -⟩
        · exact absurd hout hdate
        · exact le_trans (BitVec.le_def.mp hretries) hgrow
        · have hpos : 0 < info'.lastSuccess := hpos
          rw [hsuccess, hnever] at hpos
          exact absurd hpos (by decide)
      · rw [if_neg hterrible] at hget
        exact .kept info'.countFailure hget hsuccess hgrow
    | dropped _ hidle _ =>
      rw [hd] at hidle
      cases hidle
  | good now other =>
    have hget : (r.step addr (.good now other)).entry addr = r.entry addr := get_good_other now hd
    cases h with
    | kept info' hentry hsuccess hattempts => exact .kept info' (hget.trans hentry) hsuccess hattempts
    | dropped hentry hidle hattempts => exact .dropped (hget.trans hentry) hidle hattempts

end DialRun

/-- A dial that fails counts once when `attempt` counts nothing, and then an entry that never succeeded outlives
fewer than `ADDRMAN_RETRIES` failures. -/
theorem failed_dials_count_once {s₀ : AddressManager} {addr : NetworkAddress} {info : AddrInfo} {r : DialRun}
    (h : s₀.new[addrKey (normalizeAddress addr)]? = some info)
    (hr : Run.Reaches (DialRun.step addr) (fun r e => DialRun.Dials addr r e ∧ DialRun.CountsOnce addr r e)
      { manager := s₀ } r) :
    (∀ info' ∈ r.entry addr, info'.attempts.toNat ≤ info.attempts.toNat + r.dials) ∧
    (info.lastSuccess = 0 → info.attempts.toNat + r.dials < ADDRMAN_RETRIES.toNat → (r.entry addr).isSome = true) := by
  have hcounted : DialRun.Counted addr info r :=
    hr.invariant (.kept info h rfl (Nat.le_refl _)) fun r e hinv he => hinv.step he.1 he.2
  cases hcounted with
  | kept info' hentry _ hattempts =>
    rw [hentry]
    refine ⟨fun i hi => ?_, fun _ _ => rfl⟩
    cases hi
    exact hattempts
  | dropped hentry _ hattempts =>
    rw [hentry]
    refine ⟨fun i hi => absurd hi (Option.not_mem_none i), fun hnever hfew => ?_⟩
    have := hattempts hnever
    omega

/-- Heard of, and attempted once. -/
def attemptedOnce : AddressManager := [.add 1000 dialed 1000, .attempt 1000 dialed true].foldl step {}

/-- A dial that fails, second by second. -/
def failedDial (now : BitVec 32) : List DialEvent := [.attempt now, .onAttempt (now + 1), .failed (now + 2)]

theorem reaches_failedDial {addr : NetworkAddress} {ok : DialRun → DialEvent → Prop} {r₀ r : DialRun}
    (hr : Run.Reaches (DialRun.step addr) ok r₀ r) {now : BitVec 32} (hattempt : ok r (.attempt now))
    (hcompletion : ok (r.step addr (.attempt now)) (.onAttempt (now + 1)))
    (hfailed : ok ((r.step addr (.attempt now)).step addr (.onAttempt (now + 1))) (.failed (now + 2))) :
    Run.Reaches (DialRun.step addr) ok r₀ ((failedDial now).foldl (DialRun.step addr) r) :=
  ((hr.next hattempt).next hcompletion).next hfailed

theorem failed_dials_count_once_dialed :
    (((failedDial 1001).foldl (DialRun.step dialed) { manager := attemptedOnce }).entry dialed).isSome = true := by
  have hentry : attemptedOnce.new[addrKey (normalizeAddress dialed)]? = some
      { address := dialed, timestamp := 1000, lastTry := 1000, lastCountAttempt := 1000, attempts := 1 } := by
    decide +kernel
  have hrun : Run.Reaches (DialRun.step dialed)
      (fun r e => DialRun.Dials dialed r e ∧ DialRun.CountsOnce dialed r e) { manager := attemptedOnce }
      ((failedDial 1001).foldl (DialRun.step dialed) { manager := attemptedOnce }) := by
    apply reaches_failedDial .start <;> dsimp only [DialRun.Dials, DialRun.CountsOnce] <;> decide +kernel
  exact (failed_dials_count_once hentry hrun).2 rfl (by decide +kernel)

/-- Heard of, and never attempted. -/
def heardOf : DialRun := { manager := (({} : AddressManager).add 1000 dialed 1000).1 }

/-- From a fresh manager, one failed dial counts twice, and the second drops the address. -/
theorem failed_dial_counts_twice :
    (∃ r, Run.Reaches (DialRun.step dialed) (DialRun.Dials dialed) heardOf r ∧ r.dials = 1 ∧
      (heardOf.entry dialed).map AddrInfo.attempts = some 0 ∧ (r.entry dialed).map AddrInfo.attempts = some 2) ∧
    ∃ r, Run.Reaches (DialRun.step dialed) (DialRun.Dials dialed) heardOf r ∧ r.dials = 2 ∧ r.entry dialed = none := by
  have hfirst : Run.Reaches (DialRun.step dialed) (DialRun.Dials dialed) heardOf
      ((failedDial 1001).foldl (DialRun.step dialed) heardOf) := by
    apply reaches_failedDial .start <;> dsimp only [DialRun.Dials] <;> decide +kernel
  refine ⟨⟨_, hfirst, by decide +kernel⟩, ?_⟩
  -- the second completion falls into one second
  have hattempt := hfirst.next (a := .attempt 1100) (by dsimp only [DialRun.Dials]; decide +kernel)
  have hcompletion := hattempt.next (a := .onAttempt 1101) (by dsimp only [DialRun.Dials]; decide +kernel)
  have hfailed := hcompletion.next (a := .failed 1101) (by dsimp only [DialRun.Dials]; decide +kernel)
  exact ⟨_, hfailed, by decide +kernel⟩

end AddressManager

end UnicityPow
