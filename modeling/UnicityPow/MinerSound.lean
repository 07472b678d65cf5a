import UnicityPow.Miner

/-!
# The work of the miner

The pairs of time and nonce that are tried grow, read as one number, until the next template,
except that a block which is refused leaves the nonce where it is.
-/

namespace UnicityPow

/-! ## Logs of attempts -/

/-- Time and nonce as one number. -/
def attemptKey (nTime nNonce : BitVec 32) : Nat := nTime.toNat * 2 ^ 32 + nNonce.toNat

theorem attemptKey_inj {t t' n n' : BitVec 32} (h : attemptKey t n = attemptKey t' n') : t = t' ∧ n = n' := by
  have := n.isLt
  have := n'.isLt
  unfold attemptKey at h
  exact ⟨BitVec.eq_of_toNat_eq (by omega), BitVec.eq_of_toNat_eq (by omega)⟩

namespace MinerEvent

/-- The pairs submitted to `CheckProofOfWork`. -/
def submissions (events : List MinerEvent) : List (BitVec 32 × BitVec 32) :=
  events.filterMap fun e => match e with
    | .check header => some (header.nTime, header.nNonce)
    | _ => none

@[simp] theorem submissions_nil : submissions [] = [] := rfl

@[simp] theorem submissions_template (l : List MinerEvent) : submissions (.template :: l) = submissions l := rfl

@[simp] theorem submissions_block (header : CBlockHeader) (l : List MinerEvent) :
    submissions (.block header :: l) = submissions l := rfl

@[simp] theorem submissions_check (header : CBlockHeader) (l : List MinerEvent) :
    submissions (.check header :: l) = (header.nTime, header.nNonce) :: submissions l := rfl

theorem submissions_append (l l' : List MinerEvent) : submissions (l ++ l') = submissions l ++ submissions l' :=
  List.filterMap_append

/-- The attempts from `b` on grow until the next template. -/
def Fresh : Nat → List MinerEvent → Prop
  | _, [] => True
  | _, .template :: l => Fresh 0 l
  | b, .check header :: l => b ≤ attemptKey header.nTime header.nNonce ∧
      Fresh (attemptKey header.nTime header.nNonce + 1) l
  | b, .block _ :: l => Fresh b l

theorem Fresh.mono : ∀ {l : List MinerEvent} {b b' : Nat}, Fresh b l → b' ≤ b → Fresh b' l
  | [], _, _, _, _ => trivial
  | .template :: _, _, _, h, _ => h
  | .check _ :: _, _, _, h, hb => ⟨hb.trans h.1, h.2⟩
  | .block _ :: l, _, _, h, hb => Fresh.mono (l := l) h hb

theorem Fresh.drop : ∀ {u l : List MinerEvent} {b : Nat}, Fresh b (u ++ l) → ∃ b', Fresh b' l
  | [], _, b, h => ⟨b, h⟩
  | .template :: u, _, _, h => Fresh.drop (u := u) h
  | .check _ :: u, _, _, h => Fresh.drop (u := u) h.2
  | .block _ :: u, _, _, h => Fresh.drop (u := u) h

/-- Without a template in between, all attempts are above the bound, and different. -/
theorem Fresh.submissions : ∀ {u v : List MinerEvent} {b : Nat}, Fresh b (u ++ v) → .template ∉ u →
    (∀ p ∈ submissions u, b ≤ attemptKey p.1 p.2) ∧ (MinerEvent.submissions u).Nodup
  | [], _, _, _, _ => ⟨fun p hp => absurd hp List.not_mem_nil, List.nodup_nil⟩
  | .template :: _, _, _, _, hno => absurd (List.mem_cons_self) hno
  | .block _ :: u, v, _, h, hno => by
    have ih := Fresh.submissions (u := u) (v := v) h (fun hm => hno (List.mem_cons_of_mem _ hm))
    simpa using ih
  | .check header :: u, v, b, h, hno => by
    obtain ⟨hb, hrest⟩ := h
    obtain ⟨habove, hnodup⟩ := Fresh.submissions (u := u) (v := v) hrest
      (fun hm => hno (List.mem_cons_of_mem _ hm))
    rw [submissions_check]
    refine ⟨fun p hp => ?_, List.nodup_cons.mpr ⟨fun hmem => ?_, hnodup⟩⟩
    · rcases List.mem_cons.mp hp with rfl | hp
      · exact hb
      · have := habove p hp
        omega
    · have := habove _ hmem
      dsimp only at this
      omega

end MinerEvent

/-! ## One round -/

/-- The block found in the round was refused. -/
def MinerRound.refuses (r : MinerRound) : Bool :=
  match r.pow with
  | .ok (some _) => !r.processed
  | _ => false

namespace MinerWorker

open MinerEvent

variable {params : PowParams}

/-- The pair of the next attempt, as one number. -/
def key (w : MinerWorker) : Nat := attemptKey w.localTemplate.header.nTime w.nonce

/-- What the part of a round after the check can be: the last for this template, or one that leaves
the pair as it is when a block was refused, and else moves to the next. -/
structure Attempts (w : MinerWorker) (r : MinerRound) (next : Option MinerWorker) (tail : List MinerEvent) :
    Prop where
  quiet : submissions tail = []
  moves : .template ∈ tail ∨ ∀ w', next = some w' →
    (if r.refuses then w'.localTemplate.header.nTime = w.localTemplate.header.nTime ∧ w'.nonce = w.nonce
      else w'.key = w.key + 1)
  refuses : r.refuses = true → .template ∉ tail

theorem key_succ_nonce {t n : BitVec 32} (h : n + 1 ≠ 0) : attemptKey t (n + 1) = attemptKey t n + 1 := by
  have hlt : n.toNat + 1 < 2 ^ 32 := by
    by_contra hn
    have := n.isLt
    refine h (BitVec.eq_of_toNat_eq ?_)
    rw [BitVec.toNat_add, show (1 : BitVec 32).toNat = 1 from rfl, show n.toNat + 1 = 2 ^ 32 by omega]
    rfl
  unfold attemptKey
  rw [BitVec.toNat_add, show (1 : BitVec 32).toNat = 1 from rfl, Nat.mod_eq_of_lt hlt]
  omega

/-- When the nonce wraps, one more second is the next pair; the time does not wrap below a bound. -/
theorem key_succ_time {t n bound : BitVec 32} (h : n + 1 = 0) (ht : t < bound) :
    attemptKey (t + 1) (n + 1) = attemptKey t n + 1 := by
  have hn : n.toNat = 2 ^ 32 - 1 := by
    have h0 := congrArg BitVec.toNat h
    have := n.isLt
    rw [BitVec.toNat_add, show (1 : BitVec 32).toNat = 1 from rfl, show (0 : BitVec 32).toNat = 0 from rfl] at h0
    omega
  have hlt : t.toNat + 1 < 2 ^ 32 := by
    have := bound.isLt
    rw [BitVec.lt_def] at ht
    omega
  unfold attemptKey
  rw [h, BitVec.toNat_add, show (1 : BitVec 32).toNat = 1 from rfl, show (0 : BitVec 32).toNat = 0 from rfl,
    Nat.mod_eq_of_lt hlt, hn]
  omega

variable (params) in
theorem attempt_spec (w : MinerWorker) (r : MinerRound) :
    ∃ tail, (w.attempt params r).2 = .check w.header :: tail ∧ Attempts w r (w.attempt params r).1 tail := by
  unfold attempt
  dsimp only
  cases hpow : r.pow with
  | error _ =>
    exact ⟨[], rfl, rfl, .inr (fun w' h => by cases h), fun _ => List.not_mem_nil⟩
  | ok outcome =>
    cases outcome with
    | some rxHash =>
      dsimp only
      cases hprocessed : r.processed with
      | false =>
        have hrefuses : r.refuses = true := by simp [MinerRound.refuses, hpow, hprocessed]
        refine ⟨[.block { w.header with hashRandomX := rxHash }], rfl, rfl, .inr (fun w' h => ?_), fun _ => by simp⟩
        cases h
        rw [if_pos hrefuses]
        exact ⟨rfl, rfl⟩
      | true =>
        have hrefuses : r.refuses = false := by simp [MinerRound.refuses, hpow, hprocessed]
        simp only [Bool.not_true, Bool.false_eq_true, if_false]
        split
        · exact ⟨_, rfl, rfl, .inr (fun w' h => by cases h), fun h => by rw [hrefuses] at h; cases h⟩
        · exact ⟨_, rfl, rfl, .inl (by simp), fun h => by rw [hrefuses] at h; cases h⟩
    | none =>
      have hrefuses : r.refuses = false := by simp [MinerRound.refuses, hpow]
      have hno : ∀ tail : List MinerEvent, r.refuses = true → .template ∉ tail := fun tail h => by
        rw [hrefuses] at h; cases h
      dsimp only
      split
      · rename_i hnonce
        refine ⟨[], rfl, rfl, .inr (fun w' h => ?_), hno _⟩
        cases h
        rw [hrefuses, if_neg (by simp)]
        exact key_succ_nonce hnonce
      · rename_i hnonce
        split
        · rename_i htime
          refine ⟨[], rfl, rfl, .inr (fun w' h => ?_), hno _⟩
          cases h
          rw [hrefuses, if_neg (by simp)]
          exact key_succ_time (not_not.mp hnonce) htime
        · exact ⟨[.template], rfl, rfl, .inl (by simp), hno _⟩

variable (params) in
/-- What a round can be. -/
theorem iteration_cases (w : MinerWorker) (r : MinerRound) :
    (r.stopRequested = true ∧ w.iteration params r = (none, [])) ∨
    (r.shouldRegenerateTemplate w.templatePrevHash = true ∧ w.iteration params r = (none, [.template])) ∨
    (r.shouldRegenerateTemplate w.templatePrevHash = true ∧ ∃ w', create params r.before = some w' ∧
      w.iteration params r = ((w'.attempt params r).1, .template :: (w'.attempt params r).2)) ∨
    (r.stopRequested = false ∧ r.shouldRegenerateTemplate w.templatePrevHash = false ∧
      w.iteration params r = w.attempt params r) := by
  unfold iteration
  cases hstop : r.stopRequested with
  | true => exact .inl ⟨rfl, rfl⟩
  | false =>
    cases hnew : r.shouldRegenerateTemplate w.templatePrevHash with
    | true =>
      cases hcreate : create params r.before with
      | none => exact .inr (.inl ⟨rfl, rfl⟩)
      | some w' => exact .inr (.inr (.inl ⟨rfl, w', rfl, rfl⟩))
    | false => exact .inr (.inr (.inr ⟨rfl, rfl, rfl⟩))

/-! ## Runs -/

@[simp] theorem run_none (rounds : List MinerRound) : run params none rounds = [] := by cases rounds <;> rfl

/-- After each round whose block was refused, the worker stops or makes a new template; `refused`
says so of the round before the first. -/
def NoRetry (params : PowParams) : Bool → Option MinerWorker → List MinerRound → Prop
  | _, none, _ => True
  | _, some _, [] => True
  | refused, some w, r :: rounds =>
    (refused = true → r.stopRequested = true ∨ r.shouldRegenerateTemplate w.templatePrevHash = true) ∧
      NoRetry params r.refuses (w.iteration params r).1 rounds

theorem noRetry_none (refused : Bool) (rounds : List MinerRound) : NoRetry params refused none rounds := by
  cases rounds <;> trivial

/-- Where the next attempt of a run may be. -/
def bound (refused : Bool) (w : MinerWorker) : Nat := if refused then w.key + 1 else w.key

theorem fresh_quiet : ∀ {u v : List MinerEvent} {b : Nat}, submissions u = [] →
    (if .template ∈ u then Fresh 0 v else Fresh b v) → Fresh b (u ++ v)
  | [], _, _, _, h => by simpa using h
  | .check _ :: _, _, _, hquiet, _ => by simp at hquiet
  | .block _ :: u, v, b, hquiet, h => fresh_quiet (u := u) (v := v) hquiet (by simpa using h)
  | .template :: u, v, b, hquiet, h => by
    refine fresh_quiet (u := u) (v := v) (b := 0) hquiet ?_
    rw [if_pos List.mem_cons_self] at h
    split <;> exact h

/-- The part of a round from the check on, and the rounds after it. -/
theorem fresh_attempt {w : MinerWorker} {r : MinerRound} {b : Nat} {rest : List MinerEvent} (hb : b ≤ w.key)
    (hnone : (w.attempt params r).1 = none → rest = [])
    (hrest : ∀ w', (w.attempt params r).1 = some w' → Fresh (w'.bound r.refuses) rest) :
    Fresh b ((w.attempt params r).2 ++ rest) := by
  obtain ⟨tail, htail, hquiet, hmoves, -⟩ := w.attempt_spec params r
  rw [htail]
  refine ⟨hb, fresh_quiet hquiet ?_⟩
  cases hnext : (w.attempt params r).1 with
  | none =>
    rw [hnone hnext]
    split <;> trivial
  | some w' =>
    have hfresh := hrest w' hnext
    split
    · exact hfresh.mono (Nat.zero_le _)
    · rename_i hno
      have hmove := (hmoves.resolve_left hno) w' hnext
      refine hfresh.mono ?_
      unfold bound
      split at hmove
      · rename_i hrefuses
        rw [if_pos hrefuses]
        unfold key
        rw [hmove.1, hmove.2]
        exact le_rfl
      · rename_i hrefuses
        rw [if_neg hrefuses, hmove]
        exact le_rfl

theorem run_fresh : ∀ (rounds : List MinerRound) (refused : Bool) (w : MinerWorker),
    NoRetry params refused (some w) rounds → Fresh (w.bound refused) (run params (some w) rounds) := by
  intro rounds
  induction rounds with
  | nil => intro refused w _; trivial
  | cons r rounds ih =>
    rintro refused w ⟨hretry, hrest⟩
    rw [run]
    rcases w.iteration_cases params r with ⟨-, h⟩ | ⟨-, h⟩ | ⟨-, w', -, h⟩ | ⟨hstop, hkeep, h⟩
    · rw [h, run_none]
      trivial
    · rw [h, run_none]
      trivial
    · rw [h] at hrest ⊢
      refine fresh_attempt (w := w') (Nat.zero_le _) (fun hnone => by rw [hnone, run_none]) (fun w'' hw'' => ?_)
      rw [hw''] at hrest ⊢
      exact ih r.refuses w'' hrest
    · have hrefused : refused = false := by
        by_contra hr
        rcases hretry (by simpa using hr) with hr | hr
        · rw [hstop] at hr; cases hr
        · rw [hkeep] at hr; cases hr
      rw [h] at hrest ⊢
      refine fresh_attempt (by rw [hrefused]; exact le_rfl) (fun hnone => by rw [hnone, run_none])
        (fun w'' hw'' => ?_)
      rw [hw''] at hrest ⊢
      exact ih r.refuses w'' hrest

/-- A refused block leaves in the log the pair that comes next. -/
theorem attempt_refused {w w' : MinerWorker} {r : MinerRound} (hrefuses : r.refuses = true)
    (hnext : (w.attempt params r).1 = some w') : .template ∉ (w.attempt params r).2 ∧
      (w'.localTemplate.header.nTime, w'.nonce) ∈ submissions (w.attempt params r).2 := by
  obtain ⟨tail, htail, -, hmoves, hno⟩ := w.attempt_spec params r
  have hquiet := hno hrefuses
  obtain ⟨htime, hnonce⟩ := (if_pos hrefuses).mp ((hmoves.resolve_left hquiet) w' hnext)
  rw [htail]
  refine ⟨by simpa using hquiet, ?_⟩
  rw [submissions_check, htime, hnonce]
  exact List.mem_cons_self

/-- A retry repeats the pair that the log ends with. -/
theorem noRetry_of_nodup : ∀ (rounds : List MinerRound) (refused : Bool) (w : MinerWorker) (log : List MinerEvent),
    (refused = true → ∃ pre tail, log = pre ++ tail ∧ .template ∉ tail ∧
      (w.localTemplate.header.nTime, w.nonce) ∈ submissions tail) →
    (∀ seg, seg <:+: log ++ run params (some w) rounds → .template ∉ seg → (submissions seg).Nodup) →
    NoRetry params refused (some w) rounds := by
  intro rounds
  induction rounds with
  | nil => intro refused w log _ _; trivial
  | cons r rounds ih =>
    intro refused w log hlog hnodup
    rw [run, ← List.append_assoc] at hnodup
    refine ⟨fun hrefused => ?_, ?_⟩
    · by_contra hretry
      rw [not_or, Bool.not_eq_true, Bool.not_eq_true] at hretry
      obtain ⟨pre, tail, rfl, hquiet, hmem⟩ := hlog hrefused
      obtain ⟨rest, hrest, -⟩ := w.attempt_spec params r
      have hround : (w.iteration params r).2 = .check w.header :: rest := by
        unfold iteration
        simp only [hretry, Bool.false_eq_true, if_false]
        exact hrest
      have hseg := hnodup (tail ++ [.check w.header])
        ⟨pre, rest ++ run params (w.iteration params r).1 rounds, by rw [hround]; simp⟩ (by simpa using hquiet)
      rw [submissions_append, List.nodup_append] at hseg
      exact hseg.2.2 _ hmem _ List.mem_cons_self rfl
    · cases hnext : (w.iteration params r).1 with
      | none => exact noRetry_none _ _
      | some w' =>
        rw [hnext] at hnodup
        refine ih r.refuses w' (log ++ (w.iteration params r).2) (fun hrefuses => ?_) hnodup
        rcases w.iteration_cases params r with ⟨-, h⟩ | ⟨-, h⟩ | ⟨-, w0, -, h⟩ | ⟨-, -, h⟩
        · rw [h] at hnext; cases hnext
        · rw [h] at hnext; cases hnext
        · rw [h] at hnext ⊢
          obtain ⟨hquiet, hmem⟩ := attempt_refused hrefuses hnext
          exact ⟨log ++ [.template], _, by simp, hquiet, hmem⟩
        · rw [h] at hnext ⊢
          obtain ⟨hquiet, hmem⟩ := attempt_refused hrefuses hnext
          exact ⟨log, _, rfl, hquiet, hmem⟩

end MinerWorker

/-- A run of the miner repeats no pair between two templates exactly if no block that was refused
is tried again. -/
theorem miner_repeats_iff_retry (params : PowParams) (view : MinerView) (rounds : List MinerRound) :
    (∀ seg, seg <:+: miningWorker params view rounds → MinerEvent.template ∉ seg →
      (MinerEvent.submissions seg).Nodup) ↔
    MinerWorker.NoRetry params false (MinerWorker.create params view) rounds := by
  unfold miningWorker
  cases hcreate : MinerWorker.create params view with
  | none =>
    rw [MinerWorker.run_none]
    refine ⟨fun _ => MinerWorker.noRetry_none _ _, fun _ seg hseg hno => ?_⟩
    have hfresh : MinerEvent.Fresh 0 [.template] := trivial
    obtain ⟨pre, post, h⟩ := hseg
    rw [← h, List.append_assoc] at hfresh
    obtain ⟨b, hb⟩ := hfresh.drop
    exact (hb.submissions hno).2
  | some w =>
    constructor
    · intro h
      exact MinerWorker.noRetry_of_nodup rounds false w [.template] (fun hf => by cases hf) h
    · rintro hretry seg ⟨pre, post, h⟩ hno
      have hfresh : MinerEvent.Fresh 0 (.template :: MinerWorker.run params (some w) rounds) :=
        (MinerWorker.run_fresh rounds false w hretry).mono (Nat.zero_le _)
      rw [← h, List.append_assoc] at hfresh
      obtain ⟨b, hb⟩ := hfresh.drop
      exact (hb.submissions hno).2

/-! ## A refused block -/

def regtestPow : PowParams where
  chainType := .REGTEST
  powLimit := 0xffffff
  nPowTargetSpacing := 120
  nASERTHalfLife := 3600
  nASERTAnchorHeight := 1

/-- A node without blocks. -/
def emptyView : MinerView where
  blockIndex := ∅
  tip := none
  time := 1000

/-- The attempt finds a block, which is refused. -/
def refusedRound : MinerRound where
  polledTip := none
  before := emptyView
  pow := .ok (some 7)
  processed := false
  tipHeight := none
  after := emptyView

/-- After a refusal the miner submits the same pair once more. -/
theorem miner_repeats_refused :
    ¬ ∀ (params : PowParams) (view : MinerView) (rounds : List MinerRound) (seg : List MinerEvent),
      seg <:+: miningWorker params view rounds → MinerEvent.template ∉ seg →
      (MinerEvent.submissions seg).Nodup := by
  intro h
  have hlog : ∃ seg, miningWorker regtestPow emptyView [refusedRound, refusedRound] = .template :: seg ∧
      MinerEvent.submissions seg = [(1000, 0), (1000, 0)] ∧ MinerEvent.template ∉ seg :=
    ⟨_, rfl, by decide +kernel, by decide +kernel⟩
  obtain ⟨seg, heq, hsub, hno⟩ := hlog
  have hnodup := h regtestPow emptyView [refusedRound, refusedRound] seg ⟨[.template], [], by rw [heq]; simp⟩ hno
  rw [hsub] at hnodup
  exact absurd hnodup (by decide)

end UnicityPow
