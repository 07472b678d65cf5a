import UnicityPow.BanManager
import UnicityPow.ExpiryLog

/-!
# The ban list and its log

The list in memory refines the log of the calls, and the file agrees with the list from the
last reading of the clock on, so that a restart loads a list that refines the same log.
-/

namespace UnicityPow

open ExpiryLog

/-- Until when an entry bans. -/
def CBanEntry.expiry (e : CBanEntry) : WithTop Int := if e.nBanUntil = 0 then ⊤ else (e.nBanUntil : Int)

theorem CBanEntry.isExpired_eq (e : CBanEntry) (now : Int) :
    (!e.isExpired now) = decide ((now : WithTop Int) ≤ e.expiry) := by
  unfold CBanEntry.isExpired CBanEntry.expiry
  by_cases h : e.nBanUntil = 0
  · simp [h]
  · have hle : ((now : WithTop Int) ≤ (e.nBanUntil : Int)) ↔ now ≤ e.nBanUntil := WithTop.coe_le_coe
    by_cases hlt : e.nBanUntil < now
    · simp [h, hlt, hle, not_le.mpr hlt]
    · simp [h, hlt, hle, not_lt.mp hlt]

/-- Until when a ban lasts that this call sets. -/
def BanOp.expiry : BanOp → Option (WithTop Int)
  | .ban _ banTimeOffset env => some (if 0 < banTimeOffset then ((env.time + banTimeOffset : Int) : WithTop Int) else ⊤)
  | _ => none

def banReading (normalize : String → Option String) : Reading BanOp String Int where
  affects key op := op.affects normalize key
  expiry := BanOp.expiry

def expiries (m : BanMap) (key : String) : Option (WithTop Int) := m[key]?.map CBanEntry.expiry

def BanFile.expiries : BanFile → String → Option (WithTop Int)
  | .entries m => UnicityPow.expiries m
  | _ => fun _ => none

namespace BanManager

theorem expiries_unexpired (now : Int) (m : BanMap) (key : String) :
    expiries (unexpired now m) key = (expiries m key).filter (fun x => decide ((now : WithTop Int) ≤ x)) := by
  unfold expiries unexpired
  rw [Std.ExtTreeMap.getElem?_filter', Option.filter_map]
  congr 2
  funext e
  simp only [Function.comp_apply, CBanEntry.isExpired_eq]

theorem sameFrom_unexpired (now : Int) (m : BanMap) : SameFrom now (expiries (unexpired now m)) (expiries m) :=
  SameFrom.sweep (expiries_unexpired now m)

/-! ## What is kept -/

/-- Between two calls the list is saved: the file agrees with it from `t` on. -/
structure Saved (t : Int) (b : BanManager) : Prop where
  path : b.banFilePath ≠ ""
  auto : b.banAutoSave = true
  clean : b.isDirty = false
  parses : b.file ≠ .malformed
  same : SameFrom t b.file.expiries (expiries b.banned)

theorem Saved.mono {t t' : Int} {b : BanManager} (h : Saved t b) (hle : t ≤ t') : Saved t' b :=
  ⟨h.path, h.auto, h.clean, h.parses, h.same.mono hle⟩

theorem banlistPath_ne {datadir : String} (h : datadir ≠ "") : banlistPath datadir ≠ "" := by
  unfold banlistPath
  rw [if_neg h]
  split
  · simp
  · simp

theorem saveBansInternal_spec {env : BanEnv} {b : BanManager} (hpath : b.banFilePath ≠ "")
    (hwrite : env.writeOk = true) :
    (b.saveBansInternal env).1 =
      { b with
        banned := unexpired env.saveTime b.banned
        file := if b.isDirty then .entries (unexpired env.saveTime b.banned) else b.file
        isDirty := false } := by
  unfold saveBansInternal
  rw [if_neg hpath]
  cases hd : b.isDirty with
  | false => simp
  | true => simp [hwrite]

theorem autoSave_saved {env : BanEnv} {b : BanManager} {t : Int} (hpath : b.banFilePath ≠ "")
    (hauto : b.banAutoSave = true) (hdirty : b.isDirty = true) (hwrite : env.writeOk = true)
    (ht : env.saveTime ≤ t) :
    Saved t (b.autoSave env) ∧ SameFrom t (expiries (b.autoSave env).banned) (expiries b.banned) := by
  have heq : b.autoSave env =
      { b with banned := unexpired env.saveTime b.banned, file := .entries (unexpired env.saveTime b.banned),
               isDirty := false } := by
    unfold autoSave
    rw [if_pos (by simp [hauto, hpath]), saveBansInternal_spec hpath hwrite, if_pos hdirty]
  rw [heq]
  exact ⟨⟨hpath, hauto, rfl, by simp, SameFrom.refl _ _⟩, (sameFrom_unexpired _ _).mono ht⟩

/-! ## One call -/

theorem expiries_insert (m : BanMap) (key key' : String) (e : CBanEntry) :
    expiries (m.insert key e) key' = if key = key' then some e.expiry else expiries m key' := by
  unfold expiries
  rw [Std.ExtTreeMap.getElem?_insert]
  by_cases h : key = key'
  · simp [h]
  · simp [h]

theorem expiries_erase (m : BanMap) (key key' : String) :
    expiries (m.erase key) key' = if key = key' then none else expiries m key' := by
  unfold expiries
  rw [Std.ExtTreeMap.getElem?_erase]
  by_cases h : key = key'
  · simp [h]
  · simp [h]

section
variable {normalize : String → Option String} {b b' : BanManager} {env : BanEnv} {t₀ t : Int} {log : List BanOp}

/-- A call that changes the list as its log entry says and saves it. -/
theorem saved_of_change {op : BanOp} (href : Refines (banReading normalize) t₀ (expiries b.banned) log)
    (hpath : b'.banFilePath ≠ "") (hauto : b'.banAutoSave = true) (hdirty : b'.isDirty = true)
    (hwrite : env.writeOk = true) (ht₀ : t₀ ≤ t) (ht : env.saveTime ≤ t)
    (hw : ∀ key, op.affects normalize key = true → expiries b'.banned key = op.expiry)
    (hk : ∀ key, op.affects normalize key = false → expiries b'.banned key = expiries b.banned key) :
    Saved t (b'.autoSave env) ∧ Refines (banReading normalize) t (expiries (b'.autoSave env).banned) (op :: log) := by
  obtain ⟨hsaved, hsame⟩ := autoSave_saved hpath hauto hdirty hwrite ht
  exact ⟨hsaved, ((href.write (e := op) hw hk).mono ht₀).congr hsame⟩

theorem ban_saved {address : String} {banTimeOffset : Int} (h : Saved t₀ b)
    (href : Refines (banReading normalize) t₀ (expiries b.banned) log) (hwrite : env.writeOk = true) (ht₀ : t₀ ≤ t)
    (ht : env.saveTime ≤ t) (hzero : 0 < banTimeOffset → env.time + banTimeOffset ≠ 0) :
    Saved t (b.ban normalize env address banTimeOffset) ∧
      Refines (banReading normalize) t (expiries (b.ban normalize env address banTimeOffset).banned)
        (.ban address banTimeOffset env :: log) := by
  unfold ban
  cases hn : normalize address with
  | none => exact ⟨h.mono ht₀, (href.pass (fun key => by simp [banReading, BanOp.affects, hn])).mono ht₀⟩
  | some normalized =>
    refine saved_of_change href h.path h.auto rfl hwrite ht₀ ht (fun key hkey => ?_) (fun key hkey => ?_)
    · obtain rfl : normalized = key := by simpa [BanOp.affects, hn] using hkey
      rw [expiries_insert, if_pos rfl]
      unfold CBanEntry.expiry BanOp.expiry
      by_cases hpos : 0 < banTimeOffset
      · simp [hpos, hzero hpos]
      · simp [hpos]
    · have hne : normalized ≠ key := by simpa [BanOp.affects, hn] using hkey
      rw [expiries_insert, if_neg hne]

theorem unban_saved {address : String} (h : Saved t₀ b)
    (href : Refines (banReading normalize) t₀ (expiries b.banned) log) (hwrite : env.writeOk = true) (ht₀ : t₀ ≤ t)
    (ht : env.saveTime ≤ t) :
    Saved t (b.unban normalize env address) ∧
      Refines (banReading normalize) t (expiries (b.unban normalize env address).banned)
        (.unban address env :: log) := by
  unfold unban
  cases hn : normalize address with
  | none => exact ⟨h.mono ht₀, (href.pass (fun key => by simp [banReading, BanOp.affects, hn])).mono ht₀⟩
  | some normalized =>
    have haff : ∀ key, (BanOp.unban address env).affects normalize key = true ↔ normalized = key := by
      intro key
      simp [BanOp.affects, hn]
    dsimp only
    split
    · refine saved_of_change href h.path h.auto rfl hwrite ht₀ ht (fun key hkey => ?_) (fun key hkey => ?_)
      · rw [expiries_erase, if_pos ((haff key).mp hkey)]
        rfl
      · have hne : normalized ≠ key := fun heq => by simp [(haff key).mpr heq] at hkey
        rw [expiries_erase, if_neg hne]
    · rename_i habsent
      -- an address that is not in the list: the log entry writes what is there
      refine ⟨h.mono ht₀, (href.write (e := .unban address env) (fun key hkey => ?_) (fun _ _ => rfl)).mono ht₀⟩
      obtain rfl := (haff key).mp hkey
      unfold expiries
      rw [Std.ExtTreeMap.getElem?_eq_none habsent]
      rfl

theorem clearBanned_saved (h : Saved t₀ b) (href : Refines (banReading normalize) t₀ (expiries b.banned) log)
    (hwrite : env.writeOk = true) (ht₀ : t₀ ≤ t) (ht : env.saveTime ≤ t) :
    Saved t (b.clearBanned env) ∧
      Refines (banReading normalize) t (expiries (b.clearBanned env).banned) (.clearBanned env :: log) := by
  unfold clearBanned
  refine saved_of_change href h.path h.auto rfl hwrite ht₀ ht (fun key _ => ?_) (fun key hkey => ?_)
  · simp [expiries, BanOp.expiry]
  · simp [BanOp.affects] at hkey

theorem sweepBanned_saved (h : Saved t₀ b) (hwrite : env.writeOk = true) (ht₀ : t₀ ≤ t) (htime : env.time ≤ t)
    (ht : env.saveTime ≤ t) :
    Saved t (b.sweepBanned env) ∧ SameFrom t (expiries (b.sweepBanned env).banned) (expiries b.banned) := by
  unfold sweepBanned
  dsimp only
  split
  · obtain ⟨hsaved, hsame⟩ := autoSave_saved (b := { b with banned := unexpired env.time b.banned, isDirty := true })
      h.path h.auto rfl hwrite ht
    exact ⟨hsaved, hsame.trans ((sameFrom_unexpired _ _).mono htime)⟩
  · exact ⟨h.mono ht₀, SameFrom.refl _ _⟩

theorem saveBans_saved (h : Saved t₀ b) (hwrite : env.writeOk = true) (ht₀ : t₀ ≤ t) (ht : env.saveTime ≤ t) :
    Saved t (b.saveBans env).1 ∧ SameFrom t (expiries (b.saveBans env).1.banned) (expiries b.banned) := by
  unfold saveBans
  rw [saveBansInternal_spec h.path hwrite, h.clean]
  have hsame := (sameFrom_unexpired env.saveTime b.banned).mono ht
  exact ⟨⟨h.path, h.auto, rfl, h.parses, (h.same.mono ht₀).trans hsame.symm⟩, hsame⟩

theorem restart_saved {datadir : String} (h : Saved t₀ b) (hdir : datadir ≠ "") (hwrite : env.writeOk = true)
    (ht₀ : t₀ ≤ t) (htime : env.time ≤ t) (ht : env.saveTime ≤ t) :
    Saved t ((create datadir b.file).loadBans env datadir).1 ∧
      SameFrom t (expiries ((create datadir b.file).loadBans env datadir).1.banned) (expiries b.banned) := by
  have hpath := banlistPath_ne hdir
  have hfile := h.same.mono ht₀
  unfold loadBans create
  simp only [hpath, if_false]
  cases hf : b.file with
  | missing =>
    rw [hf] at hfile
    have hempty : SameFrom t (expiries ∅) (BanFile.missing.expiries) := fun key t' _ => by
      simp [Live, expiries, BanFile.expiries]
    exact ⟨⟨hpath, rfl, rfl, by simp, hempty.symm⟩, hempty.trans hfile⟩
  | malformed => exact absurd hf h.parses
  | entries m =>
    rw [hf] at hfile
    have hlive : SameFrom t (expiries (∅ ∪ unexpired env.time m)) (expiries m) := by
      have hun : expiries (∅ ∪ unexpired env.time m) = expiries (unexpired env.time m) := by
        funext key
        unfold expiries
        rw [Std.ExtTreeMap.getElem?_union]
        simp
      rw [hun]
      exact (sameFrom_unexpired _ _).mono htime
    dsimp only
    by_cases hsize : (unexpired env.time m).size = m.size
    · simp only [hsize, bne_self_eq_false, if_false, Bool.false_eq_true]
      exact ⟨⟨hpath, rfl, rfl, by simp, hlive.symm⟩, hlive.trans hfile⟩
    · rw [if_pos (by simpa using hsize)]
      obtain ⟨hsaved, hsame⟩ := autoSave_saved (b := {
        banned := ∅ ∪ unexpired env.time m, banFilePath := banlistPath datadir,
        isDirty := (unexpired env.time m).size != m.size, file := .entries m })
        hpath rfl (by simpa using hsize) hwrite ht
      exact ⟨hsaved, hsame.trans (hlive.trans hfile)⟩

theorem step_saved {datadir : String} {op : BanOp} (hdir : datadir ≠ "") (h : Saved t₀ b)
    (href : Refines (banReading normalize) t₀ (expiries b.banned) log) (hwrite : op.env.writeOk = true)
    (ht₀ : t₀ ≤ op.env.time) (htime : op.env.time ≤ op.env.saveTime) (ht : op.env.saveTime ≤ t)
    (hzero : ∀ address banTimeOffset env, op = .ban address banTimeOffset env → 0 < banTimeOffset →
      env.time + banTimeOffset ≠ 0) :
    Saved t (b.step normalize datadir op) ∧
      Refines (banReading normalize) t (expiries (b.step normalize datadir op).banned) (op :: log) := by
  have htt : t₀ ≤ t := ht₀.trans (htime.trans ht)
  cases op with
  | ban address banTimeOffset env => exact ban_saved h href hwrite htt ht (hzero address banTimeOffset env rfl)
  | unban address env => exact unban_saved h href hwrite htt ht
  | clearBanned env => exact clearBanned_saved h href hwrite htt ht
  | sweepBanned env =>
    obtain ⟨hsaved, hsame⟩ := sweepBanned_saved h hwrite htt (htime.trans ht) ht
    exact ⟨hsaved, ((href.pass (fun _ => rfl)).mono htt).congr hsame⟩
  | saveBans env =>
    obtain ⟨hsaved, hsame⟩ := saveBans_saved h hwrite htt ht
    exact ⟨hsaved, ((href.pass (fun _ => rfl)).mono htt).congr hsame⟩
  | restart env =>
    obtain ⟨hsaved, hsame⟩ := restart_saved h hdir hwrite htt (htime.trans ht) ht
    exact ⟨hsaved, ((href.pass (fun _ => rfl)).mono htt).congr hsame⟩

/-! ## Runs -/

theorem run_saved {datadir : String} (hdir : datadir ≠ "") (hclock : Clocked t log)
    (hwrite : ∀ op ∈ log, op.env.writeOk = true)
    (hzero : ∀ address banTimeOffset env, .ban address banTimeOffset env ∈ log → 0 < banTimeOffset →
      env.time + banTimeOffset ≠ 0) :
    Saved t (run normalize datadir log) ∧
      Refines (banReading normalize) t (expiries (run normalize datadir log).banned) log := by
  induction log generalizing t with
  | nil =>
    refine ⟨⟨banlistPath_ne hdir, rfl, rfl, by simp [run, create], fun key t' _ => ?_⟩, Refines.nil fun key => ?_⟩
    · simp [Live, run, create, expiries, BanFile.expiries]
    · simp [run, create, expiries]
  | cons op log ih =>
    obtain ⟨ht, htime, hclock⟩ := hclock
    obtain ⟨hsaved, href⟩ := ih hclock (fun op' h => hwrite op' (by simp [h]))
      (fun address banTimeOffset env h => hzero address banTimeOffset env (by simp [h]))
    exact step_saved hdir hsaved href (hwrite op (by simp)) le_rfl htime ht
      (fun address banTimeOffset env heq => hzero address banTimeOffset env (by simp [heq]))

theorem isBanned_iff {now : Int} {address : String} :
    b.isBanned normalize now address = true ↔ ∃ key, normalize address = some key ∧ Live (expiries b.banned) key now := by
  unfold isBanned Live expiries
  cases hn : normalize address with
  | none => simp
  | some key =>
    simp only [Option.bind_some]
    cases hb : b.banned[key]? with
    | none => simp [hb]
    | some e => simp [hb, CBanEntry.isExpired_eq]

theorem bansAt_iff {op : BanOp} : op.bansAt t = true ↔ ∃ x, op.expiry = some x ∧ (t : WithTop Int) ≤ x := by
  cases op with
  | ban address banTimeOffset env =>
    unfold BanOp.bansAt BanOp.expiry
    by_cases hpos : 0 < banTimeOffset
    · have : ((t : WithTop Int) ≤ ((env.time + banTimeOffset : Int) : WithTop Int)) ↔ t ≤ env.time + banTimeOffset :=
        WithTop.coe_le_coe
      simpa [hpos, not_le.mpr hpos] using this.symm
    · simp [hpos, not_lt.mp hpos]
  | _ => simp [BanOp.bansAt, BanOp.expiry]

end

/-! ## The event log -/

/-- Through calls and restarts an address is banned just if the latest call that affects it
is a ban that has not ended. -/
theorem isBanned_iff_latest (normalize : String → Option String) {datadir : String} (hdir : datadir ≠ "")
    (log : List BanOp) (t : Int) (hclock : Clocked t log) (hwrite : ∀ op ∈ log, op.env.writeOk = true)
    (hzero : ∀ address banTimeOffset env, .ban address banTimeOffset env ∈ log → 0 < banTimeOffset →
      env.time + banTimeOffset ≠ 0) (address : String) :
    (run normalize datadir log).isBanned normalize t address = true ↔
      ∃ key op, normalize address = some key ∧ log.find? (BanOp.affects normalize key) = some op ∧
        op.bansAt t = true := by
  have href : Refines (banReading normalize) t (expiries (run normalize datadir log).banned) log :=
    (run_saved hdir hclock hwrite hzero).2
  rw [isBanned_iff]
  constructor
  · rintro ⟨key, hkey, hlive⟩
    obtain ⟨op, x, hop, hx, hle⟩ := (href key t le_rfl).mp hlive
    exact ⟨key, op, hkey, hop, bansAt_iff.mpr ⟨x, hx, hle⟩⟩
  · rintro ⟨key, op, hkey, hop, hbans⟩
    obtain ⟨x, hx, hle⟩ := bansAt_iff.mp hbans
    exact ⟨key, hkey, (href key t le_rfl).mpr ⟨op, x, hop, hx, hle⟩⟩

theorem isBanned_iff_latest_restart :
    (run some "/data" [.restart ⟨20, 20, true⟩, .unban "10.0.0.2" ⟨14, 15, true⟩, .ban "10.0.0.1" 60 ⟨10, 11, true⟩]).isBanned
      some 70 "10.0.0.1" = true := by
  refine (isBanned_iff_latest some (by decide : "/data" ≠ "") _ 70 ?_ ?_ ?_ "10.0.0.1").mpr
    ⟨"10.0.0.1", .ban "10.0.0.1" 60 ⟨10, 11, true⟩, rfl, rfl, rfl⟩
  · simp [Clocked, BanOp.env]
  · simp [BanOp.env]
  · simp +contextual

/-- A ban of five seconds set five seconds before the epoch ends at 0, which stands for a
permanent ban; and without a directory a restart loses a ban. -/
theorem ban_to_epoch_stays :
    (¬ ∀ (log : List BanOp) (t : Int) (address : String), Clocked t log → (∀ op ∈ log, op.env.writeOk = true) →
      ((run some "/data" log).isBanned some t address = true ↔
        ∃ key op, some address = some key ∧ log.find? (BanOp.affects some key) = some op ∧ op.bansAt t = true)) ∧
    ¬ ∀ (log : List BanOp) (t : Int) (address : String), Clocked t log → (∀ op ∈ log, op.env.writeOk = true) →
      (∀ address banTimeOffset env, .ban address banTimeOffset env ∈ log → 0 < banTimeOffset →
        env.time + banTimeOffset ≠ 0) →
      ((run some "" log).isBanned some t address = true ↔
        ∃ key op, some address = some key ∧ log.find? (BanOp.affects some key) = some op ∧
          op.bansAt t = true) := by
  constructor
  · intro hall
    have h := hall [.ban "10.0.0.1" 5 ⟨-5, -5, true⟩] 100 "10.0.0.1" (by simp [Clocked, BanOp.env])
      (by simp [BanOp.env])
    have hbanned : (run some "/data" [.ban "10.0.0.1" 5 ⟨-5, -5, true⟩]).isBanned some 100 "10.0.0.1" = true := by
      decide +kernel
    obtain ⟨key, op, hkey, hop, hbans⟩ := h.mp hbanned
    obtain rfl := Option.some.inj hkey
    have hop' : op = .ban "10.0.0.1" 5 ⟨-5, -5, true⟩ := (Option.some.inj hop).symm
    rw [hop'] at hbans
    exact absurd hbans (by decide)
  · intro hall
    have h := hall [.restart ⟨20, 20, true⟩, .ban "10.0.0.1" 60 ⟨10, 11, true⟩] 30 "10.0.0.1"
      (by simp [Clocked, BanOp.env]) (by simp [BanOp.env]) (by simp +contextual)
    have hbanned := h.mpr ⟨"10.0.0.1", .ban "10.0.0.1" 60 ⟨10, 11, true⟩, rfl, rfl, rfl⟩
    have hlost : (run some "" [.restart ⟨20, 20, true⟩, .ban "10.0.0.1" 60 ⟨10, 11, true⟩]).isBanned some 30
        "10.0.0.1" = false := by
      decide +kernel
    rw [hlost] at hbanned
    cases hbanned

end BanManager

end UnicityPow
