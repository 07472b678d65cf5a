import UnicityPow.AddrManager
import UnicityPow.KeyList
import UnicityPow.Run
import UnicityPow.Tally
import UnicityPow.WireSound

/-!
# The tables of the address manager

The calls that learn and score addresses keep the two tables apart and the key lists true to
them. `Load` takes its tables from a file as it finds them, so it keeps this exactly when the file
is clean.
-/

namespace UnicityPow

open KeyList

/-! ## Addresses -/

theorem addrKey_inj {a b : NetworkAddress} (h : addrKey a = addrKey b) : a.ip = b.ip ∧ a.port = b.port := by
  have h : a.ip ++ a.port = b.ip ++ b.port := h
  have hport : a.port = b.port := by
    have := congrArg (BitVec.setWidth 16) h
    rwa [BitVec.setWidth_append, BitVec.setWidth_append, dif_pos (Nat.le_refl 16), dif_pos (Nat.le_refl 16),
      BitVec.setWidth_eq, BitVec.setWidth_eq] at this
  rw [hport, BitVec.append_left_inj] at h
  exact ⟨h, hport⟩

/-- The address is in the form that `NormalizeAddress` gives it. -/
def IsNormalized (addr : NetworkAddress) : Prop := normalizeAddress addr = addr

theorem isNormalized_iff {addr : NetworkAddress} :
    IsNormalized addr ↔ ¬ (addr.ip >>> 32 = 0 ∧ addr.ip.setWidth 32 ≠ 0) := by
  unfold IsNormalized normalizeAddress
  split
  · rename_i h
    refine iff_of_false (fun heq => ?_) (fun hn => hn h)
    have hshift := congrArg (fun a : NetworkAddress => a.ip >>> 32) heq
    simp only [BitVec.ushiftRight_or_distrib, h.1] at hshift
    revert hshift
    decide
  · rename_i h
    exact iff_of_true rfl h

theorem normalizeAddress_isNormalized (addr : NetworkAddress) : IsNormalized (normalizeAddress addr) := by
  by_cases h : addr.ip >>> 32 = 0 ∧ addr.ip.setWidth 32 ≠ 0
  · rw [isNormalized_iff, normalizeAddress, if_pos h]
    rintro ⟨hshift, -⟩
    simp only [BitVec.ushiftRight_or_distrib, h.1] at hshift
    revert hshift
    decide
  · have hn : IsNormalized addr := isNormalized_iff.mpr h
    rw [hn]
    exact hn

theorem IsNormalized.congr {a b : NetworkAddress} (h : IsNormalized a) (hkey : addrKey a = addrKey b) : IsNormalized b := by
  rw [isNormalized_iff] at h ⊢
  rwa [(addrKey_inj hkey).1] at h

/-! ## Tables -/

/-- An entry under the key of its address. -/
structure EntryOk (tried : Bool) (k : AddrKey) (info : AddrInfo) : Prop where
  key : k = addrKey info.address
  normalized : IsNormalized info.address
  flag : info.tried = tried

def EntriesOk (tried : Bool) (table : AddrTable) : Prop :=
  ∀ (k : AddrKey) (info : AddrInfo), table[k]? = some info → EntryOk tried k info

section
variable {tried : Bool} {table : AddrTable} {k : AddrKey} {info : AddrInfo}

theorem entriesOk_empty (tried : Bool) : EntriesOk tried ∅ := every_empty _

theorem EntriesOk.insert (h : EntriesOk tried table) (hk : EntryOk tried k info) : EntriesOk tried (table.insert k info) :=
  Every.insert h hk

theorem EntriesOk.of_sub {table' : AddrTable} (h : EntriesOk tried table)
    (hsub : ∀ (k : AddrKey) (info : AddrInfo), table'[k]? = some info → table[k]? = some info) :
    EntriesOk tried table' := Every.of_sub h hsub

theorem EntriesOk.erase (h : EntriesOk tried table) (k : AddrKey) : EntriesOk tried (table.erase k) := Every.erase h k

theorem EntriesOk.modify (h : EntriesOk tried table) (k : AddrKey) {f : AddrInfo → AddrInfo}
    (hf : ∀ info, (f info).address = info.address ∧ (f info).tried = info.tried) :
    EntriesOk tried (table.modify k f) := by
  refine Every.modify h k fun k' info hok => ?_
  obtain ⟨haddr, hflag⟩ := hf info
  exact ⟨by rw [haddr]; exact hok.key, by rw [haddr]; exact hok.normalized, by rw [hflag]; exact hok.flag⟩

end

namespace AddressManager

/-- The lists have the keys of the tables: all that a draw needs. -/
structure KeysCovered (s : AddressManager) : Prop where
  tried : Covers s.triedKeys s.tried
  new : Covers s.newKeys s.new

structure TablesOk (s : AddressManager) : Prop where
  apart : ∀ k ∈ s.tried, k ∉ s.new
  triedEntries : EntriesOk true s.tried
  newEntries : EntriesOk false s.new
  triedKeys : Lists s.triedKeys s.tried
  newKeys : Lists s.newKeys s.new

section
variable {s : AddressManager} {now : BitVec 32} {addr : NetworkAddress}

/-! ## Learning an address -/

theorem refreshTimestamp_address (effTs : BitVec 32) (info : AddrInfo) :
    (refreshTimestamp effTs info).address = info.address ∧ (refreshTimestamp effTs info).tried = info.tried := by
  unfold refreshTimestamp
  split <;> exact ⟨rfl, rfl⟩

variable (s now addr) in
/-- `add` leaves the tables alone, refreshes a known entry, or inserts a new one. -/
theorem add_cases (timestamp : BitVec 32) :
    (s.add now addr timestamp).1 = s ∨
    (∃ k effTs, (s.add now addr timestamp).1 = { s with tried := s.tried.modify k (refreshTimestamp effTs) }) ∨
    (∃ k effTs, (s.add now addr timestamp).1 = { s with new := s.new.modify k (refreshTimestamp effTs) }) ∨
    ∃ info : AddrInfo, addrKey info.address ∉ s.tried ∧ addrKey info.address ∉ s.new ∧ IsNormalized info.address ∧
      info.tried = false ∧ (s.add now addr timestamp).1 =
        { s with
          new := s.new.insert (addrKey info.address) info
          newKeys := s.newKeys ++ [addrKey info.address] } := by
  unfold add
  dsimp only
  split
  · exact .inl rfl
  split
  · exact .inr (.inl ⟨_, _, rfl⟩)
  rename_i htried
  split
  · exact .inr (.inr (.inl ⟨_, _, rfl⟩))
  rename_i hnew
  split
  · exact .inl rfl
  · exact .inr (.inr (.inr ⟨{ address := normalizeAddress addr, timestamp := effectiveTimestamp now timestamp },
      htried, hnew, normalizeAddress_isNormalized addr, rfl, rfl⟩))

theorem mem_modify_iff {table : AddrTable} (k : AddrKey) (f : AddrInfo → AddrInfo) (k' : AddrKey) :
    k' ∈ table.modify k f ↔ k' ∈ table := Std.ExtTreeMap.mem_modify

theorem TablesOk.covered (h : TablesOk s) : KeysCovered s := ⟨h.triedKeys.covers, h.newKeys.covers⟩

theorem TablesOk.modifyTried (h : TablesOk s) (k : AddrKey) {f : AddrInfo → AddrInfo}
    (hf : ∀ info, (f info).address = info.address ∧ (f info).tried = info.tried) :
    TablesOk { s with tried := s.tried.modify k f } where
  apart k' hk' := h.apart k' ((mem_modify_iff k f k').mp hk')
  triedEntries := h.triedEntries.modify k hf
  newEntries := h.newEntries
  triedKeys := h.triedKeys.congr (mem_modify_iff k f)
  newKeys := h.newKeys

theorem TablesOk.modifyNew (h : TablesOk s) (k : AddrKey) {f : AddrInfo → AddrInfo}
    (hf : ∀ info, (f info).address = info.address ∧ (f info).tried = info.tried) :
    TablesOk { s with new := s.new.modify k f } where
  apart k' hk' hn := h.apart k' hk' ((mem_modify_iff k f k').mp hn)
  triedEntries := h.triedEntries
  newEntries := h.newEntries.modify k hf
  triedKeys := h.triedKeys
  newKeys := h.newKeys.congr (mem_modify_iff k f)

theorem KeysCovered.modifyTried (h : KeysCovered s) (k : AddrKey) (f : AddrInfo → AddrInfo) :
    KeysCovered { s with tried := s.tried.modify k f } := ⟨h.tried.congr (mem_modify_iff k f), h.new⟩

theorem KeysCovered.modifyNew (h : KeysCovered s) (k : AddrKey) (f : AddrInfo → AddrInfo) :
    KeysCovered { s with new := s.new.modify k f } := ⟨h.tried, h.new.congr (mem_modify_iff k f)⟩

theorem TablesOk.add (h : TablesOk s) (now : BitVec 32) (addr : NetworkAddress) (timestamp : BitVec 32) :
    TablesOk (s.add now addr timestamp).1 := by
  rcases add_cases s now addr timestamp with he | ⟨k, effTs, he⟩ | ⟨k, effTs, he⟩ | ⟨info, ht, hn, hnorm, hflag, he⟩ <;>
    rw [he]
  · exact h
  · exact h.modifyTried k (refreshTimestamp_address effTs)
  · exact h.modifyNew k (refreshTimestamp_address effTs)
  · refine ⟨fun k hk hk' => ?_, h.triedEntries, h.newEntries.insert ⟨rfl, hnorm, hflag⟩, h.triedKeys, h.newKeys.insert hn info⟩
    rcases (mem_insert_iff info).mp hk' with rfl | hk'
    · exact ht hk
    · exact h.apart k hk hk'

theorem KeysCovered.add (h : KeysCovered s) (now : BitVec 32) (addr : NetworkAddress) (timestamp : BitVec 32) :
    KeysCovered (s.add now addr timestamp).1 := by
  rcases add_cases s now addr timestamp with he | ⟨k, effTs, he⟩ | ⟨k, effTs, he⟩ | ⟨info, -, -, -, -, he⟩ <;> rw [he]
  · exact h
  · exact h.modifyTried k _
  · exact h.modifyNew k _
  · exact ⟨h.tried, h.new.insert _ info⟩

theorem addMultiple_kept {P : AddressManager → Prop}
    (hadd : ∀ s now addr timestamp, P s → P (AddressManager.add now s addr timestamp).1) (h : P s)
    (addresses : List (BitVec 32 × TimestampedAddress)) : P (s.addMultiple addresses).1 := by
  unfold addMultiple
  refine List.foldlRecOn (motive := fun (r : AddressManager × Nat) => P r.1) addresses _ h (fun r hr a _ => ?_)
  have hnext := hadd r.1 a.1 a.2.address a.2.timestamp hr
  dsimp only
  split <;> rename_i heq <;> rw [heq] at hnext <;> exact hnext

/-! ## Scoring an address -/

theorem attempted_kept (now lastGood : BitVec 32) (f : Bool) (info : AddrInfo) :
    (info.attempted now lastGood f).address = info.address ∧ (info.attempted now lastGood f).tried = info.tried := by
  unfold AddrInfo.attempted
  dsimp only
  split <;> exact ⟨rfl, rfl⟩

theorem TablesOk.attempt (h : TablesOk s) (now : BitVec 32) (addr : NetworkAddress) (f : Bool) :
    TablesOk (s.attempt now addr f) := by
  unfold AddressManager.attempt
  dsimp only
  split
  · exact h.modifyNew _ (attempted_kept now s.mLastGood f)
  · exact h.modifyTried _ (attempted_kept now s.mLastGood f)

theorem KeysCovered.attempt (h : KeysCovered s) (now : BitVec 32) (addr : NetworkAddress) (f : Bool) :
    KeysCovered (s.attempt now addr f) := by
  unfold AddressManager.attempt
  dsimp only
  split
  · exact h.modifyNew _ _
  · exact h.modifyTried _ _

theorem mem_of_getElem {table : AddrTable} {k : AddrKey} {info : AddrInfo} (h : table[k]? = some info) : k ∈ table :=
  Std.ExtTreeMap.mem_iff_isSome_getElem?.mpr (by rw [h]; rfl)

theorem TablesOk.promote (h : TablesOk s) {k : AddrKey} {info info' : AddrInfo} (hk : s.new[k]? = some info)
    (haddr : info'.address = info.address) (hflag : info'.tried = true) :
    TablesOk
      { s with
        tried := s.tried.insert k info'
        new := s.new.erase k
        newKeys := s.newKeys.filter (· ≠ k)
        triedKeys := s.triedKeys ++ [k] } := by
  have hok := h.newEntries k info hk
  have hout : k ∉ s.tried := fun ht => h.apart k ht (mem_of_getElem hk)
  refine ⟨fun k' hk' hn => ?_, h.triedEntries.insert ⟨by rw [haddr]; exact hok.key, by rw [haddr]; exact hok.normalized, hflag⟩,
    h.newEntries.erase k, h.triedKeys.insert hout info', h.newKeys.erase k⟩
  obtain ⟨hne, hn⟩ := mem_erase_iff.mp hn
  rcases (mem_insert_iff info').mp hk' with rfl | hk'
  · exact hne rfl
  · exact h.apart k' hk' hn

theorem TablesOk.good (h : TablesOk s) (now : BitVec 32) (addr : NetworkAddress) : TablesOk (s.good now addr) := by
  have h1 : TablesOk { s with mLastGood := now } := ⟨h.apart, h.triedEntries, h.newEntries, h.triedKeys, h.newKeys⟩
  unfold AddressManager.good
  dsimp only
  split
  · rename_i info hk
    exact h1.promote hk rfl rfl
  · exact h1.modifyTried _ (fun info => ⟨rfl, rfl⟩)

theorem KeysCovered.good (h : KeysCovered s) (now : BitVec 32) (addr : NetworkAddress) : KeysCovered (s.good now addr) := by
  unfold AddressManager.good
  dsimp only
  split
  · exact ⟨h.tried.insert _ _, h.new.erase _⟩
  · exact ⟨h.tried.congr (mem_modify_iff _ _), h.new⟩

theorem TablesOk.demote (h : TablesOk s) {k : AddrKey} {info info' : AddrInfo} (hk : s.tried[k]? = some info)
    (haddr : info'.address = info.address) (hflag : info'.tried = false) :
    TablesOk
      { s with
        new := s.new.insert k info'
        tried := s.tried.erase k
        triedKeys := s.triedKeys.filter (· ≠ k)
        newKeys := s.newKeys ++ [k] } := by
  have hok := h.triedEntries k info hk
  have hout : k ∉ s.new := h.apart k (mem_of_getElem hk)
  refine ⟨fun k' hk' hn => ?_, h.triedEntries.erase k,
    h.newEntries.insert ⟨by rw [haddr]; exact hok.key, by rw [haddr]; exact hok.normalized, hflag⟩,
    h.triedKeys.erase k, h.newKeys.insert hout info'⟩
  obtain ⟨hne, hk'⟩ := mem_erase_iff.mp hk'
  rcases (mem_insert_iff info').mp hn with rfl | hn
  · exact hne rfl
  · exact h.apart k' hk' hn

theorem mem_insert_of_mem {table : AddrTable} {k : AddrKey} (hk : k ∈ table) (info : AddrInfo) (k' : AddrKey) :
    k' ∈ table.insert k info ↔ k' ∈ table := by
  rw [mem_insert_iff]
  exact ⟨fun h => h.elim (fun e => e ▸ hk) id, .inr⟩

theorem TablesOk.failed (h : TablesOk s) (now : BitVec 32) (addr : NetworkAddress) : TablesOk (s.failed now addr) := by
  unfold AddressManager.failed
  dsimp only
  split
  · rename_i info hk
    have hok := h.newEntries _ info hk
    split
    · exact ⟨fun k hk hn => h.apart k hk (mem_erase_iff.mp hn).2, h.triedEntries, h.newEntries.erase _, h.triedKeys,
        h.newKeys.erase _⟩
    · have hmem := mem_insert_of_mem (mem_of_getElem hk) { info with attempts := info.attempts + 1 }
      exact ⟨fun k hk hn => h.apart k hk ((hmem k).mp hn), h.triedEntries,
        h.newEntries.insert ⟨hok.key, hok.normalized, hok.flag⟩, h.triedKeys, h.newKeys.congr hmem⟩
  · split
    · exact h
    · rename_i info hk
      have hok := h.triedEntries _ info hk
      split
      · exact h.demote hk rfl rfl
      · have hmem := mem_insert_of_mem (mem_of_getElem hk) { info with attempts := info.attempts + 1 }
        exact ⟨fun k hk => h.apart k ((hmem k).mp hk), h.triedEntries.insert ⟨hok.key, hok.normalized, hok.flag⟩,
          h.newEntries, h.triedKeys.congr hmem, h.newKeys⟩

theorem KeysCovered.failed (h : KeysCovered s) (now : BitVec 32) (addr : NetworkAddress) :
    KeysCovered (s.failed now addr) := by
  unfold AddressManager.failed
  dsimp only
  split
  · rename_i info hk
    split
    · exact ⟨h.tried, h.new.erase _⟩
    · exact ⟨h.tried, h.new.congr (mem_insert_of_mem (mem_of_getElem hk) _)⟩
  · split
    · exact h
    · rename_i info hk
      split
      · exact ⟨h.tried.erase _, h.new.insert _ _⟩
      · exact ⟨h.tried.congr (mem_insert_of_mem (mem_of_getElem hk) _), h.new⟩

/-! ## Cleaning up -/

theorem TablesOk.cleanupStale (h : TablesOk s) (now : BitVec 32) : TablesOk (s.cleanupStale now) := by
  unfold AddressManager.cleanupStale
  dsimp only
  split
  · refine ⟨fun k hk hn => h.apart k hk (Std.ExtTreeMap.mem_of_mem_filter hn), h.triedEntries, ?_, lists_keys _, lists_keys _⟩
    refine h.newEntries.of_sub fun k info hk => ?_
    change (s.new.filter _)[k]? = some info at hk
    rw [Tally.getElem?_filter] at hk
    exact (Option.filter_eq_some_iff.mp hk).1
  · exact h

theorem KeysCovered.cleanupStale (h : KeysCovered s) (now : BitVec 32) : KeysCovered (s.cleanupStale now) := by
  unfold AddressManager.cleanupStale
  dsimp only
  split
  · exact ⟨covers_keys _, covers_keys _⟩
  · exact h

/-! ## Loading -/

theorem insertAll_get : ∀ (l : List AddrInfo) (table : AddrTable) (k : AddrKey) (info : AddrInfo),
    (insertAll l table)[k]? = some info → table[k]? = some info ∨ info ∈ l ∧ k = addrKey info.address
  | [], _, _, _, h => .inl h
  | x :: l, table, k, info, h => by
    rcases insertAll_get l (table.insert (addrKey x.address) x) k info h with h | ⟨hmem, hk⟩
    · rw [Std.ExtTreeMap.getElem?_insert] at h
      split at h
      · rename_i heq
        cases h
        exact .inr ⟨List.mem_cons_self, (Std.LawfulEqCmp.eq_of_compare heq).symm⟩
      · exact .inl h
    · exact .inr ⟨List.mem_cons_of_mem x hmem, hk⟩

theorem mem_insertAll (l : List AddrInfo) (table : AddrTable) (k : AddrKey) :
    k ∈ insertAll l table ↔ k ∈ table ∨ ∃ info ∈ l, k = addrKey info.address := by
  induction l generalizing table with
  | nil => exact ⟨.inl, fun h => h.resolve_right (fun ⟨_, h, _⟩ => List.not_mem_nil h)⟩
  | cons x l ih =>
    have hstep : insertAll (x :: l) table = insertAll l (table.insert (addrKey x.address) x) := rfl
    rw [hstep, ih, mem_insert_iff, or_assoc, or_left_comm, List.exists_mem_cons_iff]

theorem readTable_flag {root : Json} {key : String} {tried : Bool} {info : AddrInfo}
    (h : info ∈ readTable root key tried) : info.tried = tried := by
  unfold readTable at h
  split at h
  · cases h
  · obtain ⟨record, -, hrecord⟩ := List.mem_filterMap.mp h
    obtain ⟨read, -, rfl⟩ := Option.map_eq_some_iff.mp hrecord
    rfl

/-- `Load` takes the tables of the document: it is of version 1. -/
def Accepts (root : Json) : Prop :=
  ∃ version lastGood, root.valueInt "version" 0 = .ok version ∧ toInt32 version = 1 ∧
    root.valueInt "m_last_good" 1 = .ok lastGood

/-- A file that is not taken, or whose readable records are normalized and in one table each. -/
def CleanFile : PeersFile → Prop
  | .doc root => Accepts root →
    (∀ info ∈ readTable root "tried" true ++ readTable root "new" false, IsNormalized info.address) ∧
    ∀ a ∈ readTable root "tried" true, ∀ b ∈ readTable root "new" false, addrKey a.address ≠ addrKey b.address
  | _ => True

variable (s) in
theorem loadDoc_cases (root : Json) :
    (∃ stop, s.loadDoc root = .error stop ∧ ¬ Accepts root) ∨
    ∃ lastGood, Accepts root ∧ s.loadDoc root = .ok (rebuildKeyVectors
      { s with
        mLastGood := lastGood
        tried := insertAll (readTable root "tried" true) ∅
        new := insertAll (readTable root "new" false) ∅ }) := by
  unfold loadDoc Accepts
  cases hv : root.valueInt "version" 0 with
  | error stop => exact .inl ⟨stop, rfl, fun ⟨_, _, h, _⟩ => by cases h⟩
  | ok version =>
    by_cases h1 : toInt32 version = 1
    · cases hg : root.valueInt "m_last_good" 1 with
      | error stop =>
        refine .inl ⟨stop, ?_, fun ⟨_, _, _, _, h⟩ => by cases h⟩
        change (if toInt32 version ≠ 1 then _ else _) = _
        rw [if_neg (not_not.mpr h1)]
        rfl
      | ok lastGood =>
        refine .inr ⟨BitVec.ofInt 32 lastGood, ⟨version, lastGood, rfl, h1, rfl⟩, ?_⟩
        change (if toInt32 version ≠ 1 then _ else _) = _
        rw [if_neg (not_not.mpr h1)]
        rfl
    · refine .inl ⟨.refused, ?_, fun ⟨_, _, h, h', _⟩ => ?_⟩
      · change (if toInt32 version ≠ 1 then _ else _) = _
        rw [if_pos h1]
      · cases h
        exact h1 h'

variable (s) in
/-- `Load` leaves the manager alone, empties it, or takes the tables of the file. -/
theorem load_cases (file : PeersFile) :
    (s.load file).1 = s ∧ CleanFile file ∨
    (s.load file).1 = { s with tried := ∅, new := ∅, triedKeys := [], newKeys := [] } ∧ CleanFile file ∨
    ∃ root lastGood, file = .doc root ∧ Accepts root ∧ (s.load file).1 = rebuildKeyVectors
      { s with
        mLastGood := lastGood
        tried := insertAll (readTable root "tried" true) ∅
        new := insertAll (readTable root "new" false) ∅ } := by
  cases file with
  | missing => exact .inl ⟨rfl, trivial⟩
  | malformed => exact .inr (.inl ⟨rfl, trivial⟩)
  | doc root =>
    unfold load
    rcases loadDoc_cases s root with ⟨stop, he, hno⟩ | ⟨lastGood, hyes, he⟩
    · dsimp only
      rw [he]
      cases stop with
      | refused => exact .inl ⟨rfl, fun h => absurd h hno⟩
      | threw => exact .inr (.inl ⟨rfl, fun h => absurd h hno⟩)
    · dsimp only
      rw [he]
      exact .inr (.inr ⟨root, lastGood, rfl, hyes, rfl⟩)

theorem tablesOk_empty (lastGood : BitVec 32) : TablesOk { mLastGood := lastGood } where
  apart k hk := absurd hk Std.ExtTreeMap.not_mem_empty
  triedEntries := entriesOk_empty true
  newEntries := entriesOk_empty false
  triedKeys := ⟨fun k => by simp, List.nodup_nil⟩
  newKeys := ⟨fun k => by simp, List.nodup_nil⟩

theorem entriesOk_insertAll_iff {root : Json} {key : String} {tried : Bool} :
    EntriesOk tried (insertAll (readTable root key tried) ∅) ↔ ∀ info ∈ readTable root key tried, IsNormalized info.address := by
  constructor
  · intro h info hinfo
    have hk : addrKey info.address ∈ insertAll (readTable root key tried) ∅ :=
      (mem_insertAll _ _ _).mpr (.inr ⟨info, hinfo, rfl⟩)
    rw [Std.ExtTreeMap.mem_iff_isSome_getElem?] at hk
    -- the entry under this key may be a later record of the same address
    obtain ⟨last, hlast⟩ := Option.isSome_iff_exists.mp hk
    have hok := h _ last hlast
    exact hok.normalized.congr hok.key.symm
  · intro h k info hk
    rcases insertAll_get _ _ k info hk with hk | ⟨hmem, hkey⟩
    · simp at hk
    · exact ⟨hkey, h info hmem, readTable_flag hmem⟩

theorem TablesOk.load_iff (h : TablesOk s) (file : PeersFile) : TablesOk (s.load file).1 ↔ CleanFile file := by
  rcases load_cases s file with ⟨he, hc⟩ | ⟨he, hc⟩ | ⟨root, lastGood, rfl, hyes, he⟩ <;> rw [he]
  · exact iff_of_true h hc
  · exact iff_of_true (tablesOk_empty s.mLastGood) hc
  · have hmem : ∀ (l : List AddrInfo) (k : AddrKey), k ∈ insertAll l ∅ ↔ ∃ info ∈ l, k = addrKey info.address := by
      intro l k
      rw [mem_insertAll, or_iff_right Std.ExtTreeMap.not_mem_empty]
    change _ ↔ (Accepts root → _)
    rw [imp_iff_right hyes, List.forall_mem_append, ← entriesOk_insertAll_iff, ← entriesOk_insertAll_iff]
    constructor
    · refine fun hok => ⟨⟨hok.triedEntries, hok.newEntries⟩, fun a ha b hb heq => ?_⟩
      exact hok.apart (addrKey a.address) ((hmem _ _).mpr ⟨a, ha, rfl⟩) ((hmem _ _).mpr ⟨b, hb, heq⟩)
    · rintro ⟨⟨ht, hn⟩, hapart⟩
      refine ⟨fun k hk hk' => ?_, ht, hn, lists_keys _, lists_keys _⟩
      obtain ⟨a, ha, hka⟩ := (hmem _ _).mp hk
      obtain ⟨b, hb, hkb⟩ := (hmem _ _).mp hk'
      exact hapart a ha b hb (hka.symm.trans hkb)

theorem KeysCovered.load (h : KeysCovered s) (file : PeersFile) : KeysCovered (s.load file).1 := by
  rcases load_cases s file with ⟨he, -⟩ | ⟨he, -⟩ | ⟨root, lastGood, rfl, -, he⟩ <;> rw [he]
  · exact h
  · exact (tablesOk_empty s.mLastGood).covered
  · exact ⟨covers_keys _, covers_keys _⟩

/-! ## Selection -/

theorem pick_ok {keys : List AddrKey} {table : AddrTable} (h : Covers keys table) (hne : table.isEmpty = false) (draw : Nat) :
    ∃ info, pick keys table draw = .ok info := by
  have hpos : 0 < keys.length := by
    rw [List.length_pos_iff]
    rintro rfl
    rw [← Bool.not_eq_true, Std.ExtTreeMap.isEmpty_iff] at hne
    exact hne (Std.ExtTreeMap.eq_empty_iff_forall_not_mem.mpr fun k hk => List.not_mem_nil ((h k).mpr hk))
  obtain ⟨k, hk⟩ : ∃ k, keys[draw % keys.length]? = some k :=
    ⟨_, List.getElem?_eq_getElem (Nat.mod_lt draw hpos)⟩
  obtain ⟨info, hinfo⟩ := h.entry hk
  exact ⟨info, by rw [pick, hk]; dsimp only; rw [hinfo]⟩

theorem selectLoop_ok (h : KeysCovered s) (hne : (s.tried.isEmpty && s.new.isEmpty) = false) (draws : SelectDraws)
    (searchTried : Bool) : ∀ rounds i, ∃ r, selectLoop s draws searchTried rounds i = .ok r := by
  intro rounds
  induction rounds with
  | zero =>
    intro i
    unfold selectLoop
    split <;> exact ⟨_, rfl⟩
  | succ rounds ih =>
    intro i
    have hrest : ∀ info, ∃ r, (if draws.accepted i info = true then pure (some info.address)
        else selectLoop s draws searchTried rounds (i + 1)) = (.ok r : Except Unit (Option NetworkAddress)) := by
      intro info
      split
      · exact ⟨_, rfl⟩
      · exact ih (i + 1)
    rw [selectLoop]
    split
    · rename_i huse
      have ht : s.tried.isEmpty = false := by
        cases ht : s.tried.isEmpty
        · rfl
        · rw [ht] at huse hne
          simp only [Bool.not_true, Bool.and_false, Bool.false_or, Bool.true_and] at huse hne
          rw [huse] at hne
          cases hne
      obtain ⟨info, hinfo⟩ := pick_ok h.tried ht (draws.index i)
      rw [hinfo]
      exact hrest info
    · rename_i huse
      simp only [Bool.or_eq_true, not_or, Bool.not_eq_true] at huse
      obtain ⟨info, hinfo⟩ := pick_ok h.new huse.2 (draws.index i)
      rw [hinfo]
      exact hrest info

theorem KeysCovered.select (h : KeysCovered s) (draws : SelectDraws) : ∃ r, s.select draws = .ok r := by
  unfold AddressManager.select
  split
  · exact ⟨_, rfl⟩
  · rename_i hne
    exact selectLoop_ok h (Bool.not_eq_true _ ▸ hne) draws _ _ _

theorem feelerLoop_ok (h : KeysCovered s) (hne : s.new.isEmpty = false) (now : BitVec 32) (index : Nat → Nat) :
    ∀ rounds i, ∃ r, feelerLoop now s index rounds i = .ok r := by
  intro rounds
  induction rounds with
  | zero =>
    intro i
    obtain ⟨info, hinfo⟩ := pick_ok h.new hne (index i)
    exact ⟨info.address, by rw [feelerLoop, hinfo]; rfl⟩
  | succ rounds ih =>
    intro i
    obtain ⟨info, hinfo⟩ := pick_ok h.new hne (index i)
    rw [feelerLoop, hinfo]
    change ∃ r, (if info.lastTry = 0 ∨ now < info.lastTry ∨ FEELER_MIN_RETRY_SECONDS ≤ now - info.lastTry then _ else _) = _
    split
    · exact ⟨_, rfl⟩
    · exact ih (i + 1)

theorem KeysCovered.selectNewForFeeler (h : KeysCovered s) (now : BitVec 32) (index : Nat → Nat) :
    ∃ r, s.selectNewForFeeler now index = .ok r := by
  unfold AddressManager.selectNewForFeeler
  split
  · exact ⟨_, rfl⟩
  · rename_i hne
    obtain ⟨addr, haddr⟩ := feelerLoop_ok h (Bool.not_eq_true _ ▸ hne) now index 50 0
    exact ⟨some addr, by rw [haddr]; rfl⟩

/-! ## Runs -/

/-- A call that is no `Load`, or one of a clean file. -/
def LoadsClean : AddrOp → Prop
  | .load file => CleanFile file
  | _ => True

theorem TablesOk.step_iff (h : TablesOk s) (a : AddrOp) : TablesOk (s.step a) ↔ LoadsClean a := by
  cases a with
  | add now addr timestamp => exact iff_of_true (h.add now addr timestamp) trivial
  | addMultiple addresses =>
    exact iff_of_true (addMultiple_kept (fun _ now addr timestamp h => h.add now addr timestamp) h addresses) trivial
  | attempt now addr f => exact iff_of_true (h.attempt now addr f) trivial
  | good now addr => exact iff_of_true (h.good now addr) trivial
  | failed now addr => exact iff_of_true (h.failed now addr) trivial
  | cleanupStale now => exact iff_of_true (h.cleanupStale now) trivial
  | save => exact iff_of_true h trivial
  | load file => exact h.load_iff file

theorem KeysCovered.step (h : KeysCovered s) (a : AddrOp) : KeysCovered (s.step a) := by
  cases a with
  | add now addr timestamp => exact h.add now addr timestamp
  | addMultiple addresses => exact addMultiple_kept (fun _ now addr timestamp h => h.add now addr timestamp) h addresses
  | attempt now addr f => exact h.attempt now addr f
  | good now addr => exact h.good now addr
  | failed now addr => exact h.failed now addr
  | cleanupStale now => exact h.cleanupStale now
  | save => exact h
  | load file => exact h.load file

/-- From a new manager, the tables are in order after every call if and only if every file that is
loaded is clean. Whatever is loaded, selection never draws a position or a key that is not there. -/
theorem address_tables_iff (l : List AddrOp) :
    ((∀ l', l' <+: l → TablesOk (l'.foldl step {})) ↔ ∀ a ∈ l, LoadsClean a) ∧
    ∀ (draws : SelectDraws) (now : BitVec 32) (index : Nat → Nat),
      (∃ r, (l.foldl step {}).select draws = .ok r) ∧ ∃ r, (l.foldl step {}).selectNewForFeeler now index = .ok r := by
  refine ⟨Run.always_iff_forall TablesOk LoadsClean (tablesOk_empty 1) (fun _ a h => h.step_iff a) l, fun draws now index => ?_⟩
  have h : KeysCovered (l.foldl step {}) :=
    List.foldlRecOn l step (tablesOk_empty 1).covered (fun s h a _ => h.step a)
  exact ⟨h.select draws, h.selectNewForFeeler now index⟩

end

/-! ## A file with one address in both tables -/

/-- A record of 10.0.0.1, port 9590. -/
def peerRecord : Json :=
  serializeAddrInfo { address := { services := 1, ip := 0xffff0a000001, port := 9590 }, timestamp := 1700000000 }

def bothTablesFile : PeersFile :=
  .doc (.object [("version", .number 1), ("tried", .array [peerRecord]), ("new", .array [peerRecord])])

/-- Loading it puts the key into both tables. -/
theorem address_in_both_tables : ¬ ∀ l : List AddrOp, TablesOk (l.foldl step {}) := by
  intro h
  have hok := h [.load bothTablesFile]
  exact hok.apart (addrKey { services := 1, ip := 0xffff0a000001, port := 9590 }) (by decide +kernel) (by decide +kernel)

end AddressManager

end UnicityPow
