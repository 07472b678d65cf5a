import UnicityPow.AddrSound

/-!
# The file of a manager's own

`Save` writes the records of a table without their keys and without the flag; `Load` finds both
again, the key from the address and the flag from the table. In every state that calls lead to, also
after a `Load` of any file, the tables are filed in this way, so that nothing is lost.
-/

namespace UnicityPow

open KeyList

/-- The entry stands under the key of its address and has the flag of its table. -/
structure FiledAs (tried : Bool) (k : AddrKey) (info : AddrInfo) : Prop where
  key : k = addrKey info.address
  flag : info.tried = tried

theorem FiledAs.congr {tried : Bool} {k : AddrKey} {info info' : AddrInfo} (h : FiledAs tried k info)
    (h' : info'.address = info.address ∧ info'.tried = info.tried) : FiledAs tried k info' :=
  ⟨by rw [h'.1]; exact h.key, by rw [h'.2]; exact h.flag⟩

theorem EntryOk.filedAs {tried : Bool} {k : AddrKey} {info : AddrInfo} (h : EntryOk tried k info) :
    FiledAs tried k info := ⟨h.key, h.flag⟩

namespace AddressManager

/-- Apart from the forms of the addresses, and from addresses that are in both tables. -/
structure Filed (s : AddressManager) : Prop where
  tried : Every (FiledAs true) s.tried
  new : Every (FiledAs false) s.new

variable {s : AddressManager}

theorem TablesOk.filed (h : TablesOk s) : Filed s :=
  ⟨Every.mono h.triedEntries fun _ _ => EntryOk.filedAs, Every.mono h.newEntries fun _ _ => EntryOk.filedAs⟩

/-! ## What is written is read -/

theorem ofInt_toNat {w : Nat} (v : BitVec w) : BitVec.ofInt w v.toNat = v := by
  rw [BitVec.ofInt_natCast, BitVec.ofNat_toNat, BitVec.setWidth_eq]

theorem readIp_bytes (bytes : List UInt8) (hlen : bytes.length = 16) :
    readIp (.array (bytes.map (fun b => .number b.toNat))) = .ok bytes := by
  have hmap : ∀ l : List UInt8, (l.map (fun b => Json.number b.toNat)).mapM
      (fun b => do return UInt8.ofNat (BitVec.ofInt 8 (← b.getInt)).toNat) = (.ok l : Except LoadStop (List UInt8)) := by
    intro l
    induction l with
    | nil => rfl
    | cons b l ih =>
      rw [List.map_cons, List.mapM_cons, ih]
      have hb : UInt8.ofNat (BitVec.ofInt 8 b.toNat).toNat = b := by
        have := ofInt_toNat b.toBitVec
        change UInt8.ofNat (BitVec.ofInt 8 b.toBitVec.toNat).toNat = b
        rw [this]
        exact UInt8.ofNat_toNat
      change (.ok (UInt8.ofNat (BitVec.ofInt 8 b.toNat).toNat :: l) : Except LoadStop (List UInt8)) = _
      rw [hb]
  unfold readIp
  dsimp only
  rw [if_neg (by simp [hlen]), hmap]

theorem deserialize_serialize (info : AddrInfo) :
    deserializeAddrInfo (serializeAddrInfo info) = .ok { info with tried := false } := by
  have hip : readIp ((serializeAddrInfo info).read "ip") = .ok (writeBE 16 info.address.ip) :=
    readIp_bytes (writeBE 16 info.address.ip) (writeBE_length 16 _)
  have hread : deserializeAddrInfo (serializeAddrInfo info) = (do
      let ip ← readIp ((serializeAddrInfo info).read "ip")
      return {
        address := {
          services := BitVec.ofInt 64 info.address.services.toNat
          ip := readBE 128 ip
          port := BitVec.ofInt 16 info.address.port.toNat }
        timestamp := BitVec.ofInt 32 info.timestamp.toNat
        lastTry := BitVec.ofInt 32 info.lastTry.toNat
        lastCountAttempt := BitVec.ofInt 32 info.lastCountAttempt.toNat
        lastSuccess := BitVec.ofInt 32 info.lastSuccess.toNat
        attempts := BitVec.ofInt 32 info.attempts.toInt }) := rfl
  rw [hread, hip]
  simp only [ofInt_toNat, BitVec.ofInt_toInt]
  change (.ok _ : Except LoadStop AddrInfo) = _
  rw [readBE_writeBE (Nat.le_refl 128)]

theorem readTable_saved {table : AddrTable} {tried : Bool} (h : Every (FiledAs tried) table) {root : Json} {key : String}
    (hroot : root.field key = some (.array (table.toList.map (fun kv => serializeAddrInfo kv.2)))) :
    readTable root key tried = table.toList.map Prod.snd := by
  unfold readTable
  rw [hroot]
  dsimp only [Json.elements]
  rw [List.filterMap_map]
  have hall : ∀ kv ∈ table.toList, (fun kv : AddrKey × AddrInfo =>
      ((deserializeAddrInfo (serializeAddrInfo kv.2)).toOption.map (fun info => { info with tried }))) kv = some kv.2 := by
    intro kv hkv
    have hok := h kv.1 kv.2 (Std.ExtTreeMap.mem_toList_iff_getElem?_eq_some.mp hkv)
    dsimp only
    rw [deserialize_serialize]
    change some { kv.2 with tried := tried } = some kv.2
    rw [← hok.flag]
  rw [← List.filterMap_eq_map]
  exact List.filterMap_congr hall

theorem insertAll_toList {table : AddrTable} {tried : Bool} (h : Every (FiledAs tried) table) :
    insertAll (table.toList.map Prod.snd) ∅ = table := by
  refine Std.ExtTreeMap.ext_getElem? fun k => ?_
  have hmem : ∀ info ∈ table.toList.map Prod.snd, table[addrKey info.address]? = some info := by
    intro info hinfo
    obtain ⟨kv, hkv, rfl⟩ := List.mem_map.mp hinfo
    have hget := Std.ExtTreeMap.mem_toList_iff_getElem?_eq_some.mp hkv
    rwa [(h _ _ hget).key] at hget
  cases hk : (insertAll (table.toList.map Prod.snd) ∅)[k]? with
  | some info =>
    rcases insertAll_get _ _ k info hk with hk | ⟨hinfo, rfl⟩
    · simp at hk
    · exact (hmem info hinfo).symm
  | none =>
    cases ht : table[k]? with
    | none => rfl
    | some info =>
      have hin : k ∈ insertAll (table.toList.map Prod.snd) ∅ := (mem_insertAll _ _ _).mpr (.inr
        ⟨info, List.mem_map.mpr ⟨(k, info), Std.ExtTreeMap.mem_toList_iff_getElem?_eq_some.mpr ht, rfl⟩, (h k info ht).key⟩)
      rw [Std.ExtTreeMap.mem_iff_isSome_getElem?, hk] at hin
      cases hin

/-- What a manager saves, any manager loads back: the same tables and the same last success. -/
theorem Filed.load_save (h : Filed s) (t : AddressManager) : t.load s.save = (s.rebuildKeyVectors, true) := by
  obtain ⟨root, hroot⟩ : ∃ root, s.save = .doc root := ⟨_, rfl⟩
  have htried : root.field "tried" = some (.array (s.tried.toList.map (fun kv => serializeAddrInfo kv.2))) := by
    cases hroot
    rfl
  have hnew : root.field "new" = some (.array (s.new.toList.map (fun kv => serializeAddrInfo kv.2))) := by
    cases hroot
    rfl
  have hdoc : t.loadDoc root = .ok (rebuildKeyVectors
      { t with
        mLastGood := BitVec.ofInt 32 s.mLastGood.toNat
        tried := insertAll (readTable root "tried" true) ∅
        new := insertAll (readTable root "new" false) ∅ }) := by
    cases hroot
    rfl
  rw [hroot]
  unfold load
  dsimp only
  rw [hdoc, ofInt_toNat, readTable_saved h.tried htried, readTable_saved h.new hnew,
    insertAll_toList h.tried, insertAll_toList h.new]
  rfl

theorem TablesOk.cleanFile_save (h : TablesOk s) : CleanFile s.save := by
  rw [← (tablesOk_empty 1).load_iff, h.filed.load_save]
  exact ⟨h.apart, h.triedEntries, h.newEntries, lists_keys _, lists_keys _⟩

/-! ## What the calls keep -/

theorem Filed.modifyTried (h : Filed s) (k : AddrKey) {f : AddrInfo → AddrInfo}
    (hf : ∀ info, (f info).address = info.address ∧ (f info).tried = info.tried) :
    Filed { s with tried := s.tried.modify k f } :=
  ⟨h.tried.modify k fun _ info hk => hk.congr (hf info), h.new⟩

theorem Filed.modifyNew (h : Filed s) (k : AddrKey) {f : AddrInfo → AddrInfo}
    (hf : ∀ info, (f info).address = info.address ∧ (f info).tried = info.tried) :
    Filed { s with new := s.new.modify k f } :=
  ⟨h.tried, h.new.modify k fun _ info hk => hk.congr (hf info)⟩

theorem Filed.add (h : Filed s) (now : BitVec 32) (addr : NetworkAddress) (timestamp : BitVec 32) :
    Filed (s.add now addr timestamp).1 := by
  rcases add_cases s now addr timestamp with he | ⟨k, effTs, he⟩ | ⟨k, effTs, he⟩ | ⟨info, -, -, -, hflag, he⟩ <;> rw [he]
  · exact h
  · exact h.modifyTried k (refreshTimestamp_address effTs)
  · exact h.modifyNew k (refreshTimestamp_address effTs)
  · exact ⟨h.tried, h.new.insert ⟨rfl, hflag⟩⟩

theorem Filed.attempt (h : Filed s) (now : BitVec 32) (addr : NetworkAddress) (f : Bool) : Filed (s.attempt now addr f) := by
  unfold AddressManager.attempt
  dsimp only
  split
  · exact h.modifyNew _ (attempted_kept now s.mLastGood f)
  · exact h.modifyTried _ (attempted_kept now s.mLastGood f)

theorem Filed.good (h : Filed s) (now : BitVec 32) (addr : NetworkAddress) : Filed (s.good now addr) := by
  unfold AddressManager.good
  dsimp only
  split
  · rename_i info hk
    -- the record moves to the tried table under the key that it had
    exact ⟨h.tried.insert ⟨(h.new _ info hk).key, rfl⟩, h.new.erase _⟩
  · exact ⟨h.tried.modify _ fun _ info hk => hk.congr ⟨rfl, rfl⟩, h.new⟩

theorem Filed.failed (h : Filed s) (now : BitVec 32) (addr : NetworkAddress) : Filed (s.failed now addr) := by
  unfold AddressManager.failed
  dsimp only
  split
  · rename_i info hk
    split
    · exact ⟨h.tried, h.new.erase _⟩
    · exact ⟨h.tried, h.new.insert ((h.new _ info hk).congr ⟨rfl, rfl⟩)⟩
  · split
    · exact h
    · rename_i info hk
      split
      · exact ⟨h.tried.erase _, h.new.insert ⟨(h.tried _ info hk).key, rfl⟩⟩
      · exact ⟨h.tried.insert ((h.tried _ info hk).congr ⟨rfl, rfl⟩), h.new⟩

theorem Filed.cleanupStale (h : Filed s) (now : BitVec 32) : Filed (s.cleanupStale now) := by
  unfold AddressManager.cleanupStale
  dsimp only
  split
  · refine ⟨h.tried, h.new.of_sub fun k info hk => ?_⟩
    change (s.new.filter _)[k]? = some info at hk
    rw [Tally.getElem?_filter] at hk
    exact (Option.filter_eq_some_iff.mp hk).1
  · exact h

/-- The records of a table of any file are filed as they are read. -/
theorem every_insertAll (root : Json) (key : String) (tried : Bool) :
    Every (FiledAs tried) (insertAll (readTable root key tried) ∅) := by
  intro k info hk
  rcases insertAll_get _ _ k info hk with hk | ⟨hmem, hkey⟩
  · simp at hk
  · exact ⟨hkey, readTable_flag hmem⟩

theorem Filed.load (h : Filed s) (file : PeersFile) : Filed (s.load file).1 := by
  rcases load_cases s file with ⟨he, -⟩ | ⟨he, -⟩ | ⟨root, lastGood, rfl, -, he⟩ <;> rw [he]
  · exact h
  · exact ⟨every_empty _, every_empty _⟩
  · exact ⟨every_insertAll root "tried" true, every_insertAll root "new" false⟩

theorem Filed.step (h : Filed s) (a : AddrOp) : Filed (s.step a) := by
  cases a with
  | add now addr timestamp => exact h.add now addr timestamp
  | addMultiple addresses => exact addMultiple_kept (fun _ now addr timestamp h => h.add now addr timestamp) h addresses
  | attempt now addr f => exact h.attempt now addr f
  | good now addr => exact h.good now addr
  | failed now addr => exact h.failed now addr
  | cleanupStale now => exact h.cleanupStale now
  | save => exact h
  | load file => exact h.load file

/-- After any calls on a new manager, also after loading a file of another's making, what is saved
and then loaded by a new manager gives the same tables and the same last success. -/
theorem tables_survive_restart (l : List AddrOp) :
    ∃ t, ({} : AddressManager).load (l.foldl step {}).save = (t, true) ∧ t.tried = (l.foldl step {}).tried ∧
      t.new = (l.foldl step {}).new ∧ t.mLastGood = (l.foldl step {}).mLastGood := by
  have h : Filed (l.foldl step {}) := List.foldlRecOn l step (tablesOk_empty 1).filed (fun s h a _ => h.step a)
  exact ⟨_, h.load_save {}, rfl, rfl, rfl⟩

end AddressManager

end UnicityPow
