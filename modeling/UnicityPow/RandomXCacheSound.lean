import UnicityPow.RandomXCache
import UnicityPow.Sha256Sound

/-!
# Which virtual machines are kept, and under which keys

A thread keeps the virtual machines of the last two epochs it has asked for, and every virtual
machine that is handed out runs under the key of its epoch.
-/

namespace UnicityPow

namespace SimpleLRUCache

section
variable {Key Value : Type} [DecidableEq Key] {cache : SimpleLRUCache Key Value} {uses : List Key} {key : Key}

/-- The entries are those of the keys used last. -/
def Holds (cache : SimpleLRUCache Key Value) (uses : List Key) : Prop :=
  cache.entries.reverse.map Prod.fst = (Recency.order uses).take cache.maxSize

theorem Holds.nodup (h : cache.Holds uses) : (cache.entries.reverse.map Prod.fst).Nodup := by
  rw [h]
  exact (Recency.nodup_order uses).sublist (List.take_sublist _ _)

theorem Holds.mem_iff (h : cache.Holds uses) :
    key ∈ (Recency.order uses).take cache.maxSize ↔ ∃ value, (key, value) ∈ cache.entries := by
  rw [← h]
  simp

theorem Holds.get_none (h : cache.Holds uses) :
    (cache.get key).1 = none ↔ key ∉ (Recency.order uses).take cache.maxSize := by
  rw [h.mem_iff]
  unfold get
  cases hfind : cache.entries.reverse.find? (fun e => e.1 = key) with
  | none =>
    refine iff_of_true rfl ?_
    rintro ⟨value, hmem⟩
    simpa using List.find?_eq_none.mp hfind (key, value) (List.mem_reverse.mpr hmem)
  | some e =>
    refine iff_of_false (by simp) (fun hnone => hnone ⟨e.2, ?_⟩)
    have hkey : e.1 = key := by simpa using List.find?_some hfind
    rw [← hkey]
    exact List.mem_reverse.mp (List.mem_of_find?_eq_some hfind)

/-- A hit uses the key. -/
theorem Holds.get (h : cache.Holds uses) {value : Value} (hvalue : (cache.get key).1 = some value) :
    (cache.get key).2.Holds (key :: uses) ∧ (key, value) ∈ cache.entries ∧
      (∀ e ∈ (cache.get key).2.entries, e ∈ cache.entries) ∧ (cache.get key).2.maxSize = cache.maxSize := by
  have hmem : key ∈ (Recency.order uses).take cache.maxSize := by
    by_contra hnotMem
    rw [h.get_none.mpr hnotMem] at hvalue
    cases hvalue
  unfold SimpleLRUCache.get at hvalue ⊢
  cases hfind : cache.entries.reverse.find? (fun e => e.1 = key) with
  | none =>
    rw [hfind] at hvalue
    cases hvalue
  | some e =>
    rw [hfind] at hvalue
    obtain rfl := Option.some.inj hvalue
    have hkey : e.1 = key := by simpa using List.find?_some hfind
    have he : e ∈ cache.entries := List.mem_reverse.mp (List.mem_of_find?_eq_some hfind)
    refine ⟨?_, hkey ▸ he, fun e' he' => ?_, rfl⟩
    · unfold Holds
      dsimp only
      rw [Recency.take_order_of_mem hmem, ← h, List.reverse_append, List.reverse_reverse,
        Recency.eraseP_eq_filter key h.nodup, List.filter_map]
      exact congrArg (fun k => k :: _) hkey
    · rcases List.mem_append.mp he' with he' | he'
      · exact List.mem_reverse.mp (List.mem_of_mem_eraseP (List.mem_reverse.mp he'))
      · rwa [List.mem_singleton.mp he']

/-- An insertion after a miss uses the key. -/
theorem Holds.insert (h : cache.Holds uses) (hpos : 0 < cache.maxSize)
    (hmiss : key ∉ (Recency.order uses).take cache.maxSize) (value : Value) :
    (cache.insert key value).Holds (key :: uses) ∧
      ∀ e ∈ (cache.insert key value).entries, e = (key, value) ∨ e ∈ cache.entries := by
  obtain ⟨n, hn⟩ := Nat.exists_eq_add_of_lt hpos
  rw [Nat.zero_add] at hn
  have herase : cache.entries.eraseP (fun e => e.1 = key) = cache.entries := by
    refine List.eraseP_of_forall_not fun e he => ?_
    simp only [decide_eq_true_eq]
    rintro rfl
    exact hmiss (h.mem_iff.mpr ⟨e.2, he⟩)
  unfold SimpleLRUCache.insert
  rw [herase]
  dsimp only
  constructor
  · unfold Holds at h ⊢
    dsimp only
    rw [hn] at h hmiss ⊢
    rw [Recency.take_order_of_notMem hmiss, List.reverse_append, List.reverse_singleton, List.singleton_append,
      List.map_cons]
    refine congrArg (fun l => key :: l) ?_
    have hlen := congrArg List.length h
    rw [List.length_map, List.length_reverse, List.length_take] at hlen
    split
    · -- the first entry goes, which was used before all others
      rw [List.reverse_drop, List.map_take, h, List.take_take,
        show min (cache.entries.length - 1) (n + 1) = n by omega]
    · rw [h, List.take_of_length_le (by omega), List.take_of_length_le (by omega)]
  · intro e he
    rcases List.mem_append.mp he with he | he
    · right
      split at he
      · exact List.mem_of_mem_drop he
      · exact he
    · exact .inl (List.mem_singleton.mp he)

theorem Holds.size_le (h : cache.Holds uses) : cache.size ≤ cache.maxSize := by
  have hlen := congrArg List.length h
  rw [List.length_map, List.length_reverse, List.length_take] at hlen
  unfold size
  omega

end

end SimpleLRUCache

/-! ## Keys -/

/-- The key of an epoch. -/
def seed (nEpoch : BitVec 32) : Uint256 := readBE 256 (Fips180.sha256 (Fips180.sha256 (seedData nEpoch)))

theorem getSeedHash_eq (buf buf' : Vector UInt8 64) (nEpoch : BitVec 32) :
    getSeedHash buf buf' nEpoch = seed nEpoch := by
  unfold getSeedHash seed doubleSha256
  rw [sha256_eq, sha256_eq]

theorem eq_of_bytes {a b : String} (h : a.toByteArray.data.toList = b.toByteArray.data.toList) : a = b :=
  String.toByteArray_inj.mp (ByteArray.ext (Array.toList_inj.mp h))

theorem append_cancel {start a b : String} (h : start ++ a = start ++ b) : a = b := by
  have hlist := congrArg String.toList h
  rw [String.toList_append, String.toList_append] at hlist
  exact String.toList_inj.mp (List.append_cancel_left hlist)

theorem seedData_injective : Function.Injective seedData := fun e e' h => by
  have hstring : seedString e = seedString e' := by
    unfold seedData at h
    generalize seedString e = a at h ⊢
    generalize seedString e' = b at h ⊢
    exact eq_of_bytes h
  have hrepr : e.toInt.repr = e'.toInt.repr := by
    unfold seedString at hstring
    generalize "Alpha/RandomX/Epoch/" = start at hstring
    exact append_cancel hstring
  exact BitVec.eq_of_toInt_eq (Int.repr_injective hrepr)

theorem seed_eq_iff {e e' : BitVec 32} :
    seed e = seed e' ↔ e = e' ∨ CBlockHeader.IsCollision (seedData e) (seedData e') ∨
      CBlockHeader.IsCollision (Fips180.sha256 (seedData e)) (Fips180.sha256 (seedData e')) := by
  constructor
  · intro h
    have houter : Fips180.sha256 (Fips180.sha256 (seedData e)) = Fips180.sha256 (Fips180.sha256 (seedData e')) := by
      have hbytes := congrArg (writeBE 32) h
      unfold seed at hbytes
      rwa [writeBE_readBE (by decide) (length_sha256 _),
        writeBE_readBE (by decide) (length_sha256 _)] at hbytes
    by_cases hinner : Fips180.sha256 (seedData e) = Fips180.sha256 (seedData e')
    · by_cases hdata : seedData e = seedData e'
      · exact Or.inl (seedData_injective hdata)
      · exact Or.inr (Or.inl ⟨hdata, hinner⟩)
    · exact Or.inr (Or.inr ⟨hinner, houter⟩)
  · unfold seed
    rintro (rfl | ⟨-, h⟩ | ⟨-, h⟩)
    · rfl
    · rw [h]
    · rw [h]

namespace RandomXState

/-! ## Runs -/

/-- A cache of the right size that holds the epochs used last, each under its key. -/
structure Stocked {Value : Type} (keyOf : Value → Uint256) (cache : SimpleLRUCache (BitVec 32) Value)
    (uses : List (BitVec 32)) : Prop where
  maxSize : cache.maxSize = DEFAULT_RANDOMX_VM_CACHE_SIZE
  holds : cache.Holds uses
  keyed : ∀ e ∈ cache.entries, keyOf e.2 = seed e.1

section
variable {Value : Type} {keyOf : Value → Uint256} {cache : SimpleLRUCache (BitVec 32) Value}
  {uses : List (BitVec 32)} {nEpoch : BitVec 32}

theorem Stocked.get (h : Stocked keyOf cache uses) {value : Value} (hvalue : (cache.get nEpoch).1 = some value) :
    Stocked keyOf (cache.get nEpoch).2 (nEpoch :: uses) ∧ keyOf value = seed nEpoch := by
  obtain ⟨hholds, hmem, hsub, hsize⟩ := h.holds.get hvalue
  exact ⟨⟨hsize.trans h.maxSize, hholds, fun e he => h.keyed e (hsub e he)⟩, h.keyed _ hmem⟩

theorem Stocked.insert (h : Stocked keyOf cache uses) (hmiss : (cache.get nEpoch).1 = none) (value : Value)
    (hkey : keyOf value = seed nEpoch) : Stocked keyOf (cache.insert nEpoch value) (nEpoch :: uses) := by
  obtain ⟨hholds, hmem⟩ := h.holds.insert (by rw [h.maxSize]; decide) (h.holds.get_none.mp hmiss) value
  refine ⟨h.maxSize, hholds, fun e he => ?_⟩
  rcases hmem e he with rfl | he
  · exact hkey
  · exact h.keyed e he

theorem Stocked.clear (h : Stocked keyOf cache uses) : Stocked keyOf cache.clear [] :=
  ⟨h.maxSize, List.take_nil.symm, fun e he => by cases he⟩

end

structure Ok (s : RandomXState) : Prop where
  vms : ∀ thread, Stocked (fun vm : RandomXVMWrapper => vm.cache.key) (s.vmCache thread) (s.served thread)
  caches : ∀ thread, ∃ uses, Stocked RandomXCacheWrapper.key (s.cacheStorage thread) uses

variable {s : RandomXState} {thread : ThreadId} {nEpoch : BitVec 32} {env : RandomXEnv}

theorem Ok.withCache (h : Ok s) (thread : ThreadId) {storage : SimpleLRUCache (BitVec 32) RandomXCacheWrapper}
    {uses : List (BitVec 32)} (hstorage : Stocked RandomXCacheWrapper.key storage uses) :
    Ok { s with cacheStorage := Function.update s.cacheStorage thread storage } where
  vms := h.vms
  caches t := by
    by_cases ht : t = thread
    · subst ht
      exact ⟨uses, by simpa only [Function.update_self] using hstorage⟩
    · simpa only [Function.update_of_ne ht] using h.caches t

theorem Ok.withVM (h : Ok s) (thread : ThreadId) {vms : SimpleLRUCache (BitVec 32) RandomXVMWrapper}
    {uses : List (BitVec 32)} (n : Nat) (hvms : Stocked (fun vm : RandomXVMWrapper => vm.cache.key) vms uses) :
    Ok { s with
      vmCache := Function.update s.vmCache thread vms
      created := n
      served := Function.update s.served thread uses } where
  vms t := by
    by_cases ht : t = thread
    · subst ht
      simpa only [Function.update_self] using hvms
    · simpa only [Function.update_of_ne ht] using h.vms t
  caches := h.caches

/-- The cache of an epoch is made under its key, and nothing but the thread's caches changes. -/
theorem cacheOf_spec (h : Ok s) (thread : ThreadId) (nEpoch : BitVec 32) (env : RandomXEnv) :
    ∃ storage uses, Stocked RandomXCacheWrapper.key storage uses ∧
    (s.cacheOf thread nEpoch env).1 = { s with cacheStorage := Function.update s.cacheStorage thread storage } ∧
    ∀ cache, (s.cacheOf thread nEpoch env).2 = .ok cache → cache.key = seed nEpoch := by
  obtain ⟨uses, hstocked⟩ := h.caches thread
  unfold cacheOf
  cases hget : (s.cacheStorage thread).get nEpoch with
  | mk hit storage =>
    cases hit with
    | some cache =>
      obtain ⟨hstorage, hkey⟩ := hstocked.get (congrArg Prod.fst hget)
      rw [hget] at hstorage
      refine ⟨storage, _, hstorage, rfl, fun c hc => ?_⟩
      obtain rfl := Except.ok.inj hc
      exact hkey
    | none =>
      dsimp only
      split
      · have hmade := getSeedHash_eq env.buf env.buf' nEpoch
        refine ⟨_, _, hstocked.insert (congrArg Prod.fst hget) _ hmade, rfl, fun c hc => ?_⟩
        obtain rfl := Except.ok.inj hc
        exact hmade
      · refine ⟨_, _, hstocked, ?_, fun c hc => by cases hc⟩
        rw [Function.update_eq_self]

/-- A call of `CreateVMForEpoch`. -/
theorem Ok.createVMForEpoch (h : Ok s) : Ok (s.createVMForEpoch thread nEpoch env).1 ∧
    ∀ vm, (s.createVMForEpoch thread nEpoch env).2 = .ok vm → vm.cache.key = seed nEpoch := by
  unfold RandomXState.createVMForEpoch
  split
  · exact ⟨h, fun vm hvm => by cases hvm⟩
  obtain ⟨storage, uses, hstorage, hstate, hkey⟩ := cacheOf_spec h thread nEpoch env
  have hok := h.withCache thread hstorage
  rw [← hstate] at hok
  generalize s.cacheOf thread nEpoch env = result at hok hkey
  obtain ⟨s', cache | cache⟩ := result
  · exact ⟨hok, fun vm hvm => by cases hvm⟩
  · dsimp only at hok hkey ⊢
    split
    · refine ⟨⟨hok.vms, hok.caches⟩, fun vm hvm => ?_⟩
      obtain rfl := Except.ok.inj hvm
      exact hkey cache rfl
    · exact ⟨hok, fun vm hvm => by cases hvm⟩

/-- A call of `GetCachedVM`: it makes no virtual machine exactly if the epoch is one of the last two. -/
theorem Ok.getCachedVM (h : Ok s) : Ok (s.getCachedVM thread nEpoch env).1 ∧
    (∀ vm, (s.getCachedVM thread nEpoch env).2 = .ok vm → vm.cache.key = seed nEpoch) ∧
    (((s.getCachedVM thread nEpoch env).1.created = s.created ∧
        ∃ vm, (s.getCachedVM thread nEpoch env).2 = .ok vm) ↔
      s.initialized = true ∧
        nEpoch ∈ (Recency.order (s.served thread)).take DEFAULT_RANDOMX_VM_CACHE_SIZE) := by
  have hvms := h.vms thread
  unfold RandomXState.getCachedVM
  by_cases hinit : s.initialized = true
  swap
  · rw [if_pos (show (!s.initialized) = true by simp [hinit])]
    refine ⟨h, fun vm hvm => (by cases hvm), iff_of_false ?_ (fun htrue => hinit htrue.1)⟩
    rintro ⟨-, vm, hvm⟩
    cases hvm
  rw [if_neg (show ¬ (!s.initialized) = true by simp [hinit]), ← hvms.maxSize, and_iff_right hinit]
  cases hget : (s.vmCache thread).get nEpoch with
  | mk hit vms =>
    cases hit with
    | some vm =>
      obtain ⟨hstocked, hkey⟩ := hvms.get (congrArg Prod.fst hget)
      rw [hget] at hstocked
      dsimp only
      refine ⟨h.withVM thread s.created hstocked, fun vm' hvm' => ?_, iff_of_true ⟨rfl, vm, rfl⟩ ?_⟩
      · obtain rfl := Except.ok.inj hvm'
        exact hkey
      · by_contra hmiss
        have hnone := hvms.holds.get_none.mpr hmiss
        rw [hget] at hnone
        cases hnone
    | none =>
      have hmiss := hvms.holds.get_none.mp (congrArg Prod.fst hget)
      obtain ⟨storage, uses, hstorage, hstate, hkey⟩ :=
        cacheOf_spec h thread nEpoch env
      have hok := h.withCache thread hstorage
      have hsame : (s.cacheOf thread nEpoch env).1.vmCache = s.vmCache ∧
          (s.cacheOf thread nEpoch env).1.created = s.created ∧
          (s.cacheOf thread nEpoch env).1.served = s.served := by
        rw [hstate]
        exact ⟨rfl, rfl, rfl⟩
      rw [← hstate] at hok
      generalize s.cacheOf thread nEpoch env = result at hok hkey hsame
      obtain ⟨s', cache | cache⟩ := result
      · refine ⟨hok, fun vm hvm => (by cases hvm), iff_of_false ?_ hmiss⟩
        rintro ⟨-, vm, hvm⟩
        cases hvm
      · dsimp only at hok hkey hsame ⊢
        obtain ⟨hvmCache, hcreated, hserved⟩ := hsame
        split
        · have hstocked := hvms.insert (congrArg Prod.fst hget) ⟨s'.created, cache⟩ (hkey cache rfl)
          rw [← hvmCache, ← hserved] at hstocked
          refine ⟨hok.withVM thread (s'.created + 1) hstocked, fun vm hvm => ?_, iff_of_false ?_ hmiss⟩
          · obtain rfl := Except.ok.inj hvm
            exact hkey cache rfl
          · rintro ⟨hsucc, -⟩
            exact absurd (hsucc.trans hcreated.symm) (Nat.succ_ne_self _)
        · refine ⟨hok, fun vm hvm => (by cases hvm), iff_of_false ?_ hmiss⟩
          rintro ⟨-, vm, hvm⟩
          cases hvm

theorem Ok.shutdownRandomX (h : Ok s) : Ok (s.shutdownRandomX thread) := by
  unfold RandomXState.shutdownRandomX
  split
  · obtain ⟨uses, hstorage⟩ := h.caches thread
    have hcleared := (h.withCache thread hstorage.clear).withVM thread s.created
      (h.vms thread).clear
    exact ⟨hcleared.vms, hcleared.caches⟩
  · exact h

theorem Ok.step (h : Ok s) (op : RandomXOp) : Ok (s.step op) := by
  cases op with
  | initRandomX => exact ⟨h.vms, h.caches⟩
  | shutdownRandomX thread => exact h.shutdownRandomX
  | getCachedVM thread nEpoch env => exact h.getCachedVM.1
  | createVMForEpoch thread nEpoch env => exact h.createVMForEpoch.1

theorem ok_fresh : Ok {} where
  vms _ := ⟨rfl, rfl, fun e he => by cases he⟩
  caches _ := ⟨[], rfl, rfl, fun e he => by cases he⟩

theorem ok_run (ops : List RandomXOp) : Ok (run ops) := by
  unfold run
  induction ops using List.reverseRecOn with
  | nil => exact ok_fresh
  | append_singleton ops op ih =>
    rw [List.foldl_append]
    exact ih.step op

/-- In every run a call makes no virtual machine exactly if its epoch is one of the last two that the thread
was served, and no thread keeps more than two of anything. -/
theorem getCachedVM_reuses_iff (ops : List RandomXOp) (thread : ThreadId) (nEpoch : BitVec 32) (env : RandomXEnv) :
    ((((run ops).getCachedVM thread nEpoch env).1.created = (run ops).created ∧
        ∃ vm, ((run ops).getCachedVM thread nEpoch env).2 = .ok vm) ↔
      (run ops).initialized = true ∧
        nEpoch ∈ (Recency.order ((run ops).served thread)).take DEFAULT_RANDOMX_VM_CACHE_SIZE) ∧
    ((run ops).vmCache thread).size ≤ DEFAULT_RANDOMX_VM_CACHE_SIZE ∧
      ((run ops).cacheStorage thread).size ≤ DEFAULT_RANDOMX_VM_CACHE_SIZE := by
  have h := ok_run ops
  obtain ⟨uses, hstorage⟩ := h.caches thread
  exact ⟨h.getCachedVM.2.2, (h.vms thread).maxSize ▸ (h.vms thread).holds.size_le,
    hstorage.maxSize ▸ hstorage.holds.size_le⟩

/-- A call hands out the virtual machine for the epoch. -/
def HandsOut (s : RandomXState) (nEpoch : BitVec 32) (vm : RandomXVMWrapper) : Prop :=
  ∃ thread env, (s.getCachedVM thread nEpoch env).2 = .ok vm ∨ (s.createVMForEpoch thread nEpoch env).2 = .ok vm

theorem HandsOut.key {ops : List RandomXOp} {vm : RandomXVMWrapper} (h : HandsOut (run ops) nEpoch vm) :
    vm.cache.key = seed nEpoch := by
  obtain ⟨thread, env, h | h⟩ := h
  · exact (ok_run ops).getCachedVM.2.1 vm h
  · exact (ok_run ops).createVMForEpoch.2 vm h

/-- Whatever two nodes have done before, their virtual machines run under one key for one epoch, and for two
epochs only as a collision of one of the two hashes. -/
theorem key_eq_iff {ops ops' : List RandomXOp} {e e' : BitVec 32} {vm vm' : RandomXVMWrapper}
    (h : HandsOut (run ops) e vm) (h' : HandsOut (run ops') e' vm') :
    vm.cache.key = vm'.cache.key ↔ e = e' ∨ CBlockHeader.IsCollision (seedData e) (seedData e') ∨
      CBlockHeader.IsCollision (Fips180.sha256 (seedData e)) (Fips180.sha256 (seedData e')) := by
  rw [h.key, h'.key]
  exact seed_eq_iff

/-- What the hashers' buffers hold does not matter. -/
def someEnv : RandomXEnv := { buf := Vector.replicate 64 0, buf' := Vector.replicate 64 7 }

def firstVM (nEpoch : BitVec 32) : RandomXVMWrapper := ⟨0, ⟨getSeedHash someEnv.buf someEnv.buf' nEpoch⟩⟩

theorem handsOut_firstVM (nEpoch : BitVec 32) : HandsOut (run [.initRandomX]) nEpoch (firstVM nEpoch) :=
  ⟨0, someEnv, .inl rfl⟩

theorem key_eq_iff_first :
    (firstVM 0).cache.key = (firstVM 1).cache.key ↔ (0 : BitVec 32) = 1 ∨
      CBlockHeader.IsCollision (seedData 0) (seedData 1) ∨
      CBlockHeader.IsCollision (Fips180.sha256 (seedData 0)) (Fips180.sha256 (seedData 1)) :=
  key_eq_iff (handsOut_firstVM 0) (handsOut_firstVM 1)

end RandomXState

end UnicityPow
