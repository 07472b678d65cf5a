import UnicityPow.EchoSound
import UnicityPow.Shedding

/-!
# The capacity of a learned map

The eviction of `HandleAddr` erases the 1800 oldest entries of a map that has more than 2200. A map
has at most 2200 entries between messages and gains at most 1000 with one, so that no eviction
leaves 1800.
-/

namespace UnicityPow

open KeyList Shedding

/-! ## One update -/

namespace LearnedMap

/-- `after` has `n` entries of `before`, the newest. -/
structure KeepsNewest (n : Nat) (before after : LearnedMap) : Prop where
  size : after.size = n
  newest : ∀ (k : AddrKey) (e : LearnedEntry) (k' : AddrKey) (e' : LearnedEntry), after[k]? = some e →
    before[k']? = some e' → k' ∉ after → e'.lastSeenS ≤ e.lastSeenS

section
variable {learned : LearnedMap} {order : Shuffle} {nowS : Int} {accepted : List TimestampedAddress}

theorem overCap_iff : learned.overCap = true ↔ 2200 < learned.size := decide_eq_true_iff

theorem evict_of_le (h : learned.size ≤ 2200) : learned.evict order = learned := by
  unfold evict
  rw [if_neg]
  rw [overCap_iff]
  omega

variable (order) in
theorem sheds_evict (h : 2200 < learned.size) :
    Sheds LearnedEntry.lastSeenS 1800 learned (learned.evict order) := by
  unfold evict
  rw [if_pos (overCap_iff.mpr h)]
  have hperm := (List.mergeSort_perm (order.run learned.toList) fun a b =>
    decide (a.2.lastSeenS ≤ b.2.lastSeenS)).trans (order.perm learned.toList)
  refine sheds_take hperm ?_ (by omega)
  refine (List.pairwise_mergeSort ?_ ?_ (order.run learned.toList)).imp of_decide_eq_true
  · intro a b d hab hbd
    simp only [decide_eq_true_eq] at *
    omega
  · intro a b
    simp only [Bool.or_eq_true, decide_eq_true_eq]
    omega

/-- What the eviction leaves, if it runs, was seen last. -/
theorem newest_evict (order : Shuffle) (learned : LearnedMap) (k : AddrKey) (e : LearnedEntry) (k' : AddrKey)
    (e' : LearnedEntry) (hk : (learned.evict order)[k]? = some e) (hk' : learned[k']? = some e')
    (hout : k' ∉ learned.evict order) : e'.lastSeenS ≤ e.lastSeenS := by
  rcases Nat.lt_or_ge 2200 learned.size with h | h
  · exact (sheds_evict order h).later k e k' e' hk hk' hout
  · rw [evict_of_le h] at hk hout
    exact (sheds_refl LearnedEntry.lastSeenS learned).later k e k' e' hk hk' hout

theorem mem_foldl_insertOne (k : AddrKey) : ∀ (accepted : List TimestampedAddress) (learned : LearnedMap),
    k ∈ accepted.foldl (insertOne nowS) learned ↔ k ∈ learned ∨ k ∈ accepted.map (fun ta => addrKey ta.address)
  | [], learned => by simp
  | ta :: accepted, learned => by
    rw [List.foldl_cons, mem_foldl_insertOne k accepted, List.map_cons, List.mem_cons]
    unfold insertOne
    dsimp only
    rw [mem_insert_iff, or_assoc, or_left_comm]

variable (learned nowS) in
theorem size_insertAll_le {base : List TimestampedAddress} (h : ∀ ta ∈ accepted, ta ∈ base) :
    (learned.insertAll nowS accepted).size ≤ learned.size + base.length := by
  rw [← List.length_map (f := fun ta : TimestampedAddress => addrKey ta.address)]
  refine size_le_of_keys fun k hk => ?_
  rcases (mem_foldl_insertOne k accepted _).mp hk with hk | hk
  · exact .inl (Std.ExtTreeMap.mem_of_mem_filter hk)
  · obtain ⟨ta, hta, rfl⟩ := List.mem_map.mp hk
    exact .inr (List.mem_map_of_mem (h ta hta))

theorem size_evict_le (h : learned.size ≤ 3200) : (learned.evict order).size ≤ 2200 := by
  rcases Nat.lt_or_ge 2200 learned.size with hover | hle
  · have hsize := (sheds_evict order hover).size
    omega
  · rwa [evict_of_le hle]

/-- Of at most 3200 entries the eviction leaves at most 1400. -/
theorem keepsNewest_evict_iff (h : learned.size ≤ 3200) :
    (learned.overCap = true → KeepsNewest 1800 learned (learned.evict order)) ↔ learned.size ≤ 2200 := by
  rw [overCap_iff]
  constructor
  · intro hkeeps
    by_contra hover
    have hleft := (hkeeps (by omega)).size
    have hsize := (sheds_evict order (Nat.lt_of_not_le hover)).size
    omega
  · intro hle hover
    omega

end

end LearnedMap

namespace PeerDiscoveryManager

/-! ## A message -/

def learned (s : PeerDiscoveryManager) (q : PeerPtr) : LearnedMap := (s.discovery q).learnedAddresses

/-- The learned map of an object as the capacity check finds it: pruned and updated. -/
def found (s : PeerDiscoveryManager) (q : PeerPtr) (nowS : Int) (accepted : List TimestampedAddress) : LearnedMap :=
  (s.learned q).insertAll nowS accepted

/-- The object whose map a message of `p` updates: that of the entry of its sender, if the handler
gets that far. -/
def learner (s : PeerDiscoveryManager) (p : PeerPtr) (addresses : List TimestampedAddress) : Option PeerPtr :=
  match s.peers[p]? with
  | none => none
  | some peer =>
    if !peer.successfullyConnected then none
    else if MAX_ADDR_SIZE < addresses.length then
      if (s.reportOversizedMessage peer.id).shouldDisconnect peer.id then none
      else (s.reportOversizedMessage peer.id).ptrOf peer.id
    else s.ptrOf peer.id

section
variable {s : PeerDiscoveryManager} {env : NetEnv} {order : Shuffle} {p q : PeerPtr} {places : List Nat}
  {addresses : List TimestampedAddress}

theorem mem_acceptedOf {ta : TimestampedAddress} (h : ta ∈ acceptedOf places addresses) :
    ta ∈ addresses.take MAX_ADDR_SIZE := by
  obtain ⟨j, -, hj⟩ := List.mem_filterMap.mp h
  exact List.mem_of_getElem? hj

theorem takeAddresses_learned (s : PeerDiscoveryManager) (peerId : Int) (accepted : List TimestampedAddress) :
    (s.takeAddresses env order p peerId accepted).learned q =
      if s.ptrOf peerId = some q then (s.found q env.time accepted).evict order else s.learned q := by
  unfold takeAddresses PeerDiscoveryManager.learn
  dsimp only
  rw [modifyData_eq]
  change (DiscoveryData.learnedAddresses _) = _
  cases hptr : s.ptrOf peerId with
  | none => rfl
  | some r =>
    by_cases hq : r = q
    · subst hq
      simp [found, learned]
    · simp [learned, hq, Function.update_of_ne (Ne.symm hq)]

/-- A message updates one map and evicts from it. -/
theorem handleAddr_learned (s : PeerDiscoveryManager) (env : NetEnv) (order : Shuffle) (p q : PeerPtr)
    (places : List Nat) (addresses : List TimestampedAddress) :
    (s.handleAddr env order p places addresses).learned q =
      if s.learner p addresses = some q then (s.found q env.time (acceptedOf places addresses)).evict order
      else s.learned q := by
  unfold handleAddr learner
  cases s.peers[p]? with
  | none => rfl
  | some peer =>
    dsimp only
    split
    · rfl
    split
    · split
      · rfl
      · exact takeAddresses_learned { s with toNetworkManager := s.reportOversizedMessage peer.id } peer.id _
    · exact takeAddresses_learned s peer.id _

theorem handleAddr_network (h : addresses.length ≤ MAX_ADDR_SIZE) :
    (s.handleAddr env order p places addresses).toNetworkManager = s.toNetworkManager := by
  have hlearn : ∀ peerId accepted, (s.takeAddresses env order p peerId accepted).toNetworkManager = s.toNetworkManager := by
    intro peerId accepted
    unfold takeAddresses PeerDiscoveryManager.learn
    dsimp only
    rw [modifyData_eq]
    generalize NetworkManager.ptrOf _ peerId = r
    cases r <;> rfl
  unfold handleAddr
  split
  · rfl
  split
  · rfl
  · rw [if_neg (by omega)]
    exact hlearn _ _

theorem handleGetAddr_learned (s : PeerDiscoveryManager) (fromString : String → BitVec 16 → NetworkAddress)
    (env : NetEnv) (orders : ResponseOrders) (p q : PeerPtr) :
    (s.handleGetAddr fromString env orders p).learned q = s.learned q := by
  have hmark : ∀ peerId, (s.modifyData peerId ({ · with getaddrReplied := true })).learned q = s.learned q := by
    intro peerId
    rw [modifyData_eq]
    cases s.ptrOf peerId with
    | none => rfl
    | some r =>
      by_cases hq : q = r
      · subst hq
        simp [learned]
      · simp [learned, Function.update_of_ne hq]
  unfold handleGetAddr
  split
  · rfl
  split
  · rfl
  split
  · rfl
  split
  · rfl
  · rename_i peer _ _ _ _
    dsimp only
    split
    · exact hmark peer.id
    · exact hmark peer.id

/-! ## Runs -/

/-- Between messages no map is over its capacity. -/
def WithinCap (s : PeerDiscoveryManager) : Prop := ∀ q, (s.learned q).size ≤ 2200

theorem WithinCap.found (h : WithinCap s) (q : PeerPtr) (nowS : Int) (places : List Nat)
    (addresses : List TimestampedAddress) : (s.found q nowS (acceptedOf places addresses)).size ≤ 3200 := by
  have hsize := LearnedMap.size_insertAll_le (s.learned q) nowS
    fun ta (hta : ta ∈ acceptedOf places addresses) => mem_acceptedOf hta
  have hle : (addresses.take MAX_ADDR_SIZE).length ≤ 1000 := List.length_take_le _ _
  have hcap := h q
  unfold PeerDiscoveryManager.found
  omega

variable {parse : String → Option String} {config : PeerConfig} {fromString : String → BitVec 16 → NetworkAddress} in
theorem WithinCap.step (h : WithinCap s) (op : DiscoveryOp) : WithinCap (s.step parse config fromString op) := by
  intro q
  cases op with
  | handleAddr env order p places addresses =>
    change ((s.handleAddr _ order p places addresses).learned q).size ≤ 2200
    rw [handleAddr_learned]
    split
    · exact LearnedMap.size_evict_le (h.found q _ places addresses)
    · exact h q
  | handleGetAddr env orders p =>
    change ((s.handleGetAddr fromString env orders p).learned q).size ≤ 2200
    rw [handleGetAddr_learned]
    exact h q
  | addrManager op => exact h q
  | lifecycle op => exact h q

end

/-! ## Three messages of 2201 addresses -/

/-- An inbound peer with the permission `Addr`, which the rate limit passes over. -/
def admitAddr : List DiscoveryOp :=
  [.lifecycle (.addInbound {} (some ("10.0.0.1", 1000)) true (1 <<< 7) ""), .lifecycle (.manage (.handleVerack 0))]

def hostKey (j : Nat) : AddrKey := addrKey (stamped (0xffff0a000000 + BitVec.ofNat 128 j)).address

/-- The `k` addresses of 10.0.0.0/8 from the `n`-th. -/
def hosts (n k : Nat) : List TimestampedAddress :=
  (List.range' n k).map (fun j => stamped (0xffff0a000000 + BitVec.ofNat 128 j))

def sendHosts (n k : Nat) : DiscoveryOp := .handleAddr atThousand .same 0 (List.range k) (hosts n k)

def flooded : PeerDiscoveryManager := runTwo (admitAddr ++ [sendHosts 0 1000, sendHosts 1000 1000])

theorem hostKey_inj {i j : Nat} (hi : i < 4000) (hj : j < 4000) (h : hostKey i = hostKey j) : i = j := by
  have hip := congrArg BitVec.toNat (addrKey_inj h).1
  simp only [stamped, BitVec.toNat_add, BitVec.toNat_ofNat] at hip
  omega

theorem hosts_keys (n k : Nat) : (hosts n k).map (fun ta => addrKey ta.address) = (List.range' n k).map hostKey := by
  unfold hosts
  rw [List.map_map]
  rfl

theorem filterMap_range (l : List TimestampedAddress) : (List.range l.length).filterMap (fun j => l[j]?) = l := by
  induction l with
  | nil => rfl
  | cons ta l ih =>
    rw [List.length_cons, List.range_succ_eq_map, List.filterMap_cons, List.filterMap_map]
    exact congrArg (ta :: ·) ih

theorem acceptedOf_hosts {n k : Nat} (hk : k ≤ 1000) : acceptedOf (List.range k) (hosts n k) = hosts n k := by
  have hlen : (hosts n k).length = k := by simp [hosts]
  unfold acceptedOf
  rw [List.take_of_length_le (by rw [hlen]; exact hk)]
  have h := filterMap_range (hosts n k)
  rwa [hlen] at h

/-- The peer has sent the first `n` addresses. -/
structure Flooded (n : Nat) (s : PeerDiscoveryManager) : Prop where
  network : s.toNetworkManager = (runTwo admitAddr).toNetworkManager
  size : (s.learned 0).size = n
  keys : ∀ k ∈ s.learned 0, ∃ j < n, k = hostKey j
  seen : LearnedMap.Holds (fun _ => True) (· = 1000) (s.learned 0)

section
variable {s : PeerDiscoveryManager} {n k : Nat}

theorem Flooded.learner (h : Flooded n s) (hk : k ≤ 1000) : s.learner 0 (hosts n k) = some 0 := by
  have hlen : ¬ MAX_ADDR_SIZE < (hosts n k).length := by
    simp only [hosts, List.length_map, List.length_range', MAX_ADDR_SIZE]
    omega
  unfold PeerDiscoveryManager.learner
  rw [h.network]
  simp only [if_neg hlen]
  decide +kernel

theorem Flooded.mem_found (h : Flooded n s) (key : AddrKey) :
    key ∈ s.found 0 1000 (hosts n k) ↔ key ∈ s.learned 0 ∨ key ∈ (List.range' n k).map hostKey := by
  have hprune : (s.learned 0).prune 1000 = s.learned 0 := by
    refine Std.ExtTreeMap.ext_getElem? fun key => Option.ext fun e => ?_
    rw [LearnedMap.prune_get]
    refine and_iff_left_of_imp fun he => ?_
    rw [(h.seen key e he).2]
    decide
  unfold found LearnedMap.insertAll
  rw [LearnedMap.mem_foldl_insertOne, hosts_keys, hprune]

theorem Flooded.size_found (h : Flooded n s) (hn : n + k ≤ 4000) : (s.found 0 1000 (hosts n k)).size = n + k := by
  have hnodup : ((List.range' n k).map hostKey).Nodup := by
    refine List.Nodup.map_on (fun i hi j hj heq => hostKey_inj ?_ ?_ heq) List.nodup_range'
    · have := (List.mem_range'_1.mp hi).2
      omega
    · have := (List.mem_range'_1.mp hj).2
      omega
  have hout : ∀ key ∈ (List.range' n k).map hostKey, key ∉ s.learned 0 := by
    intro key hkey hin
    obtain ⟨i, hi, rfl⟩ := List.mem_map.mp hkey
    obtain ⟨j, hj, heq⟩ := h.keys _ hin
    have hrange := List.mem_range'_1.mp hi
    have hsame := hostKey_inj (by omega) (by omega) heq
    omega
  rw [size_eq_of_keys hnodup hout h.mem_found, h.size, List.length_map, List.length_range']

theorem Flooded.send (h : Flooded n s) (hk : k ≤ 1000) {m : Nat} (hm : n + k = m) (hcap : m ≤ 2200) :
    Flooded m (stepTwo s (sendHosts n k)) := by
  subst hm
  have hsize := h.size_found (k := k) (by omega)
  have hleft : (stepTwo s (sendHosts n k)).learned 0 = s.found 0 1000 (hosts n k) := by
    change (s.handleAddr _ .same 0 (List.range k) (hosts n k)).learned 0 = _
    rw [handleAddr_learned, if_pos (h.learner hk), acceptedOf_hosts hk]
    exact LearnedMap.evict_of_le (hsize.trans_le hcap)
  refine ⟨?_, ?_, ?_, ?_⟩
  · refine Eq.trans (handleAddr_network ?_) h.network
    simp only [hosts, List.length_map, List.length_range', MAX_ADDR_SIZE]
    omega
  · rw [hleft, hsize]
  · intro key hkey
    rw [hleft, h.mem_found] at hkey
    rcases hkey with hkey | hkey
    · obtain ⟨j, hj, rfl⟩ := h.keys key hkey
      exact ⟨j, by omega, rfl⟩
    · obtain ⟨j, hj, rfl⟩ := List.mem_map.mp hkey
      exact ⟨j, (List.mem_range'_1.mp hj).2, rfl⟩
  · rw [hleft]
    exact h.seen.insertAll (fun _ _ => trivial) rfl

theorem flooded_start : Flooded 0 (runTwo admitAddr) := by
  have hnone : (runTwo admitAddr).learned 0 = ∅ := rfl
  refine ⟨rfl, ?_, fun key hkey => ?_, fun key e he => ?_⟩
  · rw [hnone, Std.ExtTreeMap.size_empty]
  · rw [hnone] at hkey
    exact absurd hkey Std.ExtTreeMap.not_mem_empty
  · rw [hnone] at he
    simp at he

theorem flooded_twice : Flooded 2000 flooded := by
  have h1 : Flooded 1000 (stepTwo (runTwo admitAddr) (sendHosts 0 1000)) :=
    flooded_start.send (by omega) (by omega) (by omega)
  have h2 : Flooded 2000 (stepTwo (stepTwo (runTwo admitAddr) (sendHosts 0 1000)) (sendHosts 1000 1000)) :=
    h1.send (by omega) (by omega) (by omega)
  have heq : flooded = stepTwo (stepTwo (runTwo admitAddr) (sendHosts 0 1000)) (sendHosts 1000 1000) := by
    unfold flooded runTwo
    rw [List.foldl_append, List.foldl_cons, List.foldl_cons, List.foldl_nil]
  rw [heq]
  exact h2

end

/-! ## Evictions -/

theorem third_learner : flooded.learner 0 (hosts 2000 201) = some 0 := flooded_twice.learner (by omega)

theorem third_found : (flooded.found 0 atThousand.time (acceptedOf (List.range 201) (hosts 2000 201))).size = 2201 := by
  rw [acceptedOf_hosts (by omega)]
  exact flooded_twice.size_found (by omega)

theorem reaches_flooded : Run.Reaches stepTwo (fun _ _ => True) idle flooded := Run.Reaches.start.foldl fun _ _ _ => trivial

section
variable {parse : String → Option String} {config : PeerConfig} {fromString : String → BitVec 16 → NetworkAddress}
  {s : PeerDiscoveryManager} {env : NetEnv} {order : Shuffle} {p q : PeerPtr} {places : List Nat}
  {addresses : List TimestampedAddress}

theorem step_learned (hq : s.learner p addresses = some q) :
    (s.step parse config fromString (.handleAddr env order p places addresses)).learned q =
      (s.found q env.time (acceptedOf places addresses)).evict order := by
  change (s.handleAddr _ order p places addresses).learned q = _
  rw [handleAddr_learned, if_pos hq]
  rfl

/-- In every run, what a message leaves of the map that it updates was seen last; and an eviction
leaves 1800 entries in no case: this holds of a message exactly when there is nothing to evict. -/
theorem eviction_keeps_iff {chainstate : ChainstateManager}
    (h : Run.Reaches (PeerDiscoveryManager.step parse config fromString) (fun _ _ => True) (fresh chainstate) s)
    (hq : s.learner p addresses = some q) :
    (∀ (k : AddrKey) (e : LearnedEntry) (k' : AddrKey) (e' : LearnedEntry),
      ((s.step parse config fromString (.handleAddr env order p places addresses)).learned q)[k]? = some e →
      (s.found q env.time (acceptedOf places addresses))[k']? = some e' →
      k' ∉ (s.step parse config fromString (.handleAddr env order p places addresses)).learned q →
      e'.lastSeenS ≤ e.lastSeenS) ∧
    (((s.found q env.time (acceptedOf places addresses)).overCap = true →
      LearnedMap.KeepsNewest 1800 (s.found q env.time (acceptedOf places addresses))
        ((s.step parse config fromString (.handleAddr env order p places addresses)).learned q)) ↔
      (s.found q env.time (acceptedOf places addresses)).size ≤ 2200) := by
  have hcap : WithinCap s :=
    h.invariant (fun q => Nat.zero_le _) fun _ _ h _ => h.step _
  rw [step_learned hq]
  exact ⟨LearnedMap.newest_evict order _, LearnedMap.keepsNewest_evict_iff (hcap.found q _ places addresses)⟩

end

/-- The third message of a peer brings the map to 2201 entries. -/
theorem eviction_keeps_iff_third :
    ¬ ((flooded.found 0 atThousand.time (acceptedOf (List.range 201) (hosts 2000 201))).overCap = true →
      LearnedMap.KeepsNewest 1800 (flooded.found 0 atThousand.time (acceptedOf (List.range 201) (hosts 2000 201)))
        ((stepTwo flooded (.handleAddr atThousand .same 0 (List.range 201) (hosts 2000 201))).learned 0)) := by
  intro h
  have hle := (eviction_keeps_iff reaches_flooded third_learner).2.mp h
  rw [third_found] at hle
  omega

theorem third_message_evicts_1800 : ¬ ∀ (s : PeerDiscoveryManager) (env : NetEnv) (order : Shuffle) (p q : PeerPtr)
    (places : List Nat) (addresses : List TimestampedAddress),
    Run.Reaches stepTwo (fun _ _ => True) idle s → s.learner p addresses = some q →
    (s.found q env.time (acceptedOf places addresses)).overCap = true →
    LearnedMap.KeepsNewest 1800 (s.found q env.time (acceptedOf places addresses))
      ((stepTwo s (.handleAddr env order p places addresses)).learned q) := by
  intro h
  have hkeeps := h flooded atThousand .same 0 0 (List.range 201) (hosts 2000 201) reaches_flooded third_learner
  rw [step_learned third_learner, LearnedMap.keepsNewest_evict_iff (by rw [third_found]; omega), third_found] at hkeeps
  omega

end PeerDiscoveryManager

end UnicityPow
