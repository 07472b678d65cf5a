import UnicityPow.AddrRelay
import UnicityPow.AddrSound
import UnicityPow.Attachment

/-!
# What a GETADDR is answered with

The three sources of a response go by `MakeKey`, the address manager by `NormalizeAddress`. On
addresses that are normalized the two agree, and no response echoes.
-/

namespace UnicityPow

open Collect NetworkManager

/-! ## Addresses -/

/-- The key by which the address manager knows an address. -/
def normalKey (addr : NetworkAddress) : AddrKey := addrKey (normalizeAddress addr)

/-- An address that the address manager would keep as it is. -/
def Canonical (addr : NetworkAddress) : Prop := IsNormalized addr ∧ isRoutable addr = true

instance (addr : NetworkAddress) : Decidable (Canonical addr) := by
  unfold Canonical IsNormalized
  infer_instance

theorem IsNormalized.normalKey_eq {addr : NetworkAddress} (h : IsNormalized addr) : normalKey addr = addrKey addr :=
  congrArg addrKey h

theorem isRoutable_iff {addr : NetworkAddress} : isRoutable addr = true ↔ addr.port ≠ 0 ∧ addr.ip ≠ 0 := by
  unfold isRoutable
  simp

/-! ## Events -/

namespace DiscoveryEvent

def peer : DiscoveryEvent → PeerPtr
  | accepted p _ _ => p
  | response p _ _ _ => p

def timeS : DiscoveryEvent → Int
  | accepted _ t _ => t
  | response _ t _ _ => t

def isResponseTo (p : PeerPtr) : DiscoveryEvent → Bool
  | accepted _ _ _ => false
  | response q _ _ _ => q == p

end DiscoveryEvent

/-- A response against what came before it. -/
structure Fits (before : List DiscoveryEvent) (p : PeerPtr) (timeS : Int) (own : NetworkAddress)
    (addresses : List TimestampedAddress) : Prop where
  length_le : addresses.length ≤ MAX_ADDR_SIZE
  distinct : (addresses.map (fun ta => normalKey ta.address)).Nodup
  nonzero : ∀ ta ∈ addresses, ta.address.port ≠ 0 ∧ ta.address.ip ≠ 0
  notOwn : ∀ ta ∈ addresses, addrKey ta.address ≠ addrKey own
  noEcho : ∀ t delivered, .accepted p t delivered ∈ before → timeS - t ≤ ECHO_SUPPRESS_TTL_SEC →
    ∀ sent ∈ delivered, ∀ ta ∈ addresses, normalKey ta.address ≠ normalKey sent.address
  first : ∀ e ∈ before, e.isResponseTo p = false

/-- Every response of a log fits. -/
def Echoless (log : List DiscoveryEvent) : Prop :=
  ∀ before p timeS self addresses after, log = before ++ .response p timeS self addresses :: after →
    Fits before p timeS self addresses

/-- The clock has not gone back behind an event. -/
def InTime (log : List DiscoveryEvent) (timeS : Int) : Prop := ∀ e ∈ log, e.timeS ≤ timeS

instance (log : List DiscoveryEvent) (timeS : Int) : Decidable (InTime log timeS) := by
  unfold InTime
  infer_instance

theorem Echoless.nil : Echoless [] := fun before p timeS self addresses after h => by simp at h

theorem Echoless.snoc {log : List DiscoveryEvent} (h : Echoless log) {e : DiscoveryEvent}
    (he : ∀ p timeS self addresses, e = .response p timeS self addresses → Fits log p timeS self addresses) :
    Echoless (log ++ [e]) := by
  intro before p timeS self addresses after heq
  rcases List.eq_nil_or_concat after with rfl | ⟨after, last, rfl⟩
  · obtain ⟨rfl, hlast⟩ := List.append_inj' heq rfl
    exact he p timeS self addresses (List.singleton_inj.mp hlast)
  · rw [List.concat_eq_append, ← List.cons_append, ← List.append_assoc] at heq
    exact h before p timeS self addresses after (List.append_inj' heq rfl).1

/-! ## Learned addresses -/

namespace LearnedMap

/-- The map has a key, last seen at a time or later. -/
def Seen (t : Int) (k : AddrKey) (learned : LearnedMap) : Prop :=
  ∃ e, learned[k]? = some e ∧ t ≤ e.lastSeenS

/-- What holds of all entries, by the address and the time. -/
def Holds (Q : TimestampedAddress → Prop) (T : Int → Prop) (learned : LearnedMap) : Prop :=
  ∀ (k : AddrKey) (e : LearnedEntry), learned[k]? = some e → Q e.tsAddr ∧ T e.lastSeenS

section
variable {nowS t : Int} {k : AddrKey} {learned : LearnedMap} {Q : TimestampedAddress → Prop} {T : Int → Prop}

theorem prune_get {e : LearnedEntry} : (learned.prune nowS)[k]? = some e ↔
    learned[k]? = some e ∧ nowS - e.lastSeenS ≤ ECHO_SUPPRESS_TTL_SEC := by
  unfold prune
  rw [Tally.getElem?_filter, Option.filter_eq_some_iff]
  simp

theorem Seen.prune (h : Seen t k learned) (ht : nowS - t ≤ ECHO_SUPPRESS_TTL_SEC) :
    Seen t k (learned.prune nowS) := by
  obtain ⟨e, he, hseen⟩ := h
  exact ⟨e, prune_get.mpr ⟨he, by omega⟩, hseen⟩

theorem seen_insertOne (nowS : Int) (learned : LearnedMap) (ta : TimestampedAddress) :
    Seen nowS (addrKey ta.address) (learned.insertOne nowS ta) := by
  unfold insertOne
  exact ⟨_, Std.ExtTreeMap.getElem?_insert_self, le_rfl⟩

theorem Seen.insertOne (h : Seen t k learned) (ht : t ≤ nowS) (ta : TimestampedAddress) :
    Seen t k (learned.insertOne nowS ta) := by
  by_cases hk : addrKey ta.address = k
  · obtain ⟨e, he, hseen⟩ := seen_insertOne nowS learned ta
    exact ⟨e, hk ▸ he, ht.trans hseen⟩
  · obtain ⟨e, he, hseen⟩ := h
    refine ⟨e, ?_, hseen⟩
    unfold LearnedMap.insertOne
    dsimp only
    rw [Std.ExtTreeMap.getElem?_insert, if_neg fun heq => hk (Std.LawfulEqCmp.eq_of_compare heq)]
    exact he

theorem Seen.foldl (h : Seen t k learned) (ht : t ≤ nowS) (accepted : List TimestampedAddress) :
    Seen t k (accepted.foldl (LearnedMap.insertOne nowS) learned) :=
  List.foldlRecOn accepted _ h fun _ h ta _ => h.insertOne ht ta

/-- An entry that the pruning drops is of a time long past. -/
theorem Seen.insertAll (h : Seen t k learned) (ht : t ≤ nowS) (accepted : List TimestampedAddress) :
    ECHO_SUPPRESS_TTL_SEC < nowS - t ∨ Seen t k (learned.insertAll nowS accepted) := by
  rcases lt_or_ge ECHO_SUPPRESS_TTL_SEC (nowS - t) with hold | hnew
  · exact .inl hold
  · exact .inr ((h.prune hnew).foldl ht accepted)

theorem seen_insertAll (nowS : Int) (learned : LearnedMap) {accepted : List TimestampedAddress}
    {ta : TimestampedAddress} (h : ta ∈ accepted) :
    Seen nowS (addrKey ta.address) (learned.insertAll nowS accepted) := by
  unfold insertAll
  generalize learned.prune nowS = learned
  induction accepted generalizing learned with
  | nil => cases h
  | cons x accepted ih =>
    rcases List.mem_cons.mp h with rfl | h
    · exact (seen_insertOne nowS learned ta).foldl le_rfl accepted
    · exact ih h _

theorem Holds.insertOne (h : Holds Q T learned) {ta : TimestampedAddress} (hta : Q ta) (hnow : T nowS) :
    Holds Q T (learned.insertOne nowS ta) := by
  intro k e he
  unfold LearnedMap.insertOne at he
  dsimp only at he
  rw [Std.ExtTreeMap.getElem?_insert] at he
  split at he
  · cases he
    refine ⟨?_, hnow⟩
    cases hget : learned[addrKey ta.address]? with
    | none => exact hta
    | some old =>
      simp only [Option.getD_some]
      split
      · exact hta
      · exact (h _ old hget).1
  · exact h k e he

theorem Holds.insertAll (h : Holds Q T learned) {accepted : List TimestampedAddress} (hacc : ∀ ta ∈ accepted, Q ta)
    (hnow : T nowS) : Holds Q T (learned.insertAll nowS accepted) := by
  have hprune : Holds Q T (learned.prune nowS) := fun k e he => h k e (prune_get.mp he).1
  exact List.foldlRecOn accepted _ hprune fun _ h ta hta => h.insertOne (hacc ta hta) hnow

theorem Holds.mono {T' : Int → Prop} (h : Holds Q T learned) (hT : ∀ t, T t → T' t) : Holds Q T' learned :=
  fun k e he => ⟨(h k e he).1, hT _ (h k e he).2⟩

end

end LearnedMap

namespace PeerDiscoveryManager

section
variable {s : PeerDiscoveryManager} {env : NetEnv} {orders : ResponseOrders} {self : NetworkAddress} {peerId : Int}

theorem dataOf_eq (s : PeerDiscoveryManager) (peerId : Int) :
    s.dataOf peerId = (s.ptrOf peerId).map s.discovery := by
  unfold dataOf ptrOf
  rw [Option.map_map]
  rfl

theorem modifyData_eq (s : PeerDiscoveryManager) (peerId : Int) (f : DiscoveryData → DiscoveryData) :
    s.modifyData peerId f = (s.ptrOf peerId).elim s
      (fun p => { s with discovery := Function.update s.discovery p (f (s.discovery p)) }) := by
  unfold modifyData ptrOf
  cases s.peerStates[peerId]? <;> rfl

/-! ## The response -/

/-- The keys that a response to a peer leaves out. -/
def barred (s : PeerDiscoveryManager) (env : NetEnv) (peerId : Int) (self : NetworkAddress) : AddrKey → Bool :=
  isSuppressed env.time ((s.dataOf peerId).elim ∅ (fun data => data.learnedAddresses.prune env.time)) self

theorem composeResponse_collected (s : PeerDiscoveryManager) (env : NetEnv) (orders : ResponseOrders) (peerId : Int)
    (self : NetworkAddress) :
    Collected (fun ta : TimestampedAddress => addrKey ta.address) (s.barred env peerId self) MAX_ADDR_SIZE
      (s.composeResponse env orders peerId self) := by
  unfold composeResponse
  dsimp only
  have hrecent := (Collected.nil (fun ta : TimestampedAddress => addrKey ta.address) (s.barred env peerId self)
    MAX_ADDR_SIZE).collect s.recentAddrs.reverse
  split
  · split
    · exact (hrecent.collect _).collect _
    · exact hrecent.collect _
  · split
    · exact hrecent.collect _
    · exact hrecent

/-- Nothing is in a response that is in none of its sources. -/
theorem mem_composeResponse {ta : TimestampedAddress} (h : ta ∈ s.composeResponse env orders peerId self) :
    ta ∈ s.recentAddrs ∨ ta ∈ s.addrManager.getAddresses env.now orders.sample MAX_ADDR_SIZE ∨
      ta ∈ s.getLearnedAddressesForGetAddr orders.learned peerId MAX_ADDR_SIZE := by
  unfold composeResponse at h
  dsimp only at h
  have hrecent : ∀ {b : AddrKey → Bool} {ta : TimestampedAddress},
      ta ∈ collect (fun ta => addrKey ta.address) b MAX_ADDR_SIZE [] s.recentAddrs.reverse → ta ∈ s.recentAddrs :=
    fun hta => (mem_collect hta).elim (fun hnil => by cases hnil) List.mem_reverse.mp
  split at h
  · split at h
    · rcases mem_collect h with h | h
      · rcases mem_collect h with h | h
        · exact .inl (hrecent h)
        · exact .inr (.inl h)
      · exact .inr (.inr h)
    · rcases mem_collect h with h | h
      · exact .inl (hrecent h)
      · exact .inr (.inl h)
  · split at h
    · rcases mem_collect h with h | h
      · exact .inl (hrecent h)
      · exact .inr (.inr h)
    · exact .inl (hrecent h)

theorem mem_getAddresses {m : AddressManager} (T : m.TablesOk) {now : BitVec 32} {shuffle : Shuffle}
    {maxCount : Nat} {ta : TimestampedAddress} (h : ta ∈ m.getAddresses now shuffle maxCount) :
    Canonical ta.address := by
  unfold AddressManager.getAddresses at h
  rw [(shuffle.perm _).mem_iff] at h
  obtain ⟨info, hinfo, rfl⟩ := List.mem_map.mp h
  obtain ⟨hinfo, hfilter⟩ := List.mem_filter.mp (List.mem_of_mem_take hinfo)
  obtain ⟨kv, hkv, rfl⟩ := List.mem_map.mp hinfo
  refine ⟨?_, (Bool.and_eq_true _ _ ▸ hfilter).1⟩
  rcases List.mem_append.mp hkv with hkv | hkv
  · exact (T.triedEntries _ _ (Std.ExtTreeMap.mem_toList_iff_getElem?_eq_some.mp hkv)).normalized
  · exact (T.newEntries _ _ (Std.ExtTreeMap.mem_toList_iff_getElem?_eq_some.mp hkv)).normalized

theorem mem_getLearned {order : Shuffle} {maxCount : Nat} {ta : TimestampedAddress}
    (h : ta ∈ s.getLearnedAddressesForGetAddr order peerId maxCount) :
    ∃ (p : PeerPtr) (k : AddrKey) (e : LearnedEntry),
      (s.discovery p).learnedAddresses[k]? = some e ∧ e.tsAddr = ta := by
  unfold getLearnedAddressesForGetAddr at h
  obtain ⟨kv, -, hta⟩ := List.mem_flatMap.mp (List.mem_of_mem_take h)
  obtain ⟨entry, hentry, rfl⟩ := List.mem_map.mp hta
  rw [(order.perm _).mem_iff] at hentry
  exact ⟨kv.2.peer, entry.1, entry.2, Std.ExtTreeMap.mem_toList_iff_getElem?_eq_some.mp hentry, rfl⟩

theorem isSuppressed_of_seen {learned : LearnedMap} {nowS t : Int} {k : AddrKey} (h : learned.Seen t k)
    (hfresh : nowS - t ≤ ECHO_SUPPRESS_TTL_SEC) (hpast : ∀ e, learned[k]? = some e → e.lastSeenS ≤ nowS) :
    isSuppressed nowS (learned.prune nowS) self k = true := by
  obtain ⟨e, he, hseen⟩ := h.prune hfresh
  obtain ⟨hget, hage⟩ := LearnedMap.prune_get.mp he
  have hle := hpast e hget
  unfold isSuppressed
  rw [he]
  simp only [Option.any_some, Bool.or_eq_true, Bool.and_eq_true, decide_eq_true_eq]
  exact .inl ⟨by omega, hage⟩

/-! ## What every call keeps -/

/-- An accepted address is remembered by the entry of its peer, unless it is long past. -/
def Remembers (log : List DiscoveryEvent) (p : PeerPtr) (learned : LearnedMap) : Prop :=
  ∀ t delivered, .accepted p t delivered ∈ log → ∀ ta ∈ delivered,
    (∃ e ∈ log, ECHO_SUPPRESS_TTL_SEC < e.timeS - t) ∨ learned.Seen t (addrKey ta.address)

/-- What a log says of the stores: of all objects, and of those that have entries. -/
structure Relays (s : PeerDiscoveryManager) : Prop where
  registered : Registered s.toNetworkManager
  attached : Attached s.toNetworkManager
  tables : s.addrManager.TablesOk
  ring : ∀ ta ∈ s.recentAddrs, Canonical ta.address
  learned : ∀ p, (s.discovery p).learnedAddresses.Holds (fun ta => Canonical ta.address)
    (fun t => ∃ e ∈ s.log, e.timeS = t)
  known : ∀ e ∈ s.log, e.peer < s.peers.length
  canonical : ∀ p t delivered, .accepted p t delivered ∈ s.log → ∀ ta ∈ delivered, Canonical ta.address
  remembers : ∀ id p, s.ptrOf id = some p → Remembers s.log p (s.discovery p).learnedAddresses
  replied : ∀ id p, s.ptrOf id = some p → ∀ e ∈ s.log, e.isResponseTo p = true →
    (s.discovery p).getaddrReplied = true
  echoless : Echoless s.log

theorem relays_fresh (chainstate : ChainstateManager) : Relays (fresh chainstate) where
  registered := registered_fresh chainstate
  attached := attached_fresh chainstate
  tables := AddressManager.tablesOk_empty 1
  ring ta h := by cases h
  learned p k e h := by simp [fresh] at h
  known e h := by cases h
  canonical p t delivered h := by cases h
  remembers id p hp t delivered h := by cases h
  replied id p hp e h := by cases h
  echoless := .nil

theorem Relays.lifecycle (h : Relays s) {n : NetworkManager} (R : Registered n) (A : Attached n)
    (hn : Succeeds s.toNetworkManager n) : Relays { s with toNetworkManager := n } where
  registered := R
  attached := A
  tables := h.tables
  ring := h.ring
  learned := h.learned
  known e he := (h.known e he).trans_le hn.length
  canonical := h.canonical
  remembers id p hp t delivered hmem := by
    rcases hn.entries id p hp with hold | hnew
    · exact h.remembers id p hold t delivered hmem
    · exact absurd (h.known _ hmem) (not_lt.mpr hnew)
  replied id p hp e he hresp := by
    rcases hn.entries id p hp with hold | hnew
    · exact h.replied id p hold e he hresp
    · cases e with
      | accepted => cases hresp
      | response q _ _ _ =>
        obtain rfl : q = p := beq_iff_eq.mp hresp
        exact absurd (h.known _ he) (not_lt.mpr hnew)
  echoless := h.echoless

/-! ## ADDR -/

/-- The addresses are canonical, the map that learns them is not over its cap, and the clock has
not gone back. -/
structure Learnable (s : PeerDiscoveryManager) (nowS : Int) (peerId : Int) (accepted : List TimestampedAddress) :
    Prop where
  canonical : ∀ ta ∈ accepted, Canonical ta.address
  withinCap : ∀ data ∈ s.dataOf peerId, (data.learnedAddresses.insertAll nowS accepted).overCap = false
  inTime : InTime s.log nowS

instance (s : PeerDiscoveryManager) (nowS : Int) (peerId : Int) (accepted : List TimestampedAddress) :
    Decidable (Learnable s nowS peerId accepted) :=
  decidable_of_iff ((∀ ta ∈ accepted, Canonical ta.address) ∧
      (∀ data ∈ s.dataOf peerId, (data.learnedAddresses.insertAll nowS accepted).overCap = false) ∧
      InTime s.log nowS)
    ⟨fun h => ⟨h.1, h.2.1, h.2.2⟩, fun h => ⟨h.canonical, h.withinCap, h.inTime⟩⟩

theorem Remembers.insertAll {log : List DiscoveryEvent} {p : PeerPtr} {learned : LearnedMap} {nowS : Int}
    (h : Remembers log p learned) (hpast : InTime log nowS) (accepted : List TimestampedAddress)
    {e : DiscoveryEvent} (he : e.timeS = nowS) (hnew : ∀ t delivered, e = .accepted p t delivered → delivered = accepted) :
    Remembers (log ++ [e]) p (learned.insertAll nowS accepted) := by
  intro t delivered hmem ta hta
  rcases List.mem_append.mp hmem with hmem | hmem
  · rcases h t delivered hmem ta hta with ⟨late, hlate, hlong⟩ | hseen
    · exact .inl ⟨late, List.mem_append_left _ hlate, hlong⟩
    · rcases hseen.insertAll (hpast _ hmem) accepted with hlong | hseen
      · exact .inl ⟨e, List.mem_append_right _ (List.mem_singleton_self e), he.symm ▸ hlong⟩
      · exact .inr hseen
  · obtain rfl := List.mem_singleton.mp hmem
    obtain rfl := hnew t delivered rfl
    obtain rfl : t = nowS := he
    exact .inr (LearnedMap.seen_insertAll t learned hta)

theorem Remembers.snoc {log : List DiscoveryEvent} {p : PeerPtr} {learned : LearnedMap}
    (h : Remembers log p learned)
    {e : DiscoveryEvent} (he : ∀ t delivered, e ≠ .accepted p t delivered) : Remembers (log ++ [e]) p learned := by
  intro t delivered hmem ta hta
  rcases List.mem_append.mp hmem with hmem | hmem
  · exact (h t delivered hmem ta hta).imp_left fun ⟨late, hlate, hlong⟩ =>
      ⟨late, List.mem_append_left _ hlate, hlong⟩
  · exact absurd (List.mem_singleton.mp hmem).symm (he t delivered)

/-- What `learn` makes of the discovery data of an object. -/
theorem learn_discovery (order : Shuffle) {accepted : List TimestampedAddress}
    (hok : Learnable s env.time peerId accepted) :
    s.learn env order peerId accepted =
      { s with
        discovery := fun p =>
          if s.ptrOf peerId = some p then
            { s.discovery p with learnedAddresses := (s.discovery p).learnedAddresses.insertAll env.time accepted }
          else s.discovery p } := by
  unfold learn
  rw [modifyData_eq]
  have hcap := hok.withinCap
  rw [dataOf_eq] at hcap
  cases hptr : s.ptrOf peerId with
  | none => simp
  | some q =>
    rw [hptr] at hcap
    have hq := hcap (s.discovery q) rfl
    simp only [Option.elim_some, Option.some.injEq]
    congr 1
    funext p
    unfold LearnedMap.evict
    rw [Function.update_apply, hq]
    by_cases hp : p = q
    · simp [hp]
    · simp [hp, Ne.symm hp]

theorem mem_pushRecent {recent : List TimestampedAddress} {ta ta' : TimestampedAddress}
    (h : ta ∈ pushRecent recent ta') :
    ta ∈ recent ∨ ta = ta' := by
  unfold pushRecent at h
  dsimp only at h
  have hmem : ta ∈ recent ++ [ta'] := by
    split at h
    · exact List.mem_of_mem_drop h
    · exact h
  exact (List.mem_append.mp hmem).imp_right List.mem_singleton.mp

theorem canonical_pushRecent {accepted recent : List TimestampedAddress}
    (hrecent : ∀ ta ∈ recent, Canonical ta.address) (hacc : ∀ ta ∈ accepted, Canonical ta.address) :
    ∀ ta ∈ accepted.foldl pushRecent recent, Canonical ta.address := by
  induction accepted generalizing recent with
  | nil => exact hrecent
  | cons x accepted ih =>
    rw [List.forall_mem_cons] at hacc
    exact ih (fun ta hta => (mem_pushRecent hta).elim (hrecent ta) fun heq => heq ▸ hacc.1) hacc.2

theorem Relays.takeAddresses (h : Relays s) (order : Shuffle) {p : PeerPtr} {peer : Peer}
    (hpeer : s.peers[p]? = some peer)
    {accepted : List TimestampedAddress} (hok : Learnable s env.time peer.id accepted) :
    Relays (s.takeAddresses env order p peer.id accepted) := by
  unfold PeerDiscoveryManager.takeAddresses
  dsimp only
  generalize hadded : (s.addrManager.addMultiple (accepted.map (fun ta => (env.now, ta)))).1 = addrManager
  have htables : addrManager.TablesOk := by
    rw [← hadded]
    exact AddressManager.addMultiple_kept (fun _ now addr timestamp T => T.add now addr timestamp) h.tables _
  have hok' : Learnable { s with addrManager } env.time peer.id accepted :=
    ⟨hok.canonical, hok.withinCap, hok.inTime⟩
  rw [learn_discovery order hok']
  -- an entry of the object is the one under its id
  have hown : ∀ id, s.ptrOf id = some p → s.ptrOf peer.id = some p := fun id hid => by
    have := h.registered id p hid
    rw [idOf_of_get hpeer] at this
    rwa [Option.some.inj this]
  refine ⟨h.registered, h.attached, htables, ?_, fun q => ?_, fun e he => ?_, fun q t delivered hmem => ?_,
    fun id q hq => ?_, fun id q hq e he hresp => ?_,
    h.echoless.snoc fun _ _ _ _ heq => by cases heq⟩
  · exact canonical_pushRecent h.ring hok.canonical
  · have hlog : ∀ t, (∃ e ∈ s.log, e.timeS = t) → ∃ e ∈ s.log ++ [.accepted p env.time accepted], e.timeS = t :=
      fun t ⟨e, he, ht⟩ => ⟨e, List.mem_append_left _ he, ht⟩
    have hold := (h.learned q).mono hlog
    dsimp only
    split
    · exact hold.insertAll hok.canonical ⟨_, List.mem_append_right _ (List.mem_singleton_self _), rfl⟩
    · exact hold
  · rcases List.mem_append.mp he with he | he
    · exact h.known e he
    · rw [List.mem_singleton.mp he]
      exact (List.getElem?_eq_some_iff.mp hpeer).1
  · rcases List.mem_append.mp hmem with hmem | hmem
    · exact h.canonical q t delivered hmem
    · cases List.mem_singleton.mp hmem
      exact hok.canonical
  · have hold := h.remembers id q hq
    dsimp only
    split
    · exact hold.insertAll hok.inTime accepted rfl fun t delivered heq => by cases heq; rfl
    · rename_i hother
      refine hold.snoc fun t delivered heq => hother ?_
      cases heq
      exact hown id hq
  · have hold : (s.discovery q).getaddrReplied = true := by
      rcases List.mem_append.mp he with he | he
      · exact h.replied id q hq e he hresp
      · rw [List.mem_singleton.mp he] at hresp
        cases hresp
    dsimp only
    split
    · exact hold
    · exact hold

theorem Relays.trims (h : Relays s) {n : NetworkManager} (hn : Trims s.toNetworkManager n) :
    Relays { s with toNetworkManager := n } :=
  h.lifecycle (h.registered.trims hn) (h.attached.trims hn) hn.succeeds

theorem Relays.handleAddr (h : Relays s) (order : Shuffle) (p : PeerPtr) (places : List Nat)
    (addresses : List TimestampedAddress)
    (hok : ∀ peer ∈ s.peers[p]?, peer.successfullyConnected = true →
      Learnable s env.time peer.id (acceptedOf places addresses)) :
    Relays (s.handleAddr env order p places addresses) := by
  unfold PeerDiscoveryManager.handleAddr
  cases hpeer : s.peers[p]? with
  | none => exact h
  | some peer =>
    dsimp only
    split
    · exact h
    rename_i hgate
    have hlearn := hok peer hpeer (by simpa using hgate)
    split
    · have hptr : (s.reportOversizedMessage peer.id).ptrOf = s.ptrOf :=
        (SameTable.modifyMisbehavior _ peer.id _).ptrOf
      have hrep : Trims s.toNetworkManager (s.reportOversizedMessage peer.id) := .of_same rfl hptr
      split
      · exact h.trims (hrep.trans ((h.attached.trims hrep).wired.trims_removePeer env peer.id))
      · have hlearn' : Learnable { s with toNetworkManager := s.reportOversizedMessage peer.id } env.time peer.id
            (acceptedOf places addresses) := by
          refine ⟨hlearn.canonical, fun data hdata => hlearn.withinCap data ?_, hlearn.inTime⟩
          rw [dataOf_eq] at hdata ⊢
          rwa [← hptr]
        exact (h.trims hrep).takeAddresses order hpeer hlearn'
    · exact h.takeAddresses order hpeer hlearn

/-! ## GETADDR -/

theorem Relays.mark (h : Relays s) (peerId : Int) :
    Relays (s.modifyData peerId ({ · with getaddrReplied := true })) := by
  rw [modifyData_eq]
  cases hptr : s.ptrOf peerId with
  | none => exact h
  | some q =>
    have hl : ∀ p, (Function.update s.discovery q
        { s.discovery q with getaddrReplied := true } p).learnedAddresses = (s.discovery p).learnedAddresses := by
      intro p
      rw [Function.update_apply]
      split
      · rename_i heq
        rw [heq]
      · rfl
    refine ⟨h.registered, h.attached, h.tables, h.ring, fun p => ?_, h.known, h.canonical, fun id p hp => ?_,
      fun id p hp e he hresp => ?_, h.echoless⟩
    · simp only [Option.elim_some]
      rw [hl]
      exact h.learned p
    · simp only [Option.elim_some]
      rw [hl]
      exact h.remembers id p hp
    · simp only [Option.elim_some, Function.update_apply]
      split
      · rfl
      · exact h.replied id p hp e he hresp

theorem Relays.canonical_composeResponse (h : Relays s) {ta : TimestampedAddress}
    (hta : ta ∈ s.composeResponse env orders peerId self) : Canonical ta.address := by
  rcases mem_composeResponse hta with hta | hta | hta
  · exact h.ring ta hta
  · exact mem_getAddresses h.tables hta
  · obtain ⟨p, k, e, he, rfl⟩ := mem_getLearned hta
    exact (h.learned p k e he).1

theorem Relays.fits (h : Relays s) {p : PeerPtr} (hptr : s.ptrOf peerId = some p) (hpast : InTime s.log env.time)
    (hfirst : ∀ e ∈ s.log, e.isResponseTo p = false) (orders : ResponseOrders) (self : NetworkAddress) :
    Fits s.log p env.time self (orders.response.run (s.composeResponse env orders peerId self)) := by
  have hperm := orders.response.perm (s.composeResponse env orders peerId self)
  have hcol := composeResponse_collected s env orders peerId self
  generalize orders.response.run (s.composeResponse env orders peerId self) = response at hperm ⊢
  have hcan : ∀ ta ∈ response, Canonical ta.address := fun ta hta =>
    h.canonical_composeResponse (hperm.mem_iff.mp hta)
  have hallowed : ∀ ta ∈ response,
      isSuppressed env.time ((s.discovery p).learnedAddresses.prune env.time) self (addrKey ta.address) =
        false := by
    intro ta hta
    have := hcol.allowed ta (hperm.mem_iff.mp hta)
    unfold barred at this
    rwa [dataOf_eq, hptr] at this
  refine ⟨hperm.length_eq ▸ hcol.length_le, ?_, fun ta hta => isRoutable_iff.mp (hcan ta hta).2,
    fun ta hta heq => ?_, fun t delivered hmem hfresh sent hsent ta hta heq => ?_, hfirst⟩
  · have hkeys : response.map (fun ta => normalKey ta.address) = response.map (fun ta => addrKey ta.address) :=
      List.map_congr_left fun ta hta => (hcan ta hta).1.normalKey_eq
    rw [hkeys]
    exact (hperm.map _).nodup_iff.mpr hcol.nodup
  · have := hallowed ta hta
    rw [heq] at this
    simp [isSuppressed] at this
  · rw [(hcan ta hta).1.normalKey_eq, (h.canonical p t delivered hmem sent hsent).1.normalKey_eq] at heq
    rcases h.remembers peerId p hptr t delivered hmem sent hsent with ⟨e, he, hlong⟩ | hseen
    · have := hpast e he
      omega
    · have hlast : ∀ e, (s.discovery p).learnedAddresses[addrKey sent.address]? = some e →
        e.lastSeenS ≤ env.time := by
        intro e he
        obtain ⟨-, last, hlast, htime⟩ := h.learned p _ e he
        exact htime ▸ hpast last hlast
      have hsup : isSuppressed _ _ self (addrKey sent.address) = true := isSuppressed_of_seen hseen hfresh hlast
      rw [← heq, hallowed ta hta] at hsup
      cases hsup

theorem Relays.respond (h : Relays s) {p : PeerPtr} (hp : p < s.peers.length) {timeS : Int}
    {addresses : List TimestampedAddress} (hreplied : (s.discovery p).getaddrReplied = true)
    (hfits : Fits s.log p timeS self addresses) :
    Relays { s with log := s.log ++ [.response p timeS self addresses] } where
  registered := h.registered
  attached := h.attached
  tables := h.tables
  ring := h.ring
  learned q := (h.learned q).mono fun t ⟨e, he, ht⟩ => ⟨e, List.mem_append_left _ he, ht⟩
  known e he := by
    rcases List.mem_append.mp he with he | he
    · exact h.known e he
    · rw [List.mem_singleton.mp he]
      exact hp
  canonical q t delivered hmem := by
    rcases List.mem_append.mp hmem with hmem | hmem
    · exact h.canonical q t delivered hmem
    · cases List.mem_singleton.mp hmem
  remembers id q hq := (h.remembers id q hq).snoc fun t delivered heq => by cases heq
  replied id q hq e he hresp := by
    rcases List.mem_append.mp he with he | he
    · exact h.replied id q hq e he hresp
    · rw [List.mem_singleton.mp he] at hresp
      obtain rfl : p = q := beq_iff_eq.mp hresp
      exact hreplied
  echoless := h.echoless.snoc fun q t self' addresses' heq => by
    cases heq
    exact hfits

theorem Relays.handleGetAddr (h : Relays s) (fromString : String → BitVec 16 → NetworkAddress)
    (orders : ResponseOrders) (p : PeerPtr) (hpast : InTime s.log env.time) :
    Relays (s.handleGetAddr fromString env orders p) := by
  unfold PeerDiscoveryManager.handleGetAddr
  cases hpeer : s.peers[p]? with
  | none => exact h
  | some peer =>
    dsimp only
    split
    · exact h
    split
    · exact h
    split
    · exact h
    rename_i hnew
    have hmark := h.mark peer.id
    split
    · rename_i hsend
      simp only [Bool.and_eq_true] at hsend
      have hptr := h.attached.entry p peer hpeer hsend.1.2
      have hfirst : ∀ e ∈ s.log, e.isResponseTo p = false := fun e he => by
        by_contra hresp
        have := h.replied _ p hptr e he (Bool.not_eq_false _ ▸ hresp)
        rw [dataOf_eq, hptr] at hnew
        exact hnew this
      have hmarked : s.modifyData peer.id ({ · with getaddrReplied := true }) =
          { s with discovery := Function.update s.discovery p { s.discovery p with getaddrReplied := true } } := by
        rw [modifyData_eq, hptr]
        rfl
      rw [hmarked] at hmark ⊢
      refine hmark.respond (List.getElem?_eq_some_iff.mp hpeer).1 ?_ (hmark.fits hptr hpast hfirst orders _)
      simp
    · exact hmark

end

/-! ## Runs -/

/-- What a run without echoes asks of a call. -/
def Fair (s : PeerDiscoveryManager) : DiscoveryOp → Prop
  | .handleAddr env _ p places addresses => ∀ peer ∈ s.peers[p]?, peer.successfullyConnected = true →
    Learnable s env.time peer.id (acceptedOf places addresses)
  | .handleGetAddr env _ _ => InTime s.log env.time
  | .addrManager op => AddressManager.LoadsClean op
  | .lifecycle op => TakesFreshId s.toNetworkManager op

section
variable {parse : String → Option String} {config : PeerConfig} {fromString : String → BitVec 16 → NetworkAddress}
  {s : PeerDiscoveryManager}

theorem Relays.step (h : Relays s) {op : DiscoveryOp} (hop : Fair s op) :
    Relays (s.step parse config fromString op) := by
  cases op with
  | handleAddr env order p places addresses => exact h.handleAddr order p places addresses hop
  | handleGetAddr env orders p => exact h.handleGetAddr fromString orders p hop
  | addrManager op =>
    exact ⟨h.registered, h.attached, (h.tables.step_iff op).mpr hop, h.ring, h.learned, h.known, h.canonical,
      h.remembers, h.replied, h.echoless⟩
  | lifecycle op =>
    obtain ⟨A, hn⟩ := h.attached.lifecycleStep h.registered parse config hop
    exact h.lifecycle (h.registered.lifecycleStep config parse op) A hn

end

def hostAddress (ip : String) (port : BitVec 16) : NetworkAddress :=
  ⟨0, if ip = "10.0.0.1" then 0xffff0a000001 else if ip = "10.0.0.2" then 0xffff0a000002 else 0, port⟩

def atThousand : NetEnv := { time := 1000 }

def stamped (ip : BitVec 128) : TimestampedAddress := ⟨1000, ⟨1, ip, 9590⟩⟩

/-- Two inbound peers that have answered the handshake, at 10.0.0.1 and 10.0.0.2. -/
def admitTwo : List DiscoveryOp :=
  [.lifecycle (.addInbound {} (some ("10.0.0.1", 1000)) true NetPermissionFlags.None ""),
   .lifecycle (.addInbound {} (some ("10.0.0.2", 2000)) true NetPermissionFlags.None ""),
   .lifecycle (.manage (.handleVerack 0)), .lifecycle (.manage (.handleVerack 1))]

/-- Both peers send 10.0.0.8, the first one 10.0.0.9 as well, and the second one asks. -/
def askAfterBoth : List DiscoveryOp :=
  [.handleAddr atThousand .same 0 [0, 1] [stamped 0xffff0a000009, stamped 0xffff0a000008],
   .handleAddr atThousand .same 1 [0] [stamped 0xffff0a000008], .handleGetAddr atThousand {} 1]

/-- The second peer sends ::1.2.3.4 and asks. -/
def askAfterCompatible : List DiscoveryOp :=
  [.handleAddr atThousand .same 1 [0] [stamped 0x01020304], .handleGetAddr atThousand {} 1]

abbrev stepTwo : PeerDiscoveryManager → DiscoveryOp → PeerDiscoveryManager :=
  PeerDiscoveryManager.step some {} hostAddress

abbrev idle : PeerDiscoveryManager := fresh (ChainstateManager.fresh false)

def runTwo (ops : List DiscoveryOp) : PeerDiscoveryManager := ops.foldl stepTwo idle

theorem reaches_runTwo {ops : List DiscoveryOp} {op : DiscoveryOp} (h : Run.Reaches stepTwo Fair idle (runTwo ops))
    (hop : Fair (runTwo ops) op) : Run.Reaches stepTwo Fair idle (runTwo (ops ++ [op])) := by
  unfold runTwo
  rw [List.foldl_append]
  exact h.next hop

/-- In a run of fair calls no response echoes, and no object gets a second one. -/
theorem responses_echoless {chainstate : ChainstateManager}
    (h : Run.Reaches (PeerDiscoveryManager.step parse config fromString) Fair (fresh chainstate) s) :
    Echoless s.log :=
  (h.invariant (relays_fresh chainstate) fun _ _ h hop => h.step hop).echoless

theorem responses_echoless_both : Echoless (runTwo (admitTwo ++ askAfterBoth)).log ∧
    (runTwo (admitTwo ++ askAfterBoth)).log.getLast? =
      some (.response 1 1000 (hostAddress "10.0.0.2" 2000) [stamped 0xffff0a000009]) := by
  have hstart : Run.Reaches stepTwo Fair idle (runTwo []) := .start
  refine ⟨responses_echoless (reaches_runTwo (reaches_runTwo (reaches_runTwo (reaches_runTwo (reaches_runTwo
    (reaches_runTwo (reaches_runTwo hstart ?_) ?_) ?_) ?_) ?_) ?_) ?_), by decide +kernel⟩
  · dsimp only [Fair]
    decide +kernel
  · dsimp only [Fair]
    decide +kernel
  · exact trivial
  · exact trivial
  · dsimp only [Fair]
    decide +kernel
  · dsimp only [Fair]
    decide +kernel
  · dsimp only [Fair]
    decide +kernel

/-- The address manager has it as ::ffff:1.2.3.4, and the peer is answered with that. -/
theorem echoes_compatible_address : ¬ ∀ s : PeerDiscoveryManager,
    Run.Reaches stepTwo (fun _ _ => True) idle s → Echoless s.log := by
  intro h
  have hlog : (runTwo (admitTwo ++ askAfterCompatible)).log = [.accepted 1 1000 [stamped 0x01020304],
      .response 1 1000 (hostAddress "10.0.0.2" 2000) [stamped 0xffff01020304]] := by decide +kernel
  have hfits := h (runTwo (admitTwo ++ askAfterCompatible)) (Run.Reaches.start.foldl fun _ _ _ => trivial)
    [.accepted 1 1000 [stamped 0x01020304]] 1 1000 _ [stamped 0xffff01020304] [] hlog
  exact hfits.noEcho 1000 [stamped 0x01020304] List.mem_cons_self (by decide) _ List.mem_cons_self _
    List.mem_cons_self (by decide +kernel)

end PeerDiscoveryManager

end UnicityPow
