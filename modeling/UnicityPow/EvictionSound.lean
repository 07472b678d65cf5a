import UnicityPow.Leader
import UnicityPow.PeerTable

/-!
# The victim of an eviction

`evict_inbound_peer` keeps the worst candidate so far while it goes through an unordered map.
The comparison is lexicographic, so the last one kept is the worst of all, in any order.
-/

namespace UnicityPow

namespace NetworkManager

/-! ## The comparison -/

namespace EvictionCandidate

/-- `a` is evicted rather than `b`: a greater ping, then an older connection, then a lesser id. -/
def Leads (a b : EvictionCandidate) : Prop :=
  mapPing b.pingTimeMs < mapPing a.pingTimeMs ∨ mapPing b.pingTimeMs = mapPing a.pingTimeMs ∧
    (a.connectedTime < b.connectedTime ∨ a.connectedTime = b.connectedTime ∧ a.peerId ≤ b.peerId)

instance : DecidableRel Leads := fun _ _ => inferInstanceAs (Decidable (_ ∨ _))

theorem Leads.refl (a : EvictionCandidate) : a.Leads a := .inr ⟨rfl, .inr ⟨rfl, le_rfl⟩⟩

theorem Leads.trans (a b d : EvictionCandidate) (h1 : a.Leads b) (h2 : b.Leads d) : a.Leads d := by
  unfold Leads at *
  omega

theorem Leads.total (a b : EvictionCandidate) (h : ¬ a.Leads b) : b.Leads a := by
  unfold Leads at *
  omega

theorem Leads.peerId_eq {a b : EvictionCandidate} (h1 : a.Leads b) (h2 : b.Leads a) : a.peerId = b.peerId := by
  unfold Leads at *
  omega

/-- The state of the loop once it has kept a candidate. -/
def best (a : EvictionCandidate) : EvictionBest := ⟨a.peerId, a.connectedTime, mapPing a.pingTimeMs⟩

end EvictionCandidate

theorem mapPing_nonneg (p : Int) : 0 ≤ mapPing p := by
  unfold mapPing
  split <;> omega

theorem consider_first (x : EvictionCandidate) : EvictionBest.consider {} x = x.best := by
  have := mapPing_nonneg x.pingTimeMs
  unfold EvictionBest.consider
  dsimp only
  rw [if_pos (by omega)]
  rfl

theorem consider_best (a x : EvictionCandidate) : a.best.consider x = (if a.Leads x then a else x).best := by
  by_cases hlead : a.Leads x
  · rw [if_pos hlead]
    unfold EvictionCandidate.Leads at hlead
    unfold EvictionBest.consider EvictionCandidate.best
    dsimp only
    rw [if_neg (by omega)]
    split
    · rw [if_neg (by omega), if_neg (by omega)]
    · rfl
  · rw [if_neg hlead]
    unfold EvictionCandidate.Leads at hlead
    unfold EvictionBest.consider EvictionCandidate.best
    dsimp only
    by_cases hgt : mapPing a.pingTimeMs < mapPing x.pingTimeMs
    · rw [if_pos hgt]
    · have heq : mapPing x.pingTimeMs = mapPing a.pingTimeMs := by omega
      rw [if_neg hgt, if_pos heq]
      split
      · rw [heq]
      · have hold : x.connectedTime = a.connectedTime := by omega
        rw [if_pos ⟨hold, by omega⟩, heq, hold]

/-- The loop ends with the leader of the candidates. -/
theorem foldl_consider (x : EvictionCandidate) (l : List EvictionCandidate) :
    (x :: l).foldl EvictionBest.consider {} = (Leader.pick EvictionCandidate.Leads x l).best := by
  rw [List.foldl_cons, consider_first]
  induction l generalizing x with
  | nil => rfl
  | cons y l ih => rw [List.foldl_cons, consider_best, ih, Leader.pick_cons]

theorem foldl_consider_leads {l : List EvictionCandidate} (h : l ≠ []) :
    ∃ v ∈ l, l.foldl EvictionBest.consider {} = v.best ∧ ∀ x ∈ l, v.Leads x := by
  cases l with
  | nil => exact absurd rfl h
  | cons x l =>
    exact ⟨_, Leader.pick_mem x l, foldl_consider x l, Leader.pick_leads EvictionCandidate.Leads.refl
      EvictionCandidate.Leads.trans EvictionCandidate.Leads.total x l⟩

/-- In whatever order the candidates come, the same id is kept. -/
theorem foldl_consider_perm {l l' : List EvictionCandidate} (h : l.Perm l') :
    (l.foldl EvictionBest.consider {}).worstPeerId = (l'.foldl EvictionBest.consider {}).worstPeerId := by
  by_cases hl : l = []
  · subst hl
    rw [h.nil_eq]
  · have hl' : l' ≠ [] := fun hnil => hl (List.perm_nil.mp (hnil ▸ h))
    obtain ⟨v, hv, heq, hlead⟩ := foldl_consider_leads hl
    obtain ⟨v', hv', heq', hlead'⟩ := foldl_consider_leads hl'
    rw [heq, heq']
    exact (hlead v' (h.mem_iff.mpr hv')).peerId_eq (hlead' v (h.mem_iff.mp hv))

/-! ## The candidates -/

section
variable (env : NetEnv) (s : NetworkManager)

/-- A tracked inbound peer without `NoBan`, connected for ten seconds. -/
def Evictable (id : Int) (peer : Peer) : Prop :=
  ∃ d, s.peerStates[id]? = some d ∧ s.peerOf d = some peer ∧ peer.isInbound = true ∧ d.misbehavior.noBan = false ∧
    10 ≤ steadySeconds env.steadyTime - peer.connectedTime

/-- The peer to be evicted: of the greatest ping, then the oldest connection, then the lowest id. -/
def IsVictim (id : Int) (peer : Peer) : Prop :=
  s.Evictable env id peer ∧ ∀ id' peer', s.Evictable env id' peer' →
    mapPing peer'.pingTimeMs < mapPing peer.pingTimeMs ∨ mapPing peer'.pingTimeMs = mapPing peer.pingTimeMs ∧
      (peer.connectedTime < peer'.connectedTime ∨ peer.connectedTime = peer'.connectedTime ∧ id ≤ id')

end

variable {env : NetEnv} {s : NetworkManager}

theorem mem_evictionCandidates {x : EvictionCandidate} : x ∈ s.evictionCandidates env ↔
    ∃ peer, s.Evictable env x.peerId peer ∧ x.connectedTime = peer.connectedTime ∧
    x.pingTimeMs = peer.pingTimeMs := by
  unfold evictionCandidates Evictable
  rw [List.mem_filterMap]
  constructor
  · rintro ⟨⟨id, d⟩, hkv, hsome⟩
    obtain ⟨peer, hpeer, hcand⟩ := Option.bind_eq_some_iff.mp hsome
    split at hcand
    · cases hcand
    · rename_i hkeep
      obtain rfl := Option.some.inj hcand
      simp only [Bool.or_eq_true, Bool.not_eq_true', decide_eq_true_eq, not_or, Bool.not_eq_false,
        Bool.not_eq_true] at hkeep
      exact ⟨peer, ⟨d, Std.ExtTreeMap.mem_toList_iff_getElem?_eq_some.mp hkv, hpeer, hkeep.1.1, hkeep.1.2,
        by omega⟩, rfl, rfl⟩
  · rintro ⟨peer, ⟨d, hget, hpeer, hin, hban, hage⟩, htime, hping⟩
    refine ⟨(x.peerId, d), Std.ExtTreeMap.mem_toList_iff_getElem?_eq_some.mpr hget, ?_⟩
    rw [hpeer, Option.bind_some, if_neg (by simp [hin, hban]; omega), ← htime, ← hping]

theorem Evictable.candidate {id : Int} {peer : Peer} (h : s.Evictable env id peer) :
    (⟨id, peer.connectedTime, peer.pingTimeMs⟩ : EvictionCandidate) ∈ s.evictionCandidates env :=
  mem_evictionCandidates.mpr ⟨peer, h, rfl, rfl⟩

theorem IsVictim.unique {id id' : Int} {peer peer' : Peer} (h : s.IsVictim env id peer)
    (h' : s.IsVictim env id' peer') : id = id' := by
  have h1 := h.2 id' peer' h'.1
  have h2 := h'.2 id peer h.1
  omega

theorem evictionCandidates_ne_nil_iff : s.evictionCandidates env ≠ [] ↔ ∃ id peer, s.Evictable env id peer := by
  constructor
  · intro h
    obtain ⟨x, hx⟩ := List.exists_mem_of_ne_nil _ h
    obtain ⟨peer, hpeer, -⟩ := mem_evictionCandidates.mp hx
    exact ⟨_, peer, hpeer⟩
  · rintro ⟨id, peer, h⟩
    exact List.ne_nil_of_mem h.candidate

/-- The loop over the candidates finds the victim. -/
theorem foldl_consider_victim (h : s.evictionCandidates env ≠ []) :
    ∃ peer, s.IsVictim env ((s.evictionCandidates env).foldl EvictionBest.consider {}).worstPeerId peer := by
  obtain ⟨v, hv, heq, hlead⟩ := foldl_consider_leads h
  obtain ⟨peer, hpeer, htime, hping⟩ := mem_evictionCandidates.mp hv
  rw [heq]
  refine ⟨peer, hpeer, fun id' peer' h' => ?_⟩
  have := hlead _ h'.candidate
  unfold EvictionCandidate.Leads at this
  rw [htime, hping] at this
  exact this

/-! ## The removal -/

theorem discourage_peerStates (s : NetworkManager) (address : String) :
    (s.discourage env address).peerStates = s.peerStates := by
  unfold discourage
  split <;> rfl

variable (env) in
theorem discourageMisbehaving_peerStates (s : NetworkManager) (d : PeerMisbehaviorData) :
    (s.discourageMisbehaving env d).peerStates = s.peerStates := by
  unfold discourageMisbehaving
  split
  · cases env.validateAndNormalizeIP d.address with
    | none => rfl
    | some a => exact discourage_peerStates s a
  · rfl

theorem onPeerDisconnected_peerStates (s : NetworkManager) (peerId : BitVec 64) :
    (s.onPeerDisconnected peerId).peerStates = s.peerStates := by
  unfold onPeerDisconnected
  split
  · exact List.foldlRecOn (motive := fun t : NetworkManager => t.peerStates = s.peerStates) _ _ rfl
      (fun t h p _ => h)
  · rfl

/-- A tracked peer is erased, and no other. -/
theorem removePeer_peerStates {peerId : Int} {d : PeerTrackingData} {peer : Peer}
    (hd : s.peerStates[peerId]? = some d)
    (hpeer : s.peerOf d = some peer) : (s.removePeer env peerId).peerStates = s.peerStates.erase peerId := by
  unfold removePeer
  rw [hd]
  simp only [hpeer]
  rw [← discourageMisbehaving_peerStates env s d.misbehavior]
  generalize s.discourageMisbehaving env d.misbehavior = s1
  unfold disconnectPeer modifyPeer
  split
  · rfl
  · exact onPeerDisconnected_peerStates _ _

theorem evictInboundPeer_victim {victim : Int} {peer : Peer} (h : s.IsVictim env victim peer) :
    s.evictInboundPeer env = if 0 ≤ victim then (s.removePeer env victim, true) else (s, false) := by
  have hne : s.evictionCandidates env ≠ [] := evictionCandidates_ne_nil_iff.mpr ⟨victim, peer, h.1⟩
  obtain ⟨peer', hv⟩ := foldl_consider_victim hne
  unfold evictInboundPeer
  split
  · exact absurd ‹_› hne
  · rw [h.unique hv]

theorem evictInboundPeer_none (h : ¬ ∃ id peer, s.Evictable env id peer) : s.evictInboundPeer env = (s, false) := by
  have hnil : s.evictionCandidates env = [] := by
    by_contra hne
    exact h (evictionCandidates_ne_nil_iff.mp hne)
  unfold evictInboundPeer
  rw [hnil]

/-- An eviction removes a peer exactly if the victim among the evictable peers has an id that is
not negative, and removes that one. The order of the candidates does not matter. -/
theorem evictInboundPeer_removes_victim (env : NetEnv) (s : NetworkManager) :
    ((∃ id peer, s.Evictable env id peer) → ∃ victim peer, s.IsVictim env victim peer ∧
      (∀ id peer', s.IsVictim env id peer' → id = victim) ∧
      if 0 ≤ victim then (s.evictInboundPeer env).2 = true ∧
        (s.evictInboundPeer env).1.peerStates = s.peerStates.erase victim
      else s.evictInboundPeer env = (s, false)) ∧
    ((¬ ∃ id peer, s.Evictable env id peer) → s.evictInboundPeer env = (s, false)) ∧
    ∀ l : List EvictionCandidate, l.Perm (s.evictionCandidates env) →
    (l.foldl EvictionBest.consider {}).worstPeerId =
      ((s.evictionCandidates env).foldl EvictionBest.consider {}).worstPeerId := by
  refine ⟨fun h => ?_, evictInboundPeer_none, fun l hl => foldl_consider_perm hl⟩
  obtain ⟨peer, hv⟩ := foldl_consider_victim (evictionCandidates_ne_nil_iff.mpr h)
  refine ⟨_, peer, hv, fun id peer' h' => h'.unique hv, ?_⟩
  have heq := evictInboundPeer_victim hv
  obtain ⟨d, hd, hpeer, -⟩ := hv.1
  split
  · rename_i hpos
    rw [heq, if_pos hpos]
    exact ⟨rfl, removePeer_peerStates hd hpeer⟩
  · rename_i hneg
    rw [heq, if_neg hneg]

/-- An inbound peer admitted when the counter of ids had passed the largest `int`. -/
def wrappedId : NetworkManager where
  chainstate := {}
  peers := [{ id := -2147483648, isInbound := true, connectionType := .INBOUND, connection := none }]
  peerStates := (∅ : Std.ExtTreeMap Int PeerTrackingData compare).insert (-2147483648) { peer := 0, createdAt := 0 }

theorem wrappedId_victim :
    wrappedId.IsVictim { steadyTime := 60000000000 } (-2147483648)
      { id := -2147483648, isInbound := true, connectionType := .INBOUND, connection := none } := by
  refine ⟨⟨{ peer := 0, createdAt := 0 }, Std.ExtTreeMap.getElem?_insert_self, rfl, rfl, by decide, by decide⟩, ?_⟩
  rintro id' peer' ⟨d, hd, hpeer, -⟩
  unfold wrappedId at hd
  rw [Std.ExtTreeMap.getElem?_insert] at hd
  split at hd
  · rename_i hid
    obtain rfl := Std.LawfulEqOrd.eq_of_compare hid
    cases hd
    cases hpeer
    exact .inr ⟨rfl, .inr ⟨rfl, le_rfl⟩⟩
  · simp at hd

/-- The peer with a negative id is not evicted, though no other could be. -/
theorem evictInboundPeer_keeps_negative_id :
    ¬ ∀ (env : NetEnv) (s : NetworkManager), (∃ id peer, s.Evictable env id peer) →
      ∃ victim ∈ s.peerStates, (s.evictInboundPeer env).1.peerStates = s.peerStates.erase victim := by
  intro h
  obtain ⟨victim, hmem, heq⟩ := h { steadyTime := 60000000000 } wrappedId ⟨_, _, wrappedId_victim.1⟩
  rw [evictInboundPeer_victim wrappedId_victim, if_neg (by decide)] at heq
  rw [heq, Std.ExtTreeMap.mem_erase] at hmem
  exact hmem.1 Std.ReflCmp.compare_self

end NetworkManager

end UnicityPow
