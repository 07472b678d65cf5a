import UnicityPow.AdmissionSound

/-!
# Connection limits over runs

The limits hold in every state that the calls on the peer manager reach. The ids that it
gives out are those of a counter of 32 bits, so they differ up to the 2^32th.
-/

namespace UnicityPow

namespace NetworkManager

/-! ## What a call changes -/

/-- The environment that only normalizes. -/
def normalEnv (parse : String → Option String) : NetEnv := NetEnv.normalizing parse {}

/-- An inbound object shows the address it came from. -/
def SettledInbound (s : NetworkManager) : Prop := ∀ p ∈ s.peers, p.isInbound = true → p.Settled

section
variable {parse : String → Option String} {config : PeerConfig} {env : NetEnv} {s s' : NetworkManager}

theorem SettledInbound.of_follow (h : SettledInbound s) (hf : PeersFollow s s') : SettledInbound s' := by
  intro q hq hin
  obtain ⟨p, hp, hqp⟩ := hf q hq
  exact (h p hp (hqp.1 ▸ hin)).of_follows hqp

theorem SettledInbound.keepsView (h : SettledInbound s) : KeepsView kindView s := by
  intro p f hid hf
  refine ⟨.modifyPeer s p hid, ?_, rfl, rfl⟩
  funext q
  rw [viewAt_modifyPeer]
  by_cases hq : q = p
  · rw [if_pos hq]
    unfold viewAt
    cases hpeer : s.peers[q]? with
    | none => rfl
    | some peer =>
      have haddr : peer.isInbound = true → (f peer).address = peer.address := fun hin =>
        (h peer (List.mem_of_getElem? hpeer) hin).address_of_follows (hf peer)
      simp only [Option.map_some, kindView, (hf peer).1, (hf peer).2.1]
      cases hin : peer.isInbound with
      | false => simp
      | true => simp [haddr hin]
  · rw [if_neg hq]

variable (parse) in
theorem manage_shrinks (R : Registered s) (h : SettledInbound s) (op : ManageOp) :
    Shrinks kindView s (s.manage parse op) ∧ SettledInbound (s.manage parse op) :=
  ⟨R.manage_shrinks parse h.keepsView op, h.of_follow (.manage parse s op)⟩

variable (config env) in
theorem madeRoom_shrinks (R : Registered s) (h : SettledInbound s) (peer : Peer) :
    Shrinks kindView s (s.madeRoom config env peer) ∧ SettledInbound (s.madeRoom config env peer) :=
  ⟨R.madeRoom_shrinks config env kindView peer, h.of_follow (.madeRoom config env s peer)⟩

/-! ## The limits -/

variable (parse config) in
structure WithinLimits (s : NetworkManager) : Prop where
  inbound : s.inboundCount ≤ config.maxInboundPeers
  outbound : s.outboundCount ≤ config.maxOutboundPeers
  perIp : ∀ address, s.sameIpInbound (normalEnv parse) address ≤ MAX_INBOUND_PER_IP

theorem WithinLimits.of_shrinks (h : WithinLimits parse config s) (hs : Shrinks kindView s s') :
    WithinLimits parse config s' where
  inbound := by
    have := h.inbound
    rw [inboundCount_eq] at this ⊢
    exact (Tally.size_filter_le _ hs.sub).trans this
  outbound := by
    have := h.outbound
    rw [outboundCount_eq] at this ⊢
    exact (Tally.size_filter_le _ hs.sub).trans this
  perIp address := by
    have := h.perIp address
    rw [sameIpInbound_eq] at this ⊢
    exact (Tally.size_filter_le _ hs.sub).trans this

theorem admits_inbound (R : Registered s) {peer : Peer} {permissions : NetPermissionFlags} {address : String}
    (hin : peer.isInbound = true) (h : s.admits config env peer permissions address = true) :
    (s.madeRoom config env peer).inboundCount < config.maxInboundPeers ∧
      (s.madeRoom config env peer).admitsIp env peer.address = true := by
  unfold admits at h
  unfold madeRoom
  simp only [Bool.and_eq_true, hin, Bool.not_true, Bool.false_or, Bool.true_and] at h ⊢
  by_cases hroom : s.inboundCount < config.maxInboundPeers
  · simp only [hroom, if_true, not_le.mpr hroom, decide_false, Bool.false_eq_true, if_false] at h ⊢
    exact ⟨trivial, h.2⟩
  · cases hv : s.evictionVictim env with
    | none => simp [hroom, hv] at h
    | some victim =>
      have hw := h.2
      simp only [hroom, if_false, hv, Option.any_some] at hw
      rw [admitsWithout_eq config R hv, Bool.and_eq_true, decide_eq_true_eq] at hw
      simpa [not_lt.mp hroom] using hw

theorem admits_outbound {peer : Peer} {permissions : NetPermissionFlags} {address : String}
    (hslot : (kindView.view peer).takesOutboundSlot = true)
    (h : s.admits config env peer permissions address = true) :
    s.outboundCount < config.maxOutboundPeers := by
  unfold admits refusesEarly at h
  have hslot' : (!peer.isInbound && !peer.isFeeler && !peer.isManual) = true := hslot
  simp only [hslot', Bool.true_and, Bool.and_eq_true, Bool.not_eq_true', Bool.or_eq_false_iff,
    decide_eq_false_iff_not, not_le] at h
  exact h.1.2

theorem WithinLimits.addPeer (h : WithinLimits parse config s) (R : Registered s) (hset : SettledInbound s)
    (peer : Peer) (permissions : NetPermissionFlags) (address : String) :
    WithinLimits parse config (s.addPeer config (env.normalizing parse) peer permissions address).1 := by
  rw [addPeer_eq R]
  obtain ⟨hroom, hset'⟩ := madeRoom_shrinks config (env.normalizing parse) R hset peer
  have hmade := h.of_shrinks hroom
  split
  · rename_i hadm
    have hA := hroom.registered.insertPeer kindView (env.normalizing parse) peer permissions
      (if address = "" then peer.address else address)
    refine ⟨?_, ?_, fun address' => ?_⟩
    · rw [inboundCount_eq, hA.population]
      refine (Tally.size_filter_insert_le _ _ _ _).trans ?_
      rw [← inboundCount_eq]
      cases hin : peer.isInbound with
      | true => simpa [kindView, hin] using (admits_inbound R hin hadm).1
      | false => simpa [kindView, hin] using hmade.inbound
    · rw [outboundCount_eq, hA.population]
      refine (Tally.size_filter_insert_le _ _ _ _).trans ?_
      rw [← outboundCount_eq]
      cases hslot : (kindView.view peer).takesOutboundSlot with
      | true =>
        have hle := admits_outbound hslot hadm
        have hout : (s.madeRoom config (env.normalizing parse) peer).outboundCount ≤ s.outboundCount := by
          rw [outboundCount_eq, outboundCount_eq]
          exact Tally.size_filter_le _ hroom.sub
        simp only [if_true]
        omega
      | false => simpa [hslot] using hmade.outbound
    · rw [sameIpInbound_eq, hA.population]
      refine (Tally.size_filter_insert_le _ _ _ _).trans ?_
      rw [← sameIpInbound_eq]
      cases hfrom : (kindView.view peer).isInboundFrom (normalEnv parse) address' with
      | true =>
        have hfrom' := hfrom
        unfold PeerKind.isInboundFrom kindView at hfrom'
        simp only [Bool.and_eq_true, beq_iff_eq] at hfrom'
        obtain ⟨hin, hnorm⟩ := hfrom'
        rw [if_pos hin] at hnorm
        have hip := (admits_inbound R hin hadm).2
        unfold admitsIp at hip
        have hnorm' : (env.normalizing parse).validateAndNormalizeIP peer.address = some address' := hnorm
        rw [hnorm'] at hip
        have hlt : (s.madeRoom config (env.normalizing parse) peer).sameIpInbound (normalEnv parse) address' <
            MAX_INBOUND_PER_IP := of_decide_eq_true hip
        simp only [if_true]
        omega
      | false => simpa [hfrom] using hmade.perIp address'
  · split
    · exact hmade
    · exact h

variable (config) in
theorem SettledInbound.addPeer (R : Registered s) (h : SettledInbound s) {peer : Peer}
    {permissions : NetPermissionFlags} {address : String}
    (hp : peer.isInbound = true → s.admits config env peer permissions address = true → peer.Settled) :
    SettledInbound (s.addPeer config env peer permissions address).1 := by
  rw [addPeer_eq R]
  obtain ⟨-, hset⟩ := madeRoom_shrinks config env R h peer
  split
  · rename_i hadm
    intro q hq hin
    rcases PeersFollow.insertPeer _ peer permissions _ q hq with ⟨p, hp', hqp⟩ | hqp
    · exact (hset p hp' (hqp.1 ▸ hin)).of_follows hqp
    · exact (hp (hqp.1 ▸ hin) hadm).of_follows hqp
  · split
    · exact hset
    · exact h

theorem createInbound_settled (R : Registered s) {connection : Option (String × BitVec 16)} {isOpen : Bool}
    {permissions : NetPermissionFlags} {address : String}
    (h : s.admits config (env.normalizing parse) (.createInbound connection isOpen) permissions address = true) :
    (Peer.createInbound connection isOpen).Settled := by
  cases connection with
  | none => exact .inl rfl
  | some remote =>
    refine .inr ⟨rfl, fun hempty => ?_⟩
    have hip := (admits_inbound R rfl h).2
    unfold admitsIp at hip
    have haddr : (Peer.createInbound (some remote) isOpen).address = "" := hempty
    have hnone : (env.normalizing parse).validateAndNormalizeIP "" = none := rfl
    rw [haddr, hnone] at hip
    cases hip

/-! ## Ids -/

/-- The ids of the first admissions, as a counter of 32 bits counts them from one. -/
def firstIds (n : Nat) : List Int := (List.range n).map fun k : Nat => toInt32 (k + 1)

theorem toInt32_succ (n : Int) : toInt32 (toInt32 n + 1) = toInt32 (n + 1) := by
  unfold toInt32
  rw [BitVec.ofInt_add, BitVec.ofInt_toInt, BitVec.ofInt_add]

theorem toInt32_inj {m n : Nat} (hm : m < 2 ^ 32) (hn : n < 2 ^ 32) (h : toInt32 (m + 1) = toInt32 (n + 1)) :
    m = n := by
  have hbits := BitVec.eq_of_toInt_eq h
  have hnat := congrArg BitVec.toNat hbits
  simp only [BitVec.toNat_ofInt] at hnat
  omega

theorem firstIds_succ (n : Nat) : firstIds (n + 1) = firstIds n ++ [toInt32 (n + 1)] := by
  simp [firstIds, List.range_succ]

theorem firstIds_nodup {n : Nat} (h : n ≤ 2 ^ 32) : (firstIds n).Nodup := by
  refine List.Nodup.map_on (fun i hi j hj heq => ?_) List.nodup_range
  rw [List.mem_range] at hi hj
  exact toInt32_inj (by omega) (by omega) heq

theorem firstIds_not_nodup {n : Nat} (h : 2 ^ 32 < n) : ¬ (firstIds n).Nodup := by
  intro hnodup
  have hget : ∀ {k : Nat}, k < n → (firstIds n)[k]? = some (toInt32 (k + 1)) := fun {k} hk => by
    unfold firstIds
    rw [List.getElem?_map, List.getElem?_range hk]
    rfl
  have h0 := hget (show 0 < n by omega)
  have hlast := hget h
  have hsame : toInt32 (((0 : Nat) : Int) + 1) = toInt32 (((2 ^ 32 : Nat) : Int) + 1) := by decide
  rw [hsame] at h0
  have := (List.getElem?_inj (by simp [firstIds]; omega) hnodup).mp (h0.trans hlast.symm)
  omega

/-- The counter has given out the first ids, among them those of the map. -/
structure Counted (s : NetworkManager) : Prop where
  idsGivenOut : s.idsGivenOut = firstIds s.idsGivenOut.length
  nextPeerId : s.nextPeerId = toInt32 (s.idsGivenOut.length + 1)
  given : ∀ id ∈ s.population kindView, id ∈ s.idsGivenOut

theorem Counted.of_shrinks (h : Counted s) (hs : Shrinks kindView s s') : Counted s' where
  idsGivenOut := by rw [hs.idsGivenOut]; exact h.idsGivenOut
  nextPeerId := by rw [hs.nextPeerId, hs.idsGivenOut]; exact h.nextPeerId
  given id hid := by
    rw [Std.ExtTreeMap.mem_iff_isSome_getElem?] at hid
    obtain ⟨x, hx⟩ := Option.isSome_iff_exists.mp hid
    rw [hs.idsGivenOut]
    exact h.given id (Std.ExtTreeMap.mem_iff_isSome_getElem?.mpr (by rw [hs.sub id x hx]; rfl))

theorem Counted.of_admitted {x : PeerKind} (h : Counted s) (hA : Admitted kindView s x s') : Counted s' where
  idsGivenOut := by
    rw [hA.idsGivenOut, List.length_append, List.length_singleton, firstIds_succ, ← h.idsGivenOut, h.nextPeerId]
  nextPeerId := by
    rw [hA.nextPeerId, hA.idsGivenOut, List.length_append, List.length_singleton, h.nextPeerId, toInt32_succ]
    rfl
  given id hid := by
    rw [hA.population, Std.ExtTreeMap.mem_insert] at hid
    rw [hA.idsGivenOut, List.mem_append, List.mem_singleton]
    rcases hid with heq | hid
    · exact .inr (Std.compare_eq_iff_eq.mp heq).symm
    · exact .inl (h.given id hid)

variable (config) in
theorem Counted.addPeer (R : Registered s) (hset : SettledInbound s) (h : Counted s) (peer : Peer)
    (permissions : NetPermissionFlags) (address : String) :
    Counted (s.addPeer config env peer permissions address).1 := by
  rw [addPeer_eq R]
  obtain ⟨hroom, -⟩ := madeRoom_shrinks config env R hset peer
  split
  · exact (h.of_shrinks hroom).of_admitted (hroom.registered.insertPeer kindView env peer permissions _)
  · split
    · exact h.of_shrinks hroom
    · exact h

variable (config) in
theorem idsGivenOut_addPeer (R : Registered s) (hset : SettledInbound s) (peer : Peer)
    (permissions : NetPermissionFlags) (address : String) :
    (s.addPeer config env peer permissions address).1.idsGivenOut =
      if s.admits config env peer permissions address then s.idsGivenOut ++ [s.nextPeerId] else s.idsGivenOut := by
  rw [addPeer_eq R]
  obtain ⟨hroom, -⟩ := madeRoom_shrinks config env R hset peer
  by_cases hadm : s.admits config env peer permissions address = true
  · rw [if_pos hadm, if_pos hadm, (hroom.registered.insertPeer kindView env peer permissions _).idsGivenOut,
      hroom.idsGivenOut, hroom.nextPeerId]
  · rw [if_neg hadm, if_neg hadm]
    dsimp only
    split
    · exact hroom.idsGivenOut
    · rfl

/-! ## Runs -/

variable (parse config) in
/-- The calls that admit a new peer. -/
def admitsNew (s : NetworkManager) : LifecycleOp → Bool
  | .addInbound env connection isOpen permissions address =>
    s.admits config (env.normalizing parse) (.createInbound connection isOpen) permissions address
  | .addOutbound env connection isOpen targetAddress targetPort connectionType permissions address =>
    s.admits config (env.normalizing parse)
      (.createOutbound connection isOpen targetAddress targetPort connectionType) permissions address
  | .manage _ => false

variable (parse config) in
/-- What every call keeps. -/
structure Limited (s : NetworkManager) : Prop where
  registered : Registered s
  settled : SettledInbound s
  withinLimits : WithinLimits parse config s
  counted : Counted s

variable (parse config) in
theorem limited_fresh (chainstate : ChainstateManager) : Limited parse config (fresh chainstate) where
  registered := registered_fresh chainstate
  settled := fun p hp => by cases hp
  withinLimits := ⟨Nat.zero_le _, Nat.zero_le _, fun _ => Nat.zero_le _⟩
  counted := ⟨rfl, rfl, fun id hid =>
    absurd ((registered_fresh chainstate).mem_population.mp hid) (by simp [fresh])⟩

theorem Limited.lifecycleStep (L : Limited parse config s) (op : LifecycleOp) :
    Limited parse config (s.lifecycleStep parse config op) := by
  cases op with
  | addInbound env connection isOpen permissions address =>
    refine ⟨L.registered.lifecycleStep config parse (.addInbound env connection isOpen permissions address), ?_,
      L.withinLimits.addPeer L.registered L.settled _ permissions address,
      L.counted.addPeer config L.registered L.settled _ permissions address⟩
    exact L.settled.addPeer config L.registered fun _ hadm => createInbound_settled L.registered hadm
  | addOutbound env connection isOpen targetAddress targetPort connectionType permissions address =>
    refine ⟨L.registered.lifecycleStep config parse
        (.addOutbound env connection isOpen targetAddress targetPort connectionType permissions address), ?_,
      L.withinLimits.addPeer L.registered L.settled _ permissions address,
      L.counted.addPeer config L.registered L.settled _ permissions address⟩
    exact L.settled.addPeer config L.registered fun hin _ => by cases hin
  | manage op =>
    obtain ⟨hs, hset⟩ := manage_shrinks parse L.registered L.settled op
    exact ⟨hs.registered, hset, L.withinLimits.of_shrinks hs, L.counted.of_shrinks hs⟩

theorem Limited.idsGivenOut_length (L : Limited parse config s) (op : LifecycleOp) :
    (s.lifecycleStep parse config op).idsGivenOut.length =
      s.idsGivenOut.length + if s.admitsNew parse config op then 1 else 0 := by
  cases op with
  | addInbound env connection isOpen permissions address =>
    unfold NetworkManager.lifecycleStep admitsNew
    dsimp only
    rw [idsGivenOut_addPeer config L.registered L.settled]
    split <;> simp
  | addOutbound env connection isOpen targetAddress targetPort connectionType permissions address =>
    unfold NetworkManager.lifecycleStep admitsNew
    dsimp only
    rw [idsGivenOut_addPeer config L.registered L.settled]
    split <;> simp
  | manage op => exact congrArg List.length (manage_shrinks parse L.registered L.settled op).1.idsGivenOut

theorem limited_of_reaches {chainstate : ChainstateManager} {ok : NetworkManager → LifecycleOp → Prop}
    (h : Run.Reaches (lifecycleStep parse config) ok (fresh chainstate) s) : Limited parse config s :=
  h.invariant (limited_fresh parse config chainstate) fun _ op L _ => L.lifecycleStep op

theorem Limited.idsGivenOut_nodup_iff (L : Limited parse config s) :
    s.idsGivenOut.Nodup ↔ s.idsGivenOut.length ≤ 2 ^ 32 := by
  constructor
  · intro h
    rw [L.counted.idsGivenOut] at h
    exact not_lt.mp fun hlt => firstIds_not_nodup hlt h
  · intro h
    rw [L.counted.idsGivenOut]
    exact firstIds_nodup h

/-- The limits, and ids that differ from all earlier ones while the counter has not come
round. -/
theorem lifecycle_within_limits (chainstate : ChainstateManager)
    (h : Run.Reaches (lifecycleStep parse config)
      (fun s op => s.admitsNew parse config op = true → s.idsGivenOut.length < 2 ^ 32) (fresh chainstate) s) :
    WithinLimits parse config s ∧ s.peerStates.keys.Nodup ∧
      (∀ id p, s.ptrOf id = some p → s.idOf p = some id) ∧
      (∀ id ∈ s.peerStates, id ∈ s.idsGivenOut) ∧ s.idsGivenOut.Nodup := by
  have hlen : s.idsGivenOut.length ≤ 2 ^ 32 := by
    induction h with
    | start => exact Nat.zero_le _
    | next hs hok ih =>
      rw [(limited_of_reaches hs).idsGivenOut_length]
      split
      · rename_i hadm
        exact hok hadm
      · exact ih
  have L := limited_of_reaches h
  exact ⟨L.withinLimits, Std.ExtTreeMap.nodup_keys, L.registered,
    fun id hid => L.counted.given id (L.registered.mem_population.mpr hid), L.idsGivenOut_nodup_iff.mpr hlen⟩

end

/-! ## A counter that comes round -/

/-- One more manual connection. -/
def addManual : LifecycleOp :=
  .addOutbound {} (some ("10.0.0.1", 1000)) true "10.0.0.1" 1000 .MANUAL NetPermissionFlags.NoBan ""

/-- So many manual connections. -/
def manyManual (n : Nat) : NetworkManager :=
  (List.replicate n addManual).foldl (lifecycleStep some {}) (fresh (ChainstateManager.fresh false))

theorem manyManual_succ (n : Nat) : manyManual (n + 1) = (manyManual n).lifecycleStep some {} addManual := by
  unfold manyManual
  rw [List.replicate_succ', List.foldl_append]
  rfl

theorem manyManual_reaches (n : Nat) :
    Run.Reaches (lifecycleStep some {}) (fun _ _ => True) (fresh (ChainstateManager.fresh false))
      (manyManual n) := by
  induction n with
  | zero => exact .start
  | succ n ih =>
    rw [manyManual_succ]
    exact ih.next trivial

theorem manyManual_admits {s : NetworkManager} (h : s.stoppingAll = false) :
    s.admitsNew some {} addManual = true := by
  unfold admitsNew addManual admits refusesEarly
  simp [h, Peer.createOutbound, Peer.create, Peer.isManual, hasPermission, NetPermissionFlags.NoBan]

theorem manyManual_idsGivenOut (n : Nat) :
    (manyManual n).stoppingAll = false ∧ (manyManual n).idsGivenOut.length = n := by
  induction n with
  | zero => exact ⟨rfl, rfl⟩
  | succ n ih =>
    have L := limited_of_reaches (manyManual_reaches n)
    have hadm := manyManual_admits ih.1
    rw [manyManual_succ]
    refine ⟨?_, by rw [L.idsGivenOut_length, if_pos hadm, ih.2]⟩
    unfold NetworkManager.lifecycleStep addManual
    dsimp only
    rw [addPeer_eq L.registered]
    unfold admitsNew addManual at hadm
    rw [if_pos hadm]
    exact ih.1

theorem lifecycle_within_limits_one :
    WithinLimits some {} (manyManual 1) ∧ (manyManual 1).peerStates.keys.Nodup ∧
      (∀ id p, (manyManual 1).ptrOf id = some p → (manyManual 1).idOf p = some id) ∧
      (∀ id ∈ (manyManual 1).peerStates, id ∈ (manyManual 1).idsGivenOut) ∧
      (manyManual 1).idsGivenOut.Nodup := by
  refine lifecycle_within_limits (ChainstateManager.fresh false) ?_
  rw [manyManual_succ]
  exact .next .start fun _ => by decide

/-- After 2^32 admissions the ids start again. -/
theorem ids_start_again :
    ¬ ∀ (parse : String → Option String) (config : PeerConfig) (chainstate : ChainstateManager)
        (s : NetworkManager),
        Run.Reaches (lifecycleStep parse config) (fun _ _ => True) (fresh chainstate) s →
          WithinLimits parse config s ∧ s.peerStates.keys.Nodup ∧
            (∀ id p, s.ptrOf id = some p → s.idOf p = some id) ∧ s.idsGivenOut.Nodup := by
  intro h
  obtain ⟨-, -, -, hnodup⟩ := h some {} _ _ (manyManual_reaches (2 ^ 32 + 1))
  have hlen := (manyManual_idsGivenOut (2 ^ 32 + 1)).2
  have hle := (limited_of_reaches (manyManual_reaches (2 ^ 32 + 1))).idsGivenOut_nodup_iff.mp hnodup
  omega

end NetworkManager

end UnicityPow
