import UnicityPow.AdmissionSound
import UnicityPow.Dial

/-!
# Dials that overlap

A dial is checked when it starts, and its peer is added when its outcome runs. What the
checks keep apart stays apart in every run whose dials do not overlap.
-/

namespace UnicityPow

/-- What kind of connection an object is and where it was dialed to. -/
structure PeerTarget where
  isInbound : Bool
  connectionType : ConnectionType
  targetAddress : String
  targetPort : BitVec 16
deriving DecidableEq

def targetView : PeerView PeerTarget where
  view p := ⟨p.isInbound, p.connectionType, p.targetAddress, p.targetPort⟩
  setId _ _ := rfl
  setSyncStarted _ _ := rfl

namespace NetworkManager

section
variable {α : Type} {v : PeerView α} {config : PeerConfig} {env : NetEnv} {s s' s'' : NetworkManager}

theorem keepsView_targetView (s : NetworkManager) : KeepsView targetView s := by
  refine .of_follows fun p q hq => ?_
  obtain ⟨hin, htype, haddr, hport, -⟩ := hq
  simp only [targetView, hin, htype, haddr, hport]

/-! ## One entry more -/

/-- At most one entry is new, and it is under this id. -/
structure Grows (v : PeerView α) (s : NetworkManager) (id : Int) (x : α) (s' : NetworkManager) : Prop where
  registered : Registered s'
  sub : ∀ (id' : Int) (y : α), (s'.population v)[id']? = some y →
    (id' = id ∧ y = x) ∨ (s.population v)[id']? = some y

theorem Grows.of_shrinks {id : Int} {x : α} (h : Shrinks v s s') : Grows v s id x s' :=
  ⟨h.registered, fun id' y hy => .inr (h.sub id' y hy)⟩

theorem Grows.samePeers {id : Int} {x : α} (h : Grows v s id x s') (hs : SamePeers v s' s'') :
    Grows v s id x s'' :=
  ⟨hs.registered h.registered, fun id' y hy => h.sub id' y (hs.population ▸ hy)⟩

variable (v config env) in
theorem Registered.addPeer_grows (R : Registered s) (peer : Peer) (permissions : NetPermissionFlags)
    (address : String) :
    Grows v s s.nextPeerId (v.view peer) (s.addPeer config env peer permissions address).1 := by
  rw [addPeer_eq R]
  have hroom := R.madeRoom_shrinks config env v peer
  split
  · have hA := hroom.registered.insertPeer v env peer permissions (if address = "" then peer.address else address)
    refine ⟨hA.registered, fun id' y hy => ?_⟩
    rw [hA.population, Std.ExtTreeMap.getElem?_insert] at hy
    split at hy
    · rename_i heq
      have hid := Std.compare_eq_iff_eq.mp heq
      rw [hroom.nextPeerId] at hid
      exact .inl ⟨hid.symm, (Option.some.inj hy).symm⟩
    · exact .inr (hroom.sub id' y hy)
  · split
    · exact .of_shrinks hroom
    · exact .of_shrinks (.refl v R)

variable (config env) in
theorem Registered.addAndStart_grows (R : Registered s) (hv : ∀ s, KeepsView v s) (peer : Peer)
    (permissions : NetPermissionFlags) (address : String) :
    Grows v s s.nextPeerId (v.view peer) (s.addAndStart config env peer permissions address) := by
  have hadd := R.addPeer_grows v config env peer permissions address
  unfold NetworkManager.addAndStart
  dsimp only
  split
  · exact hadd.samePeers ((hv _).disconnectPeer _)
  · split
    · exact hadd
    · exact hadd.samePeers (hv _ _ _ (fun _ => rfl) fun _ => ⟨rfl, rfl, rfl, rfl, .inl rfl⟩)

theorem addPeer_follows (R : Registered s) (peer : Peer) (permissions : NetPermissionFlags) (address : String) :
    ∀ q ∈ (s.addPeer config env peer permissions address).1.peers,
      (∃ p ∈ s.peers, q.Follows p) ∨ q.Follows peer := by
  rw [addPeer_eq R]
  have hroom := PeersFollow.madeRoom config env s peer
  intro q hq
  split at hq
  · rcases PeersFollow.insertPeer _ peer permissions _ q hq with ⟨p, hp, hqp⟩ | hqp
    · obtain ⟨r, hr, hpr⟩ := hroom p hp
      exact .inl ⟨r, hr, hqp.trans hpr⟩
    · exact .inr hqp
  · split at hq
    · exact .inl (hroom q hq)
    · exact .inl ⟨q, hq, .refl q⟩

theorem addAndStart_follows (R : Registered s) (peer : Peer) (permissions : NetPermissionFlags) (address : String) :
    ∀ q ∈ (s.addAndStart config env peer permissions address).peers,
      (∃ p ∈ s.peers, q.Follows p) ∨ q.Follows peer := by
  have hadd : ∀ q ∈ (s.addPeer config env peer permissions address).1.peers,
      (∃ p ∈ s.peers, q.Follows p) ∨ q.Follows peer := addPeer_follows R peer permissions address
  have hmod : ∀ (p : PeerPtr) (f : Peer → Peer), (∀ peer, (f peer).Follows peer) →
      ∀ q ∈ ((s.addPeer config env peer permissions address).1.modifyPeer p f).peers,
        (∃ p ∈ s.peers, q.Follows p) ∨ q.Follows peer := by
    intro p f hf q hq
    obtain ⟨r, hr, hqr⟩ := PeersFollow.modifyPeer _ p hf q hq
    rcases hadd r hr with ⟨p', hp', hrp⟩ | hrp
    · exact .inl ⟨p', hp', hqr.trans hrp⟩
    · exact .inr (hqr.trans hrp)
  unfold addAndStart
  dsimp only
  split
  · exact hmod _ _ Peer.disconnect_follows
  · split
    · exact hadd
    · exact hmod _ _ fun _ => ⟨rfl, rfl, rfl, rfl, .inl rfl⟩

end

end NetworkManager

namespace DialManager

open NetworkManager

/-! ## The dials of a state -/

def dialTarget (dial : Dial) : PeerTarget := ⟨false, connectionType dial, dial.address, dial.addr.port⟩

/-- The dials that the transport works on, and those whose success is posted. -/
def dials (s : DialManager) : List Dial := s.connecting ++ (s.posted.filter Prod.snd).map Prod.fst

section
variable (networkAddressToString : BitVec 128 → Option String) (parse : String → Option String)
variable (config : PeerConfig) (s : DialManager)

/-- The dial that a call starts. -/
def startedDial : DialOp → Option Dial
  | .connectTo env addr permissions connects =>
    (networkAddressToString addr.ip).bind fun address =>
      if s.checkOutbound config (env.normalizing parse) address addr.port = .Success ∧
          makeKey addr ∉ s.pendingOutbound ∧ connects = true then some ⟨addr, address, permissions, false⟩
      else none
  | .attemptFeelerConnection _ isRunning addr connects =>
    addr.bind fun addr => (networkAddressToString addr.ip).bind fun address =>
      if isRunning = true ∧ s.haveFeeler = false ∧ connects = true then
        some ⟨addr, address, NetPermissionFlags.None, true⟩
      else none
  | _ => none

/-- A dial starts. -/
def begin (dial : Dial) : DialManager :=
  { s with
    pendingOutbound := if dial.isFeeler then s.pendingOutbound else makeKey dial.addr :: s.pendingOutbound
    connecting := s.connecting ++ [dial] }

end

section
variable {networkAddressToString : BitVec 128 → Option String} {parse : String → Option String}
variable {config : PeerConfig} {s : DialManager}

theorem step_connectTo (env : NetEnv) (addr : NetworkAddress) (permissions : NetPermissionFlags) (connects : Bool) :
    s.step networkAddressToString parse config (.connectTo env addr permissions connects) =
      (s.startedDial networkAddressToString parse config (.connectTo env addr permissions connects)).elim s
        s.begin := by
  unfold step connectTo startedDial
  dsimp only
  cases networkAddressToString addr.ip with
  | none => rfl
  | some address =>
    dsimp only [Option.bind_some]
    cases hcheck : s.checkOutbound config (env.normalizing parse) address addr.port with
    | Success =>
      by_cases hkey : makeKey addr ∈ s.pendingOutbound
      · simp [hkey]
      · cases connects with
        | false => simp [hkey]
        | true => simp [hkey, begin]
    | _ => simp

theorem step_attemptFeelerConnection (env : NetEnv) (isRunning : Bool) (addr : Option NetworkAddress)
    (connects : Bool) :
    s.step networkAddressToString parse config (.attemptFeelerConnection env isRunning addr connects) =
      (s.startedDial networkAddressToString parse config
        (.attemptFeelerConnection env isRunning addr connects)).elim s s.begin := by
  unfold step attemptFeelerConnection startedDial
  dsimp only
  cases isRunning with
  | false => cases addr <;> simp
  | true =>
    cases hfeeler : s.haveFeeler with
    | true => cases addr <;> simp
    | false =>
      cases addr with
      | none => simp
      | some addr =>
        cases haddr : networkAddressToString addr.ip with
        | none => simp [haddr]
        | some address =>
          cases connects with
          | false => simp [haddr]
          | true => simp [haddr, begin]

/-! ## Dials and peers that are kept apart -/

theorem perm_eraseIdx {α : Type*} {l : List α} {i : Nat} {a : α} (h : l[i]? = some a) :
    l.Perm (a :: l.eraseIdx i) := by
  induction l generalizing i with
  | nil => cases h
  | cons b l ih =>
    cases i with
    | zero =>
      obtain rfl := Option.some.inj h
      exact .refl _
    | succ i => exact ((ih h).cons b).trans (.swap a b _)

/-- No two entries, dials, or an entry and a dial, clash. -/
structure Apart (clash : PeerTarget → PeerTarget → Prop) (s : DialManager) : Prop where
  registered : Registered s.toNetworkManager
  peers : ∀ (id id' : Int) (x x' : PeerTarget), (s.population targetView)[id]? = some x →
    (s.population targetView)[id']? = some x' → clash x x' → id = id'
  mixed : ∀ (id : Int) (x : PeerTarget), (s.population targetView)[id]? = some x →
    ∀ d ∈ s.dials, ¬ clash x (dialTarget d)
  dials : s.dials.Pairwise (fun d d' => ¬ clash (dialTarget d) (dialTarget d'))

/-- A symmetric relation that no inbound peer is in. -/
structure Clash (clash : PeerTarget → PeerTarget → Prop) : Prop where
  symm : ∀ x y, clash x y → clash y x
  outbound : ∀ x y, clash x y → x.isInbound = false ∨ x.connectionType ≠ .INBOUND

section
variable {clash : PeerTarget → PeerTarget → Prop} {s' : DialManager}

theorem fresh_population (chainstate : ChainstateManager) (id : Int) (x : PeerTarget) :
    ((fresh chainstate).population targetView)[id]? ≠ some x := by
  intro h
  have hmem : id ∈ (fresh chainstate).population targetView :=
    Std.ExtTreeMap.mem_iff_isSome_getElem?.mpr (by rw [h]; rfl)
  exact absurd ((registered_fresh chainstate).mem_population.mp hmem) (by simp [NetworkManager.fresh])

theorem apart_fresh (chainstate : ChainstateManager) : Apart clash (fresh chainstate) :=
  ⟨registered_fresh chainstate, fun id _ x _ hx _ _ => absurd hx (fresh_population chainstate id x),
    fun id x hx _ _ => absurd hx (fresh_population chainstate id x), .nil⟩

theorem Apart.of_shrinks (C : Clash clash) (h : Apart clash s)
    (hs : Shrinks targetView s.toNetworkManager s'.toNetworkManager) (hd : s'.dials.Subperm s.dials) :
    Apart clash s' where
  registered := hs.registered
  peers id id' x x' hx hx' hc := h.peers id id' x x' (hs.sub id x hx) (hs.sub id' x' hx') hc
  mixed id x hx d hd' := h.mixed id x (hs.sub id x hx) d (hd.subset hd')
  dials := by
    obtain ⟨l, hl, hsub⟩ := hd
    exact (h.dials.sublist hsub).perm hl fun hc hc' => hc (C.symm _ _ hc')

theorem Apart.of_grows (C : Clash clash) (h : Apart clash s) {id : Int} {x : PeerTarget}
    (hg : Grows targetView s.toNetworkManager id x s'.toNetworkManager) (hd : s'.dials = s.dials)
    (hpeers : ∀ (id' : Int) (y : PeerTarget), (s.population targetView)[id']? = some y → ¬ clash y x)
    (hdials : ∀ d ∈ s.dials, ¬ clash x (dialTarget d)) : Apart clash s' where
  registered := hg.registered
  peers := by
    intro id1 id2 x1 x2 hx1 hx2 hc
    rcases hg.sub id1 x1 hx1 with ⟨rfl, rfl⟩ | hold1
    · rcases hg.sub id2 x2 hx2 with ⟨rfl, rfl⟩ | hold2
      · rfl
      · exact absurd (C.symm _ _ hc) (hpeers id2 x2 hold2)
    · rcases hg.sub id2 x2 hx2 with ⟨rfl, rfl⟩ | hold2
      · exact absurd hc (hpeers id1 x1 hold1)
      · exact h.peers id1 id2 x1 x2 hold1 hold2 hc
  mixed := by
    intro id1 x1 hx1 d hd'
    rw [hd] at hd'
    rcases hg.sub id1 x1 hx1 with ⟨rfl, rfl⟩ | hold
    · exact hdials d hd'
    · exact h.mixed id1 x1 hold d hd'
  dials := hd ▸ h.dials

theorem Apart.begin (C : Clash clash) (h : Apart clash s) {dial : Dial}
    (hpeers : ∀ (id : Int) (x : PeerTarget), (s.population targetView)[id]? = some x →
      ¬ clash x (dialTarget dial))
    (hdials : ∀ d ∈ s.dials, ¬ clash (dialTarget d) (dialTarget dial)) : Apart clash (s.begin dial) := by
  have hperm : (s.begin dial).dials.Perm (dial :: s.dials) := by
    unfold DialManager.dials DialManager.begin
    rw [List.append_assoc, List.singleton_append]
    exact List.perm_middle
  refine ⟨h.registered, h.peers, fun id x hx d hd => ?_, ?_⟩
  · rcases List.mem_cons.mp (hperm.mem_iff.mp hd) with rfl | hd
    · exact hpeers id x hx
    · exact h.mixed id x hx d hd
  · refine List.Pairwise.perm ?_ hperm.symm fun hc hc' => hc (C.symm _ _ hc')
    exact List.pairwise_cons.mpr ⟨fun d hd hc => hdials d hd (C.symm _ _ hc), h.dials⟩

theorem callback_dials (i : Nat) (success : Bool) : (s.callback i success).dials.Subperm s.dials := by
  unfold callback
  cases hi : s.connecting[i]? with
  | none => exact .refl _
  | some dial =>
    have hperm := perm_eraseIdx hi
    unfold DialManager.dials
    dsimp only
    rw [List.filter_append, List.map_append]
    cases success with
    | false =>
      simp only [List.filter_cons, List.filter_nil, Bool.false_eq_true, if_false, List.map_nil, List.append_nil]
      exact (List.Sublist.append_right (List.eraseIdx_sublist _ _) _).subperm
    | true =>
      refine List.Perm.subperm ?_
      simp only [List.filter_cons, List.filter_nil, if_true, List.map_cons, List.map_nil]
      rw [← List.append_assoc]
      refine List.perm_append_comm.trans ?_
      exact (hperm.symm.append_right _)

theorem Apart.complete (C : Clash clash) (h : Apart clash s) (env : NetEnv) (i : Nat) (isOpen : Bool) :
    Apart clash (s.complete config env i isOpen) := by
  unfold DialManager.complete
  cases hi : s.posted[i]? with
  | none => exact h
  | some r =>
    obtain ⟨dial, success⟩ := r
    dsimp only
    cases success with
    | false =>
      refine h.of_shrinks C (.refl _ h.registered) (List.Sublist.subperm ?_)
      exact (((List.eraseIdx_sublist _ _).filter _).map _).append_left _
    | true =>
      -- the dial leaves the list, and its peer takes its place
      have hperm : s.dials.Perm (dial :: ({ s with posted := s.posted.eraseIdx i } : DialManager).dials) := by
        unfold DialManager.dials
        have hp := ((perm_eraseIdx hi).filter Prod.snd).map Prod.fst
        simp only [List.filter_cons, if_true, List.map_cons] at hp
        exact (hp.append_left _).trans List.perm_middle
      have hless : Apart clash ({ s with posted := s.posted.eraseIdx i } : DialManager) :=
        h.of_shrinks C (.refl _ h.registered) ((List.sublist_cons_self _ _).subperm.trans hperm.symm.subperm)
      have hpair := h.dials.perm hperm fun hc hc' => hc (C.symm _ _ hc')
      refine hless.of_grows C
        (h.registered.addAndStart_grows config env keepsView_targetView (dialedPeer dial isOpen) _ _) rfl
        (fun id y hy => h.mixed id y hy dial (hperm.mem_iff.mpr List.mem_cons_self)) ?_
      exact (List.pairwise_cons.mp hpair).1

/-- What is apart stays apart when a dial starts apart from everything. -/
theorem Apart.step (C : Clash clash) (h : Apart clash s) (op : DialOp)
    (hdial : ∀ dial, s.startedDial networkAddressToString parse config op = some dial →
      (∀ (id : Int) (x : PeerTarget), (s.population targetView)[id]? = some x →
        ¬ clash x (dialTarget dial)) ∧ ∀ d ∈ s.dials, ¬ clash (dialTarget d) (dialTarget dial)) :
    Apart clash (s.step networkAddressToString parse config op) := by
  have hstart : Apart clash ((s.startedDial networkAddressToString parse config op).elim s s.begin) := by
    cases hd : s.startedDial networkAddressToString parse config op with
    | none => exact h
    | some dial => exact h.begin C (hdial dial hd).1 (hdial dial hd).2
  cases op with
  | connectTo env addr permissions connects =>
    rw [step_connectTo]
    exact hstart
  | attemptFeelerConnection env isRunning addr connects =>
    rw [step_attemptFeelerConnection]
    exact hstart
  | callback i success =>
    refine h.of_shrinks C ?_ (callback_dials i success)
    unfold DialManager.step DialManager.callback
    dsimp only
    split <;> exact .refl _ h.registered
  | complete env i isOpen => exact h.complete C _ i isOpen
  | handleInboundConnection env isRunning connection isOpen permissions =>
    unfold DialManager.step NetworkManager.handleInboundConnection
    dsimp only
    split
    · exact h
    · split
      · exact h
      · split
        · exact h
        · refine h.of_grows C (h.registered.addAndStart_grows config _ keepsView_targetView _ permissions "") rfl
            (fun id y _ hc => ?_) fun d _ hc => ?_
          · exact absurd (C.outbound _ _ (C.symm _ _ hc)) (by simp [targetView, Peer.createInbound, Peer.create])
          · exact absurd (C.outbound _ _ hc) (by simp [targetView, Peer.createInbound, Peer.create])
  | manage op =>
    exact h.of_shrinks C (h.registered.manage_shrinks parse (keepsView_targetView _) op) (.refl _)

end

/-! ## One feeler -/

def bothFeelers (x y : PeerTarget) : Prop := x.connectionType = .FEELER ∧ y.connectionType = .FEELER

theorem clash_bothFeelers : Clash bothFeelers :=
  ⟨fun _ _ h => ⟨h.2, h.1⟩, fun x _ h => .inr (by rw [h.1]; decide)⟩

theorem dialTarget_feeler (dial : Dial) : (dialTarget dial).connectionType = .FEELER ↔ dial.isFeeler = true := by
  unfold dialTarget connectionType
  cases dial.isFeeler with
  | true => simp
  | false =>
    dsimp only
    split
    · simp at *
    · split <;> simp

theorem entriesWhere_isFeeler :
    (s.entriesWhere Peer.isFeeler).length =
      ((s.population targetView).filter (fun _ x => x.connectionType == .FEELER)).size :=
  entriesWhere_length (fun x : PeerTarget => x.connectionType == .FEELER) fun _ => rfl

theorem not_feeler_of_haveFeeler (h : s.haveFeeler = false) (id : Int) (x : PeerTarget)
    (hx : (s.population targetView)[id]? = some x) : x.connectionType ≠ .FEELER := by
  intro hfeeler
  unfold haveFeeler at h
  rw [Bool.not_eq_false', List.isEmpty_iff_length_eq_zero, entriesWhere_isFeeler] at h
  have hget : ((s.population targetView).filter (fun _ x => x.connectionType == .FEELER))[id]? = some x := by
    rw [Tally.getElem?_filter, hx]
    simp [Option.filter, hfeeler]
  have := Tally.size_erase hget
  omega

/-- A feeler dial starts while no other one is in progress. -/
def FeelersApart (networkAddressToString : BitVec 128 → Option String) (parse : String → Option String)
    (config : PeerConfig) (s : DialManager) (op : DialOp) : Prop :=
  ∀ dial, s.startedDial networkAddressToString parse config op = some dial → dial.isFeeler = true →
    ∀ d ∈ s.dials, d.isFeeler = false

theorem haveFeeler_of_startedDial {op : DialOp} {dial : Dial}
    (h : s.startedDial networkAddressToString parse config op = some dial) (hfeeler : dial.isFeeler = true) :
    s.haveFeeler = false := by
  cases op with
  | connectTo env addr permissions connects =>
    unfold startedDial at h
    obtain ⟨address, -, h⟩ := Option.bind_eq_some_iff.mp h
    split at h
    · obtain rfl := Option.some.inj h
      cases hfeeler
    · cases h
  | attemptFeelerConnection env isRunning addr connects =>
    unfold startedDial at h
    obtain ⟨addr, -, h⟩ := Option.bind_eq_some_iff.mp h
    obtain ⟨address, -, h⟩ := Option.bind_eq_some_iff.mp h
    split at h
    · rename_i hok
      exact hok.2.1
    · cases h
  | _ => cases h

theorem apart_of_feelersApart {chainstate : ChainstateManager}
    (h : Run.Reaches (step networkAddressToString parse config)
      (FeelersApart networkAddressToString parse config) (fresh chainstate) s) : Apart bothFeelers s := by
  refine h.invariant (apart_fresh chainstate) fun s op hs hop => hs.step clash_bothFeelers op fun dial hd => ?_
  refine ⟨fun id x hx hc => ?_, fun d hd' hc => ?_⟩
  · have hfeeler := (dialTarget_feeler dial).mp hc.2
    exact not_feeler_of_haveFeeler (haveFeeler_of_startedDial hd hfeeler) id x hx hc.1
  · have hfeeler := (dialTarget_feeler dial).mp hc.2
    have hother := (dialTarget_feeler d).mp hc.1
    rw [hop dial hd hfeeler d hd'] at hother
    cases hother

theorem single_feeler (chainstate : ChainstateManager)
    (h : Run.Reaches (step networkAddressToString parse config)
      (FeelersApart networkAddressToString parse config) (fresh chainstate) s) :
    (s.entriesWhere Peer.isFeeler).length ≤ 1 := by
  have hA := apart_of_feelersApart h
  rw [entriesWhere_isFeeler]
  refine Tally.size_filter_le_one _ fun id id' x x' hx hx' hf hf' => ?_
  exact hA.peers id id' x x' hx hx' ⟨by simpa using hf, by simpa using hf'⟩

/-! ## One outbound peer at a target -/

variable (parse) in
/-- Two outbound connections to one normalized address and port. -/
def sameTarget (x y : PeerTarget) : Prop :=
  x.isInbound = false ∧ y.isInbound = false ∧ x.targetPort = y.targetPort ∧
    ∃ normalized, validateAndNormalizeIP parse x.targetAddress = some normalized ∧
      validateAndNormalizeIP parse y.targetAddress = some normalized

theorem clash_sameTarget : Clash (sameTarget parse) := by
  refine ⟨fun x y h => ?_, fun _ _ h => .inl h.1⟩
  obtain ⟨hx, hy, hport, normalized, hnx, hny⟩ := h
  exact ⟨hy, hx, hport.symm, normalized, hny, hnx⟩

variable (networkAddressToString) in
/-- What the pending keys know of the dials that the transport works on. -/
structure Keyed (s : DialManager) : Prop where
  address : ∀ d ∈ s.connecting, networkAddressToString d.addr.ip = some d.address
  pending : ∀ d ∈ s.connecting, d.isFeeler = false → makeKey d.addr ∈ s.pendingOutbound
  keys : s.connecting.Pairwise
    (fun d d' => d.isFeeler = false → d'.isFeeler = false → makeKey d.addr ≠ makeKey d'.addr)

theorem Keyed.begin (h : Keyed networkAddressToString s) {dial : Dial}
    (haddr : networkAddressToString dial.addr.ip = some dial.address)
    (hkey : dial.isFeeler = false → makeKey dial.addr ∉ s.pendingOutbound) :
    Keyed networkAddressToString (s.begin dial) := by
  unfold DialManager.begin
  refine ⟨fun d hd => ?_, fun d hd hf => ?_, ?_⟩
  · rcases List.mem_append.mp hd with hd | hd
    · exact h.address d hd
    · rw [List.mem_singleton.mp hd]
      exact haddr
  · rcases List.mem_append.mp hd with hd | hd
    · dsimp only
      split
      · exact h.pending d hd hf
      · exact List.mem_cons_of_mem _ (h.pending d hd hf)
    · rw [List.mem_singleton] at hd
      subst hd
      simp [hf]
  · refine List.pairwise_append.mpr ⟨h.keys, List.pairwise_singleton _ _, fun d hd d' hd' hf hf' heq => ?_⟩
    rw [List.mem_singleton] at hd'
    subst hd'
    exact hkey hf' (heq ▸ h.pending d hd hf)

theorem Keyed.callback (h : Keyed networkAddressToString s) (i : Nat) (success : Bool) :
    Keyed networkAddressToString (s.callback i success) := by
  unfold DialManager.callback
  cases hi : s.connecting[i]? with
  | none => exact h
  | some dial =>
    have hsub := List.eraseIdx_sublist s.connecting i
    have hpair := h.keys.perm (perm_eraseIdx hi) fun hne hf hf' heq => hne hf' hf heq.symm
    refine ⟨fun d hd => h.address d (hsub.subset hd), fun d hd hf => ?_, h.keys.sublist hsub⟩
    have hin := h.pending d (hsub.subset hd) hf
    dsimp only
    split
    · exact hin
    · rename_i hdial
      have hne := (List.pairwise_cons.mp hpair).1 d hd (by simpa using hdial) hf
      exact List.mem_filter.mpr ⟨hin, by simpa using hne.symm⟩

/-- Outbound objects are connected to their target, if at all. -/
def DialedOutbound (s : NetworkManager) : Prop :=
  ∀ p ∈ s.peers, p.isInbound = false →
    p.connection = none ∨ p.connection = some (p.targetAddress, p.targetPort)

theorem DialedOutbound.of_follow {s s' : NetworkManager} (h : DialedOutbound s) (peer : Peer)
    (hf : ∀ q ∈ s'.peers, (∃ p ∈ s.peers, q.Follows p) ∨ q.Follows peer)
    (hpeer : peer.isInbound = false → peer.connection = none ∨
      peer.connection = some (peer.targetAddress, peer.targetPort)) : DialedOutbound s' := by
  have hkeep : ∀ p q : Peer, q.Follows p →
      (p.connection = none ∨ p.connection = some (p.targetAddress, p.targetPort)) →
      q.connection = none ∨ q.connection = some (q.targetAddress, q.targetPort) := by
    rintro p q ⟨-, -, ha, hp, hc⟩ h
    rcases hc with hc | hc
    · rw [hc, ha, hp]
      exact h
    · exact .inl hc
  intro q hq hin
  rcases hf q hq with ⟨p, hp, hqp⟩ | hqp
  · exact hkeep p q hqp (h p hp (hqp.1 ▸ hin))
  · exact hkeep peer q hqp (hpeer (hqp.1 ▸ hin))

theorem address_of_dialed {p : Peer}
    (h : p.connection = none ∨ p.connection = some (p.targetAddress, p.targetPort)) {normalized : String}
    (hn : validateAndNormalizeIP parse p.targetAddress = some normalized) :
    p.address = p.targetAddress ∧ p.port = p.targetPort := by
  have hne : p.targetAddress ≠ "" := by
    intro hempty
    rw [hempty] at hn
    cases hn
  unfold Peer.address Peer.port
  rcases h with h | h
  · simp [h, hne]
  · simp [h]

/-- The scan for a connected peer finds an outbound peer at the target, unless it is under
the id that stands for none. -/
theorem find_sameTarget (hdial : DialedOutbound s.toNetworkManager) {env : NetEnv} {dial : Dial}
    (hfind : s.findPeerByAddress (env.normalizing parse) dial.address dial.addr.port = -1) {id : Int}
    {x : PeerTarget} (hx : (s.population targetView)[id]? = some x) (hsame : sameTarget parse x (dialTarget dial)) :
    id = -1 := by
  rw [population_get] at hx
  obtain ⟨p, hp, hx⟩ := Option.bind_eq_some_iff.mp hx
  obtain ⟨peer, hpeer, hview⟩ := Option.map_eq_some_iff.mp hx
  obtain ⟨d, hd, rfl⟩ := Option.map_eq_some_iff.mp hp
  subst hview
  obtain ⟨hin, -, hport, normalized, hnx, hny⟩ := hsame
  obtain ⟨haddr, hport'⟩ := address_of_dialed (hdial peer (List.mem_of_getElem? hpeer) hin) hnx
  have hneedle : (env.normalizing parse).validateAndNormalizeIP dial.address = some normalized := hny
  unfold findPeerByAddress at hfind
  rw [hneedle] at hfind
  dsimp only at hfind
  by_contra hne
  have hmem : (id, d) ∈ s.entriesWhere (fun p : Peer =>
      (env.normalizing parse).validateAndNormalizeIP p.address == some normalized &&
        (dial.addr.port == 0 || p.port == dial.addr.port)) := by
    refine List.mem_filter.mpr ⟨Std.ExtTreeMap.mem_toList_iff_getElem?_eq_some.mpr hd, ?_⟩
    have hpeer' : s.peerOf d = some peer := hpeer
    have hnorm : (env.normalizing parse).validateAndNormalizeIP peer.address = some normalized := by
      rw [haddr]
      exact hnx
    have hsameport : peer.port = dial.addr.port := hport'.trans hport
    simp [hpeer', hnorm, hsameport]
  cases hf : ((s.entriesWhere (fun p : Peer =>
      (env.normalizing parse).validateAndNormalizeIP p.address == some normalized &&
        (dial.addr.port == 0 || p.port == dial.addr.port))).map Prod.fst).find? (· != -1) with
  | none =>
    have := List.find?_eq_none.mp hf id (List.mem_map.mpr ⟨(id, d), hmem, rfl⟩)
    exact hne (by simpa using this)
  | some found =>
    rw [hf] at hfind
    have hfound := List.find?_some hf
    rw [Option.getD_some] at hfind
    simp [hfind] at hfound

theorem DialedOutbound.step (h : DialedOutbound s.toNetworkManager) (R : Registered s.toNetworkManager)
    (op : DialOp) :
    DialedOutbound (s.step networkAddressToString parse config op).toNetworkManager := by
  cases op with
  | connectTo env addr permissions connects =>
    rw [step_connectTo]
    cases s.startedDial networkAddressToString parse config (.connectTo env addr permissions connects) <;> exact h
  | attemptFeelerConnection env isRunning addr connects =>
    rw [step_attemptFeelerConnection]
    cases s.startedDial networkAddressToString parse config
        (.attemptFeelerConnection env isRunning addr connects) <;> exact h
  | callback i success =>
    unfold DialManager.step DialManager.callback
    dsimp only
    split <;> exact h
  | complete env i isOpen =>
    unfold DialManager.step DialManager.complete
    dsimp only
    split
    · exact h
    · split
      · exact h
      · exact h.of_follow _ (addAndStart_follows R _ _ _) fun _ => .inr rfl
  | handleInboundConnection env isRunning connection isOpen permissions =>
    unfold DialManager.step NetworkManager.handleInboundConnection
    dsimp only
    split
    · exact h
    · split
      · exact h
      · split
        · exact h
        · exact h.of_follow _ (addAndStart_follows R _ permissions "") fun hin => by cases hin
  | manage op =>
    have hf := PeersFollow.manage parse s.toNetworkManager op
    exact h.of_follow (.createInbound none true) (fun q hq => .inl (hf q hq)) fun hin => by cases hin

theorem startedDial_checked {op : DialOp} {dial : Dial}
    (h : s.startedDial networkAddressToString parse config op = some dial) :
    networkAddressToString dial.addr.ip = some dial.address ∧
      (dial.isFeeler = false → makeKey dial.addr ∉ s.pendingOutbound ∧ ∃ env : NetEnv,
        s.findPeerByAddress (env.normalizing parse) dial.address dial.addr.port = -1) := by
  cases op with
  | connectTo env addr permissions connects =>
    unfold startedDial at h
    obtain ⟨address, haddr, h⟩ := Option.bind_eq_some_iff.mp h
    split at h
    · rename_i hok
      obtain rfl := Option.some.inj h
      refine ⟨haddr, fun _ => ⟨hok.2.1, env, ?_⟩⟩
      have hcheck := hok.1
      unfold checkOutbound at hcheck
      by_contra hfound
      simp only [bne, beq_false_of_ne hfound, Bool.not_false, if_true] at hcheck
      split at hcheck
      · cases hcheck
      · split at hcheck <;> cases hcheck
    · cases h
  | attemptFeelerConnection env isRunning addr connects =>
    unfold startedDial at h
    obtain ⟨addr, -, h⟩ := Option.bind_eq_some_iff.mp h
    obtain ⟨address, haddr, h⟩ := Option.bind_eq_some_iff.mp h
    split at h
    · obtain rfl := Option.some.inj h
      exact ⟨haddr, fun hf => by cases hf⟩
    · cases h
  | _ => cases h

theorem Keyed.step (h : Keyed networkAddressToString s) (op : DialOp) :
    Keyed networkAddressToString (s.step networkAddressToString parse config op) := by
  have hstart : Keyed networkAddressToString
      ((s.startedDial networkAddressToString parse config op).elim s s.begin) := by
    cases hd : s.startedDial networkAddressToString parse config op with
    | none => exact h
    | some dial =>
      obtain ⟨haddr, hchecked⟩ := startedDial_checked hd
      exact h.begin haddr fun hf => (hchecked hf).1
  cases op with
  | connectTo env addr permissions connects =>
    rw [step_connectTo]
    exact hstart
  | attemptFeelerConnection env isRunning addr connects =>
    rw [step_attemptFeelerConnection]
    exact hstart
  | callback i success => exact h.callback i success
  | complete env i isOpen =>
    unfold DialManager.step DialManager.complete
    dsimp only
    split
    · exact h
    · split
      · exact ⟨h.address, h.pending, h.keys⟩
      · exact ⟨h.address, h.pending, h.keys⟩
  | handleInboundConnection env isRunning connection isOpen permissions => exact ⟨h.address, h.pending, h.keys⟩
  | manage op => exact ⟨h.address, h.pending, h.keys⟩

/-- A dial starts while none to its target is a feeler or has its success posted; a feeler
also while none is in progress and no outbound peer is there. -/
def TargetsApart (networkAddressToString : BitVec 128 → Option String) (parse : String → Option String)
    (config : PeerConfig) (s : DialManager) (op : DialOp) : Prop :=
  ∀ dial, s.startedDial networkAddressToString parse config op = some dial →
    (∀ d ∈ s.dials, sameTarget parse (dialTarget d) (dialTarget dial) →
      d ∈ s.connecting ∧ d.isFeeler = false ∧ dial.isFeeler = false) ∧
    ∀ (id : Int) (x : PeerTarget), (s.population targetView)[id]? = some x →
      sameTarget parse x (dialTarget dial) → dial.isFeeler = false ∧ id ≠ -1

variable (networkAddressToString parse) in
/-- What a run keeps whose dials start apart. -/
structure Dialing (s : DialManager) : Prop where
  apart : Apart (sameTarget parse) s
  keyed : Keyed networkAddressToString s
  dialed : DialedOutbound s.toNetworkManager

variable (networkAddressToString parse) in
/-- Addresses with one normalized text are one address. -/
def Canonical : Prop :=
  ∀ ip ip' address address' normalized, networkAddressToString ip = some address →
    networkAddressToString ip' = some address' → validateAndNormalizeIP parse address = some normalized →
      validateAndNormalizeIP parse address' = some normalized → ip = ip'

theorem Dialing.step (hcanon : Canonical networkAddressToString parse) (h : Dialing networkAddressToString parse s)
    {op : DialOp} (hop : TargetsApart networkAddressToString parse config s op) :
    Dialing networkAddressToString parse (s.step networkAddressToString parse config op) := by
  refine ⟨h.apart.step clash_sameTarget op fun dial hd => ?_, h.keyed.step op,
    h.dialed.step h.apart.registered op⟩
  obtain ⟨haddr, hchecked⟩ := startedDial_checked hd
  obtain ⟨hdials, hpeers⟩ := hop dial hd
  refine ⟨fun id x hx hsame => ?_, fun d hd' hsame => ?_⟩
  · -- the scan has seen such a peer
    obtain ⟨hf, hne⟩ := hpeers id x hx hsame
    obtain ⟨-, env, hfind⟩ := hchecked hf
    exact hne (find_sameTarget h.dialed hfind hx hsame)
  · -- the pending keys have seen such a dial
    obtain ⟨hin, hdf, hf⟩ := hdials d hd' hsame
    obtain ⟨-, -, hport, normalized, hn, hn'⟩ := hsame
    have hip := hcanon _ _ _ _ normalized (h.keyed.address d hin) haddr hn hn'
    have hkey : makeKey d.addr = makeKey dial.addr := by
      have hport' : d.addr.port = dial.addr.port := hport
      unfold makeKey
      rw [hip, hport']
    exact (hchecked hf).1 (hkey ▸ h.keyed.pending d hin hdf)

theorem dialing_fresh (chainstate : ChainstateManager) :
    Dialing networkAddressToString parse (fresh chainstate) where
  apart := apart_fresh chainstate
  keyed := ⟨fun _ hd => absurd hd List.not_mem_nil, fun _ hd => absurd hd List.not_mem_nil, .nil⟩
  dialed := fun _ hp => by cases hp

variable (parse) in
/-- No two outbound peers have one normalized target address and port. -/
def SingleOutbound (s : NetworkManager) : Prop :=
  ∀ (id id' : Int) (d d' : PeerTrackingData) (peer peer' : Peer) (normalized : String),
    s.peerStates[id]? = some d → s.peerStates[id']? = some d' →
    s.peerOf d = some peer → s.peerOf d' = some peer' →
    peer.isInbound = false → peer'.isInbound = false →
    validateAndNormalizeIP parse peer.targetAddress = some normalized →
    validateAndNormalizeIP parse peer'.targetAddress = some normalized →
    peer.targetPort = peer'.targetPort → id = id'

end

/-! ## Two hosts -/

def hostToString (ip : BitVec 128) : Option String :=
  if ip = 0xffff0a000001 then some "10.0.0.1" else if ip = 0xffff0a000002 then some "10.0.0.2" else none

def hostOne : NetworkAddress := ⟨0, 0xffff0a000001, 1000⟩

def hostTwo : NetworkAddress := ⟨0, 0xffff0a000002, 1000⟩

def runOf (ops : List DialOp) : DialManager :=
  ops.foldl (step hostToString some {}) (fresh (ChainstateManager.fresh false))

/-- A feeler to each host, the second dialed before the first is added. -/
def twoFeelers : List DialOp :=
  [.attemptFeelerConnection {} true (some hostOne) true, .attemptFeelerConnection {} true (some hostTwo) true,
    .callback 0 true, .callback 0 true, .complete {} 0 true, .complete {} 0 true]

/-- Two dials to one host, the second after the callback of the first and before its peer is
added. -/
def twiceToHost : List DialOp :=
  [.connectTo {} hostOne 0 true, .callback 0 true, .connectTo {} hostOne 0 true, .callback 0 true,
    .complete {} 0 true, .complete {} 0 true]

theorem runOf_reaches (ops : List DialOp) :
    Run.Reaches (step hostToString some {}) (fun _ _ => True) (fresh (ChainstateManager.fresh false)) (runOf ops) :=
  .foldl .start fun _ _ _ => trivial

theorem runOf_next {ok : DialManager → DialOp → Prop} {ops : List DialOp} {op : DialOp}
    (h : Run.Reaches (step hostToString some {}) ok (fresh (ChainstateManager.fresh false)) (runOf ops))
    (hok : ok (runOf ops) op) :
    Run.Reaches (step hostToString some {}) ok (fresh (ChainstateManager.fresh false)) (runOf (ops ++ [op])) := by
  have hsnoc : runOf (ops ++ [op]) = (runOf ops).step hostToString some {} op := by
    unfold runOf
    rw [List.foldl_append]
    rfl
  rw [hsnoc]
  exact h.next hok

/-- One feeler, from its dial to its admission. -/
def oneFeeler : List DialOp :=
  [] ++ [.attemptFeelerConnection {} true (some hostOne) true] ++ [.callback 0 true] ++ [.complete {} 0 true]

theorem oneFeeler_reaches : Run.Reaches (step hostToString some {}) (FeelersApart hostToString some {})
    (fresh (ChainstateManager.fresh false)) (runOf oneFeeler) := by
  unfold oneFeeler
  refine runOf_next (runOf_next (runOf_next .start fun _ _ _ d hd => ?_) fun dial hd => ?_) fun dial hd => ?_
  · exact absurd hd List.not_mem_nil
  · cases hd
  · cases hd

theorem single_feeler_one : ((runOf oneFeeler).entriesWhere Peer.isFeeler).length ≤ 1 :=
  single_feeler (ChainstateManager.fresh false) oneFeeler_reaches

theorem two_feelers_at_once :
    ¬ ∀ (networkAddressToString : BitVec 128 → Option String) (parse : String → Option String)
        (config : PeerConfig) (chainstate : ChainstateManager) (s : DialManager),
        Run.Reaches (step networkAddressToString parse config) (fun _ _ => True) (fresh chainstate) s →
          (s.entriesWhere Peer.isFeeler).length ≤ 1 := by
  intro h
  have hone := h hostToString some {} _ _ (runOf_reaches twoFeelers)
  have htwo : ((runOf twoFeelers).entriesWhere Peer.isFeeler).length = 2 := by decide +kernel
  omega

theorem canonical_hostToString : Canonical hostToString some := by
  have hsome : ∀ address normalized, validateAndNormalizeIP some address = some normalized →
      address = normalized := by
    intro address normalized h
    unfold validateAndNormalizeIP at h
    split at h
    · cases h
    · exact Option.some.inj h
  intro ip ip' address address' normalized h h' hn hn'
  obtain rfl := hsome address normalized hn
  obtain rfl := hsome address' address hn'
  unfold hostToString at h h'
  have hne : some "10.0.0.1" ≠ some "10.0.0.2" := by decide
  split at h
  · split at h'
    · simp [*]
    · split at h'
      · exact absurd (h.trans h'.symm) hne
      · cases h'
  · split at h
    · split at h'
      · exact absurd (h'.trans h.symm) hne
      · split at h'
        · simp [*]
        · cases h'
    · cases h

/-- What an entry shows of where it was dialed to. -/
def targetOf (s : DialManager) (id : Int) : Option (Bool × String × BitVec 16) :=
  (s.peerStates[id]?.bind s.peerOf).map (fun p => (p.isInbound, p.targetAddress, p.targetPort))

theorem entry_of_targetOf {s : DialManager} {id : Int} {x : Bool × String × BitVec 16}
    (h : s.targetOf id = some x) :
    ∃ d peer, s.peerStates[id]? = some d ∧ s.peerOf d = some peer ∧
      peer.isInbound = x.1 ∧ peer.targetAddress = x.2.1 ∧ peer.targetPort = x.2.2 := by
  obtain ⟨peer, hpeer, heq⟩ := Option.map_eq_some_iff.mp h
  obtain ⟨d, hd, hp⟩ := Option.bind_eq_some_iff.mp hpeer
  subst heq
  exact ⟨d, peer, hd, hp, rfl, rfl, rfl⟩

/-- One dial, from its start to its admission. -/
def onceToHost : List DialOp := [] ++ [.connectTo {} hostOne 0 true] ++ [.callback 0 true] ++ [.complete {} 0 true]

theorem onceToHost_reaches : Run.Reaches (step hostToString some {}) (TargetsApart hostToString some {})
    (fresh (ChainstateManager.fresh false)) (runOf onceToHost) := by
  unfold onceToHost
  refine runOf_next (runOf_next (runOf_next .start fun dial _ => ?_) fun dial hd => ?_) fun dial hd => ?_
  · exact ⟨fun d hd => absurd hd List.not_mem_nil, fun id x hx => absurd hx (fresh_population _ id x)⟩
  · cases hd
  · cases hd

end DialManager

end UnicityPow
