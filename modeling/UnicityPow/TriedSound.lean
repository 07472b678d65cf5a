import UnicityPow.AddrSound
import UnicityPow.AdmissionSound
import UnicityPow.LoopSteps
import UnicityPow.ObjectSteps

/-!
# Tried means handshaked

An address comes into the tried table when it is marked good. Every mark waits for the
handshake on a connection dialed to the address, but for that of a feeler, which is made as
soon as its peer is admitted.
-/

namespace UnicityPow

open KeyList

/-! ## The tried table -/

namespace AddressManager

section
variable (s : AddressManager) (now : BitVec 32) (addr : NetworkAddress)

theorem add_tried (timestamp : BitVec 32) : ∀ k ∈ (s.add now addr timestamp).1.tried, k ∈ s.tried := by
  intro k hk
  rcases add_cases s now addr timestamp with he | ⟨k', effTs, he⟩ | ⟨k', effTs, he⟩ | ⟨info, -, -, -, -, he⟩ <;>
    rw [he] at hk
  · exact hk
  · exact (mem_modify_iff k' _ k).mp hk
  · exact hk
  · exact hk

theorem addMultiple_tried (addresses : List (BitVec 32 × TimestampedAddress)) :
    ∀ k ∈ (s.addMultiple addresses).1.tried, k ∈ s.tried := by
  refine addMultiple_kept (P := fun t => ∀ k ∈ t.tried, k ∈ s.tried) (fun t now addr timestamp ht k hk => ?_)
    (fun k hk => hk) addresses
  exact ht k (add_tried t now addr timestamp k hk)

theorem attempt_tried (f : Bool) : ∀ k ∈ (s.attempt now addr f).tried, k ∈ s.tried := by
  intro k hk
  unfold attempt at hk
  dsimp only at hk
  split at hk
  · exact hk
  · exact (mem_modify_iff _ _ k).mp hk

theorem failed_tried : ∀ k ∈ (s.failed now addr).tried, k ∈ s.tried := by
  intro k hk
  unfold failed at hk
  dsimp only at hk
  split at hk
  · split at hk <;> exact hk
  · split at hk
    · exact hk
    · rename_i info hinfo
      split at hk
      · exact (mem_erase_iff.mp hk).2
      · exact (mem_insert_of_mem (mem_of_getElem hinfo) _ k).mp hk

theorem cleanupStale_tried : ∀ k ∈ (s.cleanupStale now).tried, k ∈ s.tried := by
  intro k hk
  unfold cleanupStale at hk
  dsimp only at hk
  split at hk <;> exact hk

/-- The key that `good` promotes was in the new table. -/
theorem good_tried : ∀ k ∈ (s.good now addr).tried,
    k ∈ s.tried ∨ k = addrKey (normalizeAddress addr) ∧ k ∈ s.new := by
  intro k hk
  unfold good at hk
  dsimp only at hk
  split at hk
  · rename_i info hinfo
    rcases (mem_insert_iff _).mp hk with rfl | hk
    · exact .inr ⟨rfl, mem_of_getElem hinfo⟩
    · exact .inl hk
  · exact .inl ((mem_modify_iff _ _ k).mp hk)

end

end AddressManager

/-- The key reads the address and the port, and no more. -/
theorem addrKey_normalizeAddress_congr {a b : NetworkAddress} (hip : a.ip = b.ip) (hport : a.port = b.port) :
    addrKey (normalizeAddress a) = addrKey (normalizeAddress b) := by
  unfold addrKey normalizeAddress
  rw [hip, hport]
  split
  · rfl
  · rw [hip, hport]

/-! ## Handshakes with a dialed peer -/

/-- What the node relies on of the conversion of addresses to text and back. -/
structure NodeConfig.TextReads (config : NodeConfig) : Prop where
  nonempty : ∀ ip, config.networkAddressToString ip ≠ some ""
  reads : ∀ ip text port, config.networkAddressToString ip = some text →
    (config.session.networkAddressFromString text port).ip = ip ∧
      (config.session.networkAddressFromString text port).port = port

/-- The target of a peer is the address in text form. -/
def DialedTo (config : NodeConfig) (peer : Peer) (addr : NetworkAddress) : Prop :=
  config.networkAddressToString addr.ip = some peer.targetAddress ∧ addr.port = peer.targetPort

/-- An object that was dialed. -/
def DialedPeer (config : NodeConfig) (peer : Peer) : Prop :=
  peer.isInbound = false → peer.Settled ∧ ∃ addr, DialedTo config peer addr

theorem DialedPeer.follows {config : NodeConfig} {p q : Peer} (h : DialedPeer config p) (hq : q.Follows p) :
    DialedPeer config q := by
  intro hout
  obtain ⟨hsettled, addr, haddr, hport⟩ := h (hq.1.symm.trans hout)
  have hsettled' := hsettled.of_follows hq
  obtain ⟨-, -, htarget, htargetPort, -⟩ := hq
  exact ⟨hsettled', addr, htarget ▸ haddr, htargetPort ▸ hport⟩

/-- An object as its constructor leaves it. -/
structure NewPeer (config : NodeConfig) (peer : Peer) : Prop where
  successfullyConnected : peer.successfullyConnected = false
  state : peer.state = .CONNECTING ∨ peer.state = .CONNECTED ∨ peer.state = .DISCONNECTED
  dialed : DialedPeer config peer

namespace Node

open PeerSession

/-- A handshake was made on a connection dialed to an address with the key. -/
def Handshaken (config : NodeConfig) (s : Node) (key : AddrKey) : Prop :=
  ∃ p l addr, s.loopAt p = some l ∧ l.session.peer.isInbound = false ∧ DialedTo config l.session.peer addr ∧
    addrKey (normalizeAddress addr) = key ∧ ShookHands l.session

def TriedHandshaken (config : NodeConfig) (s : Node) : Prop :=
  ∀ key ∈ s.addrManager.tried, s.Handshaken config key

/-- The outcome of a feeler admits no peer whose address is new and has made no handshake. -/
def FeelerWaits (config : NodeConfig) (s : Node) : NodeOp → Prop
  | .complete env i isOpen _ =>
    ∀ dial, s.posted[i]? = some (dial, true) → dial.isFeeler = true →
      s.admits config.peers (env.normalizing config.parse) (DialManager.dialedPeer dial isOpen)
        NetPermissionFlags.None "" = true →
      0 ≤ s.nextPeerId → addrKey (normalizeAddress dial.addr) ∈ s.addrManager.new →
      s.Handshaken config (addrKey (normalizeAddress dial.addr))
  | _ => True

structure NodeOk (config : NodeConfig) (s : Node) : Prop where
  length : s.loops.length = s.peers.length
  transcripts : ∀ (p : PeerPtr) (l : PeerLoop), s.loopAt p = some l → l.HasTranscript
  dialed : ∀ (p : PeerPtr) (peer : Peer), s.peers[p]? = some peer → DialedPeer config peer
  connecting : ∀ dial ∈ s.connecting, config.networkAddressToString dial.addr.ip = some dial.address
  posted : ∀ x ∈ s.posted, config.networkAddressToString x.1.addr.ip = some x.1.address
  events : ∀ e ∈ s.peerEvents, e.Silent
  tried : TriedHandshaken config s

section
variable {config : NodeConfig} {env : NetEnv} {s t : Node}

/-! ## Loops in the store -/

theorem loopAt_eq_some {p : PeerPtr} {l : PeerLoop} :
    s.loopAt p = some l ↔ ∃ l' peer, s.loops[p]? = some l' ∧ s.peers[p]? = some peer ∧
      { l' with session := { l'.session with peer } } = l := by
  unfold loopAt
  split
  · rename_i l' peer hl hpeer
    simp [hl, hpeer]
  · rename_i hnone
    refine iff_of_false (by simp) ?_
    rintro ⟨l', peer, hl, hpeer, -⟩
    exact hnone l' peer hl hpeer

theorem loopAt_congr (hpeers : t.peers = s.peers) (hloops : t.loops = s.loops) : t.loopAt = s.loopAt := by
  funext p
  unfold loopAt
  rw [hpeers, hloops]

theorem NodeOk.loopAt (h : NodeOk config s) {p : PeerPtr} {peer : Peer} (hp : s.peers[p]? = some peer) :
    ∃ l, s.loopAt p = some l ∧ l.session.peer = peer := by
  obtain ⟨hlt, -⟩ := List.getElem?_eq_some_iff.mp hp
  obtain ⟨l, hl⟩ : ∃ l, s.loops[p]? = some l := ⟨_, List.getElem?_eq_getElem (h.length ▸ hlt)⟩
  exact ⟨_, loopAt_eq_some.mpr ⟨l, peer, hl, hp, rfl⟩, rfl⟩

theorem Handshaken.of_loops {key : AddrKey} (h : s.Handshaken config key)
    (hloops : ∀ (p : PeerPtr) (l : PeerLoop), s.loopAt p = some l →
      ∃ l', t.loopAt p = some l' ∧ Tracks l.session l'.session ∧ l.session.log <+: l'.session.log ∧
        l'.HasTranscript) :
    t.Handshaken config key := by
  obtain ⟨p, l, addr, hl, hout, ⟨haddr, hport⟩, hkey, hshook⟩ := h
  obtain ⟨l', hl', ⟨hin, -, htarget, htargetPort, -⟩, hlog, htranscript⟩ := hloops p l hl
  obtain ⟨hversions, hveracks⟩ := htranscript.counts
  refine ⟨p, l', addr, hl', hin.trans hout, ⟨?_, ?_⟩, hkey, hshook.grows hlog hversions hveracks⟩
  · rw [haddr, htarget]
  · rw [hport, htargetPort]

/-- Only the peers, their loops, the dials and the notifications count, and the keys that
were tried. -/
theorem NodeOk.congr (h : NodeOk config s) (hpeers : t.peers = s.peers) (hloops : t.loops = s.loops)
    (hconnecting : ∀ dial ∈ t.connecting, config.networkAddressToString dial.addr.ip = some dial.address)
    (hposted : ∀ x ∈ t.posted, config.networkAddressToString x.1.addr.ip = some x.1.address)
    (hevents : ∀ e ∈ t.peerEvents, e.Silent)
    (htried : ∀ k ∈ t.addrManager.tried, k ∈ s.addrManager.tried ∨ s.Handshaken config k) :
    NodeOk config t := by
  have hat := loopAt_congr hpeers hloops
  refine ⟨by rw [hpeers, hloops, h.length], ?_, ?_, hconnecting, hposted, hevents, fun k hk => ?_⟩
  · rw [hat]
    exact h.transcripts
  · rw [hpeers]
    exact h.dialed
  · unfold Handshaken
    rw [hat]
    exact (htried k hk).elim (h.tried k) id

/-! ## Scores -/

/-- Nothing but the address manager has changed, and no address came to be tried. -/
def PromotesNone (s t : Node) : Prop :=
  ∃ a : AddressManager, t = { s with addrManager := a } ∧ ∀ k ∈ a.tried, k ∈ s.addrManager.tried

theorem PromotesNone.refl (s : Node) : PromotesNone s s := ⟨s.addrManager, rfl, fun _ hk => hk⟩

theorem PromotesNone.trans {u : Node} (h1 : PromotesNone s t) (h2 : PromotesNone t u) : PromotesNone s u := by
  obtain ⟨a, rfl, ha⟩ := h1
  obtain ⟨b, rfl, hb⟩ := h2
  exact ⟨b, rfl, fun k hk => ha k (hb k hk)⟩

theorem promotesNone_attempt (env : NetEnv) (s : Node) (addr : NetworkAddress) : PromotesNone s (s.attempt env addr) :=
  ⟨_, rfl, AddressManager.attempt_tried _ _ _ _⟩

theorem promotesNone_failed (env : NetEnv) (s : Node) (addr : NetworkAddress) : PromotesNone s (s.failed env addr) :=
  ⟨_, rfl, AddressManager.failed_tried _ _ _⟩

theorem promotesNone_takeAddresses (env : NetEnv) (s : Node) (accepted : List Nat)
    (addresses : List TimestampedAddress) : PromotesNone s (s.takeAddresses env accepted addresses) :=
  ⟨_, rfl, AddressManager.addMultiple_tried _ _⟩

theorem promotesNone_onPeerEvent (config : NodeConfig) (env : NetEnv) (s : Node) {e : PeerEvent} (he : e.Silent) :
    PromotesNone s (s.onPeerEvent config env e) := by
  cases e with
  | connected peerId address port connectionType =>
    simp only [onPeerEvent]
    split
    · exact ⟨_, rfl, AddressManager.add_tried _ _ _ _⟩
    · exact .refl s
  | disconnected peerId address port reason markAddrGood =>
    have hno : ¬ (reason = "shutdown" && markAddrGood && port != 0 && address != "") = true := by
      intro h
      simp only [Bool.and_eq_true, decide_eq_true_eq] at h
      exact he ⟨h.1.1.1, h.1.1.2⟩
    simp only [onPeerEvent, if_neg hno]
    exact .refl s

theorem promotesNone_events (config : NodeConfig) (env : NetEnv) {l : List PeerEvent} (hl : ∀ e ∈ l, e.Silent) (s : Node) :
    PromotesNone s (l.foldl (fun s e => s.onPeerEvent config env e) s) := by
  induction l generalizing s with
  | nil => exact .refl s
  | cons e l ih =>
    obtain ⟨he, hl⟩ := List.forall_mem_cons.mp hl
    exact (promotesNone_onPeerEvent config env s he).trans (ih hl _)

theorem NodeOk.promotesNone (h : NodeOk config s) (hp : PromotesNone s t) : NodeOk config t := by
  obtain ⟨a, rfl, ha⟩ := hp
  exact h.congr rfl rfl h.connecting h.posted h.events fun k hk => .inl (ha k hk)

theorem NodeOk.good (h : NodeOk config s) {addr : NetworkAddress}
    (haddr : addrKey (normalizeAddress addr) ∈ s.addrManager.new → s.Handshaken config (addrKey (normalizeAddress addr))) :
    NodeOk config (s.good env addr) := by
  refine h.congr rfl rfl h.connecting h.posted h.events fun k hk => ?_
  rcases AddressManager.good_tried _ _ _ k hk with hk | ⟨rfl, hnew⟩
  · exact .inl hk
  · exact .inr (haddr hnew)

/-! ## Events of a peer -/

theorem loopAt_setLoop {p : PeerPtr} {l l' : PeerLoop} (hl : s.loopAt p = some l) (q : PeerPtr) :
    (s.setLoop p l').loopAt q = if p = q then some l' else s.loopAt q := by
  obtain ⟨l₀, peer, hl₀, hpeer, -⟩ := loopAt_eq_some.mp hl
  obtain ⟨hlt, -⟩ := List.getElem?_eq_some_iff.mp hl₀
  obtain ⟨hlt', -⟩ := List.getElem?_eq_some_iff.mp hpeer
  by_cases heq : p = q
  · subst heq
    rw [if_pos rfl]
    exact loopAt_eq_some.mpr ⟨l', l'.session.peer, List.getElem?_set_self hlt, List.getElem?_set_self hlt', rfl⟩
  · rw [if_neg heq]
    unfold Node.loopAt setLoop
    simp only [List.getElem?_set_ne heq]

theorem NodeOk.setLoop (h : NodeOk config s) {p : PeerPtr} {l : PeerLoop} (hl : s.loopAt p = some l) (op : PeerOp) :
    NodeOk config (s.setLoop p (l.step config.session op)) := by
  have hlast := h.transcripts p l hl
  have hnext : (l.step config.session op).HasTranscript := PeerLoop.hasTranscript_step op hlast
  refine ⟨by simp [Node.setLoop, h.length], fun q l' hl' => ?_, fun q peer hq => ?_, h.connecting, h.posted, h.events,
    fun k hk => ?_⟩
  · rw [loopAt_setLoop hl] at hl'
    split at hl'
    · exact Option.some.inj hl' ▸ hnext
    · exact h.transcripts q l' hl'
  · obtain ⟨l₀, peer₀, -, hpeer, rfl⟩ := loopAt_eq_some.mp hl
    have htracks := PeerLoop.tracks_step config.session
      { l₀ with session := { l₀.session with peer := peer₀ } } op
    unfold Node.setLoop at hq
    rw [List.getElem?_set] at hq
    split at hq
    · split at hq
      · rw [← Option.some.inj hq]
        exact (h.dialed p _ hpeer).follows htracks
      · cases hq
    · exact h.dialed q peer hq
  · refine (h.tried k hk).of_loops fun q l' hl' => ?_
    rw [loopAt_setLoop hl]
    by_cases heq : p = q
    · subst heq
      obtain rfl := Option.some.inj (hl.symm.trans hl')
      rw [if_pos rfl]
      exact ⟨_, rfl, PeerLoop.tracks_step _ _ _, PeerLoop.log_prefix_step _ _ _, hnext⟩
    · rw [if_neg heq]
      exact ⟨l', hl', .refl _, List.prefix_rfl, h.transcripts q l' hl'⟩

theorem NodeOk.runLoop (h : NodeOk config s) (p : PeerPtr) (op : PeerOp) : NodeOk config (s.runLoop config p op) := by
  unfold Node.runLoop
  split
  · exact h
  · rename_i l hl
    exact h.setLoop hl op

/-! ## Calls on the managers -/

/-- What a manager does to the object of a loop keeps the transcript of its session. -/
theorem hasTranscript_later {l : PeerLoop} (h : l.HasTranscript) {q : Peer} (hq : q.Later l.session.peer) :
    PeerLoop.HasTranscript { l with session := { l.session with peer := q } } := by
  obtain ⟨taken, events, veracks, h⟩ := h
  obtain ⟨⟨hin, -⟩, hdone, hstate⟩ := hq
  have hstates : ∀ state, q.state = state → state ≠ .DISCONNECTED → l.session.peer.state = state := by
    intro state heq hne
    rcases hstate with h | h
    · exact h.symm.trans heq
    · exact absurd (heq.symm.trans h) hne
  refine ⟨taken, events, veracks, {
    log := h.log
    opening := ?_
    complete := ?_
    ready := fun hready => h.ready (hstates _ hready (by decide))
    untaken := fun hnone => ?_
    taken := h.taken
    unstarted := h.unstarted
    live := fun hlive => ?_ }⟩
  · show Opening l.session.localNonce q.isInbound taken events
    rw [hin]
    exact h.opening
  · show q.successfullyConnected = true ↔ _
    rw [hdone]
    exact h.complete
  · obtain ⟨hversion, hveracks, hwaiting⟩ := h.untaken hnone
    refine ⟨hversion, hveracks, fun hinbound => ?_⟩
    rcases hstate with heq | heq
    · show q.state = _ ∨ q.state = _ ∨ q.state = _
      rw [heq]
      exact hwaiting (hin.symm.trans hinbound)
    · exact .inr (.inr heq)
  · obtain ⟨hstarted, hconnecting, hout⟩ := h.live hlive
    exact ⟨hstarted, fun heq => hconnecting (hstates _ heq (by decide)), fun hfalse => hout (hin.symm.trans hfalse)⟩

theorem hasTranscript_newLoop {peer : Peer} (hdone : peer.successfullyConnected = false)
    (hstate : peer.state = .CONNECTING ∨ peer.state = .CONNECTED ∨ peer.state = .DISCONNECTED) :
    (s.newLoop env peer).HasTranscript := by
  refine ⟨none, [], [], {
    log := rfl
    opening := .waiting _
    complete := ?_
    ready := fun hready => ?_
    untaken := fun _ => ⟨rfl, rfl, fun _ => hstate⟩
    taken := fun _ _ hsome => by cases hsome
    unstarted := fun _ => rfl
    live := fun hlive => by rcases hlive with hlive | hlive <;> cases hlive }⟩
  · show peer.successfullyConnected = true ↔ _
    simp [hdone]
  · rcases hstate with heq | heq | heq <;> cases heq.symm.trans hready

variable (env) in
/-- The loops of the objects after a call on the managers. -/
def withLoops (s : Node) (d : DialManager) : Node :=
  { s with
    toDialManager := d
    loops := s.loops ++ (d.peers.drop s.loops.length).map (s.newLoop env) }

variable (env) in
theorem withLoops_loopAt {d : DialManager}
    (hobjects : NetworkManager.ObjectsLater (NewPeer config) s.toNetworkManager d.toNetworkManager) {p : PeerPtr}
    {l : PeerLoop} (hl : s.loopAt p = some l) :
    ∃ q, q.Later l.session.peer ∧
      (withLoops env s d).loopAt p = some { l with session := { l.session with peer := q } } := by
  obtain ⟨l₀, peer, hl₀, hpeer, rfl⟩ := loopAt_eq_some.mp hl
  obtain ⟨q, hq, hlater⟩ := hobjects.kept p peer hpeer
  obtain ⟨hlt, -⟩ := List.getElem?_eq_some_iff.mp hl₀
  refine ⟨q, hlater, loopAt_eq_some.mpr ⟨l₀, q, ?_, hq, rfl⟩⟩
  exact (List.getElem?_append_left hlt).trans hl₀

theorem NodeOk.withLoops (h : NodeOk config s) {d : DialManager}
    (hobjects : NetworkManager.ObjectsLater (NewPeer config) s.toNetworkManager d.toNetworkManager)
    (hconnecting : ∀ dial ∈ d.connecting, config.networkAddressToString dial.addr.ip = some dial.address)
    (hposted : ∀ x ∈ d.posted, config.networkAddressToString x.1.addr.ip = some x.1.address) :
    NodeOk config (withLoops env s d) := by
  have hgrown : s.peers.length ≤ d.peers.length := by
    by_contra hlt
    rw [not_le] at hlt
    obtain ⟨q, hq, -⟩ := hobjects.kept _ _ (List.getElem?_eq_getElem hlt)
    exact absurd hq (by simp)
  refine ⟨?_, fun p l hl => ?_, fun p peer hp => ?_, hconnecting, hposted, fun e he => ?_, fun k hk => ?_⟩
  · simp only [Node.withLoops, List.length_append, List.length_map, List.length_drop, h.length]
    omega
  · by_cases hlt : p < s.peers.length
    · obtain ⟨l', hl', -⟩ := h.loopAt (List.getElem?_eq_getElem hlt)
      obtain ⟨q, hq, hat⟩ := withLoops_loopAt env hobjects hl'
      rw [Option.some.inj (hl.symm.trans hat)]
      exact hasTranscript_later (h.transcripts p l' hl') hq
    · obtain ⟨l', q, hl', hq, rfl⟩ := loopAt_eq_some.mp hl
      obtain ⟨peer, hnew, hlater⟩ := hobjects.new p q hq (not_lt.mp hlt)
      have hlast : l' = s.newLoop env q := by
        simp only [Node.withLoops] at hl' hq
        rw [List.getElem?_append_right (by rw [h.length]; exact not_lt.mp hlt), List.getElem?_map, List.getElem?_drop,
          h.length, Nat.add_sub_cancel' (not_lt.mp hlt), hq] at hl'
        exact (Option.some.inj hl').symm
      subst hlast
      refine hasTranscript_newLoop (hlater.successfullyConnected.trans hnew.successfullyConnected) ?_
      rcases hlater.state with heq | heq
      · rw [heq]
        exact hnew.state
      · exact .inr (.inr heq)
  · by_cases hlt : p < s.peers.length
    · obtain ⟨q, hq, hlater⟩ := hobjects.kept p _ (List.getElem?_eq_getElem hlt)
      obtain rfl := Option.some.inj (hq.symm.trans hp)
      exact (h.dialed p _ (List.getElem?_eq_getElem hlt)).follows hlater.follows
    · obtain ⟨peer, hnew, hlater⟩ := hobjects.new p _ hp (not_lt.mp hlt)
      exact hnew.dialed.follows hlater.follows
  · exact (hobjects.events e he).elim (h.events e) id
  · refine (h.tried k hk).of_loops fun p l hl => ?_
    obtain ⟨q, hq, hat⟩ := withLoops_loopAt env hobjects hl
    exact ⟨_, hat, hq.follows, List.prefix_rfl, hasTranscript_later (h.transcripts p l hl) hq⟩

section
variable {d : DialManager} (h : NodeOk config s)
  (hobjects : NetworkManager.ObjectsLater (NewPeer config) s.toNetworkManager d.toNetworkManager)

include h hobjects

theorem NodeOk.promotesNone_after : PromotesNone (Node.withLoops env s d) (s.after config env d) := by
  refine promotesNone_events config env (fun e he => ?_) _
  rcases hobjects.events e (List.mem_of_mem_drop he) with hold | hnew
  · exact h.events e hold
  · exact hnew

theorem NodeOk.after (hconnecting : ∀ dial ∈ d.connecting, config.networkAddressToString dial.addr.ip = some dial.address)
    (hposted : ∀ x ∈ d.posted, config.networkAddressToString x.1.addr.ip = some x.1.address) :
    NodeOk config (s.after config env d) :=
  (h.withLoops hobjects hconnecting hposted).promotesNone (h.promotesNone_after hobjects)

theorem NodeOk.handshaken_after {key : AddrKey} (hkey : s.Handshaken config key) :
    (s.after config env d).Handshaken config key := by
  obtain ⟨a, heq, -⟩ : PromotesNone (Node.withLoops env s d) (s.after config env d) := h.promotesNone_after hobjects
  refine hkey.of_loops fun p l hl => ?_
  obtain ⟨q, hq, hat⟩ := withLoops_loopAt env hobjects hl
  refine ⟨{ l with session := { l.session with peer := q } }, ?_, hq.follows, List.prefix_rfl,
    hasTranscript_later (h.transcripts p l hl) hq⟩
  rw [heq]
  exact hat

end

/-! ## Dials -/

variable (config env) in
theorem NodeOk.connectTo (h : NodeOk config s) (addr : NetworkAddress) (permissions : NetPermissionFlags)
    (connects : Bool) : NodeOk config (s.connectTo config env addr permissions connects).1 := by
  have hdialed : NodeOk config
      { s with toDialManager :=
          (s.toDialManager.connectTo config.networkAddressToString config.peers env addr permissions connects).1 } := by
    unfold DialManager.connectTo
    split
    · exact h
    · rename_i address haddress
      split
      · split
        · exact h
        · split
          · exact h
          · refine h.congr rfl rfl (fun dial hdial => ?_) h.posted h.events fun k hk => .inl hk
            rcases List.mem_append.mp hdial with hdial | hdial
            · exact h.connecting dial hdial
            · rw [List.mem_singleton] at hdial
              exact hdial ▸ haddress
      · exact h
  unfold Node.connectTo
  dsimp only
  split
  · exact hdialed.promotesNone ((promotesNone_attempt env _ addr).trans (promotesNone_failed env _ addr))
  · exact hdialed

theorem NodeOk.attemptRounds (draws : Nat → AddressManager.SelectDraws) (connects : Nat → Bool) :
    ∀ (rounds i : Nat) (selected : List AddressKey) {s : Node}, NodeOk config s →
      NodeOk config (attemptRounds config env draws connects rounds i selected s) := by
  intro rounds
  induction rounds with
  | zero => exact fun _ _ _ h => h
  | succ rounds ih =>
    intro i selected s h
    simp only [Node.attemptRounds]
    split
    · exact h
    · split
      · exact h
      · exact h
      · rename_i addr _
        split
        · exact ih _ _ h
        · split
          · exact ih _ _ (h.promotesNone (promotesNone_failed env s addr))
          · split
            · exact ih _ _ h
            · have hconnect := (h.promotesNone (promotesNone_attempt env s addr)).connectTo config env addr
                NetPermissionFlags.None (connects i)
              refine ih _ _ ?_
              split
              · exact hconnect.promotesNone (promotesNone_failed env _ addr)
              · exact hconnect

theorem NodeOk.attemptOutboundConnections (h : NodeOk config s) (isRunning : Bool)
    (draws : Nat → AddressManager.SelectDraws) (connects : Nat → Bool) :
    NodeOk config (s.attemptOutboundConnections config env isRunning draws connects) := by
  unfold Node.attemptOutboundConnections
  split
  · exact .attemptRounds draws connects _ _ _ h
  · exact h

theorem NodeOk.attemptFeelerConnection (h : NodeOk config s) (isRunning : Bool) (index : Nat → Nat)
    (connects : Bool) : NodeOk config (s.attemptFeelerConnection config env isRunning index connects) := by
  unfold Node.attemptFeelerConnection
  split
  · exact h
  · split
    · exact h
    · split
      · exact h
      · exact h
      · rename_i addr _
        have hdialed : NodeOk config
            { s with toDialManager :=
                s.toDialManager.attemptFeelerConnection config.networkAddressToString isRunning (some addr) connects } := by
          unfold DialManager.attemptFeelerConnection
          split
          · exact h
          · split
            · exact h
            · dsimp only
              split
              · exact h
              · rename_i address haddress
                split
                · exact h
                · refine h.congr rfl rfl (fun dial hdial => ?_) h.posted h.events fun k hk => .inl hk
                  rcases List.mem_append.mp hdial with hdial | hdial
                  · exact h.connecting dial hdial
                  · rw [List.mem_singleton] at hdial
                    exact hdial ▸ haddress
        dsimp only
        split
        · exact hdialed.promotesNone (promotesNone_attempt env _ addr)
        · exact hdialed

theorem NodeOk.callback (h : NodeOk config s) (i : Nat) (success : Bool) :
    NodeOk config { s with toDialManager := s.toDialManager.callback i success } := by
  unfold DialManager.callback
  split
  · exact h
  · rename_i dial hdial
    refine h.congr rfl rfl (fun dial' hdial' => ?_) (fun x hx => ?_) h.events fun k hk => .inl hk
    · exact h.connecting dial' (List.mem_of_mem_eraseIdx hdial')
    · rcases List.mem_append.mp hx with hx | hx
      · exact h.posted x hx
      · rw [List.mem_singleton] at hx
        rw [hx]
        exact h.connecting dial (List.mem_of_getElem? hdial)

/-! ## Outcomes of dials -/

theorem addPeer_outbound {config : PeerConfig} {n : NetworkManager} {peer : Peer} (hin : peer.isInbound = false)
    (permissions : NetPermissionFlags) (address : String) :
    n.addPeer config env peer permissions address =
      if n.admits config env peer permissions address then
        (n.insertPeer env peer permissions (if address = "" then peer.address else address), n.nextPeerId)
      else (n, -1) := by
  cases hearly : n.refusesEarly config env peer permissions address with
  | true =>
    rw [NetworkManager.addPeer_early hearly]
    simp [NetworkManager.admits, hearly]
  | false =>
    have hearly' := hearly
    unfold NetworkManager.refusesEarly at hearly'
    simp only [Bool.or_eq_false_iff] at hearly'
    obtain ⟨⟨hstop, hban⟩, hfull⟩ := hearly'
    unfold NetworkManager.addPeer NetworkManager.admits
    simp only [hearly, hstop, hban, hfull, Bool.false_eq_true, if_false]
    simp only [hin, Bool.not_false, if_true, Bool.true_or, Bool.and_true]

theorem newPeer_dialed (H : config.TextReads) {dial : Dial}
    (hdial : config.networkAddressToString dial.addr.ip = some dial.address) (isOpen : Bool) :
    NewPeer config (DialManager.dialedPeer dial isOpen) where
  successfullyConnected := rfl
  state := by cases isOpen <;> simp [DialManager.dialedPeer, Peer.createOutbound, Peer.create]
  dialed := fun _ => ⟨.inr ⟨rfl, fun hempty => H.nonempty dial.addr.ip (hdial.trans (congrArg some hempty))⟩,
    dial.addr, hdial, rfl⟩

/-- A feeler is announced as one, which the address manager does not hear of. -/
theorem addrManager_complete_feeler {i : Nat} {dial : Dial} (hdial : s.posted[i]? = some (dial, true))
    (hfeeler : dial.isFeeler = true) {isOpen : Bool}
    (hadm : s.admits config.peers env (DialManager.dialedPeer dial isOpen) NetPermissionFlags.None "" = true)
    (hid : 0 ≤ s.nextPeerId) :
    (s.after config env (s.toDialManager.complete config.peers env i isOpen)).addrManager = s.addrManager := by
  have hadd : s.toNetworkManager.addPeer config.peers env (DialManager.dialedPeer dial isOpen)
      NetPermissionFlags.None "" = _ := addPeer_outbound rfl _ _
  rw [if_pos hadm] at hadd
  have hevents : (s.toDialManager.complete config.peers env i isOpen).peerEvents = s.peerEvents ++
      [.connected s.nextPeerId dial.address dial.addr.port "feeler"] := by
    unfold DialManager.complete
    rw [hdial]
    simp only [Bool.not_true, Bool.false_eq_true, if_false, hfeeler, if_true]
    unfold NetworkManager.addAndStart
    rw [hadd]
    simp only [not_lt.mpr hid, if_false]
    split <;> simp [NetworkManager.insertPeer, NetworkManager.modifyPeer, DialManager.dialedPeer,
      DialManager.connectionType, Peer.createOutbound, Peer.create, Peer.isFeeler, Peer.address, Peer.port, hfeeler]
  unfold Node.after
  simp only [hevents, List.drop_left, List.foldl_cons, List.foldl_nil, onPeerEvent]
  rw [if_neg (by decide)]

theorem NodeOk.complete (h : NodeOk config s) (H : config.TextReads) (i : Nat) (isOpen : Bool) (wire : Wire)
    (hwaits : ∀ dial, s.posted[i]? = some (dial, true) → dial.isFeeler = true →
      s.admits config.peers env (DialManager.dialedPeer dial isOpen) NetPermissionFlags.None "" = true →
      0 ≤ s.nextPeerId → addrKey (normalizeAddress dial.addr) ∈ s.addrManager.new →
      s.Handshaken config (addrKey (normalizeAddress dial.addr))) :
    NodeOk config (s.complete config env i isOpen wire) := by
  unfold Node.complete
  split
  · exact h
  · rename_i dial success hdial
    have haddress := h.posted _ (List.mem_of_getElem? hdial)
    have hcomplete : NetworkManager.ObjectsLater (NewPeer config) s.toNetworkManager
          (s.toDialManager.complete config.peers env i isOpen).toNetworkManager ∧
        (s.toDialManager.complete config.peers env i isOpen).connecting = s.connecting ∧
        (s.toDialManager.complete config.peers env i isOpen).posted = s.posted.eraseIdx i := by
      unfold DialManager.complete
      rw [hdial]
      dsimp only
      split
      · exact ⟨.refl _, rfl, rfl⟩
      · exact ⟨.addAndStart config.peers env _ (newPeer_dialed H haddress isOpen) _ _, rfl, rfl⟩
    obtain ⟨hobjects, hconnecting, hposted⟩ := hcomplete
    have hafter : NodeOk config (s.after config env (s.toDialManager.complete config.peers env i isOpen)) := by
      refine h.after hobjects (fun dial' hdial' => ?_) fun x hx => ?_
      · exact h.connecting dial' (hconnecting ▸ hdial')
      · exact h.posted x (List.mem_of_mem_eraseIdx (hposted ▸ hx))
    dsimp only
    split
    · split
      · exact hafter.promotesNone (promotesNone_attempt env _ _)
      · exact hafter.promotesNone ((promotesNone_attempt env _ _).trans (promotesNone_failed env _ _))
    · rename_i hsuccess
      obtain rfl : success = true := by simpa using hsuccess
      split
      · exact hafter.promotesNone (promotesNone_attempt env _ _)
      · rename_i hadmitted
        refine NodeOk.runLoop ?_ _ _
        split
        · rename_i hfeeler
          -- the peer of a feeler that is not refused is in the peer map before its handshake
          have hverdict : s.admits config.peers env (DialManager.dialedPeer dial isOpen) NetPermissionFlags.None "" = true ∧
              0 ≤ s.nextPeerId := by
            unfold addDialed at hadmitted
            rw [if_pos hfeeler, if_pos hfeeler, addPeer_outbound rfl] at hadmitted
            split at hadmitted
            · rename_i hadm
              exact ⟨hadm, not_lt.mp hadmitted⟩
            · exact absurd (show (-1 : Int) < 0 by decide) hadmitted
          obtain ⟨hadm, hid⟩ := hverdict
          refine hafter.good fun hnew => ?_
          rw [addrManager_complete_feeler hdial hfeeler hadm hid] at hnew
          exact h.handshaken_after hobjects (hwaits dial hdial hfeeler hadm hid hnew)
        · exact hafter

variable (env) in
theorem NodeOk.afterManagers (h : NodeOk config s) {n : NetworkManager}
    (hobjects : NetworkManager.ObjectsLater (NewPeer config) s.toNetworkManager n) :
    NodeOk config (s.after config env { s.toDialManager with toNetworkManager := n }) :=
  h.after (d := { s.toDialManager with toNetworkManager := n }) hobjects h.connecting h.posted

theorem NodeOk.handleInboundConnection (h : NodeOk config s) (isRunning : Bool)
    (connection : Option (String × BitVec 16)) (isOpen : Bool) (permissions : NetPermissionFlags) (wire : Wire) :
    NodeOk config (s.handleInboundConnection config env isRunning connection isOpen permissions wire) := by
  have hnew : NewPeer config (.createInbound connection isOpen) := by
    refine ⟨rfl, ?_, fun hout => by cases hout⟩
    cases connection <;> cases isOpen <;> simp [Peer.createInbound, Peer.create]
  have hafter := h.afterManagers env
    (.handleInboundConnection config.peers env _ isRunning connection isOpen permissions hnew)
  unfold Node.handleInboundConnection
  dsimp only
  split
  · exact hafter.runLoop _ _
  · exact hafter

/-! ## Messages -/

theorem NodeOk.handleVerack (h : NodeOk config s) (H : config.TextReads) (p : PeerPtr) :
    NodeOk config (s.handleVerack config env p) := by
  unfold Node.handleVerack
  split
  · exact h
  · rename_i peer hp
    split
    · exact h
    · rename_i hready
      split
      · rename_i hdirection
        simp only [Bool.and_eq_true, Bool.not_eq_true'] at hdirection
        simp only [Bool.or_eq_true, Bool.not_eq_true', not_or, Bool.not_eq_false] at hready
        obtain ⟨l, hl, rfl⟩ := h.loopAt hp
        obtain ⟨hsettled, addr, haddr, hport⟩ := h.dialed p _ hp hdirection.1
        have hshook := (h.transcripts p l hl).shookHands hdirection.1 hready.2
        have hne : l.session.peer.targetAddress ≠ "" := fun hempty => H.nonempty addr.ip (hempty ▸ haddr)
        have hshown : l.session.peer.address = l.session.peer.targetAddress ∧
            l.session.peer.port = l.session.peer.targetPort := by
          unfold Peer.address Peer.port
          rcases hsettled with hc | ⟨hc, -⟩
          · simp [hc, hne]
          · simp [hc]
        obtain ⟨hip', hport'⟩ := H.reads addr.ip _ l.session.peer.targetPort haddr
        refine h.good fun _ => ⟨p, l, addr, hl, hdirection.1, ⟨haddr, hport⟩, ?_, hshook⟩
        rw [hshown.1, hshown.2]
        exact addrKey_normalizeAddress_congr hip'.symm (hport.trans hport'.symm)
      · exact h

theorem NodeOk.handleAddr (h : NodeOk config s) (p : PeerPtr) (accepted : List Nat)
    (addresses : List TimestampedAddress) : NodeOk config (s.handleAddr config env p accepted addresses) := by
  unfold Node.handleAddr
  split
  · exact h
  · rename_i peer _
    split
    · exact h
    · split
      · dsimp only
        have hreported : NetworkManager.ObjectsLater (NewPeer config) s.toNetworkManager
            (s.toNetworkManager.reportOversizedMessage peer.id) := .of_eq rfl rfl
        split
        · exact h.afterManagers _ (hreported.trans (.removePeer env _ _))
        · refine NodeOk.promotesNone ?_ (promotesNone_takeAddresses env _ accepted addresses)
          exact h.congr rfl rfl h.connecting h.posted h.events fun k hk => .inl hk
      · exact h.promotesNone (promotesNone_takeAddresses env s accepted addresses)

theorem NodeOk.handleMessage (h : NodeOk config s) (H : config.TextReads) (p : PeerPtr) (accepted : List Nat)
    (m : Message) : NodeOk config (s.handleMessage config env p accepted m) := by
  cases m with
  | verack => exact h.handleVerack H p
  | addr addresses => exact h.handleAddr p accepted addresses
  | _ => exact h

theorem NodeOk.peerEvent (h : NodeOk config s) (H : config.TextReads) (isRunning : Bool) (p : PeerPtr) (op : PeerOp)
    (accepted : List Nat) : NodeOk config (s.peerEvent config env isRunning p op accepted) := by
  unfold Node.peerEvent
  split
  · exact h
  · rename_i l hl
    have hset := h.setLoop hl (withoutActions op)
    dsimp only
    split
    · exact List.foldlRecOn (delivered l (l.step config.session (withoutActions op))) _ hset
        (fun t ht m _ => ht.handleMessage H p accepted m)
    · exact hset

/-! ## Runs -/

theorem NodeOk.step (h : NodeOk config s) (H : config.TextReads) {op : NodeOp} (hwaits : FeelerWaits config s op) :
    NodeOk config (s.step config op) := by
  cases op with
  | attemptOutboundConnections env isRunning draws connects => exact h.attemptOutboundConnections _ _ _
  | connectTo env addr permissions connects => exact h.connectTo config _ addr permissions connects
  | attemptFeelerConnection env isRunning index connects => exact h.attemptFeelerConnection _ _ _
  | callback i success => exact h.callback i success
  | complete env i isOpen wire => exact h.complete H i isOpen wire hwaits
  | handleInboundConnection env isRunning connection isOpen permissions wire =>
    exact h.handleInboundConnection _ _ _ _ _
  | peerEvent env isRunning p op accepted => exact h.peerEvent H isRunning p op accepted
  | manage env op =>
    simp only [Node.step]
    split
    · rename_i hop
      exact h.afterManagers _ (.manage config.parse _ hop)
    · exact h
  | add env addr timestamp => exact h.promotesNone ⟨_, rfl, AddressManager.add_tried _ _ _ _⟩
  | cleanupStale env => exact h.promotesNone ⟨_, rfl, AddressManager.cleanupStale_tried _ _⟩

theorem nodeOk_fresh (config : NodeConfig) (chainstate : ChainstateManager) (localNonce : BitVec 64) :
    NodeOk config (fresh chainstate localNonce) where
  length := rfl
  transcripts p l hl := by
    obtain ⟨l', peer, hl', -⟩ := loopAt_eq_some.mp hl
    cases hl'
  dialed p peer hp := by cases hp
  connecting dial hdial := by cases hdial
  posted x hx := by cases hx
  events e he := by cases he
  tried k hk := absurd hk Std.ExtTreeMap.not_mem_empty

end

/-! ## A peer on 10.0.0.1 -/

def listedAddress : NetworkAddress := { ip := 0xffff0a000001, port := 9590 }

/-- The conversion of 10.0.0.1. -/
def listedConfig : NodeConfig where
  networkAddressToString ip := if ip = listedAddress.ip then some "10.0.0.1" else none
  parse := some
  session := { PeerLoop.mainnet with
    networkAddressFromString := fun text port => { ip := if text = "10.0.0.1" then listedAddress.ip else 0, port } }

theorem listedConfig_textReads : listedConfig.TextReads where
  nonempty ip h := by
    simp only [listedConfig] at h
    split at h
    · exact absurd (Option.some.inj h) (by decide)
    · cases h
  reads ip text port h := by
    simp only [listedConfig] at h
    split at h
    · rename_i hip
      cases h
      exact ⟨hip.symm, rfl⟩
    · cases h

def listedEnv : NetEnv := { steadyTime := 1000000000000, time := 1700000000 }

/-- The node connects to the address. -/
def connectOps : List NodeOp :=
  [.add listedEnv listedAddress 0, .connectTo listedEnv listedAddress NetPermissionFlags.None true, .callback 0 true]

/-- The peer is admitted, and its VERSION and VERACK come in. -/
def verackOps : List NodeOp :=
  [.peerEvent listedEnv true 0 (.receive 0 (PeerLoop.sentBytes PeerLoop.mainnet (.version PeerLoop.ownVersion) ++
      PeerLoop.sentBytes PeerLoop.mainnet .verack)) [],
    .peerEvent listedEnv true 0 (.round {}) [], .peerEvent listedEnv true 0 (.round {}) []]

def connected : Node := connectOps.foldl (step listedConfig) (fresh (ChainstateManager.fresh false) 8)

def verified : Node := verackOps.foldl (step listedConfig) (connected.step listedConfig (.complete listedEnv 0 true {}))

/-- The same address by a feeler, whose peer sends nothing. -/
def feelerOps : List NodeOp :=
  [.add listedEnv listedAddress 0, .attemptFeelerConnection listedEnv true (fun _ => 0) true, .callback 0 true,
    .complete listedEnv 0 true {}]

end Node

end UnicityPow
