import UnicityPow.Collect
import UnicityPow.Discovery

/-!
# ADDR and GETADDR

The handlers of the discovery manager, with what it learns from each peer: the recent ring, the
addresses that a peer has sent, and whether it has had its answer.
-/

namespace UnicityPow

def ECHO_SUPPRESS_TTL_SEC : Int := 600

def MAX_LEARNED_PER_PEER : Nat := 2000

def RECENT_ADDRS_MAX : Nat := 5000

/-- The order of a shuffle or of a hash map. -/
structure Shuffle where
  run : {α : Type} → List α → List α
  perm : ∀ {α : Type} (l : List α), (run l).Perm l

def Shuffle.same : Shuffle := ⟨fun l => l, fun l => .refl l⟩

/-- The orders of one response: of the address manager's sample, of the learned maps, and of the
response itself. -/
structure ResponseOrders where
  sample : Shuffle := .same
  learned : Shuffle := .same
  response : Shuffle := .same

/-! ## Learned addresses -/

structure LearnedEntry where
  tsAddr : TimestampedAddress := {}
  lastSeenS : Int := 0

/-- The entries by `MakeKey`, the address and port as they came. -/
abbrev LearnedMap := Std.ExtTreeMap AddrKey LearnedEntry compare

namespace LearnedMap

/-- The entries that are not too old. -/
def prune (nowS : Int) (learned : LearnedMap) : LearnedMap :=
  learned.filter (fun _ e => !decide (ECHO_SUPPRESS_TTL_SEC < nowS - e.lastSeenS))

def insertOne (nowS : Int) (learned : LearnedMap) (ta : TimestampedAddress) : LearnedMap :=
  let e := learned[addrKey ta.address]?.getD {}
  learned.insert (addrKey ta.address)
    { tsAddr := if e.lastSeenS = 0 ∨ e.tsAddr.timestamp ≤ ta.timestamp then ta else e.tsAddr
      lastSeenS := nowS }

/-- The update before the cap is enforced. -/
def insertAll (nowS : Int) (accepted : List TimestampedAddress) (learned : LearnedMap) : LearnedMap :=
  accepted.foldl (insertOne nowS) (learned.prune nowS)

def overCap (learned : LearnedMap) : Bool := decide (MAX_LEARNED_PER_PEER * 11 / 10 < learned.size)

/-- The batched eviction of the oldest entries. -/
def evict (order : Shuffle) (learned : LearnedMap) : LearnedMap :=
  if learned.overCap then
    (((order.run learned.toList).mergeSort (fun a b => decide (a.2.lastSeenS ≤ b.2.lastSeenS))).take
      (MAX_LEARNED_PER_PEER * 9 / 10)).foldl (fun m kv => m.erase kv.1) learned
  else learned

end LearnedMap

/-- What `PeerTrackingData` has for address discovery. -/
structure DiscoveryData where
  getaddrReplied : Bool := false
  learnedAddresses : LearnedMap := ∅

/-! ## The recent ring -/

/-- `push_back`, and `pop_front` of a ring that is too long. -/
def pushRecent (recent : List TimestampedAddress) (ta : TimestampedAddress) : List TimestampedAddress :=
  let recent := recent ++ [ta]
  if RECENT_ADDRS_MAX < recent.length then recent.drop 1 else recent

/-! ## The address manager's sample -/

def AddressManager.getAddresses (now : BitVec 32) (shuffle : Shuffle) (maxCount : Nat) (s : AddressManager) :
    List TimestampedAddress :=
  shuffle.run ((((s.tried.toList ++ s.new.toList).map Prod.snd).filter
    (fun info => isRoutable info.address && !info.isTerrible now)).take maxCount |>.map
      (fun info => { timestamp := info.timestamp, address := info.address }))

/-! ## The manager -/

/-- The addresses that one ADDR message of a peer brought, or the response sent to a peer, with the
time of the handler and the peer's own address. -/
inductive DiscoveryEvent
  | accepted (p : PeerPtr) (timeS : Int) (addresses : List TimestampedAddress)
  | response (p : PeerPtr) (timeS : Int) (self : NetworkAddress) (addresses : List TimestampedAddress)
deriving DecidableEq

/-- The network layer with the discovery manager. The discovery data of an entry are kept by the
object of the entry, which no other entry ever has. The log is the oldest event first. -/
structure PeerDiscoveryManager extends NetworkManager where
  addrManager : AddressManager := {}
  recentAddrs : List TimestampedAddress := []
  discovery : PeerPtr → DiscoveryData := fun _ => {}
  log : List DiscoveryEvent := []

namespace PeerDiscoveryManager

section
variable (s : PeerDiscoveryManager)

/-- The discovery data of the entry of a peer. -/
def dataOf (peerId : Int) : Option DiscoveryData := (s.peerStates[peerId]?).map (fun d => s.discovery d.peer)

def modifyData (peerId : Int) (f : DiscoveryData → DiscoveryData) : PeerDiscoveryManager :=
  match s.peerStates[peerId]? with
  | none => s
  | some d => { s with discovery := Function.update s.discovery d.peer (f (s.discovery d.peer)) }

/-! ## ADDR -/

/-- `ModifyLearnedAddresses` of `HandleAddr`. -/
def learn (env : NetEnv) (order : Shuffle) (peerId : Int) (accepted : List TimestampedAddress) :
    PeerDiscoveryManager :=
  s.modifyData peerId (fun data =>
    { data with learnedAddresses := (data.learnedAddresses.insertAll env.time accepted).evict order })

/-- `HandleAddr` with the addresses that the rate limit lets through, in the order of the shuffle. -/
def takeAddresses (env : NetEnv) (order : Shuffle) (p : PeerPtr) (peerId : Int)
    (accepted : List TimestampedAddress) : PeerDiscoveryManager :=
  let s := { s with addrManager := (s.addrManager.addMultiple (accepted.map (fun ta => (env.now, ta)))).1 }
  let s := s.learn env order peerId accepted
  { s with
    recentAddrs := accepted.foldl pushRecent s.recentAddrs
    log := s.log ++ [.accepted p env.time accepted] }

/-- The addresses of a message at the places that the rate limit lets through. -/
def acceptedOf (places : List Nat) (addresses : List TimestampedAddress) : List TimestampedAddress :=
  places.filterMap (fun j => (addresses.take MAX_ADDR_SIZE)[j]?)

def handleAddr (env : NetEnv) (order : Shuffle) (p : PeerPtr) (places : List Nat)
    (addresses : List TimestampedAddress) : PeerDiscoveryManager :=
  match s.peers[p]? with
  | none => s
  | some peer =>
    if !peer.successfullyConnected then s
    else if MAX_ADDR_SIZE < addresses.length then
      let reported := s.toNetworkManager.reportOversizedMessage peer.id
      if reported.shouldDisconnect peer.id then { s with toNetworkManager := reported.removePeer env peer.id }
      else ({ s with toNetworkManager := reported } : PeerDiscoveryManager).takeAddresses env order p peer.id
        (acceptedOf places addresses)
    else s.takeAddresses env order p peer.id (acceptedOf places addresses)

/-! ## GETADDR -/

/-- `is_suppressed`. -/
def isSuppressed (nowS : Int) (suppression : LearnedMap) (self : NetworkAddress) (k : AddrKey) : Bool :=
  suppression[k]?.any (fun e =>
      decide (0 ≤ nowS - e.lastSeenS) && decide (nowS - e.lastSeenS ≤ ECHO_SUPPRESS_TTL_SEC)) ||
    k == addrKey self

/-- `GetLearnedAddressesForGetAddr`. -/
def getLearnedAddressesForGetAddr (order : Shuffle) (excludePeerId : Int) (maxCount : Nat) :
    List TimestampedAddress :=
  ((s.peerStates.toList.filter (fun kv => kv.1 != excludePeerId)).flatMap (fun kv =>
    (order.run (s.discovery kv.2.peer).learnedAddresses.toList).map (fun entry => entry.2.tsAddr))).take maxCount

/-- The response, before it is shuffled. -/
def composeResponse (env : NetEnv) (orders : ResponseOrders) (peerId : Int) (self : NetworkAddress) :
    List TimestampedAddress :=
  let suppression := (s.dataOf peerId).elim ∅ (fun data => data.learnedAddresses.prune env.time)
  let top := Collect.collect (fun ta : TimestampedAddress => addrKey ta.address)
    (isSuppressed env.time suppression self) MAX_ADDR_SIZE
  let response := top [] s.recentAddrs.reverse
  let response := if response.length < MAX_ADDR_SIZE then
      top response (s.addrManager.getAddresses env.now orders.sample MAX_ADDR_SIZE) else response
  if response.isEmpty then top response (s.getLearnedAddressesForGetAddr orders.learned peerId MAX_ADDR_SIZE)
  else response

def handleGetAddr (fromString : String → BitVec 16 → NetworkAddress) (env : NetEnv) (orders : ResponseOrders)
    (p : PeerPtr) : PeerDiscoveryManager :=
  match s.peers[p]? with
  | none => s
  | some peer =>
    if !peer.successfullyConnected then s
    else if !peer.isInbound then s
    else if (s.dataOf peer.id).any DiscoveryData.getaddrReplied then s
    else
      let s := s.modifyData peer.id ({ · with getaddrReplied := true })
      let self := fromString peer.address peer.port
      let response := s.composeResponse env orders peer.id self
      -- a response to a peer without a transport is dropped
      if peer.isConnected && peer.connection.isSome && env.canSend p then
        { s with log := s.log ++ [.response p env.time self (orders.response.run response)] }
      else s

end

end PeerDiscoveryManager

/-! ## Runs -/

inductive DiscoveryOp
  | handleAddr (env : NetEnv) (order : Shuffle) (p : PeerPtr) (places : List Nat)
      (addresses : List TimestampedAddress)
  | handleGetAddr (env : NetEnv) (orders : ResponseOrders) (p : PeerPtr)
  | addrManager (op : AddrOp)
  | lifecycle (op : LifecycleOp)

namespace PeerDiscoveryManager

def step (parse : String → Option String) (config : PeerConfig) (fromString : String → BitVec 16 → NetworkAddress)
    (s : PeerDiscoveryManager) : DiscoveryOp → PeerDiscoveryManager
  | .handleAddr env order p places addresses => s.handleAddr (env.normalizing parse) order p places addresses
  | .handleGetAddr env orders p => s.handleGetAddr fromString env orders p
  | .addrManager op => { s with addrManager := s.addrManager.step op }
  | .lifecycle op => { s with toNetworkManager := s.lifecycleStep parse config op }

def fresh (chainstate : ChainstateManager) : PeerDiscoveryManager := { toNetworkManager := .fresh chainstate }

end PeerDiscoveryManager

end UnicityPow
