import UnicityPow.Lifecycle
import UnicityPow.Message

/-!
# Block announcements

The block relay manager over the peers of the peer manager: a queue of hashes for each
peer, the record of its last announcement, and the INV messages made of them.
-/

namespace UnicityPow

def REANNOUNCE_INTERVAL_SEC : Int := 10 * 60

/-! ## The record of one peer -/

namespace PeerTrackingData

def setLastAnnouncedBlock (hash : Uint256) (timeS : Int) (d : PeerTrackingData) : PeerTrackingData :=
  { d with lastAnnouncedBlock := hash, lastAnnounceTimeS := timeS }

def addBlockForInvRelay (hash : Uint256) (d : PeerTrackingData) : PeerTrackingData :=
  if hash ∈ d.blocksForInvRelay then d else { d with blocksForInvRelay := d.blocksForInvRelay ++ [hash] }

def removeBlockForInvRelay (hash : Uint256) (d : PeerTrackingData) : PeerTrackingData :=
  { d with blocksForInvRelay := d.blocksForInvRelay.filter (· != hash) }

/-- What `MoveBlocksForInvRelay` leaves. -/
def moveBlocksForInvRelay (d : PeerTrackingData) : PeerTrackingData := { d with blocksForInvRelay := [] }

/-- The suppression of a tip that was announced less than ten minutes ago. -/
def withinTtl (now : Int) (tip : Uint256) (d : PeerTrackingData) : Bool :=
  d.lastAnnouncedBlock == tip && decide (0 < d.lastAnnounceTimeS) &&
    decide (now - d.lastAnnounceTimeS < REANNOUNCE_INTERVAL_SEC)

end PeerTrackingData

/-- The peers that announcements go to. -/
def Peer.takesInv (p : Peer) : Bool := p.isConnected && p.state == .READY

def blockInv (hash : Uint256) : InventoryVector := ⟨MSG_BLOCK, hash⟩

/-- The loop that cuts a queue into messages; `fuel` bounds its rounds. -/
def invMessages (chunk : Nat) : Nat → List Uint256 → List (List InventoryVector)
  | 0, _ => []
  | fuel + 1, blocks =>
    if blocks = [] then [] else (blocks.take chunk).map blockInv :: invMessages chunk fuel (blocks.drop chunk)

/-! ## The manager -/

/-- The network layer with the INV messages handed to `send_message` of each peer object. -/
structure BlockRelayManager extends NetworkManager where
  invChunkSize : Nat := MAX_INV_SIZE
  invs : List (PeerPtr × List InventoryVector) := []

namespace BlockRelayManager

section
variable (s : BlockRelayManager)

def getAllPeers : List PeerPtr := s.peerStates.toList.map (fun kv => kv.2.peer)

/-- A change of the tracking data of one peer. -/
def modifyTracking (peerId : Int) (f : PeerTrackingData → PeerTrackingData) : BlockRelayManager :=
  { s with peerStates := s.peerStates.modify peerId f }

/-- The tip, unless there is none or it is the genesis block. -/
def tipToAnnounce : Option Uint256 := s.chainstate.getTip.filter (fun tip => s.chainstate.blockIndex.nHeight tip != 0)

/-- `AddBlockForInvRelay` and `SetLastAnnouncedBlock`. -/
def announce (env : NetEnv) (tip : Uint256) (peerId : Int) : BlockRelayManager :=
  (s.modifyTracking peerId (.addBlockForInvRelay tip)).modifyTracking peerId
    (.setLastAnnouncedBlock tip env.time)

/-- One round of `AnnounceTipToAllPeers`. -/
def reannounce (env : NetEnv) (tip : Uint256) (p : PeerPtr) : BlockRelayManager :=
  match s.peers[p]? with
  | none => s
  | some peer =>
    if !peer.takesInv || s.peerStates[peer.id]?.any (·.withinTtl env.time tip) then s
    else s.announce env tip peer.id

def announceTipToAllPeers (env : NetEnv) : BlockRelayManager :=
  match s.tipToAnnounce with
  | none => s
  | some tip => s.getAllPeers.foldl (fun s p => s.reannounce env tip p) s

def announceTipToPeer (env : NetEnv) (p : PeerPtr) : BlockRelayManager :=
  match s.peers[p]?, s.tipToAnnounce with
  | some peer, some tip => if peer.takesInv then s.announce env tip peer.id else s
  | _, _ => s

/-- One round of `FlushBlockAnnouncements`. -/
def flushPeer (p : PeerPtr) : BlockRelayManager :=
  match s.peers[p]? with
  | none => s
  | some peer =>
    if peer.takesInv then
      let blocks := s.peerStates[peer.id]?.elim [] PeerTrackingData.blocksForInvRelay
      let s := s.modifyTracking peer.id .moveBlocksForInvRelay
      { s with invs := s.invs ++ (invMessages s.invChunkSize blocks.length blocks).map (fun inv => (p, inv)) }
    else s

def flushBlockAnnouncements : BlockRelayManager := s.getAllPeers.foldl flushPeer s

/-- One round of `RelayBlock`. -/
def relayTo (env : NetEnv) (hash : Uint256) (p : PeerPtr) : BlockRelayManager :=
  match s.peers[p]? with
  | none => s
  | some peer =>
    if peer.takesInv then
      let s := s.modifyTracking peer.id (.removeBlockForInvRelay hash)
      let s := { s with invs := s.invs ++ [(p, [blockInv hash])] }
      s.modifyTracking peer.id (.setLastAnnouncedBlock hash env.time)
    else s

def relayBlock (env : NetEnv) (hash : Uint256) : BlockRelayManager :=
  s.getAllPeers.foldl (fun s p => s.relayTo env hash p) s

end

end BlockRelayManager

/-! ## Runs -/

inductive RelayOp
  | announceTipToAllPeers (env : NetEnv)
  | announceTipToPeer (env : NetEnv) (p : PeerPtr)
  | relayBlock (env : NetEnv) (hash : Uint256)
  | flushBlockAnnouncements
  | chain (op : ChainOp)
  | lifecycle (op : LifecycleOp)

namespace BlockRelayManager

def step (getHash : CBlockHeader → Uint256) (params : ConsensusParams) (parse : String → Option String)
    (config : PeerConfig) (s : BlockRelayManager) : RelayOp → BlockRelayManager
  | .announceTipToAllPeers env => s.announceTipToAllPeers env
  | .announceTipToPeer env p => s.announceTipToPeer env p
  | .relayBlock env hash => s.relayBlock env hash
  | .flushBlockAnnouncements => s.flushBlockAnnouncements
  | .chain op => { s with chainstate := s.chainstate.step getHash params op }
  | .lifecycle op => { s with toNetworkManager := s.lifecycleStep parse config op }

/-- The managers at their start. -/
def fresh (chainstate : ChainstateManager) (invChunkSize : Nat) : BlockRelayManager :=
  { toNetworkManager := NetworkManager.fresh chainstate, invChunkSize }

end BlockRelayManager

end UnicityPow
