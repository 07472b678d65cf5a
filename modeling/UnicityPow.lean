import UnicityPow.AcceptSound
import UnicityPow.AcceptedChain
import UnicityPow.ActivateSound
import UnicityPow.Activation
import UnicityPow.AddrManager
import UnicityPow.AddrRelay
import UnicityPow.AddrSound
import UnicityPow.AdmissionSound
import UnicityPow.AncestrySound
import UnicityPow.ArithSound
import UnicityPow.AsertSound
import UnicityPow.AtomicSound
import UnicityPow.Attachment
import UnicityPow.BackoffSound
import UnicityPow.BanManager
import UnicityPow.BanSound
import UnicityPow.BaseUint
import UnicityPow.BaseUintSound
import UnicityPow.BatchSound
import UnicityPow.BestChainSound
import UnicityPow.BlockIndex
import UnicityPow.BlockManager
import UnicityPow.BlockRelay
import UnicityPow.BlockTree
import UnicityPow.Blockwise
import UnicityPow.CandidateSound
import UnicityPow.CandidateSteps
import UnicityPow.Chain
import UnicityPow.ChainSelector
import UnicityPow.Chainstate
import UnicityPow.Codec
import UnicityPow.CoherenceSound
import UnicityPow.Collect
import UnicityPow.Compact
import UnicityPow.CompactSound
import UnicityPow.CrashFs
import UnicityPow.DeliverySound
import UnicityPow.Deserializer
import UnicityPow.DeserializerSound
import UnicityPow.Dial
import UnicityPow.DialSound
import UnicityPow.DifficultySound
import UnicityPow.Digits
import UnicityPow.DirectoryLock
import UnicityPow.DirectoryLockSound
import UnicityPow.Discouraged
import UnicityPow.DiscouragedSound
import UnicityPow.Discovery
import UnicityPow.EarliestSound
import UnicityPow.EchoSound
import UnicityPow.EffectSound
import UnicityPow.EvictionSound
import UnicityPow.ExpirationSound
import UnicityPow.ExpiryLog
import UnicityPow.FailureSound
import UnicityPow.FileIndex
import UnicityPow.Files
import UnicityPow.FilesSound
import UnicityPow.Fips180
import UnicityPow.Forest
import UnicityPow.ForkSound
import UnicityPow.Frame
import UnicityPow.Framing
import UnicityPow.FramingSound
import UnicityPow.GateSound
import UnicityPow.HandshakeSound
import UnicityPow.HeaderBatch
import UnicityPow.HeaderFile
import UnicityPow.HeaderSync
import UnicityPow.HeaderTree
import UnicityPow.HeightOrder
import UnicityPow.HexSound
import UnicityPow.InvalidateSound
import UnicityPow.IsolationSound
import UnicityPow.JsonSound
import UnicityPow.KeyList
import UnicityPow.Leader
import UnicityPow.LearnedSound
import UnicityPow.Lifecycle
import UnicityPow.LimitSound
import UnicityPow.LoadSound
import UnicityPow.LoadStages
import UnicityPow.LoadedBranches
import UnicityPow.LoadedState
import UnicityPow.LocatorSound
import UnicityPow.LoopSteps
import UnicityPow.Message
import UnicityPow.Miner
import UnicityPow.MinerSound
import UnicityPow.NetworkChain
import UnicityPow.ObjectSteps
import UnicityPow.OrderSound
import UnicityPow.OrderStat
import UnicityPow.OrderedSet
import UnicityPow.OrphanSound
import UnicityPow.Peer
import UnicityPow.PeerManager
import UnicityPow.PeerSession
import UnicityPow.PeerTable
import UnicityPow.PeersSound
import UnicityPow.Penalties
import UnicityPow.PenaltySound
import UnicityPow.Population
import UnicityPow.Pow
import UnicityPow.PrecheckSound
import UnicityPow.ProgressSound
import UnicityPow.ProofOfWork
import UnicityPow.RandomXCache
import UnicityPow.RandomXCacheSound
import UnicityPow.Recency
import UnicityPow.RecoverySound
import UnicityPow.RefreshSound
import UnicityPow.RelaySound
import UnicityPow.ReorgGuardSound
import UnicityPow.ReplaySound
import UnicityPow.ResidueSound
import UnicityPow.ResolutionSound
import UnicityPow.RestartSound
import UnicityPow.Run
import UnicityPow.Runs
import UnicityPow.SaveSound
import UnicityPow.Scaling
import UnicityPow.Search
import UnicityPow.SelectionSound
import UnicityPow.ServeSound
import UnicityPow.SessionSound
import UnicityPow.SessionSteps
import UnicityPow.SetupSound
import UnicityPow.Sha256
import UnicityPow.Sha256Rounds
import UnicityPow.Sha256Sound
import UnicityPow.Shedding
import UnicityPow.ShortcutSound
import UnicityPow.SkipSound
import UnicityPow.StackLog
import UnicityPow.StringLiteral
import UnicityPow.StringParsing
import UnicityPow.SyncSlotSound
import UnicityPow.Tally
import UnicityPow.TemplateSound
import UnicityPow.TimeData
import UnicityPow.TimeDataSound
import UnicityPow.TimeSound
import UnicityPow.Transport
import UnicityPow.TransportSound
import UnicityPow.TreeSound
import UnicityPow.TriedSound
import UnicityPow.Truncation
import UnicityPow.Uint
import UnicityPow.Validation
import UnicityPow.ViolationSound
import UnicityPow.WireSound
import UnicityPow.WorkSound
