import UnicityPow.Recency
import UnicityPow.Sha256

/-!
# RandomX virtual machines

The caches and virtual machines that each thread keeps for the epochs it has used last. Of the
RandomX library a cache is the key it was made with, and whether an allocation succeeds is part of
the environment of a call.
-/

namespace UnicityPow

structure SimpleLRUCache (Key Value : Type) where
  entries : List (Key × Value) := []
  maxSize : Nat

namespace SimpleLRUCache

variable {Key Value : Type} [DecidableEq Key]

/-- `get`: a hit is moved to the end. -/
def get (cache : SimpleLRUCache Key Value) (key : Key) : Option Value × SimpleLRUCache Key Value :=
  match cache.entries.reverse.find? (fun e => e.1 = key) with
  | some e =>
    (some e.2, { cache with entries := (cache.entries.reverse.eraseP (fun e => e.1 = key)).reverse ++ [e] })
  | none => (none, cache)

def insert (cache : SimpleLRUCache Key Value) (key : Key) (value : Value) : SimpleLRUCache Key Value :=
  let entries := cache.entries.eraseP (fun e => e.1 = key)
  let entries := if cache.maxSize ≤ entries.length then entries.drop 1 else entries
  { cache with entries := entries ++ [(key, value)] }

def clear (cache : SimpleLRUCache Key Value) : SimpleLRUCache Key Value := { cache with entries := [] }

def size (cache : SimpleLRUCache Key Value) : Nat := cache.entries.length

end SimpleLRUCache

def DEFAULT_RANDOMX_VM_CACHE_SIZE : Nat := 2

/-- `%d` prints the number of the epoch as a signed one. -/
def seedString (nEpoch : BitVec 32) : String := "Alpha/RandomX/Epoch/" ++ nEpoch.toInt.repr

def seedData (nEpoch : BitVec 32) : List UInt8 := (seedString nEpoch).toByteArray.data.toList

/-- `GetSeedHash`, with what happens to be in the buffers of its hashers. -/
def getSeedHash (buf buf' : Vector UInt8 64) (nEpoch : BitVec 32) : Uint256 :=
  readBE 256 (doubleSha256 buf buf' (seedData nEpoch))

structure RandomXCacheWrapper where
  key : Uint256

/-- `vm` tells the virtual machines apart. -/
structure RandomXVMWrapper where
  vm : Nat
  cache : RandomXCacheWrapper

structure RandomXEnv where
  buf : Vector UInt8 64
  buf' : Vector UInt8 64
  allocatesCache : Bool := true
  createsVM : Bool := true

abbrev ThreadId := Nat

/-- `created` counts the virtual machines. `served` has the epochs for which `GetCachedVM` has
returned to a thread since the thread's last shutdown, the last one first; no call reads it. -/
structure RandomXState where
  initialized : Bool := false
  cacheStorage : ThreadId → SimpleLRUCache (BitVec 32) RandomXCacheWrapper :=
    fun _ => { maxSize := DEFAULT_RANDOMX_VM_CACHE_SIZE }
  vmCache : ThreadId → SimpleLRUCache (BitVec 32) RandomXVMWrapper :=
    fun _ => { maxSize := DEFAULT_RANDOMX_VM_CACHE_SIZE }
  created : Nat := 0
  served : ThreadId → List (BitVec 32) := fun _ => []

namespace RandomXState

variable (s : RandomXState) (thread : ThreadId) (nEpoch : BitVec 32) (env : RandomXEnv)

/-- The thread's cache of the epoch, made where there is none. -/
def cacheOf : RandomXState × Except String RandomXCacheWrapper :=
  match (s.cacheStorage thread).get nEpoch with
  | (some cache, storage) => ({ s with cacheStorage := Function.update s.cacheStorage thread storage }, .ok cache)
  | (none, _) =>
    if env.allocatesCache then
      let cache : RandomXCacheWrapper := ⟨getSeedHash env.buf env.buf' nEpoch⟩
      let storage := (s.cacheStorage thread).insert nEpoch cache
      ({ s with cacheStorage := Function.update s.cacheStorage thread storage }, .ok cache)
    else (s, .error "Failed to allocate RandomX cache")

/-- `CreateVMForEpoch`. -/
def createVMForEpoch : RandomXState × Except String RandomXVMWrapper :=
  if !s.initialized then (s, .error "RandomX not initialized")
  else
    match s.cacheOf thread nEpoch env with
    | (s, .error e) => (s, .error e)
    | (s, .ok cache) =>
      if env.createsVM then ({ s with created := s.created + 1 }, .ok ⟨s.created, cache⟩)
      else (s, .error "Failed to create RandomX VM for parallel verification")

/-- `GetCachedVM`. -/
def getCachedVM : RandomXState × Except String RandomXVMWrapper :=
  if !s.initialized then (s, .error "RandomX not initialized")
  else
    match (s.vmCache thread).get nEpoch with
    | (some vm, vms) =>
      ({ s with
          vmCache := Function.update s.vmCache thread vms
          served := Function.update s.served thread (nEpoch :: s.served thread) }, .ok vm)
    | (none, _) =>
      match s.cacheOf thread nEpoch env with
      | (s, .error e) => (s, .error e)
      | (s, .ok cache) =>
        if env.createsVM then
          let vm : RandomXVMWrapper := ⟨s.created, cache⟩
          ({ s with
              vmCache := Function.update s.vmCache thread ((s.vmCache thread).insert nEpoch vm)
              created := s.created + 1
              served := Function.update s.served thread (nEpoch :: s.served thread) }, .ok vm)
        else (s, .error "Failed to create RandomX VM")

def initRandomX : RandomXState := { s with initialized := true }

/-- `ShutdownRandomX` clears what the calling thread keeps, and nothing of the other threads. -/
def shutdownRandomX : RandomXState :=
  if s.initialized then
    { s with
      initialized := false
      vmCache := Function.update s.vmCache thread (s.vmCache thread).clear
      cacheStorage := Function.update s.cacheStorage thread (s.cacheStorage thread).clear
      served := Function.update s.served thread [] }
  else s

end RandomXState

inductive RandomXOp
  | initRandomX
  | shutdownRandomX (thread : ThreadId)
  | getCachedVM (thread : ThreadId) (nEpoch : BitVec 32) (env : RandomXEnv)
  | createVMForEpoch (thread : ThreadId) (nEpoch : BitVec 32) (env : RandomXEnv)

def RandomXState.step (s : RandomXState) : RandomXOp → RandomXState
  | .initRandomX => s.initRandomX
  | .shutdownRandomX thread => s.shutdownRandomX thread
  | .getCachedVM thread nEpoch env => (s.getCachedVM thread nEpoch env).1
  | .createVMForEpoch thread nEpoch env => (s.createVMForEpoch thread nEpoch env).1

def RandomXState.run (ops : List RandomXOp) : RandomXState := ops.foldl RandomXState.step {}

end UnicityPow
