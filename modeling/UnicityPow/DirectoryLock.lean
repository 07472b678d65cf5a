import Mathlib.Tactic

/-!
# Directory locks

`LockDirectory` of several processes, over `fcntl` locks: a file is locked by a process, not by a
descriptor, and a process that closes any descriptor of a file gives up its lock on it. A process
is in the code of one call at a time, and `file` says which file a path leads to.
-/

namespace UnicityPow

abbrev ProcessId := Nat

abbrev FileId := Nat

inductive LockResult
  | success
  | errorWrite
  | errorLock
deriving DecidableEq

/-- `owner` is the kernel's, `dirLocks` has the keys of each process's `g_dir_locks`. -/
structure LockState where
  owner : FileId → Option ProcessId := fun _ => none
  dirLocks : ProcessId → List String := fun _ => []

namespace LockState

variable (file : String → FileId) (s : LockState) (p : ProcessId) (path : String)

def close : LockState :=
  { s with owner := fun f => if f = file path ∧ s.owner f = some p then none else s.owner f }

/-- `FileLock::TryLock`. -/
def tryLock : Option LockState :=
  match s.owner (file path) with
  | none => some { s with owner := Function.update s.owner (file path) (some p) }
  | some q => if q = p then some s else none

/-- `LockDirectory`; the lock object is destroyed, and its descriptor closed, unless it is kept. -/
def lockDirectory (probeOnly opens : Bool) : LockState × LockResult :=
  if path ∈ s.dirLocks p then (s, .success)
  else if !opens then (s, .errorWrite)
  else
    match s.tryLock file p path with
    | none => (s.close file p path, .errorLock)
    | some s =>
      if probeOnly then (s.close file p path, .success)
      else ({ s with dirLocks := Function.update s.dirLocks p (path :: s.dirLocks p) }, .success)

def unlockDirectory : LockState :=
  if path ∈ s.dirLocks p then
    { s.close file p path with dirLocks := Function.update s.dirLocks p ((s.dirLocks p).erase path) }
  else s

def releaseAllDirectoryLocks : LockState :=
  { (s.dirLocks p).foldl (fun s path => s.close file p path) s with
    dirLocks := Function.update s.dirLocks p [] }

/-- The process ends, and the kernel closes its descriptors. -/
def terminate : LockState where
  owner f := if s.owner f = some p then none else s.owner f
  dirLocks := Function.update s.dirLocks p []

end LockState

inductive LockOp
  | lockDirectory (p : ProcessId) (path : String) (probeOnly opens : Bool)
  | unlockDirectory (p : ProcessId) (path : String)
  | releaseAllDirectoryLocks (p : ProcessId)
  | terminate (p : ProcessId)

/-- The call of the process is about the path. -/
def LockOp.Names (p : ProcessId) (path : String) : LockOp → Prop
  | .lockDirectory q path' _ _ => q = p ∧ path' = path
  | _ => False

namespace LockState

variable (file : String → FileId)

def step (s : LockState) : LockOp → LockState
  | .lockDirectory p path probeOnly opens => (s.lockDirectory file p path probeOnly opens).1
  | .unlockDirectory p path => s.unlockDirectory file p path
  | .releaseAllDirectoryLocks p => s.releaseAllDirectoryLocks file p
  | .terminate p => s.terminate p

def run (ops : List LockOp) : LockState := ops.foldl (step file) {}

end LockState

end UnicityPow
