import UnicityPow.CrashFs

/-!
# Files that are written whole

`atomic_write_file` and `read_file` of `files.cpp`, one system call at a time, in a directory where calls
for other files run at the same time.
-/

namespace UnicityPow

open CrashFs

/-! ## Writing a file -/

/-- `%04x`. -/
def randomSuffix (n : Fin 0x10000) : String :=
  String.ofList ([n / 0x1000, n / 0x100 % 16, n / 0x10 % 16, n % 16].map Nat.digitChar)

def tempPath (path : String) (suffix : Fin 0x10000) : String := path ++ (".tmp." ++ randomSuffix suffix)

/-- What a system call comes to; `n` is the number of bytes of a `write`. -/
inductive CallResult
  | fails
  | returns (n : Nat)

/-- The system call that is next. -/
inductive WritePhase
  | creatingDirectory
  | opening
  | writing (fd total : Nat)
  | syncingFile (fd : Nat)
  | syncingDirectory
  | renamingFile
  | removing
  | returned (ok : Bool)
  /-- `std::filesystem::remove` throws where it fails. -/
  | threw

structure AtomicWrite where
  path : String
  data : List UInt8
  suffix : Fin 0x10000
  phase : WritePhase

namespace AtomicWrite

def temp (w : AtomicWrite) : String := tempPath w.path w.suffix

/-- The test of the loop, after `total` bytes. -/
def loop (w : AtomicWrite) (fd total : Nat) : AtomicWrite :=
  if total < w.data.length then { w with phase := .writing fd total } else { w with phase := .syncingFile fd }

/-- Behind the sync of the file. -/
def synced (hasParent : Bool) (w : AtomicWrite) : AtomicWrite :=
  if hasParent then { w with phase := .syncingDirectory } else { w with phase := .renamingFile }

def next (hasParent : Bool) (w : AtomicWrite) (result : CallResult) (disk : Disk String) :
    AtomicWrite × Disk String :=
  match w.phase, result with
  | .creatingDirectory, .fails => ({ w with phase := .returned false }, disk)
  | .creatingDirectory, .returns _ => ({ w with phase := .opening }, disk)
  | .opening, .fails => ({ w with phase := .returned false }, disk)
  | .opening, .returns _ => (w.loop (disk.openTrunc w.temp).2 0, (disk.openTrunc w.temp).1)
  | .writing _ _, .fails => ({ w with phase := .removing }, disk)
  | .writing fd total, .returns n =>
    let n := min n (w.data.length - total)
    if n = 0 then ({ w with phase := .removing }, disk)
    else (w.loop fd (total + n), disk.append fd ((w.data.drop total).take n))
  | .syncingFile _, .fails => ({ w with phase := .removing }, disk)
  | .syncingFile fd, .returns _ => (w.synced hasParent, disk.syncFile fd)
  | .syncingDirectory, .fails => ({ w with phase := .removing }, disk)
  | .syncingDirectory, .returns _ => ({ w with phase := .renamingFile }, disk.syncDirectory)
  | .renamingFile, .fails => ({ w with phase := .removing }, disk)
  | .renamingFile, .returns _ =>
    match disk.rename w.temp w.path with
    | some disk => ({ w with phase := .returned true }, disk)
    | none => ({ w with phase := .removing }, disk)
  | .removing, .fails => ({ w with phase := .threw }, disk)
  | .removing, .returns _ => ({ w with phase := .returned false }, disk.remove w.temp)
  | .returned _, _ => (w, disk)
  | .threw, _ => (w, disk)

/-- A call that begins; without a parent in the path no directory is created. -/
def start (hasParent : Bool) (path : String) (data : List UInt8) (suffix : Fin 0x10000) : AtomicWrite where
  path := path
  data := data
  suffix := suffix
  phase := if hasParent then .creatingDirectory else .opening

end AtomicWrite

/-! ## Reading a file -/

def MAX_FILE_SIZE : Nat := 100 * 1024 * 1024

def readFile (disk : Disk String) (path : String) : List UInt8 :=
  match disk.read path with
  | none => []
  | some content => if MAX_FILE_SIZE < content.length then [] else content

/-! ## The directory -/

structure Datadir where
  disk : Disk String
  /-- The calls that are under way. -/
  calls : String → Option AtomicWrite
  /-- What each file has held since the last crash, the newest first. -/
  contents : String → List (Option (List UInt8))

namespace Datadir

def boot (disk : Disk String) : Datadir where
  disk := disk
  calls _ := none
  contents path := [disk.read path]

/-- One system call of the call for a path. -/
def proceed (hasParent : Bool) (s : Datadir) (path : String) (w : AtomicWrite) (result : CallResult) : Datadir :=
  let (w, disk) := w.next hasParent result s.disk
  match w.phase with
  | .returned true =>
    { disk := disk
      calls := Function.update s.calls path none
      contents := Function.update s.contents path (some w.data :: s.contents path) }
  | .returned false | .threw => { s with disk := disk, calls := Function.update s.calls path none }
  | _ => { s with disk := disk, calls := Function.update s.calls path (some w) }

def begin (hasParent : Bool) (s : Datadir) (path : String) (data : List UInt8) (suffix : Fin 0x10000) : Datadir :=
  { s with calls := Function.update s.calls path (some (AtomicWrite.start hasParent path data suffix)) }

/-- System calls of the call for a path until it has returned. -/
def proceeds (hasParent : Bool) (path : String) : Datadir → List CallResult → Datadir
  | s, [] => s
  | s, result :: results =>
    match s.calls path with
    | none => s
    | some w => proceeds hasParent path (s.proceed hasParent path w result) results

def IsTemp (path : String) : Prop := ∃ base suffix, path = tempPath base suffix

/-- Each file is written by one call at a time, and the process may be lost with the calls at any time. -/
inductive Step (hasParent : Bool) : Datadir → Datadir → Prop
  | call (s : Datadir) (path : String) (data : List UInt8) (suffix : Fin 0x10000) (hpath : ¬ IsTemp path)
      (hidle : s.calls path = none) :
      Step hasParent s (s.begin hasParent path data suffix)
  | proceed (s : Datadir) (path : String) (w : AtomicWrite) (result : CallResult)
      (hcall : s.calls path = some w) :
      Step hasParent s (s.proceed hasParent path w result)
  | crash (s : Datadir) (disk : Disk String) (hcrash : Disk.Crash s.disk disk) : Step hasParent s (boot disk)

end Datadir

end UnicityPow
