import UnicityPow.PeerManager

/-!
# The discouraged table

The table of the ban manager with the calls on it. `NetworkManager.discourage` is the call on the
table of a whole network layer.
-/

namespace UnicityPow

/-- The expiry by the normalized address. -/
abbrev DiscouragedTable := Std.ExtTreeMap String Int compare

namespace DiscouragedTable

def unexpired (now : Int) (d : DiscouragedTable) : DiscouragedTable := d.filter (fun _ expiry => decide (now < expiry))

/-- The upper bound, enforced before the insertion: a sweep, and then the eviction of one entry. -/
def makeRoom (now : Int) (d : DiscouragedTable) : DiscouragedTable :=
  let d := if MAX_DISCOURAGED ≤ d.size then d.unexpired now else d
  if MAX_DISCOURAGED ≤ d.size then
    (NetworkManager.earliestExpiry d.toList).elim d (fun victim => d.erase victim)
  else d

section
variable (normalize : String → Option String)

def discourage (now : Int) (d : DiscouragedTable) (address : String) : DiscouragedTable :=
  match normalize address with
  | none => d
  | some normalized => (d.makeRoom now).insert normalized (now + DISCOURAGE_DURATION_SEC)

def isDiscouraged (now : Int) (d : DiscouragedTable) (address : String) : Bool :=
  match (normalize address).bind (fun normalized => d[normalized]?) with
  | none => false
  | some expiry => decide (now < expiry)

end

def sweepDiscouraged (now : Int) (d : DiscouragedTable) : DiscouragedTable := d.unexpired now

def clearDiscouraged : DiscouragedTable := ∅

end DiscouragedTable

theorem NetworkManager.discourage_discouraged (env : NetEnv) (s : NetworkManager) (address : String) :
    (s.discourage env address).discouraged =
      DiscouragedTable.discourage env.validateAndNormalizeIP env.time s.discouraged address := by
  unfold NetworkManager.discourage DiscouragedTable.discourage
  cases env.validateAndNormalizeIP address <;> rfl

theorem NetworkManager.isDiscouraged_eq (env : NetEnv) (s : NetworkManager) (address : String) :
    s.isDiscouraged env address =
      DiscouragedTable.isDiscouraged env.validateAndNormalizeIP env.time s.discouraged address := rfl

/-! ## Runs -/

/-- A call; `now` is what its clock reads. -/
inductive DiscourageOp
  | discourage (now : Int) (address : String)
  | sweepDiscouraged (now : Int)
  | clearDiscouraged (now : Int)

namespace DiscourageOp

def now : DiscourageOp → Int
  | discourage now _ => now
  | sweepDiscouraged now => now
  | clearDiscouraged now => now

def isClear : DiscourageOp → Bool
  | clearDiscouraged _ => true
  | _ => false

end DiscourageOp

namespace DiscouragedTable

def step (normalize : String → Option String) (d : DiscouragedTable) : DiscourageOp → DiscouragedTable
  | .discourage now address => d.discourage normalize now address
  | .sweepDiscouraged now => d.sweepDiscouraged now
  | .clearDiscouraged _ => clearDiscouraged

def run (normalize : String → Option String) (l : List DiscourageOp) : DiscouragedTable := l.foldl (step normalize) ∅

/-- The clock never goes back. -/
def Clocked (l : List DiscourageOp) : Prop := l.Pairwise (fun a b => a.now ≤ b.now)

end DiscouragedTable

end UnicityPow
