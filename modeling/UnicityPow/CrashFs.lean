import Mathlib.Tactic

/-!
# A directory on a disk

What a process sees of a directory, and what a crash may leave of it. Changes of names wait until the
directory is synced: a crash keeps any of those that wait and drops the others, each as a whole. What was
written to a file since it was synced may be replaced by anything.
-/

namespace CrashFs

@[ext]
structure Inode where
  content : List UInt8
  synced : Bool

section
variable {Name : Type} [DecidableEq Name]

abbrev Dir (Name : Type) := Name → Option Nat

inductive DirOp (Name : Type)
  | link (name : Name) (ino : Nat)
  | unlink (name : Name)
  | rename (name new : Name) (ino : Nat)

def DirOp.apply (D : Dir Name) : DirOp Name → Dir Name
  | .link name ino => Function.update D name (some ino)
  | .unlink name => Function.update D name none
  | .rename name new ino => Function.update (Function.update D new (some ino)) name none

@[simp] theorem DirOp.apply_link (D : Dir Name) (name n : Name) (ino : Nat) :
    (DirOp.link name ino).apply D n = if n = name then some ino else D n := Function.update_apply ..

@[simp] theorem DirOp.apply_unlink (D : Dir Name) (name n : Name) :
    (DirOp.unlink name).apply D n = if n = name then none else D n := Function.update_apply ..

@[simp] theorem DirOp.apply_rename (D : Dir Name) (name new n : Name) (ino : Nat) :
    (DirOp.rename name new ino).apply D n = if n = name then none else if n = new then some ino else D n := by
  simp only [DirOp.apply, Function.update_apply]

structure Disk (Name : Type) where
  inode : Nat → Inode
  /-- The number of the next file that is created. -/
  next : Nat
  durable : Dir Name
  pending : List (DirOp Name)

namespace Disk

/-- What a process sees. -/
def names (d : Disk Name) : Dir Name := d.pending.foldl DirOp.apply d.durable

def read (d : Disk Name) (name : Name) : Option (List UInt8) := (d.names name).map fun i => (d.inode i).content

/-- What is found under a name in the given directory. -/
def found (d : Disk Name) (D : Dir Name) (name : Name) : Option Inode := (D name).map d.inode

/-! ## Calls -/

/-- Open for writing, with nothing in the file; the second component is the open file. -/
def openTrunc (d : Disk Name) (name : Name) : Disk Name × Nat :=
  match d.names name with
  | some i => ({ d with inode := Function.update d.inode i { content := [], synced := false } }, i)
  | none =>
    ({ d with
        inode := Function.update d.inode d.next { content := [], synced := false }
        next := d.next + 1
        pending := d.pending ++ [.link name d.next] }, d.next)

def append (d : Disk Name) (i : Nat) (data : List UInt8) : Disk Name :=
  { d with inode := Function.update d.inode i { content := (d.inode i).content ++ data, synced := false } }

def syncFile (d : Disk Name) (i : Nat) : Disk Name :=
  { d with inode := Function.update d.inode i { content := (d.inode i).content, synced := true } }

def syncDirectory (d : Disk Name) : Disk Name := { d with durable := d.names, pending := [] }

/-- `none` where there is no such file. -/
def rename (d : Disk Name) (name new : Name) : Option (Disk Name) :=
  (d.names name).map fun i => { d with pending := d.pending ++ [.rename name new i] }

def remove (d : Disk Name) (name : Name) : Disk Name :=
  match d.names name with
  | some _ => { d with pending := d.pending ++ [.unlink name] }
  | none => d

/-! ## Crashes -/

/-- The directory that a crash may leave. -/
def MayBe (d : Disk Name) (D : Dir Name) : Prop :=
  ∃ l : List (DirOp Name), l.Sublist d.pending ∧ D = l.foldl DirOp.apply d.durable

structure Crash (d d' : Disk Name) : Prop where
  durable : d.MayBe d'.durable
  pending : d'.pending = []
  next : d'.next = d.next
  synced : ∀ i, (d'.inode i).synced = true
  content : ∀ i, (d.inode i).synced = true → (d'.inode i).content = (d.inode i).content

theorem mayBe_names (d : Disk Name) : d.MayBe d.names := ⟨d.pending, List.Sublist.refl _, rfl⟩

theorem mayBe_of_pending_nil {d : Disk Name} (h : d.pending = []) {D : Dir Name} : d.MayBe D ↔ D = d.durable := by
  constructor
  · rintro ⟨l, hl, rfl⟩
    rw [h, List.sublist_nil] at hl
    rw [hl]
    rfl
  · rintro rfl
    exact ⟨[], List.nil_sublist _, rfl⟩

theorem names_of_pending_nil {d : Disk Name} (h : d.pending = []) : d.names = d.durable := by
  rw [names, h]
  rfl

/-- One more change waits: a crash may keep it or not. -/
theorem mayBe_snoc {d d' : Disk Name} {op : DirOp Name} (hdur : d'.durable = d.durable)
    (hpend : d'.pending = d.pending ++ [op]) {D : Dir Name} :
    d'.MayBe D ↔ d.MayBe D ∨ ∃ D₀, d.MayBe D₀ ∧ D = DirOp.apply D₀ op := by
  unfold MayBe
  rw [hdur, hpend]
  constructor
  · rintro ⟨l, hl, rfl⟩
    obtain ⟨l₁, l₂, rfl, h₁, h₂⟩ := List.sublist_append_iff.mp hl
    obtain rfl | rfl := List.sublist_singleton.mp h₂
    · exact Or.inl ⟨l₁, h₁, by rw [List.append_nil]⟩
    · exact Or.inr ⟨_, ⟨l₁, h₁, rfl⟩, by rw [List.foldl_append]; rfl⟩
  · rintro (⟨l, hl, rfl⟩ | ⟨_, ⟨l, hl, rfl⟩, rfl⟩)
    · exact ⟨l, hl.trans (List.sublist_append_left _ _), rfl⟩
    · exact ⟨l ++ [op], hl.append (List.Sublist.refl _), by rw [List.foldl_append]; rfl⟩

theorem names_snoc {d d' : Disk Name} {op : DirOp Name} (hdur : d'.durable = d.durable)
    (hpend : d'.pending = d.pending ++ [op]) : d'.names = DirOp.apply d.names op := by
  rw [names, hdur, hpend, List.foldl_append]
  rfl

/-! ## Files of their own -/

/-- Where the first directory has a file under a scratch name, the second has it under no other. -/
def Own (scratch : Name → Prop) (A B : Dir Name) : Prop :=
  ∀ t, scratch t → ∀ i, A t = some i → ∀ n, B n = some i → n = t

/-- The files of the scratch names are no one else's, now and after any crash. -/
structure Separate (scratch : Name → Prop) (d : Disk Name) : Prop where
  bound : ∀ D, d.MayBe D → ∀ n i, D n = some i → i < d.next
  own : ∀ D, d.MayBe D → Own scratch D D
  ownNow : ∀ D, d.MayBe D → Own scratch d.names D

section
variable {scratch : Name → Prop} {d d' : Disk Name}

/-- A file in use by another name is not the one of a scratch name. -/
theorem Separate.ne (h : Separate scratch d) {t : Name} (ht : scratch t) {i : Nat} (hi : d.names t = some i)
    {D : Dir Name} (hD : d.MayBe D) {n : Name} (hn : n ≠ t) {j : Nat} (hj : D n = some j) : j ≠ i := by
  rintro rfl
  exact hn (h.ownNow D hD t ht j hi n hj)

theorem mayBe_congr (hdur : d'.durable = d.durable) (hpend : d'.pending = d.pending) (D : Dir Name) :
    d'.MayBe D ↔ d.MayBe D := by
  unfold MayBe
  rw [hdur, hpend]

theorem names_congr (hdur : d'.durable = d.durable) (hpend : d'.pending = d.pending) : d'.names = d.names := by
  rw [names, names, hdur, hpend]

/-- What is in the files makes no difference. -/
theorem Separate.congr (h : Separate scratch d) (hdur : d'.durable = d.durable) (hpend : d'.pending = d.pending)
    (hnext : d'.next = d.next) : Separate scratch d' where
  bound D hD := by
    rw [hnext]
    exact h.bound D ((mayBe_congr hdur hpend D).mp hD)
  own D hD := h.own D ((mayBe_congr hdur hpend D).mp hD)
  ownNow D hD := by
    rw [names_congr hdur hpend]
    exact h.ownNow D ((mayBe_congr hdur hpend D).mp hD)

/-- One more change, from what it does to two directories. -/
theorem Separate.snoc {op : DirOp Name} (h : Separate scratch d) (hdur : d'.durable = d.durable)
    (hpend : d'.pending = d.pending ++ [op]) (hnext : d.next ≤ d'.next)
    (hbound : ∀ D, d.MayBe D → ∀ n i, op.apply D n = some i → i < d'.next)
    (hown : ∀ A B, d.MayBe A → d.MayBe B → Own scratch A B →
      Own scratch (op.apply A) (op.apply B) ∧ Own scratch (op.apply A) B) : Separate scratch d' where
  bound D hD n i hi := by
    obtain hD | ⟨D₀, hD₀, rfl⟩ := (mayBe_snoc hdur hpend).mp hD
    · exact (h.bound D hD n i hi).trans_le hnext
    · exact hbound D₀ hD₀ n i hi
  own D hD := by
    obtain hD | ⟨D₀, hD₀, rfl⟩ := (mayBe_snoc hdur hpend).mp hD
    · exact h.own D hD
    · exact (hown D₀ D₀ hD₀ hD₀ (h.own D₀ hD₀)).1
  ownNow D hD := by
    rw [names_snoc hdur hpend]
    obtain hD | ⟨D₀, hD₀, rfl⟩ := (mayBe_snoc hdur hpend).mp hD
    · exact (hown _ D d.mayBe_names hD (h.ownNow D hD)).2
    · exact (hown _ D₀ d.mayBe_names hD₀ (h.ownNow D₀ hD₀)).1

/-- A new file under a scratch name. -/
theorem Separate.link {t : Name} (h : Separate scratch d) (hdur : d'.durable = d.durable)
    (hpend : d'.pending = d.pending ++ [.link t d.next]) (hnext : d'.next = d.next + 1) :
    Separate scratch d' := by
  have hfresh : ∀ {D}, d.MayBe D → ∀ n, D n ≠ some d.next := fun hD n hn => (h.bound _ hD n _ hn).false
  refine h.snoc hdur hpend (by omega) ?_ ?_
  · intro D hD n i hi
    rw [DirOp.apply_link] at hi
    split at hi
    · cases hi
      omega
    · have hlt := h.bound D hD n i hi
      omega
  · intro A B hA hB hown
    constructor
    · intro t' ht' i hi n hn
      rw [DirOp.apply_link] at hi hn
      split at hi <;> split at hn
      case isTrue.isTrue ht hn' => rw [ht, hn']
      case isTrue.isFalse =>
        cases hi
        exact absurd hn (hfresh hB n)
      case isFalse.isTrue =>
        cases hn
        exact absurd hi (hfresh hA t')
      case isFalse.isFalse => exact hown t' ht' i hi n hn
    · intro t' ht' i hi n hn
      rw [DirOp.apply_link] at hi
      split at hi
      · cases hi
        exact absurd hn (hfresh hB n)
      · exact hown t' ht' i hi n hn

theorem Separate.unlink {t : Name} (h : Separate scratch d) (hdur : d'.durable = d.durable)
    (hpend : d'.pending = d.pending ++ [.unlink t]) (hnext : d'.next = d.next) : Separate scratch d' := by
  have hsub : ∀ {A : Dir Name} {n : Name} {i : Nat}, (DirOp.unlink t).apply A n = some i → A n = some i := by
    intro A n i hi
    rw [DirOp.apply_unlink] at hi
    split at hi
    · cases hi
    · exact hi
  refine h.snoc hdur hpend hnext.ge ?_ ?_
  · intro D hD n i hi
    rw [hnext]
    exact h.bound D hD n i (hsub hi)
  · intro A B hA hB hown
    exact ⟨fun t' ht' i hi n hn => hown t' ht' i (hsub hi) n (hsub hn), fun t' ht' i hi n hn =>
      hown t' ht' i (hsub hi) n hn⟩

/-- The file of a scratch name is given another name. -/
theorem Separate.rename {t new : Name} {i : Nat} (h : Separate scratch d) (hnew : ¬ scratch new)
    (hi : d.names t = some i) (ht : scratch t) (hdur : d'.durable = d.durable)
    (hpend : d'.pending = d.pending ++ [.rename t new i]) (hnext : d'.next = d.next) : Separate scratch d' := by
  have hold : ∀ {A : Dir Name} {t' : Name} {j : Nat}, scratch t' → (DirOp.rename t new i).apply A t' = some j →
      t' ≠ t ∧ A t' = some j := by
    intro A t' j ht' hj
    rw [DirOp.apply_rename] at hj
    split at hj
    case isTrue => cases hj
    case isFalse hne =>
      rw [if_neg (by rintro rfl; exact hnew ht')] at hj
      exact ⟨hne, hj⟩
  refine h.snoc hdur hpend hnext.ge ?_ ?_
  · intro D hD n j hj
    rw [hnext]
    rw [DirOp.apply_rename] at hj
    split at hj
    · cases hj
    · split at hj
      · cases hj
        exact h.bound _ d.mayBe_names t i hi
      · exact h.bound D hD n j hj
  · intro A B hA hB hown
    constructor
    · intro t' ht' j hj n hn
      obtain ⟨hne, hj⟩ := hold ht' hj
      rw [DirOp.apply_rename] at hn
      split at hn
      · cases hn
      · split at hn
        · cases hn
          -- the file of `t` is under no other name yet
          exact absurd (h.ownNow A hA t ht i hi t' hj) hne
        · exact hown t' ht' j hj n hn
    · exact fun t' ht' j hj n hn => hown t' ht' j (hold ht' hj).2 n hn

theorem Separate.syncDirectory (h : Separate scratch d) : Separate scratch d.syncDirectory where
  bound D hD := by
    rw [mayBe_of_pending_nil rfl] at hD
    rw [hD]
    exact h.bound _ d.mayBe_names
  own D hD := by
    rw [mayBe_of_pending_nil rfl] at hD
    rw [hD]
    exact h.own _ d.mayBe_names
  ownNow D hD := by
    rw [mayBe_of_pending_nil rfl] at hD
    rw [hD]
    exact h.own _ d.mayBe_names

theorem Separate.crash (h : Separate scratch d) (hc : Crash d d') : Separate scratch d' where
  bound D hD := by
    rw [mayBe_of_pending_nil hc.pending] at hD
    rw [hD, hc.next]
    exact h.bound _ hc.durable
  own D hD := by
    rw [mayBe_of_pending_nil hc.pending] at hD
    rw [hD]
    exact h.own _ hc.durable
  ownNow D hD := by
    rw [mayBe_of_pending_nil hc.pending] at hD
    rw [hD, names_of_pending_nil hc.pending]
    exact h.own _ hc.durable

/-- A directory in which nothing waits, and no file has two names. -/
structure Clean (d : Disk Name) : Prop where
  pending : d.pending = []
  bound : ∀ n i, d.durable n = some i → i < d.next
  synced : ∀ i, (d.inode i).synced = true
  injective : ∀ n m i, d.durable n = some i → d.durable m = some i → n = m

theorem Clean.separate (h : Clean d) : Separate scratch d where
  bound D hD := by
    rw [(mayBe_of_pending_nil h.pending).mp hD]
    exact h.bound
  own D hD := by
    rw [(mayBe_of_pending_nil h.pending).mp hD]
    exact fun t _ i hi n hn => h.injective n t i hn hi
  ownNow D hD := by
    rw [(mayBe_of_pending_nil h.pending).mp hD, names_of_pending_nil h.pending]
    exact fun t _ i hi n hn => h.injective n t i hn hi

/-! ## What the calls leave as it was -/

/-- Nothing but the file of one name has changed. -/
structure Only (t : Name) (d d' : Disk Name) : Prop where
  mayBe : ∀ D', d'.MayBe D' → ∃ D, d.MayBe D ∧ ∀ n ≠ t, D' n = D n
  names : ∀ n ≠ t, d'.names n = d.names n
  inode : ∀ j < d.next, d.names t ≠ some j → d'.inode j = d.inode j

theorem Only.found_eq {t n : Name} (ho : Only t d d') (h : Separate scratch d) (ht : scratch t) (hn : n ≠ t)
    {D D' : Dir Name} (hD : d.MayBe D) (heq : D' n = D n) : d'.found D' n = d.found D n := by
  unfold found
  rw [heq]
  cases hj : D n with
  | none => rfl
  | some j =>
    have hne : d.names t ≠ some j := fun hi => h.ne ht hi hD hn hj rfl
    exact congrArg some (ho.inode j (h.bound D hD n j hj) hne)

theorem Only.found_names {t n : Name} (ho : Only t d d') (h : Separate scratch d) (ht : scratch t) (hn : n ≠ t) :
    d'.found d'.names n = d.found d.names n :=
  ho.found_eq h ht hn d.mayBe_names (ho.names n hn)

theorem Only.found_mayBe {t : Name} (ho : Only t d d') (h : Separate scratch d) (ht : scratch t) {D' : Dir Name}
    (hD : d'.MayBe D') : ∃ D, d.MayBe D ∧ ∀ n ≠ t, d'.found D' n = d.found D n := by
  obtain ⟨D, hD, heq⟩ := ho.mayBe D' hD
  exact ⟨D, hD, fun n hn => ho.found_eq h ht hn hD (heq n hn)⟩

theorem only_of_dir_eq {t : Name} (hdur : d'.durable = d.durable) (hpend : d'.pending = d.pending)
    (hinode : ∀ j, d.names t ≠ some j → d'.inode j = d.inode j) : Only t d d' where
  mayBe D' hD := ⟨D', (mayBe_congr hdur hpend D').mp hD, fun _ _ => rfl⟩
  names n _ := congrFun (names_congr hdur hpend) n
  inode j _ := hinode j

theorem only_of_snoc {t : Name} {op : DirOp Name} (hdur : d'.durable = d.durable)
    (hpend : d'.pending = d.pending ++ [op]) (hop : ∀ D n, n ≠ t → op.apply D n = D n)
    (hinode : ∀ j < d.next, d.names t ≠ some j → d'.inode j = d.inode j) : Only t d d' where
  mayBe D' hD := by
    obtain hD | ⟨D, hD₀, rfl⟩ := (mayBe_snoc hdur hpend).mp hD
    · exact ⟨D', hD, fun _ _ => rfl⟩
    · exact ⟨D, hD₀, hop D⟩
  names n hn := by
    rw [names_snoc hdur hpend]
    exact hop _ n hn
  inode := hinode

theorem only_syncDirectory (t : Name) : Only t d d.syncDirectory where
  mayBe D' hD := by
    rw [mayBe_of_pending_nil rfl] at hD
    exact ⟨D', hD ▸ d.mayBe_names, fun _ _ => rfl⟩
  names _ _ := rfl
  inode _ _ _ := rfl

theorem separate_openTrunc {t : Name} (h : Separate scratch d) : Separate scratch (d.openTrunc t).1 := by
  unfold openTrunc
  split
  case h_1 => exact h.congr rfl rfl rfl
  case h_2 => exact h.link rfl rfl rfl

theorem only_openTrunc (t : Name) : Only t d (d.openTrunc t).1 := by
  unfold openTrunc
  split
  case h_1 i hi =>
    refine only_of_dir_eq rfl rfl fun j hj => Function.update_of_ne ?_ ..
    rintro rfl
    exact hj hi
  case h_2 =>
    refine only_of_snoc rfl rfl (fun D n hn => ?_) fun j hj _ => Function.update_of_ne hj.ne ..
    rw [DirOp.apply_link, if_neg hn]

theorem names_openTrunc (t : Name) : (d.openTrunc t).1.names t = some (d.openTrunc t).2 := by
  unfold openTrunc
  split
  case h_1 i hi => exact hi
  case h_2 =>
    have hlink : DirOp.apply d.names (.link t d.next) t = some d.next := by rw [DirOp.apply_link, if_pos rfl]
    refine Eq.trans (congrFun (names_snoc ?_ ?_) t) hlink
    · rfl
    · rfl

theorem inode_openTrunc (t : Name) :
    (d.openTrunc t).1.inode (d.openTrunc t).2 = { content := [], synced := false } := by
  unfold openTrunc
  split <;> exact Function.update_self ..

theorem only_append {t : Name} {i : Nat} (hi : d.names t = some i) (data : List UInt8) :
    Only t d (d.append i data) :=
  only_of_dir_eq rfl rfl fun _ hj => Function.update_of_ne (by rintro rfl; exact hj hi) ..

theorem only_syncFile {t : Name} {i : Nat} (hi : d.names t = some i) : Only t d (d.syncFile i) :=
  only_of_dir_eq rfl rfl fun _ hj => Function.update_of_ne (by rintro rfl; exact hj hi) ..

theorem separate_remove {t : Name} (h : Separate scratch d) : Separate scratch (d.remove t) := by
  unfold remove
  split
  case h_1 => exact h.unlink rfl rfl rfl
  case h_2 => exact h

theorem only_remove (t : Name) : Only t d (d.remove t) := by
  unfold remove
  split
  case h_1 =>
    refine only_of_snoc rfl rfl (fun D n hn => ?_) fun _ _ _ => rfl
    rw [DirOp.apply_unlink, if_neg hn]
  case h_2 => exact only_of_dir_eq rfl rfl fun _ _ => rfl

end

end Disk

end

end CrashFs
