import UnicityPow.DirectoryLock

/-!
# One process holds a directory

The kernel's locks and what the processes keep agree as long as no process locks one file under two
paths, and then no two processes have the lock of one directory.
-/

namespace UnicityPow

namespace LockState

variable (file : String → FileId)

/-- No process locks one file under two paths. -/
def OneName (ops : List LockOp) : Prop :=
  ∀ p path path', (∃ op ∈ ops, op.Names p path) → (∃ op ∈ ops, op.Names p path') →
    file path = file path' → path = path'

/-- The kernel has a lock of a process exactly if the process keeps a path to the file. -/
structure Agrees (names : ProcessId → Set String) (s : LockState) : Prop where
  owner_iff : ∀ f p, s.owner f = some p ↔ ∃ path ∈ s.dirLocks p, file path = f
  named : ∀ p, ∀ path ∈ s.dirLocks p, path ∈ names p
  nodup : ∀ p, (s.dirLocks p).Nodup

section
variable {file} {names : ProcessId → Set String} {s : LockState} {p : ProcessId} {path : String}

theorem close_of_owner (h : s.owner (file path) ≠ some p) : s.close file p path = s := by
  unfold close
  congr 1
  funext f
  refine if_neg ?_
  rintro ⟨rfl, howner⟩
  exact h howner

/-- A path that is not kept leads to a file that the process has no lock on. -/
theorem Agrees.owner_ne (h : Agrees file names s) (hinj : Set.InjOn file (names p)) (hpath : path ∈ names p)
    (hnew : path ∉ s.dirLocks p) : s.owner (file path) ≠ some p := by
  intro howner
  obtain ⟨path', hmem, hfile⟩ := (h.owner_iff _ _).mp howner
  exact hnew (hinj (h.named p path' hmem) hpath hfile ▸ hmem)

theorem Agrees.lock (h : Agrees file names s) (hpath : path ∈ names p) (hnew : path ∉ s.dirLocks p)
    (hfree : s.owner (file path) = none) :
    Agrees file names { s with
      owner := Function.update s.owner (file path) (some p)
      dirLocks := Function.update s.dirLocks p (path :: s.dirLocks p) } where
  owner_iff f q := by
    -- nobody else keeps a path to the file
    have hnone : ∀ r, ∀ path' ∈ s.dirLocks r, file path' ≠ file path := fun r path' hmem hfile => by
      have howner := (h.owner_iff (file path) r).mpr ⟨path', hmem, hfile⟩
      rw [hfree] at howner
      cases howner
    by_cases hq : q = p
    · subst hq
      simp only [Function.update_self, List.mem_cons, exists_eq_or_imp]
      by_cases hf : f = file path
      · subst hf
        simp
      · rw [Function.update_of_ne hf, h.owner_iff, or_iff_right (Ne.symm hf)]
    · simp only [Function.update_of_ne hq]
      by_cases hf : f = file path
      · subst hf
        rw [Function.update_self]
        refine iff_of_false (fun heq => hq (Option.some.inj heq).symm) ?_
        rintro ⟨path', hmem, hfile⟩
        exact hnone q path' hmem hfile
      · rw [Function.update_of_ne hf, h.owner_iff]
  named q := by
    by_cases hq : q = p
    · subst hq
      simp only [Function.update_self]
      exact List.forall_mem_cons.mpr ⟨hpath, h.named q⟩
    · simp only [Function.update_of_ne hq]
      exact h.named q
  nodup q := by
    by_cases hq : q = p
    · subst hq
      simp only [Function.update_self]
      exact List.nodup_cons.mpr ⟨hnew, h.nodup q⟩
    · simp only [Function.update_of_ne hq]
      exact h.nodup q

/-- What a call of `LockDirectory` answers and leaves. -/
theorem Agrees.lockDirectory (h : Agrees file names s) (hinj : Set.InjOn file (names p)) (hpath : path ∈ names p)
    (probeOnly opens : Bool) :
    Agrees file names (s.lockDirectory file p path probeOnly opens).1 ∧
      ((s.lockDirectory file p path probeOnly opens).2 = .success ↔
        path ∈ s.dirLocks p ∨ opens = true ∧ s.owner (file path) = none) ∧
      ((s.lockDirectory file p path probeOnly opens).2 = .errorLock ↔
        opens = true ∧ ∃ q ≠ p, s.owner (file path) = some q) ∧
      (probeOnly = true → (s.lockDirectory file p path probeOnly opens).1 = s) := by
  unfold LockState.lockDirectory
  by_cases hmem : path ∈ s.dirLocks p
  · have howner := (h.owner_iff _ _).mpr ⟨path, hmem, rfl⟩
    rw [if_pos hmem]
    refine ⟨h, iff_of_true rfl (.inl hmem), iff_of_false (by simp) ?_, fun _ => rfl⟩
    rintro ⟨-, q, hq, hother⟩
    exact hq (Option.some.inj (hother.symm.trans howner))
  rw [if_neg hmem]
  cases opens with
  | false => simp [h, hmem]
  | true =>
    have hne := h.owner_ne hinj hpath hmem
    simp only [Bool.not_true, Bool.false_eq_true, if_false, true_and, hmem, false_or]
    unfold tryLock
    cases howner : s.owner (file path) with
    | some q =>
      have hq : q ≠ p := fun heq => hne (heq ▸ howner)
      dsimp only
      rw [if_neg hq]
      dsimp only
      rw [close_of_owner hne]
      exact ⟨h, iff_of_false (by simp) (by simp), iff_of_true rfl ⟨q, hq, rfl⟩, fun _ => rfl⟩
    | none =>
      dsimp only
      split
      · -- a probe gives back what it has taken
        have hsame : close file { s with owner := Function.update s.owner (file path) (some p) } p path = s := by
          obtain ⟨owner, dirLocks⟩ := s
          unfold close
          congr 1
          funext f
          by_cases hf : f = file path
          · subst hf
            simpa using howner.symm
          · simp [hf]
        rw [hsame]
        exact ⟨h, by simp, by simp, fun _ => rfl⟩
      · rename_i hprobe
        exact ⟨h.lock hpath hmem howner, by simp, by simp, fun htrue => absurd htrue hprobe⟩

theorem Agrees.unlockDirectory (h : Agrees file names s) (hinj : Set.InjOn file (names p)) :
    Agrees file names (s.unlockDirectory file p path) := by
  unfold LockState.unlockDirectory
  split
  swap
  · exact h
  rename_i hmem
  have howner := (h.owner_iff _ _).mpr ⟨path, hmem, rfl⟩
  refine ⟨fun f q => ?_, fun q path' hpath' => ?_, fun q => ?_⟩
  · unfold close
    dsimp only
    by_cases hf : f = file path
    · subst hf
      rw [if_pos ⟨rfl, howner⟩]
      refine iff_of_false (by simp) ?_
      rintro ⟨path', hmem', hfile⟩
      by_cases hq : q = p
      · subst hq
        rw [Function.update_self, (h.nodup q).mem_erase_iff] at hmem'
        exact hmem'.1 (hinj (h.named q path' hmem'.2) (h.named q path hmem) hfile)
      · rw [Function.update_of_ne hq] at hmem'
        have hother := (h.owner_iff _ _).mpr ⟨path', hmem', hfile⟩
        exact hq (Option.some.inj (hother.symm.trans howner))
    · rw [if_neg (fun hand => hf hand.1), h.owner_iff]
      by_cases hq : q = p
      · subst hq
        rw [Function.update_self]
        refine exists_congr fun path' => and_congr_left fun hfile => ?_
        rw [(h.nodup q).mem_erase_iff, and_iff_right]
        rintro rfl
        exact hf hfile.symm
      · rw [Function.update_of_ne hq]
  · dsimp only at hpath'
    by_cases hq : q = p
    · subst hq
      rw [Function.update_self] at hpath'
      exact h.named q path' (List.mem_of_mem_erase hpath')
    · rw [Function.update_of_ne hq] at hpath'
      exact h.named q path' hpath'
  · dsimp only
    by_cases hq : q = p
    · subst hq
      rw [Function.update_self]
      exact (h.nodup q).erase path
    · rw [Function.update_of_ne hq]
      exact h.nodup q

theorem Agrees.terminate (h : Agrees file names s) : Agrees file names (s.terminate p) := by
  unfold LockState.terminate
  refine ⟨fun f q => ?_, fun q path' hpath' => ?_, fun q => ?_⟩
  · dsimp only
    by_cases hq : q = p
    · subst hq
      rw [Function.update_self]
      refine iff_of_false (fun heq => ?_) (by simp)
      split at heq
      · cases heq
      · exact absurd heq ‹_›
    · rw [Function.update_of_ne hq, ← h.owner_iff]
      split
      · rename_i howner
        rw [howner]
        exact iff_of_false (by simp) (fun heq => hq (Option.some.inj heq).symm)
      · rfl
  · dsimp only at hpath'
    by_cases hq : q = p
    · subst hq
      rw [Function.update_self] at hpath'
      cases hpath'
    · rw [Function.update_of_ne hq] at hpath'
      exact h.named q path' hpath'
  · dsimp only
    by_cases hq : q = p
    · subst hq
      rw [Function.update_self]
      exact List.nodup_nil
    · rw [Function.update_of_ne hq]
      exact h.nodup q

theorem foldl_close (f : FileId) : ∀ (l : List String) (s : LockState),
    (l.foldl (fun s path => s.close file p path) s).owner f =
      if s.owner f = some p ∧ ∃ path ∈ l, file path = f then none else s.owner f
  | [], s => by simp
  | path :: l, s => by
    rw [List.foldl_cons, foldl_close f l]
    unfold close
    dsimp only
    by_cases howner : s.owner f = some p
    · by_cases hf : f = file path
      · simp [hf]
      · simp [howner, hf, Ne.symm hf]
    · simp [howner]

/-- Giving up all locks is for the locks what the end of the process is. -/
theorem Agrees.releaseAll_eq (h : Agrees file names s) : s.releaseAllDirectoryLocks file p = s.terminate p := by
  unfold releaseAllDirectoryLocks LockState.terminate
  dsimp only
  congr 1
  funext f
  rw [foldl_close]
  by_cases howner : s.owner f = some p
  · rw [if_pos ⟨howner, (h.owner_iff f p).mp howner⟩, if_pos howner]
  · rw [if_neg (fun hand => howner hand.1), if_neg howner]

theorem Agrees.step (h : Agrees file names s) (hinj : ∀ p, Set.InjOn file (names p)) (op : LockOp)
    (hop : ∀ p path, op.Names p path → path ∈ names p) : Agrees file names (s.step file op) := by
  cases op with
  | lockDirectory p path probeOnly opens =>
    exact (h.lockDirectory (hinj p) (hop p path ⟨rfl, rfl⟩) probeOnly opens).1
  | unlockDirectory p path => exact h.unlockDirectory (hinj p)
  | releaseAllDirectoryLocks p =>
    change Agrees file names (s.releaseAllDirectoryLocks file p)
    rw [h.releaseAll_eq]
    exact h.terminate
  | terminate p => exact h.terminate

theorem agrees_run (hinj : ∀ p, Set.InjOn file (names p)) (ops : List LockOp)
    (hops : ∀ op ∈ ops, ∀ p path, op.Names p path → path ∈ names p) : Agrees file names (run file ops) := by
  unfold run
  induction ops using List.reverseRecOn with
  | nil => exact ⟨fun f p => by simp, fun p path hpath => (by cases hpath), fun p => List.nodup_nil⟩
  | append_singleton ops op ih =>
    rw [List.foldl_append]
    exact (ih fun op' hop' => hops op' (List.mem_append_left _ hop')).step hinj op
      (hops op (List.mem_append_right _ (List.mem_singleton_self op)))

end

theorem oneName_of_path {file : String → FileId} {ops : List LockOp} (path : String)
    (h : ∀ op ∈ ops, ∀ p path', op.Names p path' → path' = path) : OneName file ops := by
  rintro p a b ⟨op, hop, ha⟩ ⟨op', hop', hb⟩ -
  rw [h op hop p a ha, h op' hop' p b hb]

/-- The first of two nodes on one data directory. -/
def firstNode : List LockOp := [.lockDirectory 1 "data/.lock" false true]

/-- Under two paths to one file a process loses its lock, and another one takes it. -/
example :
    let s := run (fun _ => 0)
      [.lockDirectory 1 "a" false true, .lockDirectory 1 "b" true true, .lockDirectory 2 "a" false true]
    s.dirLocks 1 = ["a"] ∧ s.dirLocks 2 = ["a"] := by
  decide

end LockState

end UnicityPow
