import UnicityPow.Files

/-!
# Files survive crashes whole

Whatever calls are under way, fail or are cut off by a crash, each file is found with the whole content of
some call; and where directories are synced, at most the last completed call is lost.
-/

namespace UnicityPow

open CrashFs Datadir

theorem tempPath_inj {path path' : String} {suffix suffix' : Fin 0x10000}
    (h : tempPath path suffix = tempPath path' suffix') : path = path' := by
  have hlist := congrArg String.toList h
  simp only [tempPath, String.toList_append] at hlist
  have hlen : (".tmp.".toList ++ (randomSuffix suffix).toList).length =
      (".tmp.".toList ++ (randomSuffix suffix').toList).length := by
    simp [randomSuffix]
  exact String.toList_injective (List.append_inj' hlist hlen).1

namespace AtomicWrite

theorem temp_isTemp (w : AtomicWrite) : IsTemp w.temp := ⟨w.path, w.suffix, rfl⟩

/-- What a call has done to its temporary file by now. -/
def Ok (disk : Disk String) (w : AtomicWrite) : Prop :=
  match w.phase with
  | .writing fd total =>
    disk.names w.temp = some fd ∧ (disk.inode fd).content = w.data.take total ∧ total < w.data.length
  | .syncingFile fd => disk.names w.temp = some fd ∧ (disk.inode fd).content = w.data
  | .syncingDirectory | .renamingFile => disk.found disk.names w.temp = some { content := w.data, synced := true }
  | _ => True

/-- It has not returned. -/
def Running (w : AtomicWrite) : Prop :=
  match w.phase with
  | .returned _ | .threw => False
  | _ => True

section
variable {hasParent : Bool} {w : AtomicWrite} {disk : Disk String}

@[simp] theorem temp_loop (fd total : Nat) : (w.loop fd total).temp = w.temp := by
  unfold loop
  split <;> rfl

theorem ok_loop {fd total : Nat} (hfd : disk.names w.temp = some fd)
    (hcontent : (disk.inode fd).content = w.data.take total) : (w.loop fd total).Ok disk := by
  unfold loop
  split
  case isTrue h => exact ⟨hfd, hcontent, h⟩
  case isFalse h => exact ⟨hfd, by rw [hcontent, List.take_of_length_le (by omega)]⟩

/-- A call that has not just renamed its file has touched that file only. -/
structure Private (hasParent : Bool) (w w' : AtomicWrite) (disk disk' : Disk String) : Prop where
  path : w'.path = w.path
  separate : Disk.Separate IsTemp disk'
  only : Disk.Only w.temp disk disk'
  ok : w'.Ok disk'
  notTrue : w'.phase ≠ .returned true
  flushed : hasParent = true → w'.phase = .renamingFile → ∀ D, disk'.MayBe D → D = disk'.names

theorem private_of_phase (h : Disk.Separate IsTemp disk) {phase : WritePhase}
    (hok : AtomicWrite.Ok disk { w with phase := phase }) (htrue : phase ≠ .returned true) (hren : phase ≠ .renamingFile) :
    Private hasParent w { w with phase := phase } disk disk where
  path := rfl
  separate := h
  only := Disk.only_of_dir_eq rfl rfl fun _ _ => rfl
  ok := hok
  notTrue := htrue
  flushed _ hphase := absurd hphase hren

theorem private_loop {disk' : Disk String} (h : Disk.Separate IsTemp disk') (ho : Disk.Only w.temp disk disk')
    {fd total : Nat} (hfd : disk'.names w.temp = some fd)
    (hcontent : (disk'.inode fd).content = w.data.take total) :
    Private hasParent w (w.loop fd total) disk disk' := by
  have hok := ok_loop hfd hcontent
  unfold loop at hok ⊢
  split
  case isTrue hlt =>
    rw [if_pos hlt] at hok
    exact ⟨rfl, h, ho, hok, by simp, fun _ hphase => by simp at hphase⟩
  case isFalse hge =>
    rw [if_neg hge] at hok
    exact ⟨rfl, h, ho, hok, by simp, fun _ hphase => by simp at hphase⟩

theorem private_append (h : Disk.Separate IsTemp disk) {fd total n : Nat} (hphase : w.phase = .writing fd total)
    (hok : w.Ok disk) :
    Private hasParent w (w.loop fd (total + n)) disk (disk.append fd ((w.data.drop total).take n)) := by
  unfold Ok at hok
  rw [hphase] at hok
  obtain ⟨hfd, hcontent, -⟩ := hok
  have hsep : Disk.Separate IsTemp (disk.append fd ((w.data.drop total).take n)) := h.congr rfl rfl rfl
  refine private_loop hsep (Disk.only_append hfd _) hfd ?_
  unfold Disk.append
  dsimp only
  rw [Function.update_self, hcontent, List.take_add]

theorem private_synced (h : Disk.Separate IsTemp disk) {fd : Nat} (hphase : w.phase = .syncingFile fd)
    (hok : w.Ok disk) : Private hasParent w (w.synced hasParent) disk (disk.syncFile fd) := by
  unfold Ok at hok
  rw [hphase] at hok
  obtain ⟨hfd, hcontent⟩ := hok
  have hfound : (disk.syncFile fd).found (disk.syncFile fd).names w.temp =
      some { content := w.data, synced := true } := by
    have hnames : (disk.syncFile fd).names w.temp = some fd := hfd
    unfold Disk.found
    rw [hnames, Option.map_some]
    unfold Disk.syncFile
    dsimp only
    rw [Function.update_self, hcontent]
  have hsep : Disk.Separate IsTemp (disk.syncFile fd) := h.congr rfl rfl rfl
  unfold synced
  split
  case isTrue => exact ⟨rfl, hsep, Disk.only_syncFile hfd, hfound, by simp, fun _ hphase => by simp at hphase⟩
  case isFalse hparent => exact ⟨rfl, hsep, Disk.only_syncFile hfd, hfound, by simp, fun h => absurd h hparent⟩

theorem private_syncDirectory (h : Disk.Separate IsTemp disk) (hphase : w.phase = .syncingDirectory)
    (hok : w.Ok disk) : Private hasParent w { w with phase := .renamingFile } disk disk.syncDirectory where
  path := rfl
  separate := h.syncDirectory
  only := Disk.only_syncDirectory _
  ok := by
    unfold Ok at hok
    rw [hphase] at hok
    exact hok
  notTrue := by simp
  flushed _ _ D hD := (Disk.mayBe_of_pending_nil rfl).mp hD

/-- What a call has done after one system call. -/
theorem next_spec (h : Disk.Separate IsTemp disk) (hok : w.Ok disk) (hrun : w.Running) (result : CallResult) :
    Private hasParent w (w.next hasParent result disk).1 disk (w.next hasParent result disk).2 ∨
      w.phase = .renamingFile ∧ ∃ fd, disk.names w.temp = some fd ∧
        disk.inode fd = { content := w.data, synced := true } ∧
        w.next hasParent result disk =
          ({ w with phase := .returned true },
            { disk with pending := disk.pending ++ [.rename w.temp w.path fd] }) := by
  unfold next
  split
  case h_1 => exact Or.inl (private_of_phase h trivial (by simp) (by simp))
  case h_2 => exact Or.inl (private_of_phase h trivial (by simp) (by simp))
  case h_3 => exact Or.inl (private_of_phase h trivial (by simp) (by simp))
  case h_4 =>
    exact Or.inl (private_loop (Disk.separate_openTrunc h) (Disk.only_openTrunc _) (Disk.names_openTrunc _)
      (by rw [Disk.inode_openTrunc, List.take_zero]))
  case h_5 => exact Or.inl (private_of_phase h trivial (by simp) (by simp))
  case h_6 hphase =>
    left
    dsimp only
    split
    · exact private_of_phase h trivial (by simp) (by simp)
    · exact private_append h hphase hok
  case h_7 => exact Or.inl (private_of_phase h trivial (by simp) (by simp))
  case h_8 hphase => exact Or.inl (private_synced h hphase hok)
  case h_9 => exact Or.inl (private_of_phase h trivial (by simp) (by simp))
  case h_10 hphase => exact Or.inl (private_syncDirectory h hphase hok)
  case h_11 => exact Or.inl (private_of_phase h trivial (by simp) (by simp))
  case h_12 hphase =>
    right
    unfold Ok at hok
    rw [hphase] at hok
    obtain ⟨fd, hfd, hinode⟩ := Option.map_eq_some_iff.mp hok
    refine ⟨hphase, fd, hfd, hinode, ?_⟩
    unfold Disk.rename
    rw [hfd]
    rfl
  case h_13 => exact Or.inl (private_of_phase h trivial (by simp) (by simp))
  case h_14 =>
    exact Or.inl ⟨rfl, Disk.separate_remove h, Disk.only_remove _, trivial, by simp,
      fun _ hphase => by simp at hphase⟩
  case h_15 hphase =>
    unfold Running at hrun
    rw [hphase] at hrun
    exact hrun.elim
  case h_16 hphase =>
    unfold Running at hrun
    rw [hphase] at hrun
    exact hrun.elim

end

end AtomicWrite

namespace Datadir

/-- A content as it is found on the disk: nothing of it is in doubt. -/
def whole (content : Option (List UInt8)) : Option Inode :=
  content.map fun data => { content := data, synced := true }

/-- The contents that a crash may leave: the last two, or without syncs of the directory any. -/
def crashContents (hasParent : Bool) (contents : List (Option (List UInt8))) : List (Option (List UInt8)) :=
  if hasParent then contents.take 2 else contents

structure Inv (hasParent : Bool) (s : Datadir) : Prop where
  separate : Disk.Separate IsTemp s.disk
  calls : ∀ path w, s.calls path = some w → w.path = path ∧ ¬ IsTemp path ∧ w.Running ∧ w.Ok s.disk
  seen : ∀ path, ¬ IsTemp path → ∃ content, (s.contents path).head? = some content ∧
    s.disk.found s.disk.names path = whole content
  mayBe : ∀ D, s.disk.MayBe D → ∀ path, ¬ IsTemp path → ∃ content ∈ crashContents hasParent (s.contents path),
    s.disk.found D path = whole content
  /-- Between the sync of the directory and the rename a crash changes nothing. -/
  flushed : hasParent = true → ∀ path w, s.calls path = some w → w.phase = .renamingFile →
    ∀ D, s.disk.MayBe D → D path = s.disk.names path

/-- A call depends on its temporary file only. -/
theorem Ok_congr {w : AtomicWrite} {disk disk' : Disk String} (hok : w.Ok disk)
    (hnames : disk'.names w.temp = disk.names w.temp)
    (hinode : ∀ fd, disk.names w.temp = some fd → disk'.inode fd = disk.inode fd) : w.Ok disk' := by
  have hfound : disk'.found disk'.names w.temp = disk.found disk.names w.temp := by
    unfold Disk.found
    rw [hnames]
    cases hfd : disk.names w.temp with
    | none => rfl
    | some fd => exact congrArg some (hinode fd hfd)
  unfold AtomicWrite.Ok at hok ⊢
  generalize w.phase = phase at hok ⊢
  cases phase with
  | writing fd total => exact ⟨hnames.trans hok.1, by rw [hinode fd hok.1]; exact hok.2⟩
  | syncingFile fd => exact ⟨hnames.trans hok.1, by rw [hinode fd hok.1]; exact hok.2⟩
  | syncingDirectory => exact hfound.trans hok
  | renamingFile => exact hfound.trans hok
  | _ => trivial

theorem Ok_of_only {w : AtomicWrite} {t : String} {disk disk' : Disk String} (hok : w.Ok disk)
    (h : Disk.Separate IsTemp disk) (ho : Disk.Only t disk disk') (ht : IsTemp t) (hne : w.temp ≠ t) : w.Ok disk' :=
  Ok_congr hok (ho.names _ hne) fun fd hfd => ho.inode fd (h.bound _ disk.mayBe_names _ _ hfd) fun hfd' =>
    h.ne ht hfd' disk.mayBe_names hne hfd rfl

section
variable {hasParent : Bool} {s : Datadir}

theorem ne_temp {path : String} (hpath : ¬ IsTemp path) (w : AtomicWrite) : path ≠ w.temp := by
  rintro rfl
  exact hpath w.temp_isTemp

theorem temp_ne {w v : AtomicWrite} (h : w.path ≠ v.path) : w.temp ≠ v.temp := fun ht => h (tempPath_inj ht)

theorem update_some {calls : String → Option AtomicWrite} {path q : String} {w v : AtomicWrite}
    (h : Function.update calls path (some w) q = some v) : q = path ∧ v = w ∨ q ≠ path ∧ calls q = some v := by
  obtain rfl | hq := eq_or_ne q path
  · rw [Function.update_self] at h
    exact Or.inl ⟨rfl, (Option.some.inj h).symm⟩
  · exact Or.inr ⟨hq, (Function.update_of_ne hq ..).symm.trans h⟩

theorem update_none {calls : String → Option AtomicWrite} {path q : String} {v : AtomicWrite}
    (h : Function.update calls path none q = some v) : q ≠ path ∧ calls q = some v := by
  obtain rfl | hq := eq_or_ne q path
  · simp at h
  · exact ⟨hq, (Function.update_of_ne hq ..).symm.trans h⟩

/-- A call that has touched its temporary file only. -/
theorem Inv.of_private (h : Inv hasParent s) {path : String} {w w' : AtomicWrite} {disk' : Disk String}
    (hcall : s.calls path = some w) (hp : AtomicWrite.Private hasParent w w' s.disk disk')
    {calls' : String → Option AtomicWrite} (hcalls : ∀ q v, calls' q = some v →
      q = path ∧ v = w' ∧ w'.Running ∨ q ≠ path ∧ s.calls q = some v) :
    Inv hasParent { s with disk := disk', calls := calls' } where
  separate := hp.separate
  calls q v hv := by
    obtain ⟨hwpath, hpath, -, -⟩ := h.calls path w hcall
    obtain ⟨rfl, rfl, hrun⟩ | ⟨hq, hv⟩ := hcalls q v hv
    · exact ⟨hp.path.trans hwpath, hpath, hrun, hp.ok⟩
    · obtain ⟨hvpath, hqtemp, hrun, hok⟩ := h.calls q v hv
      exact ⟨hvpath, hqtemp, hrun,
        Ok_of_only hok h.separate hp.only w.temp_isTemp (temp_ne (by rwa [hvpath, hwpath]))⟩
  seen q hq := by
    obtain ⟨content, hhead, hfound⟩ := h.seen q hq
    refine ⟨content, hhead, ?_⟩
    rw [hp.only.found_names h.separate w.temp_isTemp (ne_temp hq w)]
    exact hfound
  mayBe D' hD' q hq := by
    obtain ⟨D, hD, hfound⟩ := hp.only.found_mayBe h.separate w.temp_isTemp hD'
    obtain ⟨content, hmem, hcontent⟩ := h.mayBe D hD q hq
    exact ⟨content, hmem, (hfound q (ne_temp hq w)).trans hcontent⟩
  flushed hparent q v hv hphase D' hD' := by
    obtain ⟨rfl, rfl, -⟩ | ⟨hq, hv⟩ := hcalls q v hv
    · rw [hp.flushed hparent hphase D' hD']
    · obtain ⟨D, hD, heq⟩ := hp.only.mayBe D' hD'
      have hqtemp := ne_temp (h.calls q v hv).2.1 w
      rw [heq q hqtemp, hp.only.names q hqtemp]
      exact h.flushed hparent q v hv hphase D hD

theorem head_mem_crashContents {content : Option (List UInt8)} {l : List (Option (List UInt8))} :
    content ∈ crashContents hasParent (content :: l) := by
  unfold crashContents
  split <;> simp

/-- Where the rename is lost, the file is as it was before. -/
theorem Inv.old_mem_crashContents (h : Inv hasParent s) {path : String} {w : AtomicWrite}
    (hcall : s.calls path = some w) (hphase : w.phase = .renamingFile) {D : Dir String} (hD : s.disk.MayBe D) :
    ∃ content ∈ crashContents hasParent (some w.data :: s.contents path),
      s.disk.found D path = whole content := by
  have hpath := (h.calls path w hcall).2.1
  cases hparent : hasParent with
  | true =>
    obtain ⟨content, hhead, hfound⟩ := h.seen path hpath
    obtain ⟨rest, hrest⟩ := List.head?_eq_some_iff.mp hhead
    refine ⟨content, ?_, ?_⟩
    · rw [crashContents, if_pos rfl, hrest]
      simp
    · rw [Disk.found, h.flushed hparent path w hcall hphase D hD]
      exact hfound
  | false =>
    obtain ⟨content, hmem, hfound⟩ := h.mayBe D hD path hpath
    rw [hparent] at hmem
    exact ⟨content, List.mem_cons_of_mem _ hmem, hfound⟩

/-- The rename: all at once the file is the new one. -/
theorem Inv.of_rename (h : Inv hasParent s) {path : String} {w : AtomicWrite} (hcall : s.calls path = some w)
    (hphase : w.phase = .renamingFile) {fd : Nat} (hfd : s.disk.names w.temp = some fd)
    (hinode : s.disk.inode fd = { content := w.data, synced := true }) :
    Inv hasParent
      { disk := { s.disk with pending := s.disk.pending ++ [.rename w.temp w.path fd] }
        calls := Function.update s.calls path none
        contents := Function.update s.contents path (some w.data :: s.contents path) } := by
  obtain ⟨hwpath, hpath, -, -⟩ := h.calls path w hcall
  obtain ⟨disk', hdisk'⟩ : ∃ disk' : Disk String, disk' =
      { s.disk with pending := s.disk.pending ++ [DirOp.rename w.temp w.path fd] } := ⟨_, rfl⟩
  have hdur : disk'.durable = s.disk.durable := by rw [hdisk']
  have hpend : disk'.pending = s.disk.pending ++ [.rename w.temp w.path fd] := by rw [hdisk']
  have hino : disk'.inode = s.disk.inode := by rw [hdisk']
  have hfound : ∀ D q, disk'.found D q = s.disk.found D q := fun D q => by rw [Disk.found, Disk.found, hino]
  have hnames := Disk.names_snoc hdur hpend
  have happly : ∀ D q, q ≠ path → q ≠ w.temp → DirOp.apply D (.rename w.temp w.path fd) q = D q := by
    intro D q hq hqt
    rw [DirOp.apply_rename, if_neg hqt, if_neg (by rwa [hwpath])]
  have hnew : ∀ D, s.disk.found (DirOp.apply D (.rename w.temp w.path fd)) path = whole (some w.data) := by
    intro D
    unfold Disk.found
    rw [DirOp.apply_rename, if_neg (ne_temp hpath w), if_pos hwpath.symm, Option.map_some, hinode]
    rfl
  rw [← hdisk']
  constructor
  · refine h.separate.rename ?_ hfd w.temp_isTemp hdur hpend (by rw [hdisk'])
    rwa [hwpath]
  · intro q v hv
    obtain ⟨hq, hv⟩ := update_none hv
    obtain ⟨hvpath, hqtemp, hrun, hok⟩ := h.calls q v hv
    refine ⟨hvpath, hqtemp, hrun, Ok_congr hok ?_ fun _ _ => by rw [hino]⟩
    rw [hnames]
    exact happly _ _ (ne_temp hpath v).symm (temp_ne (by rwa [hvpath, hwpath]))
  · intro q hq
    dsimp only
    rw [hfound, hnames]
    by_cases hqp : q = path
    · rw [hqp, Function.update_self]
      exact ⟨some w.data, rfl, hnew _⟩
    · rw [Function.update_of_ne hqp, Disk.found, happly _ _ hqp (ne_temp hq w)]
      exact h.seen q hq
  · intro D' hD' q hq
    dsimp only
    rw [hfound]
    by_cases hqp : q = path
    · rw [hqp, Function.update_self]
      obtain hD | ⟨D, hD, rfl⟩ := (Disk.mayBe_snoc hdur hpend).mp hD'
      · exact h.old_mem_crashContents hcall hphase hD
      · exact ⟨some w.data, head_mem_crashContents, hnew D⟩
    · rw [Function.update_of_ne hqp]
      obtain hD | ⟨D, hD, rfl⟩ := (Disk.mayBe_snoc hdur hpend).mp hD'
      · exact h.mayBe D' hD q hq
      · rw [Disk.found, happly _ _ hqp (ne_temp hq w)]
        exact h.mayBe D hD q hq
  · intro hparent q v hv hvphase D' hD'
    obtain ⟨hqp, hv⟩ := update_none hv
    have hqt := ne_temp (h.calls q v hv).2.1 w
    dsimp only
    rw [hnames, happly _ _ hqp hqt]
    obtain hD | ⟨D, hD, rfl⟩ := (Disk.mayBe_snoc hdur hpend).mp hD'
    · exact h.flushed hparent q v hv hvphase D' hD
    · rw [happly _ _ hqp hqt]
      exact h.flushed hparent q v hv hvphase D hD

theorem inv_boot {disk : Disk String} (h : Disk.Separate IsTemp disk) (hpending : disk.pending = [])
    (hsynced : ∀ i, (disk.inode i).synced = true) : Inv hasParent (boot disk) := by
  have hwhole : ∀ path, disk.found disk.names path = whole (disk.read path) := by
    intro path
    unfold Disk.found Disk.read
    cases disk.names path with
    | none => rfl
    | some i => exact congrArg some (congrArg (Inode.mk _) (hsynced i))
  constructor
  · exact h
  · intro path w hw
    cases hw
  · exact fun path _ => ⟨_, rfl, hwhole path⟩
  · intro D (hD : disk.MayBe D) path _
    rw [Disk.mayBe_of_pending_nil hpending, ← Disk.names_of_pending_nil hpending] at hD
    rw [hD]
    exact ⟨_, head_mem_crashContents, hwhole path⟩
  · intro _ path w hw
    cases hw

theorem Inv.of_call (h : Inv hasParent s) {path : String} {data : List UInt8} {suffix : Fin 0x10000}
    (hpath : ¬ IsTemp path) (hidle : s.calls path = none) :
    Inv hasParent (s.begin hasParent path data suffix) where
  separate := h.separate
  calls q w hw := by
    obtain ⟨rfl, rfl⟩ | ⟨-, hw⟩ := update_some hw
    · refine ⟨rfl, hpath, ?_⟩
      cases hasParent <;> exact ⟨trivial, trivial⟩
    · exact h.calls q w hw
  seen := h.seen
  mayBe := h.mayBe
  flushed hparent q w hw hphase := by
    obtain ⟨-, rfl⟩ | ⟨-, hw⟩ := update_some hw
    · cases hasParent <;> cases hphase
    · exact h.flushed hparent q w hw hphase

theorem Inv.of_proceed (h : Inv hasParent s) {path : String} {w : AtomicWrite} (hcall : s.calls path = some w)
    (result : CallResult) : Inv hasParent (s.proceed hasParent path w result) := by
  obtain ⟨-, -, hrun, hok⟩ := h.calls path w hcall
  unfold proceed
  obtain hp | ⟨hphase, fd, hfd, hinode, heq⟩ := AtomicWrite.next_spec h.separate hok hrun result
  · generalize w.next hasParent result s.disk = next at hp ⊢
    obtain ⟨w', disk'⟩ := next
    dsimp only at hp ⊢
    split
    case h_1 htrue => exact absurd htrue hp.notTrue
    case h_2 => exact h.of_private hcall hp fun q v hv => Or.inr (update_none hv)
    case h_3 => exact h.of_private hcall hp fun q v hv => Or.inr (update_none hv)
    case h_4 htrue hfalse hthrew =>
      have hrun' : w'.Running := by
        unfold AtomicWrite.Running
        split
        case h_1 ok hok =>
          cases ok with
          | true => exact htrue hok
          | false => exact hfalse hok
        case h_2 hphase => exact hthrew hphase
        case h_3 => trivial
      exact h.of_private hcall hp fun q v hv => (update_some hv).imp_left fun h => ⟨h.1, h.2, hrun'⟩
  · rw [heq]
    exact h.of_rename hcall hphase hfd hinode

theorem Inv.step {s' : Datadir} (h : Inv hasParent s) (hstep : Step hasParent s s') : Inv hasParent s' := by
  cases hstep with
  | call path data suffix hpath hidle => exact h.of_call hpath hidle
  | proceed path w result hcall => exact h.of_proceed hcall result
  | crash disk hcrash => exact inv_boot (h.separate.crash hcrash) hcrash.pending hcrash.synced

theorem Inv.run {disk : Disk String} (h : Disk.Clean disk)
    (hrun : Relation.ReflTransGen (Step hasParent) (boot disk) s) : Inv hasParent s := by
  induction hrun with
  | refl => exact inv_boot h.separate h.pending h.synced
  | tail _ hstep ih => exact ih.step hstep

theorem read_of_found {disk : Disk String} {path : String} {content : Option (List UInt8)}
    (h : disk.found disk.names path = whole content) : disk.read path = content := by
  unfold Disk.read
  unfold Disk.found at h
  cases hi : disk.names path with
  | none =>
    rw [hi] at h
    exact (Option.map_eq_none_iff.mp h.symm).symm
  | some i =>
    rw [hi] at h
    obtain ⟨data, rfl, hdata⟩ := Option.map_eq_some_iff.mp h.symm
    rw [Option.map_some, ← hdata]

/-- What is whole is found again. -/
theorem read_of_crash {disk disk' : Disk String} (hc : Disk.Crash disk disk') {path : String}
    {content : Option (List UInt8)} (h : disk.found disk'.durable path = whole content) :
    disk'.read path = content := by
  refine read_of_found ?_
  rw [Disk.names_of_pending_nil hc.pending, ← h]
  unfold Disk.found at h ⊢
  cases hi : disk'.durable path with
  | none => rfl
  | some i =>
    rw [hi] at h
    obtain ⟨data, -, hdata⟩ := Option.map_eq_some_iff.mp h.symm
    have hsynced : (disk.inode i).synced = true := by rw [← hdata]
    exact congrArg some (Inode.ext (hc.content i hsynced) ((hc.synced i).trans hsynced.symm))

end

theorem step_proceeds {hasParent : Bool} {path : String} (results : List CallResult) (s : Datadir) :
    Relation.ReflTransGen (Step hasParent) s (proceeds hasParent path s results) := by
  induction results generalizing s with
  | nil => exact .refl
  | cons result results ih =>
    unfold proceeds
    cases hcall : s.calls path with
    | none => exact .refl
    | some w => exact .head (.proceed s path w result hcall) (ih _)

/-! ## Examples of runs -/

/-- A name that does not end as a temporary file's does. -/
theorem not_isTemp {path : String} (h : (path.toList.drop (path.length - 9)).take 5 ≠ ".tmp.".toList) :
    ¬ IsTemp path := by
  rintro ⟨base, suffix, rfl⟩
  apply h
  have hdot : ".tmp.".length = 5 := by decide
  have hlen : (tempPath base suffix).length - 9 = base.toList.length := by
    simp [tempPath, randomSuffix, hdot, String.length_toList]
  rw [hlen, tempPath, String.toList_append, String.toList_append, List.drop_left, List.take_left']
  rfl

def emptyDisk : Disk String where
  inode _ := { content := [], synced := true }
  next := 0
  durable _ := none
  pending := []

theorem clean_empty : Disk.Clean emptyDisk where
  pending := rfl
  bound _ _ h := by cases h
  synced _ := rfl
  injective _ _ _ h := by cases h

/-- Three bytes have been written to the list of bans and synced, and the directory is next. -/
def writtenBans : Datadir :=
  proceeds true "bans.json" ((boot emptyDisk).begin true "bans.json" [1, 2, 3] ⟨0xbeef, by decide⟩)
    [.returns 1, .returns 1, .returns 2, .returns 5, .returns 1]

theorem run_writtenBans : Relation.ReflTransGen (Step true) (boot emptyDisk) writtenBans :=
  .head (.call _ _ _ _ (not_isTemp (by decide)) rfl) (step_proceeds _ _)

/-- In every run a file reads as what the last completed call wrote, and after a crash as what one of the
last two did, whatever other calls have done by then and whichever have failed. Without syncs of the
directory it may be an older one, but it is the whole of it. -/
theorem read_after_crash {hasParent : Bool} {disk : Disk String} (h : Disk.Clean disk) {s : Datadir}
    (hrun : Relation.ReflTransGen (Step hasParent) (boot disk) s) :
    (∀ path, ¬ IsTemp path → (s.contents path).head? = some (s.disk.read path)) ∧
      ∀ disk', Disk.Crash s.disk disk' → ∀ path, ¬ IsTemp path →
        disk'.read path ∈ crashContents hasParent (s.contents path) := by
  have hinv : Inv hasParent s := Inv.run h hrun
  constructor
  · intro path hpath
    obtain ⟨content, hhead, hfound⟩ := hinv.seen path hpath
    rw [hhead, read_of_found hfound]
  · intro disk' hc path hpath
    obtain ⟨content, hmem, hfound⟩ := hinv.mayBe _ hc.durable path hpath
    rwa [read_of_crash hc hfound]

theorem read_after_crash_bans :
    (∀ path, ¬ IsTemp path → (writtenBans.contents path).head? = some (writtenBans.disk.read path)) ∧
      ∀ disk', Disk.Crash writtenBans.disk disk' → ∀ path, ¬ IsTemp path →
        disk'.read path ∈ crashContents true (writtenBans.contents path) :=
  read_after_crash clean_empty run_writtenBans

theorem proceed_renamingFile {hasParent : Bool} {s : Datadir} {path : String} {w : AtomicWrite}
    (hphase : w.phase = .renamingFile) (hok : w.Ok s.disk) (n : Nat) :
    ∃ fd, s.proceed hasParent path w (.returns n) =
      { disk := { s.disk with pending := s.disk.pending ++ [.rename w.temp w.path fd] }
        calls := Function.update s.calls path none
        contents := Function.update s.contents path (some w.data :: s.contents path) } := by
  unfold AtomicWrite.Ok at hok
  rw [hphase] at hok
  obtain ⟨fd, hfd, -⟩ := Option.map_eq_some_iff.mp hok
  refine ⟨fd, ?_⟩
  unfold proceed AtomicWrite.next
  rw [hphase]
  dsimp only [Disk.rename]
  rw [hfd]
  rfl

theorem proceed_syncingDirectory {hasParent : Bool} {s : Datadir} {path : String} {w : AtomicWrite}
    (hphase : w.phase = .syncingDirectory) (n : Nat) :
    s.proceed hasParent path w (.returns n) =
      { s with
        disk := s.disk.syncDirectory
        calls := Function.update s.calls path (some { w with phase := .renamingFile }) } := by
  unfold proceed AtomicWrite.next
  rw [hphase]

/-- The call that returns true has not made its file durable: a crash may leave the old one until the
directory is synced, by a later call for whichever file. -/
theorem durable_after_next_sync {hasParent : Bool} {disk : Disk String} (h : Disk.Clean disk) {s : Datadir}
    (hrun : Relation.ReflTransGen (Step hasParent) (boot disk) s) {path : String} {w : AtomicWrite}
    (hcall : s.calls path = some w) (n : Nat) :
    (w.phase = .renamingFile →
      (s.proceed hasParent path w (.returns n)).disk.read path = some w.data ∧
        ∃ disk', Disk.Crash (s.proceed hasParent path w (.returns n)).disk disk' ∧
          disk'.read path = s.disk.read path) ∧
      (w.phase = .syncingDirectory → ∀ disk', Disk.Crash (s.proceed hasParent path w (.returns n)).disk disk' →
        ∀ q, ¬ IsTemp q → disk'.read q = s.disk.read q) := by
  have hinv : Inv hasParent s := Inv.run h hrun
  obtain ⟨hwpath, hpath, -, hok⟩ := hinv.calls path w hcall
  have hinv' := hinv.of_proceed hcall (.returns n)
  constructor
  · intro hphase
    obtain ⟨fd, heq⟩ := proceed_renamingFile hphase hok n
    obtain ⟨content, hhead, hfound⟩ := hinv'.seen path hpath
    rw [heq] at hhead hfound ⊢
    dsimp only at hhead hfound ⊢
    rw [Function.update_self] at hhead
    constructor
    · rw [read_of_found hfound, ← Option.some.inj hhead]
    · -- the crash that drops the rename
      refine ⟨{ s.disk with
          inode := fun i => { content := (s.disk.inode i).content, synced := true }
          durable := s.disk.names
          pending := [] }, ⟨?_, rfl, rfl, fun _ => rfl, fun _ _ => rfl⟩, rfl⟩
      obtain ⟨l, hl, hnames⟩ := s.disk.mayBe_names
      exact ⟨l, hl.trans (List.sublist_append_left _ _), hnames⟩
  · intro hphase disk' hc q hq
    obtain ⟨content, hhead, hfound⟩ := hinv'.seen q hq
    obtain ⟨content', hhead', hfound'⟩ := hinv.seen q hq
    rw [proceed_syncingDirectory hphase] at hc hhead hfound
    have hdur : disk'.durable = s.disk.syncDirectory.names := (Disk.mayBe_of_pending_nil rfl).mp hc.durable
    have hsame : content' = content := Option.some.inj (hhead'.symm.trans hhead)
    rw [read_of_found hfound', hsame]
    refine read_of_crash hc ?_
    rw [hdur]
    exact hfound

/-- The call that `writtenBans` is at. -/
def bansWrite : AtomicWrite where
  path := "bans.json"
  data := [1, 2, 3]
  suffix := ⟨0xbeef, by decide⟩
  phase := .syncingDirectory

theorem durable_after_next_sync_bans :
    (bansWrite.phase = .renamingFile →
      (writtenBans.proceed true "bans.json" bansWrite (.returns 1)).disk.read "bans.json" = some bansWrite.data ∧
        ∃ disk', Disk.Crash (writtenBans.proceed true "bans.json" bansWrite (.returns 1)).disk disk' ∧
          disk'.read "bans.json" = writtenBans.disk.read "bans.json") ∧
      (bansWrite.phase = .syncingDirectory →
        ∀ disk', Disk.Crash (writtenBans.proceed true "bans.json" bansWrite (.returns 1)).disk disk' →
          ∀ q, ¬ IsTemp q → disk'.read q = writtenBans.disk.read q) :=
  durable_after_next_sync clean_empty run_writtenBans rfl 1

end Datadir

/-! ## Calls that succeed -/

/-- The system calls that are left to a call, at most. -/
def AtomicWrite.rank (w : AtomicWrite) : Nat :=
  match w.phase with
  | .creatingDirectory => w.data.length + 5
  | .opening => w.data.length + 4
  | .writing _ total => w.data.length - total + 3
  | .syncingFile _ => 3
  | .syncingDirectory => 2
  | .renamingFile => 1
  | _ => 0

theorem AtomicWrite.rank_loop (w : AtomicWrite) (fd total : Nat) :
    0 < (w.loop fd total).rank ∧ (w.loop fd total).rank ≤ w.data.length - total + 3 ∧
      (w.loop fd total).data = w.data := by
  unfold loop
  split
  · exact ⟨Nat.succ_pos _, le_rfl, rfl⟩
  · exact ⟨Nat.succ_pos _, Nat.le_add_left _ _, rfl⟩

theorem AtomicWrite.next_rank {hasParent : Bool} {w : AtomicWrite} {disk : Disk String} (hok : w.Ok disk)
    (hrank : 0 < w.rank) (n : Nat) :
    (w.next hasParent (.returns (n + 1)) disk).1.data = w.data ∧
      ((w.next hasParent (.returns (n + 1)) disk).1.phase = .returned true ∨
        0 < (w.next hasParent (.returns (n + 1)) disk).1.rank ∧
          (w.next hasParent (.returns (n + 1)) disk).1.rank < w.rank) := by
  unfold Ok at hok
  unfold rank at hrank
  unfold next
  cases hphase : w.phase with
  | creatingDirectory =>
    refine ⟨rfl, Or.inr ?_⟩
    simp [rank, hphase]
  | opening =>
    obtain ⟨hpos, hle, hdata⟩ := w.rank_loop (disk.openTrunc w.temp).2 0
    have hleft : w.rank = w.data.length + 4 := by rw [rank, hphase]
    exact ⟨hdata, Or.inr ⟨hpos, hle.trans_lt (by omega)⟩⟩
  | writing fd total =>
    rw [hphase] at hok
    have hlt := hok.2.2
    have hn : min (n + 1) (w.data.length - total) ≠ 0 := by omega
    obtain ⟨hpos, hle, hdata⟩ := w.rank_loop fd (total + min (n + 1) (w.data.length - total))
    have hleft : w.rank = w.data.length - total + 3 := by rw [rank, hphase]
    dsimp only
    rw [if_neg hn]
    exact ⟨hdata, Or.inr ⟨hpos, hle.trans_lt (by omega)⟩⟩
  | syncingFile fd =>
    unfold synced
    cases hasParent <;> exact ⟨rfl, Or.inr (by simp [rank, hphase])⟩
  | syncingDirectory => exact ⟨rfl, Or.inr (by simp [rank, hphase])⟩
  | renamingFile =>
    rw [hphase] at hok
    obtain ⟨fd, hfd, -⟩ := Option.map_eq_some_iff.mp hok
    dsimp only [Disk.rename]
    rw [hfd]
    exact ⟨rfl, Or.inl rfl⟩
  | removing => simp [hphase] at hrank
  | returned ok => simp [hphase] at hrank
  | threw => simp [hphase] at hrank

namespace Datadir

section
variable {hasParent : Bool} {s : Datadir} {path : String} {w : AtomicWrite}

theorem proceed_true (path : String) {result : CallResult}
    (h : (w.next hasParent result s.disk).1.phase = .returned true) :
    (s.proceed hasParent path w result).calls path = none ∧
      (s.proceed hasParent path w result).contents path =
        some (w.next hasParent result s.disk).1.data :: s.contents path := by
  unfold proceed
  dsimp only
  rw [h]
  exact ⟨Function.update_self .., Function.update_self ..⟩

theorem proceed_more (path : String) {result : CallResult} (h : 0 < (w.next hasParent result s.disk).1.rank) :
    (s.proceed hasParent path w result).calls path = some (w.next hasParent result s.disk).1 ∧
      (s.proceed hasParent path w result).contents = s.contents := by
  unfold proceed
  dsimp only
  unfold AtomicWrite.rank at h
  split
  case h_1 hphase => simp [hphase] at h
  case h_2 hphase => simp [hphase] at h
  case h_3 hphase => simp [hphase] at h
  case h_4 => exact ⟨Function.update_self .., rfl⟩

theorem proceeds_of_idle (hidle : s.calls path = none) (results : List CallResult) :
    proceeds hasParent path s results = s := by
  cases results with
  | nil => rfl
  | cons result results =>
    unfold proceeds
    rw [hidle]

theorem proceeds_contents {results : List CallResult} (h : Inv hasParent s) (hcall : s.calls path = some w)
    (hrank : 0 < w.rank) (hlen : w.rank ≤ results.length)
    (hall : ∀ result ∈ results, ∃ n, result = .returns (n + 1)) :
    (proceeds hasParent path s results).contents path = some w.data :: s.contents path := by
  induction results generalizing s w with
  | nil =>
    rw [List.length_nil] at hlen
    omega
  | cons result results ih =>
    obtain ⟨n, rfl⟩ := hall result List.mem_cons_self
    obtain ⟨hdata, htrue | ⟨hpos, hlt⟩⟩ := AtomicWrite.next_rank (h.calls path w hcall).2.2.2 hrank n
    · obtain ⟨hidle, hcontents⟩ := proceed_true path htrue
      unfold proceeds
      rw [hcall]
      dsimp only
      rw [proceeds_of_idle hidle, hcontents, hdata]
    · obtain ⟨hcall', hcontents⟩ := proceed_more path hpos
      unfold proceeds
      rw [hcall]
      dsimp only
      rw [List.length_cons] at hlen
      rw [ih (h.of_proceed hcall _) hcall' hpos (by omega) fun r hr => hall r (List.mem_cons_of_mem _ hr), hdata,
        hcontents]

end

end Datadir

end UnicityPow
