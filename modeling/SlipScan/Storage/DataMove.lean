import SlipScan.Model.PlainDataDir

namespace SlipScan.Storage.DataMove

open Model.DataDir Model.DataDir.DataDirResolver Foundation.Files Foundation.Interleaving
  Foundation.Table Foundation.Transaction Process

variable {h : MoveHost} {r : DataDirResolver} {source target dir other k : Path} {name : String}
  {w s t : Disk Path} {c : Contents}

section Paths

theorem child_inj {a b : Path} {m n : String} : child a m = child b n ↔ a = b ∧ m = n := by
  constructor
  · intro heq
    obtain ⟨ha, hm⟩ := List.append_inj' heq rfl
    exact ⟨ha, List.singleton_inj.1 hm⟩
  · rintro ⟨rfl, rfl⟩
    rfl

theorem documentsDir_prefix_child : documentsDir dir <+: child other name ↔
    dir = other ∧ documentsDirName = name ∨ documentsDir dir <+: other := by
  rw [child, List.prefix_concat_iff, documentsDir]
  exact or_congr_left child_inj

def Guarded (r : DataDirResolver) (dir k : Path) : Prop :=
  k = r.pointerPath ∨ k = dbPath dir ∨ k = walPath dir ∨ documentsDir dir <+: k

/-- The other files of a folder that is not inside of the documents. -/
theorem not_guarded_child (hdocs : ¬documentsDir dir <+: other)
    (hname : other = dir → name ≠ dbFileName ∧ name ≠ dbFileName ++ "-wal" ∧
      name ≠ documentsDirName)
    (hpointer : name ≠ pointerFileName) : ¬Guarded r dir (child other name) := by
  rintro (hk | hk | hk | hk)
  · exact hpointer (child_inj.1 hk).2
  · obtain ⟨hdir, hdb⟩ := child_inj.1 hk
    exact (hname hdir).1 hdb
  · obtain ⟨hdir, hwal⟩ := child_inj.1 hk
    exact (hname hdir).2.1 hwal
  · rcases documentsDir_prefix_child.1 hk with ⟨hdir, hdocuments⟩ | hk
    · exact (hname hdir.symm).2.2 hdocuments.symm
    · exact hdocs hk

theorem not_guarded_target (hne : target ≠ source) (hinside : ¬source <+: target)
    (hpointer : name ≠ pointerFileName) : ¬Guarded r source (child target name) :=
  not_guarded_child (fun hprefix ↦ hinside ((List.prefix_append _ _).trans hprefix))
    (fun heq ↦ absurd heq hne) hpointer

theorem dbPath_mem : dbPath dir ∈ dbFiles dir :=
  List.mem_cons_self ..

theorem walPath_mem : walPath dir ∈ dbFiles dir :=
  List.mem_cons_of_mem _ (List.mem_cons_self ..)

theorem probe_ne (hname : name.toList.head? ≠ some '.') :
    ".slipscan-write-probe-" ++ h.newId ≠ name := by
  rintro rfl
  refine hname ?_
  rw [String.toList_append]
  rfl

/-- The documents of another folder. -/
theorem not_guarded_store (hne : other ≠ dir) (hdir : ¬documentsDir dir <+: other)
    (hother : ¬documentsDir other <+: dir) (hconfig : ¬documentsDir other <+: r.configDir)
    (hk : documentsDir other <+: k) : ¬Guarded r dir k := by
  rintro (rfl | rfl | rfl | hdocs)
  · rcases documentsDir_prefix_child.1 hk with ⟨-, hname⟩ | hk
    · exact absurd hname (by decide)
    · exact hconfig hk
  · rcases documentsDir_prefix_child.1 hk with ⟨hdir, -⟩ | hk
    · exact hne hdir
    · exact hother hk
  · rcases documentsDir_prefix_child.1 hk with ⟨hdir, -⟩ | hk
    · exact hne hdir
    · exact hother hk
  · rcases List.prefix_or_prefix_of_prefix hdocs hk with hle | hle
    · rcases documentsDir_prefix_child.1 hle with ⟨hdir, -⟩ | hle
      · exact hne hdir.symm
      · exact hdir hle
    · rcases documentsDir_prefix_child.1 hle with ⟨hdir, -⟩ | hle
      · exact hne hdir
      · exact hother hle

/-- No folder lies inside of a documents store. The move checks this for the target and the source
folder only in one direction. -/
structure Placed (r : DataDirResolver) (source target : Path) : Prop where
  apart : ¬documentsDir target <+: source
  sourceConfig : ¬documentsDir source <+: r.configDir
  targetConfig : ¬documentsDir target <+: r.configDir

end Paths

/-- What SQLite makes of a database and its log. -/
structure Durable (h : MoveHost) : Prop where
  append : ∀ main log c c', h.readDatabase main log = some c →
    h.readDatabase main (some (h.appendLog main log c')) = some c'
  fold : ∀ main log c, h.readDatabase main (some log) = some c →
    h.readDatabase (h.foldLog main log) none = some c
  refold : ∀ main log c, h.readDatabase main (some log) = some c →
    h.readDatabase (h.foldLog main log) (some log) = some c
  empty : ∀ main, h.readDatabase main (some []) = h.readDatabase main none

section Folders

/-- The pointer names a folder that has all documents of the source and a database with contents
of some kind. -/
structure Holds (h : MoveHost) (r : DataDirResolver) (w : Disk Path) (source dir : Path)
    (C : Contents → Prop) (t : Disk Path) : Prop where
  resolves : resolve h r t = .ok dir
  contents : ∃ c, contentsAt h (dbPath dir) (walPath dir) t = some c ∧ C c
  store : ∀ rel b, rel ≠ [] → w.read (documentsDir source ++ rel) = some b →
    t.read (documentsDir dir ++ rel) = some b

variable {C : Contents → Prop}

theorem Holds.rewrite (hs : Holds h r w source dir C s)
    (hspares : Spares (fun k ↦ k = r.pointerPath ∨ documentsDir dir <+: k) s t)
    (hcontents : contentsAt h (dbPath dir) (walPath dir) t = some c) (hc : C c) :
    Holds h r w source dir C t := by
  refine ⟨?_, ⟨c, hcontents, hc⟩, fun rel b hrel hb ↦ ?_⟩
  · rw [resolve, pointerTarget, hspares _ (.inl rfl)]
    exact hs.resolves
  · rw [hspares _ (.inr (List.prefix_append _ _))]
    exact hs.store rel b hrel hb

theorem Holds.spares (hs : Holds h r w source dir C s) (hspares : Spares (Guarded r dir) s t) :
    Holds h r w source dir C t := by
  obtain ⟨c, hcontents, hc⟩ := hs.contents
  refine hs.rewrite (fun k hk ↦ hspares k ?_) ?_ hc
  · exact hk.imp_right fun hdocs ↦ .inr (.inr hdocs)
  · rw [contentsAt, hspares _ (.inr (.inl rfl)), hspares _ (.inr (.inr (.inl rfl)))]
    exact hcontents

end Folders

section Validate

variable {C : Contents → Prop} {P : Path → Prop}

theorem keeps_probeTarget
    (hP : ¬P (child target (".slipscan-write-probe-" ++ h.newId))) :
    (probeTarget h target).Keeps (Spares P) := by
  refine ((keeps_writeFile hP _).bind fun _ ↦ keeps_removeFile hP).attempt.bind fun outcome ↦ ?_
  cases outcome with
  | ok a => exact keeps_pure ()
  | error e => exact keeps_ofExcept _

theorem keeps_removeIfPresent (hP : ¬P k) : (removeIfPresent k).Keeps (Spares P) :=
  (keeps_query _).bind fun _ ↦ Keeps.ite (fun _ ↦ keeps_removeFile hP) fun _ ↦ keeps_pure ()

theorem keeps_removeExisting {files : List Path} (hP : ∀ f ∈ files, ¬P f) :
    (removeExisting files).Keeps (Spares P) := by
  induction files with
  | nil => exact keeps_pure ()
  | cons f files ih =>
    rw [List.forall_mem_cons] at hP
    exact (keeps_removeIfPresent hP.1).bind fun _ ↦ ih hP.2

theorem brittle_removeIfPresent : (removeIfPresent k).Brittle :=
  (brittle_query _).bind fun _ ↦ Brittle.ite (fun _ ↦ brittle_atomically) fun _ ↦ brittle_pure ()

theorem brittle_removeExisting (files : List Path) : (removeExisting files).Brittle := by
  induction files with
  | nil => exact brittle_pure ()
  | cons f files ih => exact brittle_removeIfPresent.bind fun _ ↦ ih

theorem run_removeIfPresent : (removeIfPresent k).run s = (.ok (), s.remove k) := by
  unfold removeIfPresent
  rw [run_query_bind]
  split_ifs with hk
  · exact run_removeFile s
  · rw [Option.not_isSome_iff_eq_none] at hk
    rw [Disk.remove_of_none hk]
    rfl

theorem run_removeExisting {files : List Path} :
    (removeExisting files).run s = (.ok (), files.foldl Disk.remove s) := by
  induction files generalizing s with
  | nil => rfl
  | cons f files ih =>
    rw [removeExisting, run_bind_of_ok run_removeIfPresent]
    exact ih

/-- Files outside of the folder are written without harm to it. -/
theorem Holds.attains {α : Type} {p : Fs α} (hs : Holds h r w source dir C s)
    (hp : p.Keeps (Spares P)) (hP : ∀ k, Guarded r dir k → P k) :
    p.Attains s (Holds h r w source dir C) fun _ t ↦ Spares P s t :=
  hp.attains fun _ ht ↦ hs.spares fun k hk ↦ ht k (hP k hk)

theorem Holds.attains_run {α : Type} {p : Fs α} (hs : Holds h r w source dir C s)
    (hp : p.Keeps (Spares P)) (hbrittle : p.Brittle) (hP : ∀ k, Guarded r dir k → P k) :
    p.Attains s (Holds h r w source dir C) fun a t ↦ Spares P s t ∧ p.run s = (.ok a, t) :=
  hbrittle.attains hp fun _ ht ↦ hs.spares fun k hk ↦ ht k (hP k hk)

theorem checkApart_eq_ok :
    checkApart h target source = .ok () ↔ target ≠ source ∧ ¬source <+: target := by
  unfold checkApart
  split_ifs with heq hinside
  · simp [heq]
  · simp [hinside]
  · simp [heq, hinside]

theorem attains_clearTarget (hs : Holds h r w source source C s) (hne : target ≠ source)
    (hinside : ¬source <+: target) (hcut : s.read (partialWalPath target) = none)
    (hlog : s.read (dbPath target) = none → s.read (walPath target) = none) :
    (clearTarget h r target source).Attains s (Holds h r w source source C) fun _ t ↦
      t.read (partialWalPath target) = none ∧ t.read (dbPath target) = none ∧
        t.read (walPath target) = none := by
  have hfree : ∀ f ∈ dbFiles target, ¬(Guarded r source f ∨ f = partialWalPath target) := by
    intro f hf
    obtain ⟨suffix, hsuffix, rfl⟩ := List.mem_map.1 hf
    have hnames : dbFileName ++ suffix ≠ pointerFileName ∧
        dbFileName ++ suffix ≠ dbFileName ++ ".partial" ++ "-wal" := by
      rcases List.mem_cons.1 hsuffix with rfl | hsuffix
      · decide
      · rcases List.mem_cons.1 hsuffix with rfl | hsuffix
        · decide
        · obtain rfl := List.mem_singleton.1 hsuffix
          decide
    exact not_or.2 ⟨not_guarded_target hne hinside hnames.1, fun heq ↦
      hnames.2 (child_inj.1 heq).2⟩
  unfold clearTarget
  refine attains_query_bind _ (Attains.ite (fun hfound ↦ ?_) fun hnone ↦ ?_)
  · refine attains_query_bind _ (Attains.ite (fun _ ↦ ?_) fun _ ↦ attains_error hs)
    refine (hs.attains_run (keeps_removeExisting hfree) (brittle_removeExisting _)
      fun _ ↦ .inl).mono fun _ t _ ht ↦ ?_
    obtain ⟨hspares, hrun⟩ := ht
    rw [run_removeExisting] at hrun
    cases hrun
    refine ⟨(hspares _ (.inr rfl)).trans hcut, ?_, ?_⟩
    · rw [Disk.read_foldl_remove, if_pos dbPath_mem]
    · rw [Disk.read_foldl_remove, if_pos walPath_mem]
  · rw [Option.not_isSome_iff_eq_none] at hnone
    exact attains_pure hs ⟨hcut, hnone, hlog hnone⟩

theorem attains_validateTarget (hs : Holds h r w source source C s)
    (hcut : s.read (partialWalPath target) = none)
    (hlog : s.read (dbPath target) = none → s.read (walPath target) = none) :
    (validateTarget h r target).Attains s (Holds h r w source source C) fun a t ↦
      a = source ∧ target ≠ source ∧ ¬source <+: target ∧
        t.read (partialWalPath target) = none ∧ t.read (dbPath target) = none ∧
        t.read (walPath target) = none := by
  unfold validateTarget
  refine attains_query_bind _ (attains_ofExcept_bind hs fun a ha ↦ ?_)
  rw [hs.resolves] at ha
  cases ha
  refine attains_query_bind _ (attains_ofExcept_bind hs fun _ _ ↦ ?_)
  refine (keeps_touch.attains (R := Eq) fun t ht ↦ ht ▸ hs).bind fun _ t ht hst ↦ ?_
  cases hst
  refine attains_ofExcept_bind hs fun _ hapart ↦ ?_
  obtain ⟨hne, hinside⟩ := checkApart_eq_ok.1 hapart
  let P : Path → Prop := fun k ↦
    Guarded r source k ∨ k ∈ [partialWalPath target, dbPath target, walPath target]
  have hprobe : ¬P (child target (".slipscan-write-probe-" ++ h.newId)) := by
    refine not_or.2 ?_
    refine ⟨not_guarded_target hne hinside (probe_ne (by decide)), ?_⟩
    simp only [List.mem_cons, List.not_mem_nil, or_false, not_or]
    exact ⟨fun heq ↦ probe_ne (by decide) (child_inj.1 heq).2,
      fun heq ↦ probe_ne (by decide) (child_inj.1 heq).2,
      fun heq ↦ probe_ne (by decide) (child_inj.1 heq).2⟩
  refine (hs.attains (keeps_probeTarget hprobe) fun _ hk ↦ .inl hk).bind fun _ t ht hspares ↦ ?_
  have hcut' : t.read (partialWalPath target) = none := by
    rw [hspares _ (.inr (by simp)), hcut]
  have hlog' : t.read (dbPath target) = none → t.read (walPath target) = none := by
    rw [hspares _ (.inr (by simp)), hspares _ (.inr (by simp))]
    exact hlog
  refine (attains_clearTarget ht hne hinside hcut' hlog').bind fun _ u hu hclear ↦ ?_
  exact attains_pure hu ⟨rfl, hne, hinside, hclear⟩

end Validate

section Quiesce

variable {C : Contents → Prop}

theorem docs_ne_child (hname : name ≠ documentsDirName) (hk : documentsDir dir <+: k) :
    k ≠ child dir name := by
  rintro rfl
  rcases documentsDir_prefix_child.1 hk with ⟨-, hdocuments⟩ | hk
  · exact hname hdocuments.symm
  · have hlength := hk.length_le
    simp only [documentsDir, child, List.length_append, List.length_singleton] at hlength
    omega

/-- Neither the pointer nor a document is another file of the folder. -/
theorem ne_child_of_kept (hk : k = r.pointerPath ∨ documentsDir dir <+: k)
    (hpointer : name ≠ pointerFileName) (hname : name ≠ documentsDirName) : k ≠ child dir name := by
  rcases hk with rfl | hk
  · exact fun heq ↦ hpointer (child_inj.1 heq).2.symm
  · exact docs_ne_child hname hk

/-- What locking the source leaves: its database alone has the contents. -/
structure Quiesced (h : MoveHost) (source : Path) (C : Contents → Prop) (t : Disk Path) :
    Prop where
  contents : ∃ main c, t.read (dbPath source) = some main ∧ h.readDatabase main none = some c ∧ C c

theorem walPath_ne_dbPath {a b : Path} : walPath a ≠ dbPath b :=
  fun heq ↦ absurd (child_inj.1 heq).2 (by decide)

theorem walPath_ne_partialPath {a b : Path} : walPath a ≠ partialPath b :=
  fun heq ↦ absurd (child_inj.1 heq).2 (by decide)

theorem attains_lockAndQuiesceSource (hdurable : Durable h)
    (hs : Holds h r w source source C s) :
    (lockAndQuiesceSource h (dbPath source) (walPath source)).Attains s
      (Holds h r w source source C) fun _ t ↦ Quiesced h source C t ∧
        Spares (fun k ↦ k ≠ dbPath source ∧ k ≠ walPath source) s t := by
  obtain ⟨c, hcontents, hc⟩ := hs.contents
  have hread := hcontents
  rw [contentsAt, Option.bind_eq_some_iff] at hread
  obtain ⟨main, hmain, hread⟩ := hread
  unfold lockAndQuiesceSource
  refine Attains.ite (fun _ ↦ attains_error hs) fun _ ↦ attains_query_bind _ ?_
  rw [hcontents]
  refine attains_query_bind _ (Attains.ite (fun hlog ↦ ?_) fun hlog ↦ ?_)
  · obtain ⟨log, hlog⟩ := Option.isSome_iff_exists.1 hlog
    rw [hlog] at hread
    let t := s.write (dbPath source) (h.foldLog main log)
    have htlog : t.read (walPath source) = some log := by
      rw [Disk.read_write_of_ne walPath_ne_dbPath, hlog]
    have ht : Holds h r w source source C t := by
      refine hs.rewrite (fun k hk ↦ Disk.read_write_of_ne
        (ne_child_of_kept hk (by decide) (by decide))) ?_ hc
      rw [contentsAt, Disk.read_write_self, htlog]
      exact hdurable.refold main log c hread
    have hfold : (checkpoint h (dbPath source) (walPath source)).Attains s
        (Holds h r w source source C) fun _ u ↦ u = t := by
      refine attains_atomically hs ?_
      simp only [checkpointTx, ensures_bind, ensures_get, hmain, hlog, ensures_modify]
      exact ⟨ht, rfl⟩
    refine hfold.bind fun _ u _ hu ↦ ?_
    cases hu
    refine attains_atomically ht ?_
    rw [ensures_modify]
    have hfolded : h.readDatabase (h.foldLog main log) none = some c :=
      hdurable.fold main log c hread
    have hdb : (t.write (walPath source) []).read (dbPath source) =
        some (h.foldLog main log) := by
      rw [Disk.read_write_of_ne walPath_ne_dbPath.symm, Disk.read_write_self]
    refine ⟨ht.rewrite (fun k hk ↦ Disk.read_write_of_ne
      (ne_child_of_kept hk (by decide) (by decide))) ?_ hc, ⟨_, c, hdb, hfolded, hc⟩, fun k hk ↦ ?_⟩
    · rw [contentsAt, hdb, Disk.read_write_self, Option.bind_some, hdurable.empty, hfolded]
    · rw [Disk.read_write_of_ne hk.2, Disk.read_write_of_ne hk.1]
  · rw [Option.not_isSome_iff_eq_none] at hlog
    rw [hlog] at hread
    exact attains_pure hs ⟨⟨main, c, hmain, hread, hc⟩, fun _ _ ↦ rfl⟩

end Quiesce

section Copy

variable {C : Contents → Prop} {P : Path → Prop} {src dst : Path} {n : ℕ}

theorem keeps_copyFileVerified (hP : ¬P dst) : (copyFileVerified h src dst).Keeps (Spares P) := by
  refine keeps_touch.bind fun _ ↦ (keeps_query _).bind fun content ↦ ?_
  cases content with
  | none => exact keeps_ofExcept _
  | some content =>
    refine (keeps_writeFile hP content).bind fun _ ↦ (keeps_query _).bind fun srcHash ↦
      (keeps_query _).bind fun dstHash ↦ Keeps.ite (fun _ ↦ ?_) fun _ ↦ ?_
    · exact (keeps_removeFile hP).attempt.bind fun _ ↦ keeps_ofExcept _
    · exact keeps_touch.bind fun _ ↦ keeps_pure _

theorem brittle_copyFileVerified : (copyFileVerified h src dst).Brittle := by
  refine brittle_atomically.bind fun _ ↦ (brittle_query _).bind fun content ↦ ?_
  cases content with
  | none => exact brittle_ofExcept _
  | some content =>
    refine (brittle_writeFile content).bind fun _ ↦ (brittle_query _).bind fun srcHash ↦
      (brittle_query _).bind fun dstHash ↦ Brittle.ite (fun _ ↦ ?_) fun _ ↦ ?_
    · exact brittle_bind_error
    · exact brittle_atomically.bind fun _ ↦ brittle_pure _

theorem copyFileVerified_eq_ok : (copyFileVerified h src dst).run s = (.ok n, t) ↔
    ∃ content, s.read src = some content ∧ n = content.length ∧ t = s.write dst content := by
  rw [copyFileVerified, run_bind_of_ok (run_touch s), run_query_bind]
  cases hsrc : s.read src with
  | none => simp [run_ofExcept]
  | some content =>
    have hsame : (s.write dst content).read src = some content := by
      by_cases heq : src = dst
      · rw [heq, Disk.read_write_self]
      · rw [Disk.read_write_of_ne heq, hsrc]
    dsimp only
    rw [run_bind_of_ok (run_writeFile s content), run_query_bind, run_query_bind, hsame,
      Disk.read_write_self, if_neg (by simp), run_bind_of_ok (run_touch _)]
    change (Except.ok content.length, s.write dst content) = _ ↔ _
    simp [eq_comm]

theorem stripPrefix_append (base rel : Path) : stripPrefix base (base ++ rel) = some rel := by
  rw [stripPrefix, if_pos (List.prefix_append _ _), List.drop_left]

theorem stripPrefix_eq_some {base path rel : Path} :
    stripPrefix base path = some rel ↔ path = base ++ rel := by
  constructor
  · intro hrel
    unfold stripPrefix at hrel
    split_ifs at hrel with hprefix
    cases hrel
    exact (List.prefix_iff_eq_append.1 hprefix).symm
  · rintro rfl
    exact stripPrefix_append base rel

theorem keeps_copyDocuments {files : List Path} (hP : ∀ k, dst <+: k → ¬P k) (copied : ℕ × ℕ) :
    (copyDocuments h src dst copied files).Keeps (Spares P) := by
  induction files generalizing copied with
  | nil => exact keeps_pure _
  | cons file files ih =>
    unfold copyDocuments
    cases stripPrefix src file with
    | none => exact keeps_ofExcept _
    | some rel =>
      exact (keeps_copyFileVerified (hP _ (List.prefix_append _ _))).bind fun _ ↦ ih _

theorem brittle_copyDocuments {files : List Path} (copied : ℕ × ℕ) :
    (copyDocuments h src dst copied files).Brittle := by
  induction files generalizing copied with
  | nil => exact brittle_pure _
  | cons file files ih =>
    unfold copyDocuments
    cases stripPrefix src file with
    | none => exact brittle_ofExcept _
    | some rel => exact brittle_copyFileVerified.bind fun _ ↦ ih _

/-- The copy has the files of the list as the source has them, and what it had besides. -/
theorem read_of_copyDocuments {files : List Path} (hdisjoint : ∀ k, dst <+: k → ¬src <+: k)
    {copied out : ℕ × ℕ} (hrun : (copyDocuments h src dst copied files).run s = (.ok out, t))
    (rel : Path) : t.read (dst ++ rel) =
      if src ++ rel ∈ files then s.read (src ++ rel) else s.read (dst ++ rel) := by
  induction files generalizing copied s with
  | nil =>
    cases hrun
    simp
  | cons file files ih =>
    unfold copyDocuments at hrun
    cases hrel : stripPrefix src file with
    | none => simp [hrel, run_ofExcept] at hrun
    | some rel' =>
      obtain rfl := stripPrefix_eq_some.1 hrel
      simp only [hrel] at hrun
      obtain ⟨n, u, hcopy, hrest⟩ := run_bind_eq_ok.1 hrun
      obtain ⟨content, hcontent, -, rfl⟩ := copyFileVerified_eq_ok.1 hcopy
      have hsrc : ∀ rel, (s.write (dst ++ rel') content).read (src ++ rel) =
          s.read (src ++ rel) := fun rel ↦
        Disk.read_write_of_ne fun heq ↦
          hdisjoint (dst ++ rel') (List.prefix_append _ _) (heq ▸ List.prefix_append _ _)
      rw [ih hrest, hsrc]
      by_cases heq : rel = rel'
      · subst heq
        simp [hcontent]
      · have hne : dst ++ rel ≠ dst ++ rel' := fun hsame ↦ heq (List.append_cancel_left hsame)
        have hne' : src ++ rel ≠ src ++ rel' := fun hsame ↦ heq (List.append_cancel_left hsame)
        simp [Disk.read_write_of_ne hne, hne']

end Copy

section Localize

variable {P : Path → Prop} {db wal : Path} {f : Contents → Except MoveFault Contents}
  {oldDocs : List Path} {n : ℕ}

theorem keeps_sqliteWrite (hP : ¬P wal) : (sqliteWrite h db wal f).Keeps (Spares P) := by
  refine keeps_atomically fun d ↦ ?_
  rw [sqliteTx, ensures_bind, ensures_get]
  split
  · exact (ensures_throw _).2 trivial
  · split
    · exact (ensures_throw _).2 trivial
    · simp only [ensures_bind, ensures_check, ensures_modify]
      exact fun _ _ ↦ spares_write hP d _

theorem keeps_checkpoint (hP : ¬P db) : (checkpoint h db wal).Keeps (Spares P) := by
  refine keeps_atomically fun d ↦ ?_
  rw [checkpointTx, ensures_bind, ensures_get]
  split
  · exact (ensures_modify _).2 (spares_write hP d _)
  · exact (ensures_pure _).2 fun _ _ ↦ rfl

theorem keeps_closeDatabase (hdb : ¬P db) (hwal : ¬P wal) :
    (closeDatabase h db wal).Keeps (Spares P) :=
  ((keeps_checkpoint hdb).bind fun _ ↦ keeps_removeFile hwal).attempt.bind fun _ ↦ keeps_pure ()

theorem contentsAt_sqliteWrite (hdurable : Durable h) (hne : db ≠ wal)
    (hrun : (sqliteWrite h db wal f).run s = (.ok (), t)) (hs : contentsAt h db wal s = some c) :
    ∃ c', f c = .ok c' ∧ contentsAt h db wal t = some c' ∧ t.read db = s.read db := by
  rw [contentsAt, Option.bind_eq_some_iff] at hs
  obtain ⟨main, hmain, hread⟩ := hs
  have hensures : Ensures (sqliteTx h db wal f) s fun _ t ↦
      ∃ c', f c = .ok c' ∧ contentsAt h db wal t = some c' ∧ t.read db = s.read db := by
    simp only [sqliteTx, ensures_bind, ensures_get, hmain, hread, ensures_check, ensures_modify]
    intro c' hc'
    have hdb : (s.write wal (h.appendLog main (s.read wal) c')).read db = some main :=
      (Disk.read_write_of_ne hne).trans hmain
    refine ⟨c', hc', ?_, hdb⟩
    rw [contentsAt, hdb, Disk.read_write_self, Option.bind_some]
    exact hdurable.append main _ c c' hread
  rw [sqliteWrite, run_atomically] at hrun
  exact hensures () t (commit_ok hrun)

def relocateAll (h : MoveHost) (target : Path) (oldDocs : List Path) :
    List DocumentRow → Contents → Contents
  | [], c => c
  | row :: rows, c =>
    match relocated h target oldDocs row with
    | none => relocateAll h target oldDocs rows c
    | some filePath => relocateAll h target oldDocs rows (setFilePath row.id filePath c)

def relocatedRows (h : MoveHost) (target : Path) (oldDocs : List Path) (rows : List DocumentRow) :
    ℕ :=
  (rows.filter fun row ↦ (relocated h target oldDocs row).isSome).length

def localized (h : MoveHost) (source target : Path) (c : Contents) : Except MoveFault Contents := do
  let oldDocs := [documentsDir source, documentsDir source]
  let c ← (h.migrate c).mapError MoveFault.sqlite
  insertAudit (moveEntry h source target (relocatedRows h target oldDocs c.documents))
    (relocateAll h target oldDocs c.documents c)

theorem keeps_relocateRows {rows : List DocumentRow} (hP : ¬P (partialWalPath target)) (n : ℕ) :
    (relocateRows h target oldDocs n rows).Keeps (Spares P) := by
  induction rows generalizing n with
  | nil => exact keeps_pure _
  | cons row rows ih =>
    unfold relocateRows
    cases relocated h target oldDocs row with
    | none => exact ih n
    | some filePath => exact (keeps_sqliteWrite hP).bind fun _ ↦ ih _

theorem brittle_relocateRows {rows : List DocumentRow} (n : ℕ) :
    (relocateRows h target oldDocs n rows).Brittle := by
  induction rows generalizing n with
  | nil => exact brittle_pure _
  | cons row rows ih =>
    unfold relocateRows
    cases relocated h target oldDocs row with
    | none => exact ih n
    | some filePath => exact brittle_atomically.bind fun _ ↦ ih _

theorem partialPath_ne : partialPath dir ≠ partialWalPath dir :=
  fun heq ↦ absurd (child_inj.1 heq).2 (by decide)

theorem contentsAt_relocateRows (hdurable : Durable h) {rows : List DocumentRow} {n m : ℕ}
    (hrun : (relocateRows h target oldDocs n rows).run s = (.ok m, t))
    (hs : contentsAt h (partialPath target) (partialWalPath target) s = some c) :
    m = n + relocatedRows h target oldDocs rows ∧
      contentsAt h (partialPath target) (partialWalPath target) t =
        some (relocateAll h target oldDocs rows c) ∧
      t.read (partialPath target) = s.read (partialPath target) := by
  induction rows generalizing n s c with
  | nil =>
    cases hrun
    exact ⟨rfl, hs, rfl⟩
  | cons row rows ih =>
    unfold relocateRows at hrun
    cases hrow : relocated h target oldDocs row with
    | none =>
      rw [hrow] at hrun
      obtain ⟨rfl, hcontents, hmain⟩ := ih hrun hs
      refine ⟨?_, ?_, hmain⟩
      · simp [relocatedRows, hrow]
      · rw [relocateAll, hrow]
        exact hcontents
    | some filePath =>
      rw [hrow] at hrun
      obtain ⟨_, u, hwrite, hrest⟩ := run_bind_eq_ok.1 hrun
      obtain ⟨c', hc', hu, hmain⟩ := contentsAt_sqliteWrite hdurable partialPath_ne hwrite hs
      cases hc'
      obtain ⟨rfl, hcontents, hmain'⟩ := ih hrest hu
      refine ⟨?_, ?_, hmain'.trans hmain⟩
      · simp [relocatedRows, hrow]
        omega
      · rw [relocateAll, hrow]
        exact hcontents

theorem keeps_localizeCopy (hP : ¬P (partialWalPath target)) :
    (localizeCopy h source target oldDocs).Keeps (Spares P) := by
  refine (keeps_sqliteWrite hP).bind fun _ ↦ (keeps_query _).bind fun opened ↦ ?_
  cases opened with
  | none => exact keeps_ofExcept _
  | some contents =>
    refine Keeps.ite (fun _ ↦ keeps_ofExcept _) fun _ ↦ Keeps.ite (fun _ ↦ keeps_ofExcept _)
      fun _ ↦ ?_
    exact (keeps_relocateRows hP _).bind fun _ ↦ (keeps_sqliteWrite hP).bind fun _ ↦ keeps_pure _

theorem brittle_localizeCopy : (localizeCopy h source target oldDocs).Brittle := by
  refine brittle_atomically.bind fun _ ↦ (brittle_query _).bind fun opened ↦ ?_
  cases opened with
  | none => exact brittle_ofExcept _
  | some contents =>
    refine Brittle.ite (fun _ ↦ brittle_ofExcept _) fun _ ↦ Brittle.ite (fun _ ↦ brittle_ofExcept _)
      fun _ ↦ ?_
    exact (brittle_relocateRows _).bind fun _ ↦ brittle_atomically.bind fun _ ↦ brittle_pure _

theorem contentsAt_localizeCopy (hdurable : Durable h) {n : ℕ}
    (hrun : (localizeCopy h source target [documentsDir source, documentsDir source]).run s =
      (.ok n, t))
    (hs : contentsAt h (partialPath target) (partialWalPath target) s = some c) :
    ∃ c', localized h source target c = .ok c' ∧
      contentsAt h (partialPath target) (partialWalPath target) t = some c' ∧
      t.read (partialPath target) = s.read (partialPath target) := by
  unfold localizeCopy at hrun
  obtain ⟨_, u, hopen, hrun⟩ := run_bind_eq_ok.1 hrun
  obtain ⟨c', hmigrate, hu, hmain⟩ := contentsAt_sqliteWrite hdurable partialPath_ne hopen hs
  rw [run_query_bind, hu] at hrun
  dsimp only at hrun
  split_ifs at hrun with hempty hverdict
  · simp [run_ofExcept] at hrun
  · simp [run_ofExcept] at hrun
  · obtain ⟨m, v, hrows, hrun⟩ := run_bind_eq_ok.1 hrun
    obtain ⟨rfl, hv, hmain'⟩ := contentsAt_relocateRows hdurable hrows hu
    obtain ⟨_, x, haudit, hrun⟩ := run_bind_eq_ok.1 hrun
    obtain ⟨c'', hc'', hx, hmain''⟩ := contentsAt_sqliteWrite hdurable partialPath_ne haudit hv
    cases hrun
    refine ⟨c'', ?_, hx, hmain''.trans (hmain'.trans hmain)⟩
    rw [Nat.zero_add] at hc''
    simp only [localized, hmigrate, except_ok_bind, hc'']

end Localize

section Prepare

variable {C : Contents → Prop} {P : Path → Prop} {main : Bytes}

/-- The database of the copy, by itself: the log was folded into it, or lost. -/
def Copied (h : MoveHost) (target : Path) (main : Bytes) (c : Contents) (t : Disk Path) : Prop :=
  ∃ main', t.read (partialPath target) = some main' ∧
    (main' = main ∨ h.readDatabase main' none = some c)

theorem attains_closeDatabase (hdurable : Durable h) (hs : Holds h r w source source C s)
    (hguarded : ∀ k, Guarded r source k → P k) (hcut : ¬P (partialPath target))
    (hwal : ¬P (partialWalPath target)) (hmain : s.read (partialPath target) = some main)
    (hcontents : contentsAt h (partialPath target) (partialWalPath target) s = some c) :
    (closeDatabase h (partialPath target) (partialWalPath target)).Attains s
      (Holds h r w source source C) fun _ t ↦ Spares P s t ∧ Copied h target main c t := by
  have hkeep : ∀ t, Spares P s t → Holds h r w source source C t := fun t ht ↦
    hs.spares fun k hk ↦ ht k (hguarded k hk)
  have hsame : Spares P s s ∧ Copied h target main c s := ⟨fun _ _ ↦ rfl, main, hmain, .inl rfl⟩
  have hremove : ∀ t, Spares P s t → Copied h target main c t →
      (removeFile (partialWalPath target) : Fs Unit).Survives t (Holds h r w source source C)
        fun _ u ↦ Holds h r w source source C u ∧ Spares P s u ∧ Copied h target main c u := by
    intro t hspares hcopied
    refine survives_atomically (hkeep t hspares) (fun _ ↦ ⟨hkeep t hspares, hspares, hcopied⟩) ?_
    rw [ensures_modify]
    have hspares' : Spares P s (t.remove (partialWalPath target)) :=
      trans_of (Spares P) hspares (spares_remove hwal t)
    obtain ⟨main', hmain', hor⟩ := hcopied
    refine ⟨hkeep _ hspares', hspares', main', ?_, hor⟩
    rw [Disk.read_remove_of_ne partialPath_ne, hmain']
  refine (Attains.attempt (P := fun _ t ↦ Spares P s t ∧ Copied h target main c t) ?_).bind
    fun _ t ht hP ↦ attains_pure ht hP
  refine survives_atomically_bind hs (fun _ ↦ ⟨hs, hsame⟩) ?_
  rw [contentsAt, hmain, Option.bind_some] at hcontents
  simp only [checkpointTx, ensures_bind, ensures_get, hmain]
  cases hlog : s.read (partialWalPath target) with
  | none => exact (ensures_pure _).2 (hremove s hsame.1 hsame.2)
  | some log =>
    rw [hlog] at hcontents
    rw [ensures_modify]
    exact hremove _ (spares_write hcut s _)
      ⟨_, Disk.read_write_self, .inr (hdurable.fold main log c hcontents)⟩

theorem attains_checkAndLocalizeCopy (hdurable : Durable h)
    (hs : Holds h r w source source C s) (hguarded : ∀ k, Guarded r source k → P k)
    (hcut : ¬P (partialPath target)) (hwal : ¬P (partialWalPath target))
    (hmain : s.read (partialPath target) = some main)
    (hnone : s.read (partialWalPath target) = none) (hc : h.readDatabase main none = some c) :
    (checkAndLocalizeCopy h source target [documentsDir source, documentsDir source]).Attains s
      (Holds h r w source source C) fun _ t ↦ Spares P s t ∧
        ∃ c', localized h source target c = .ok c' ∧ Copied h target main c' t := by
  have hcontents : contentsAt h (partialPath target) (partialWalPath target) s = some c := by
    rw [contentsAt, hmain, hnone]
    exact hc
  refine (brittle_localizeCopy.attains_attempt (keeps_localizeCopy hwal) fun t ht ↦
    hs.spares fun k hk ↦ ht k (hguarded k hk)).bind fun outcome t ht hlocal ↦ ?_
  obtain ⟨hspares, hrun⟩ := hlocal
  cases outcome with
  | error e =>
    exact (ht.attains (keeps_closeDatabase hcut hwal) hguarded).bind fun _ _ hu _ ↦
      attains_error hu
  | ok n =>
    obtain ⟨c', hc', hcontents', hmain'⟩ := contentsAt_localizeCopy hdurable (hrun n rfl) hcontents
    refine (attains_closeDatabase hdurable ht hguarded hcut hwal (hmain'.trans hmain)
      hcontents').bind fun _ u hu hclosed ↦ attains_ofExcept hu fun _ _ ↦ ?_
    exact ⟨trans_of (Spares P) hspares hclosed.1, c', hc', hclosed.2⟩

structure Ready (h : MoveHost) (w : Disk Path) (source target : Path) (C : Contents → Prop)
    (db : Path) (t : Disk Path) : Prop where
  contents : ∃ main c, t.read db = some main ∧ h.readDatabase main none = some c ∧ C c
  log : t.read (walPath target) = none
  store : ∀ rel b, rel ≠ [] → w.read (documentsDir source ++ rel) = some b →
    t.read (documentsDir target ++ rel) = some b

theorem attains_prepareCopy (hdurable : Durable h) (hs : Holds h r w source source C s)
    (hplaced : Placed r source target) (hcut : s.read (partialWalPath target) = none)
    (hlog : s.read (dbPath target) = none → s.read (walPath target) = none) :
    (prepareCopy h r target).Attains s (Holds h r w source source C) fun prepared t ↦
      prepared.source = source ∧ prepared.target = target ∧ target ≠ source ∧ ¬source <+: target ∧
        Ready h w source target
          (fun c' ↦ ∃ c, C c ∧ (c' = c ∨ localized h source target c = .ok c'))
          (partialPath target) t := by
  unfold prepareCopy
  refine (attains_validateTarget hs hcut hlog).bind fun a t ht hvalid ↦ ?_
  obtain ⟨rfl, hne, hinside, hcut, -, hlog⟩ := hvalid
  refine (attains_lockAndQuiesceSource hdurable ht).bind fun _ u hu hquiet ↦ ?_
  obtain ⟨⟨main, c, hmain, hread, hc⟩, hspares⟩ := hquiet
  have hupartial : u.read (partialWalPath target) = none :=
    (hspares _ ⟨fun heq ↦ absurd (child_inj.1 heq).2 (by decide),
      fun heq ↦ absurd (child_inj.1 heq).2 (by decide)⟩).trans hcut
  have hulog : u.read (walPath target) = none :=
    (hspares _ ⟨walPath_ne_dbPath, fun heq ↦ hne (child_inj.1 heq).1⟩).trans hlog
  -- the database
  refine (hu.attains_run (P := fun k ↦ k ≠ partialPath target)
    (keeps_copyFileVerified fun hself ↦ hself rfl) brittle_copyFileVerified
    fun k hk heq ↦ not_guarded_target hne hinside (by decide) (heq ▸ hk)).bind
      fun bytes v hv hcopy ↦ ?_
  obtain ⟨hspares, hrun⟩ := hcopy
  obtain ⟨content, hcontent, -, rfl⟩ := copyFileVerified_eq_ok.1 hrun
  rw [hmain] at hcontent
  cases hcontent
  have hvpartial : (u.write (partialPath target) main).read (partialWalPath target) = none :=
    (hspares _ partialPath_ne.symm).trans hupartial
  have hvlog : (u.write (partialPath target) main).read (walPath target) = none :=
    (hspares _ fun heq ↦ absurd (child_inj.1 heq).2 (by decide)).trans hulog
  have hvmain : (u.write (partialPath target) main).read (partialPath target) = some main :=
    Disk.read_write_self
  generalize u.write (partialPath target) main = v at hv hvpartial hvlog hvmain
  -- the documents
  refine attains_query_bind _ ((keeps_touch.attains (R := Eq) fun t ht ↦ ht ▸ hv).bind
    fun _ t ht hst ↦ ?_)
  cases hst
  have hdocs : ∀ k, documentsDir target <+: k → ¬Guarded r a k := fun k hk ↦
    not_guarded_store hne (fun hprefix ↦ hinside ((List.prefix_append _ _).trans hprefix))
      hplaced.apart hplaced.targetConfig hk
  refine (hv.attains_run (P := fun k ↦ ¬documentsDir target <+: k)
    (keeps_copyDocuments (fun _ hk hnot ↦ hnot hk) _) (brittle_copyDocuments _)
    fun k hk hdoc ↦ hdocs k hdoc hk).bind fun out x hx hcopy ↦ ?_
  obtain ⟨hspares', hrun'⟩ := hcopy
  obtain ⟨files, total⟩ := out
  have hread' := read_of_copyDocuments (fun k hk hsrc ↦
    hdocs k hk (.inr (.inr (.inr hsrc)))) hrun'
  have hother : ∀ {file}, file ≠ documentsDirName →
      x.read (child target file) = v.read (child target file) := fun hn ↦
    hspares' _ fun hk ↦ docs_ne_child hn hk rfl
  -- the changes to the copy
  refine (attains_checkAndLocalizeCopy (P := fun k ↦ k ≠ partialPath target ∧
    k ≠ partialWalPath target) hdurable hx (fun k hk ↦ ⟨fun heq ↦
      not_guarded_target hne hinside (by decide) (heq ▸ hk), fun heq ↦
      not_guarded_target hne hinside (by decide) (heq ▸ hk)⟩) (fun hself ↦ hself.1 rfl)
      (fun hself ↦ hself.2 rfl) ((hother (by decide)).trans hvmain)
      ((hother (by decide)).trans hvpartial) hread).bind fun rewritten y hy hlocal ↦ ?_
  obtain ⟨hspares'', c', hc', main', hmain', hor⟩ := hlocal
  refine attains_pure hy ⟨rfl, rfl, hne, hinside, ?_⟩
  refine ⟨⟨main', ?_⟩, ?_, fun rel b hrel hb ↦ ?_⟩
  · rcases hor with rfl | hread''
    · exact ⟨c, hmain', hread, c, hc, .inl rfl⟩
    · exact ⟨c', hmain', hread'', c, hc, .inr hc'⟩
  · rw [hspares'' (walPath target) ⟨fun heq ↦ absurd (child_inj.1 heq).2 (by decide),
      fun heq ↦ absurd (child_inj.1 heq).2 (by decide)⟩]
    exact (hother (by decide)).trans hvlog
  · have hcopied : documentsDir target <+: documentsDir target ++ rel := List.prefix_append _ _
    rw [hspares'' _ ⟨docs_ne_child (by decide) hcopied, docs_ne_child (by decide) hcopied⟩, hread']
    have hvb := hv.store rel b hrel hb
    have hlisted : documentsDir a ++ rel ∈ walkFiles v (documentsDir a) := by
      rw [walkFiles, Disk.mem_list, hvb]
      simp [hrel]
    rw [if_pos hlisted, hvb]

end Prepare

section Commit

variable {C D : Contents → Prop} {P : Path → Prop}

theorem Ready.spares {db : Path} (hs : Ready h w source target D db s) (hspares : Spares P s t)
    (hdb : P db) (hwal : P (walPath target)) (hdocs : ∀ k, documentsDir target <+: k → P k) :
    Ready h w source target D db t := by
  obtain ⟨main, c, hmain, hread, hc⟩ := hs.contents
  refine ⟨⟨main, c, (hspares _ hdb).trans hmain, hread, hc⟩, (hspares _ hwal).trans hs.log,
    fun rel b hrel hb ↦ ?_⟩
  rw [hspares _ (hdocs _ (List.prefix_append _ _))]
  exact hs.store rel b hrel hb

/-- The files of the program's own folder are apart from those of a data folder. -/
theorem not_guarded_config (hdocs : ¬documentsDir dir <+: r.configDir)
    (hname : name ≠ dbFileName ∧ name ≠ dbFileName ++ "-wal" ∧ name ≠ documentsDirName)
    (hpointer : name ≠ pointerFileName) : ¬Guarded r dir (child r.configDir name) :=
  not_guarded_child hdocs (fun _ ↦ hname) hpointer

theorem docs_ne_config (hdocs : ¬documentsDir dir <+: r.configDir)
    (hname : name ≠ documentsDirName) (hk : documentsDir dir <+: k) :
    k ≠ child r.configDir name := by
  rintro rfl
  rcases documentsDir_prefix_child.1 hk with ⟨-, hdocuments⟩ | hk
  · exact hname hdocuments.symm
  · exact hdocs hk

theorem keeps_writeMoveJournal {journal : MoveJournal} (hP : ¬P r.moveJournalPath) :
    (writeMoveJournal h r journal).Keeps (Spares P) :=
  keeps_touch.bind fun _ ↦ (keeps_writeFile hP _).bind fun _ ↦ keeps_touch.bind fun _ ↦ keeps_touch

theorem attains_beginCommit (hplaced : Placed r source target) (hne : target ≠ source)
    (hinside : ¬source <+: target) {prepared : PreparedCopy}
    (hprepared : prepared.target = target) (hs : Holds h r w source source C s)
    (hready : Ready h w source target D (partialPath target) s) :
    (beginCommit h r prepared).Attains s (Holds h r w source source C) fun _ t ↦
      Ready h w source target D (dbPath target) t := by
  subst hprepared
  have hmain := hready.contents
  obtain ⟨main, -, hmain, -⟩ := hmain
  unfold beginCommit
  refine attains_query_bind _ ?_
  rw [hmain]
  refine (hs.attains (P := fun k ↦ k ≠ r.moveJournalPath)
    (keeps_writeMoveJournal fun hself ↦ hself rfl) fun k hk heq ↦
      not_guarded_config hplaced.sourceConfig (by decide) (by decide) (heq ▸ hk)).bind
        fun _ t ht hspares ↦ ?_
  have htready := hready.spares hspares (fun heq ↦ absurd (child_inj.1 heq).2 (by decide))
    (fun heq ↦ absurd (child_inj.1 heq).2 (by decide))
    fun k hk ↦ docs_ne_config hplaced.targetConfig (by decide) hk
  obtain ⟨⟨main, c, hmain, hread, hc⟩, hlog, hstore⟩ := htready
  have hrename : (renameFile (partialPath prepared.target) (dbPath prepared.target) :
      Fs Unit).Attains t (Holds h r w source source C) fun _ u ↦
        Ready h w source prepared.target D (dbPath prepared.target) u := by
    refine attains_atomically ht ((ensures_modify _).2 ⟨ht.spares (spares_rename ?_ ?_ t), ?_⟩)
    · exact not_guarded_target hne hinside (by decide)
    · exact not_guarded_target hne hinside (by decide)
    · refine ⟨⟨main, c, Disk.read_rename_self hmain, hread, hc⟩, ?_, fun rel b hrel hb ↦ ?_⟩
      · rw [Disk.read_rename_of_ne walPath_ne_dbPath walPath_ne_partialPath, hlog]
      · have hdb : documentsDir prepared.target ++ rel ≠ dbPath prepared.target :=
          docs_ne_child (by decide) (List.prefix_append _ _)
        have hcopy : documentsDir prepared.target ++ rel ≠ partialPath prepared.target :=
          docs_ne_child (by decide) (List.prefix_append _ _)
        rw [Disk.read_rename_of_ne hdb hcopy]
        exact hstore rel b hrel hb
  refine hrename.bind fun _ u hu huready ↦ ?_
  exact (keeps_touch.attains (R := Eq) fun x hx ↦ hx ▸ hu).mono fun _ x _ hx ↦ hx ▸ huready

theorem Ready.holds (hready : Ready h w source target D (dbPath target) t)
    (hresolves : resolve h r t = .ok target) : Holds h r w source target D t := by
  obtain ⟨⟨main, c, hmain, hread, hc⟩, hlog, hstore⟩ := hready
  refine ⟨hresolves, ⟨c, ?_, hc⟩, hstore⟩
  rw [contentsAt, hmain, hlog]
  exact hread

theorem resolve_of_pointer (hpointer : ∀ p, h.readPointer (h.pointerText p) = .ok p)
    (hutf8 : h.absolutePath (h.display target) = some target)
    (ht : t.read r.pointerPath = some (h.pointerText ⟨1, h.display target⟩)) :
    resolve h r t = .ok target := by
  simp only [resolve, pointerTarget, ht, hpointer, hutf8]
  rfl

theorem attains_writePointer (hplaced : Placed r source target)
    (hpointer : ∀ p, h.readPointer (h.pointerText p) = .ok p)
    (hutf8 : h.absolutePath (h.display target) = some target)
    (hs : Holds h r w source source C s)
    (hready : Ready h w source target D (dbPath target) s) :
    (writePointer h r target).Attains s
      (fun t ↦ Holds h r w source source C t ∨ Holds h r w source target D t) fun _ t ↦
        Holds h r w source target D t := by
  unfold writePointer
  refine (keeps_touch.attains (R := Eq) fun x hx ↦ hx ▸ .inl hs).bind fun _ t _ ht ↦ ?_
  cases ht
  refine ((hs.attains_run (P := fun k ↦ k ≠ child r.configDir (pointerFileName ++ ".tmp"))
    (keeps_writeFile (fun hself ↦ hself rfl) _) (brittle_writeFile _) fun k hk heq ↦
      not_guarded_config hplaced.sourceConfig (by decide) (by decide) (heq ▸ hk)).weaken
        fun _ ↦ .inl).bind fun _ u _ hwrite ↦ ?_
  obtain ⟨hspares, hrun⟩ := hwrite
  rw [run_writeFile] at hrun
  cases hrun
  let tmp := child r.configDir (pointerFileName ++ ".tmp")
  have hu : Holds h r w source source C (s.write tmp (h.pointerText ⟨1, h.display target⟩)) :=
    hs.spares fun k hk ↦ hspares k fun heq ↦
      not_guarded_config hplaced.sourceConfig (by decide) (by decide) (heq ▸ hk)
  have huready := hready.spares hspares (fun heq ↦ absurd (child_inj.1 heq).2 (by decide))
    (fun heq ↦ absurd (child_inj.1 heq).2 (by decide))
    fun k hk ↦ docs_ne_config hplaced.targetConfig (by decide) hk
  have htmp : (s.write tmp (h.pointerText ⟨1, h.display target⟩)).read tmp =
      some (h.pointerText ⟨1, h.display target⟩) := Disk.read_write_self
  generalize s.write tmp (h.pointerText ⟨1, h.display target⟩) = u at hu huready htmp
  refine (keeps_touch.attains (R := Eq) fun x hx ↦ hx ▸ .inl hu).bind fun _ v _ hv ↦ ?_
  cases hv
  have hrename : (renameFile tmp r.pointerPath : Fs Unit).Attains u
      (fun t ↦ Holds h r w source source C t ∨ Holds h r w source target D t) fun _ t ↦
        Holds h r w source target D t := by
    have hswapped : Holds h r w source target D (u.rename tmp r.pointerPath) := by
      have hspares' : Spares (fun k ↦ k ≠ tmp ∧ k ≠ r.pointerPath) u (u.rename tmp r.pointerPath) :=
        spares_rename (fun hself ↦ hself.1 rfl) (fun hself ↦ hself.2 rfl) u
      refine Ready.holds (huready.spares hspares' ?_ ?_ fun k hk ↦ ?_)
        (resolve_of_pointer hpointer hutf8 (Disk.read_rename_self htmp))
      · exact ⟨fun heq ↦ absurd (child_inj.1 heq).2 (by decide),
          fun heq ↦ absurd (child_inj.1 heq).2 (by decide)⟩
      · exact ⟨fun heq ↦ absurd (child_inj.1 heq).2 (by decide),
          fun heq ↦ absurd (child_inj.1 heq).2 (by decide)⟩
      · exact ⟨docs_ne_config hplaced.targetConfig (by decide) hk,
          docs_ne_config hplaced.targetConfig (by decide) hk⟩
    exact attains_atomically (.inl hu) ((ensures_modify _).2 ⟨.inr hswapped, hswapped⟩)
  refine hrename.bind fun _ x hx hnew ↦ ?_
  exact (keeps_touch.attains (R := Eq) fun y hy ↦ hy ▸ hx).mono fun _ y _ hy ↦ hy ▸ hnew

theorem keeps_removeOld {files : List Path} (hP : ∀ f ∈ files, ¬P f) (failed : Option String) :
    (removeOld h failed files).Keeps (Spares P) := by
  induction files generalizing failed with
  | nil => exact keeps_pure _
  | cons f files ih =>
    rw [List.forall_mem_cons] at hP
    refine (keeps_query _).bind fun found ↦ Keeps.ite (fun _ ↦ ?_) fun _ ↦ ih hP.2 failed
    refine (keeps_removeFile hP.1).attempt.bind fun outcome ↦ ?_
    cases outcome with
    | ok a => exact ih hP.2 failed
    | error e => exact ih hP.2 _

theorem keeps_removeAll {files : List Path} (hP : ∀ f ∈ files, ¬P f) :
    (removeAll files).Keeps (Spares P) := by
  induction files with
  | nil => exact keeps_pure _
  | cons f files ih =>
    rw [List.forall_mem_cons] at hP
    exact (keeps_removeFile hP.1).bind fun _ ↦ ih hP.2

theorem keeps_removeDirAll (hP : ∀ k, dir <+: k → ¬P k) :
    (removeDirAll dir).Keeps (Spares P) := by
  intro s
  refine survives_query_bind _ (keeps_removeAll (fun f hf ↦ hP f ?_) s)
  rw [walkFiles, Disk.mem_list, decide_eq_true_eq] at hf
  exact hf.2.1

theorem free_of_source (hplaced : Placed r source target) (hne : target ≠ source) :
    ∀ f ∈ dbFiles source, ¬Guarded r target f := by
  intro f hf
  obtain ⟨suffix, hsuffix, rfl⟩ := List.mem_map.1 hf
  refine not_guarded_child hplaced.apart (fun heq ↦ absurd heq.symm hne) ?_
  rcases List.mem_cons.1 hsuffix with rfl | hsuffix
  · decide
  · rcases List.mem_cons.1 hsuffix with rfl | hsuffix
    · decide
    · obtain rfl := List.mem_singleton.1 hsuffix
      decide

/-- Once the pointer is swapped, nothing that goes wrong harms the new folder. -/
theorem attains_finishMove {prepared : PreparedCopy}
    (hplaced : Placed r prepared.source prepared.target) (hne : prepared.target ≠ prepared.source)
    (hinside : ¬prepared.source <+: prepared.target)
    (hs : Holds h r w prepared.source prepared.target D s) :
    (finishMove h r prepared).Attains s (Holds h r w prepared.source prepared.target D)
      fun _ t ↦ Holds h r w prepared.source prepared.target D t := by
  unfold finishMove
  refine attains_query_bind _ (attains_ofExcept_bind hs fun resolved _ ↦
    attains_ofExcept_bind hs fun _ _ ↦ ?_)
  have hdocs : ∀ k, documentsDir prepared.source <+: k → ¬Guarded r prepared.target k := fun k hk ↦
    not_guarded_store hne.symm hplaced.apart (fun hprefix ↦
      hinside ((List.prefix_append _ _).trans hprefix)) hplaced.sourceConfig hk
  have hjournal : ¬Guarded r prepared.target r.moveJournalPath :=
    not_guarded_config hplaced.targetConfig (by decide) (by decide)
  refine (hs.attains (keeps_removeOld (free_of_source hplaced hne) none) fun _ hk ↦ hk).bind
    fun failed v hv _ ↦ ?_
  refine (hv.attains (keeps_removeDirAll hdocs).attempt fun _ hk ↦ hk).bind fun outcome x hx _ ↦ ?_
  refine (hx.attains (keeps_removeFile hjournal).attempt fun _ hk ↦ hk).bind fun _ y hy _ ↦ ?_
  exact attains_pure hy hy

theorem attains_commitMove {prepared : PreparedCopy}
    (hplaced : Placed r prepared.source prepared.target) (hne : prepared.target ≠ prepared.source)
    (hinside : ¬prepared.source <+: prepared.target)
    (hpointer : ∀ p, h.readPointer (h.pointerText p) = .ok p)
    (hutf8 : h.absolutePath (h.display prepared.target) = some prepared.target)
    (hs : Holds h r w prepared.source prepared.source C s)
    (hready : Ready h w prepared.source prepared.target D (partialPath prepared.target) s) :
    (commitMove h r prepared).Attains s
      (fun t ↦ Holds h r w prepared.source prepared.source C t ∨
        Holds h r w prepared.source prepared.target D t) fun _ t ↦
          Holds h r w prepared.source prepared.target D t := by
  refine ((attains_beginCommit hplaced hne hinside rfl hs hready).keep.weaken
    fun _ ↦ .inl).bind fun _ t _ hbegun ↦ ?_
  obtain ⟨ht, htready⟩ := hbegun
  refine (attains_writePointer hplaced hpointer hutf8 ht htready).bind fun _ u _ hu ↦ ?_
  exact (attains_finishMove hplaced hne hinside hu).weaken fun _ ↦ .inr

end Commit

/-- Whatever goes wrong in a move, and wherever it stops, the pointer names a folder with every
document and with the contents of the database: the old folder, or the new one once the copy was
verified. In the new one the paths of the documents are re-pointed, unless SQLite could not fold
the log of the copy. -/
theorem moveDataDir_crash_safe (hdurable : Durable h)
    (hpointer : ∀ p, h.readPointer (h.pointerText p) = .ok p)
    (hutf8 : h.absolutePath (h.display target) = some target) (hplaced : Placed r source target)
    (hsource : resolve h r w = .ok source)
    (hcontents : contentsAt h (dbPath source) (walPath source) w = some c)
    (hcut : w.read (partialWalPath target) = none)
    (hlog : w.read (dbPath target) = none → w.read (walPath target) = none)
    (fates : Fates MoveFault) :
    Holds h r w source source (fun c' ↦ c' = c) ((moveDataDir h r target).exec fates w).2.1 ∨
      Holds h r w source target (fun c' ↦ c' = c ∨ localized h source target c = .ok c')
        ((moveDataDir h r target).exec fates w).2.1 := by
  have hs : Holds h r w source source (fun c' ↦ c' = c) w :=
    ⟨hsource, ⟨c, hcontents, rfl⟩, fun _ _ _ hb ↦ hb⟩
  have hmove : (moveDataDir h r target).Attains w
      (fun t ↦ Holds h r w source source (fun c' ↦ c' = c) t ∨
        Holds h r w source target (fun c' ↦ c' = c ∨ localized h source target c = .ok c') t)
      fun _ _ ↦ True := by
    refine ((attains_prepareCopy hdurable hs hplaced hcut hlog).keep.weaken
      fun _ ↦ .inl).bind fun prepared t _ hprepared ↦ ?_
    obtain ⟨ht, rfl, rfl, hne, hinside, hready⟩ := hprepared
    refine (attains_commitMove hplaced hne hinside hpointer hutf8 ht ?_).mono fun _ _ _ _ ↦ trivial
    obtain ⟨⟨main, c', hmain, hread, c, rfl, hc'⟩, hlog, hstore⟩ := hready
    exact ⟨⟨main, c', hmain, hread, hc'⟩, hlog, hstore⟩
  exact hmove.exec_store fates

section Witness

open Model.PlainDataDir

theorem plainMoveHost_durable : Durable plainMoveHost where
  append _ _ _ c' _ := read_text _ c'
  fold main log c hread := by
    cases log with
    | nil => exact hread
    | cons mark contents => exact hread
  refold main log c hread := by
    cases log with
    | nil => exact hread
    | cons mark contents => exact hread
  empty _ := rfl

theorem readPointer_pointerText (p : PointerFile) :
    plainMoveHost.readPointer (plainMoveHost.pointerText p) = .ok p := by
  have hread : read pointerCode (text pointerCode p) = some p := read_text _ p
  simp only [plainMoveHost, hread]

def plainContents : Contents where
  appliedMigrations := [1]
  documents := [⟨"slip", "/data/documents/slip.pdf"⟩, ⟨"scan", "/scans/scan.pdf"⟩]
  auditLog := []
  others := []

def plainDisk : Disk Path where
  files := [(dbPath ["data"], text contentsCode plainContents),
    (["data", "documents", "slip.pdf"], [37, 80, 68, 70]), (["scans", "scan.pdf"], [37, 80])]

def stopAfter (n : ℕ) : Fates MoveFault :=
  fun k ↦ if k < n then .commits else .stops

theorem contentsAt_plainDisk :
    contentsAt plainMoveHost (dbPath ["data"]) (walPath ["data"]) plainDisk = some plainContents :=
  read_text contentsCode plainContents

theorem placed_backup : Placed plainResolver ["data"] ["backup"] :=
  ⟨by decide, by decide, by decide⟩

theorem moveDataDir_crash_safe_backup :
    Holds plainMoveHost plainResolver plainDisk ["data"] ["data"] (fun c' ↦ c' = plainContents)
        ((moveDataDir plainMoveHost plainResolver ["backup"]).exec (stopAfter 20) plainDisk).2.1 ∨
      Holds plainMoveHost plainResolver plainDisk ["data"] ["backup"]
        (fun c' ↦ c' = plainContents ∨
          localized plainMoveHost ["data"] ["backup"] plainContents = .ok c')
        ((moveDataDir plainMoveHost plainResolver ["backup"]).exec (stopAfter 20) plainDisk).2.1 :=
  moveDataDir_crash_safe plainMoveHost_durable readPointer_pointerText (by decide) placed_backup rfl
    contentsAt_plainDisk rfl (fun _ ↦ rfl) (stopAfter 20)

end Witness

end SlipScan.Storage.DataMove
