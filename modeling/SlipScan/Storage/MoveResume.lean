import SlipScan.Storage.DataMove

namespace SlipScan.Storage.MoveResume

open Model.DataDir Model.DataDir.DataDirResolver Foundation.Files Foundation.Interleaving
  Foundation.Table Foundation.Transaction Process DataMove

variable {h : MoveHost} {r : DataDirResolver} {source target dir k : Path} {w s t : Disk Path}
  {c c' : Contents} {C D : Contents → Prop} {P : Path → Prop}

section Vouched

/-- What an interrupted move leaves at its target: a database only with the journal that vouches
for it, and no log. -/
structure Vouched (h : MoveHost) (r : DataDirResolver) (source target : Path) (t : Disk Path) :
    Prop where
  db : (t.read (dbPath target)).isSome → JournalMatches h r t source target
  log : t.read (walPath target) = none

def Watched (r : DataDirResolver) (target k : Path) : Prop :=
  k = r.moveJournalPath ∨ k = dbPath target ∨ k = walPath target

theorem journalMatches_congr (hjournal : t.read r.moveJournalPath = s.read r.moveJournalPath)
    (hdb : t.read (dbPath target) = s.read (dbPath target)) :
    JournalMatches h r t source target ↔ JournalMatches h r s source target := by
  simp only [JournalMatches, readMoveJournal, hjournal, hdb]

/-- The watched files stay, or those of the database go. -/
def Thins (r : DataDirResolver) (target : Path) (s t : Disk Path) : Prop :=
  t.read r.moveJournalPath = s.read r.moveJournalPath ∧
    ∀ k, k = dbPath target ∨ k = walPath target → t.read k = s.read k ∨ t.read k = none

instance isPreorder_thins (r : DataDirResolver) (target : Path) :
    IsPreorder (Disk Path) (Thins r target) where
  refl _ := ⟨rfl, fun _ _ ↦ .inl rfl⟩
  trans _ _ _ h h' := ⟨h'.1.trans h.1, fun k hk ↦ by
    rcases h'.2 k hk with heq | hnone
    · rw [heq]
      exact h.2 k hk
    · exact .inr hnone⟩

theorem Vouched.thins (hs : Vouched h r source target s) (hthins : Thins r target s t) :
    Vouched h r source target t := by
  obtain ⟨hjournal, hfiles⟩ := hthins
  refine ⟨fun hfound ↦ ?_, ?_⟩
  · rcases hfiles _ (.inl rfl) with hdb | hnone
    · rw [hdb] at hfound
      exact (journalMatches_congr hjournal hdb).2 (hs.db hfound)
    · simp [hnone] at hfound
  · rcases hfiles _ (.inr rfl) with hlog | hnone
    · exact hlog.trans hs.log
    · exact hnone

theorem thins_of_spares (hspares : Spares P s t) (hP : ∀ k, Watched r target k → P k) :
    Thins r target s t := by
  refine ⟨hspares _ (hP _ (.inl rfl)), fun k hk ↦ .inl (hspares k (hP k ?_))⟩
  exact .inr hk

theorem moveJournalPath_ne {name : String} (hname : name ≠ moveJournalFileName) :
    child dir name ≠ r.moveJournalPath :=
  fun heq ↦ hname (child_inj.1 heq).2

theorem not_watched_child {name : String} (hname : name ≠ moveJournalFileName)
    (hfiles : dir = target → name ≠ dbFileName ∧ name ≠ dbFileName ++ "-wal") :
    ¬Watched r target (child dir name) := by
  rintro (hk | hk | hk)
  · exact moveJournalPath_ne hname hk
  · exact (hfiles (child_inj.1 hk).1).1 (child_inj.1 hk).2
  · exact (hfiles (child_inj.1 hk).1).2 (child_inj.1 hk).2

theorem keeps_thins {α : Type} {p : Fs α} (hp : p.Keeps (Spares P))
    (hP : ∀ k, Watched r target k → P k) : p.Keeps (Thins r target) :=
  hp.mono fun _ _ hspares ↦ thins_of_spares hspares hP

theorem keeps_removeExisting_thins {files : List Path}
    (hfiles : ∀ f ∈ files, f ≠ r.moveJournalPath) :
    (removeExisting files).Keeps (Thins r target) := by
  induction files with
  | nil => exact keeps_pure ()
  | cons f files ih =>
    rw [List.forall_mem_cons] at hfiles
    refine ((keeps_query _).bind fun _ ↦ Keeps.ite (fun _ ↦ ?_) fun _ ↦ keeps_pure ()).bind
      fun _ ↦ ih hfiles.2
    refine keeps_modify fun d ↦ ⟨Disk.read_remove_of_ne hfiles.1.symm, fun k _ ↦ ?_⟩
    by_cases hk : k = f
    · exact .inr (hk ▸ Disk.read_remove_self)
    · exact .inl (Disk.read_remove_of_ne hk)

theorem keeps_validateTarget : (validateTarget h r target).Keeps (Thins r target) := by
  unfold validateTarget
  have hprobe : ¬Watched r target (child target (".slipscan-write-probe-" ++ h.newId)) :=
    not_watched_child (probe_ne (by decide)) fun _ ↦ ⟨probe_ne (by decide), probe_ne (by decide)⟩
  have hjournal : ∀ f ∈ dbFiles target, f ≠ r.moveJournalPath := by
    intro f hf
    obtain ⟨suffix, hsuffix, rfl⟩ := List.mem_map.1 hf
    refine moveJournalPath_ne ?_
    rcases List.mem_cons.1 hsuffix with rfl | hsuffix
    · decide
    · rcases List.mem_cons.1 hsuffix with rfl | hsuffix
      · decide
      · obtain rfl := List.mem_singleton.1 hsuffix
        decide
  refine (keeps_query _).bind fun resolved ↦ (keeps_ofExcept _).bind fun source ↦
    (keeps_query _).bind fun checked ↦ (keeps_ofExcept _).bind fun _ ↦ keeps_touch.bind fun _ ↦
      (keeps_ofExcept _).bind fun _ ↦ ?_
  refine (keeps_thins (keeps_probeTarget hprobe) fun _ hk ↦ hk).bind fun _ ↦ Keeps.bind ?_
    fun _ ↦ keeps_pure _
  refine (keeps_query _).bind fun found ↦ Keeps.ite (fun _ ↦ ?_) fun _ ↦ keeps_pure ()
  refine (keeps_query _).bind fun vouched ↦ Keeps.ite (fun _ ↦ ?_) fun _ ↦ keeps_ofExcept _
  exact keeps_removeExisting_thins hjournal

theorem keeps_lockAndQuiesceSource {db wal : Path} (hdb : ¬P db) (hwal : ¬P wal) :
    (lockAndQuiesceSource h db wal).Keeps (Spares P) := by
  refine Keeps.ite (fun _ ↦ keeps_ofExcept _) fun _ ↦ (keeps_query _).bind fun opened ↦ ?_
  cases opened with
  | none => exact keeps_ofExcept _
  | some contents =>
    refine (keeps_query _).bind fun log ↦ Keeps.ite (fun _ ↦ ?_) fun _ ↦ keeps_pure ()
    exact (keeps_checkpoint hdb).bind fun _ ↦ keeps_modify fun d ↦ spares_write hwal d []

theorem keeps_checkAndLocalizeCopy {oldDocs : List Path} (hcut : ¬P (partialPath target))
    (hwal : ¬P (partialWalPath target)) :
    (checkAndLocalizeCopy h source target oldDocs).Keeps (Spares P) :=
  (keeps_localizeCopy hwal).attempt.bind fun _ ↦ (keeps_closeDatabase hcut hwal).bind fun _ ↦
    keeps_ofExcept _

theorem not_watched_docs (hconfig : ¬documentsDir target <+: r.configDir)
    (hk : documentsDir target <+: k) : ¬Watched r target k := by
  rintro (rfl | rfl | rfl)
  · exact docs_ne_config hconfig (by decide) hk rfl
  · exact docs_ne_child (by decide) hk rfl
  · exact docs_ne_child (by decide) hk rfl

/-- The copy does not touch what a move before it left, once that is cleared. -/
theorem attains_prepareCopy_vouched (hs : Holds h r w source source C s)
    (hplaced : Placed r source target) (hcut : s.read (partialWalPath target) = none)
    (hvouched : Vouched h r source target s) :
    (prepareCopy h r target).Attains s (Vouched h r source target) fun _ t ↦
      t.read (dbPath target) = none := by
  unfold prepareCopy
  have hvalid := (attains_validateTarget hs hcut fun _ ↦ hvouched.log).and
    (keeps_validateTarget.attains (s := s) fun _ ht ↦ hvouched.thins ht)
  refine (hvalid.weaken fun _ ht ↦ ht.2).bind fun a t ht hpost ↦ ?_
  obtain ⟨⟨rfl, hne, -, -, hdb, -⟩, -⟩ := hpost
  have hkeep : ∀ {α : Type} {p : Fs α}, p.Keeps (Spares (Watched r target)) →
      p.Attains t (Vouched h r a target) fun _ u ↦ u.read (dbPath target) = none := fun hp ↦
    (hp.attains fun _ hu ↦ ht.thins (thins_of_spares hu fun _ hk ↦ hk)).mono fun _ _ _ hu ↦
      (hu _ (.inr (.inl rfl))).trans hdb
  refine hkeep ?_
  refine (keeps_lockAndQuiesceSource ?_ ?_).bind fun _ ↦ (keeps_copyFileVerified ?_).bind
    fun bytes ↦ (keeps_query _).bind fun files ↦ keeps_touch.bind fun _ ↦
      (keeps_copyDocuments ?_ _).bind fun copied ↦ (keeps_checkAndLocalizeCopy ?_ ?_).bind fun _ ↦
        keeps_pure _
  · exact not_watched_child (by decide) fun heq ↦ absurd heq.symm hne
  · exact not_watched_child (by decide) fun heq ↦ absurd heq.symm hne
  · exact not_watched_child (by decide) fun _ ↦ by decide
  · exact fun k hk ↦ not_watched_docs hplaced.targetConfig hk
  · exact not_watched_child (by decide) fun _ ↦ by decide
  · exact not_watched_child (by decide) fun _ ↦ by decide

theorem attains_writeMoveJournal {journal : MoveJournal} (hP : ¬P r.moveJournalPath) :
    (writeMoveJournal h r journal).Attains s (Spares P s) fun _ t ↦
      Spares P s t ∧ t.read r.moveJournalPath = some (h.journalText journal) := by
  unfold writeMoveJournal
  have hs : Spares P s s := fun _ _ ↦ rfl
  refine (keeps_touch.attains (R := Eq) fun t ht ↦ ht ▸ hs).bind fun _ t _ ht ↦ ?_
  cases ht
  refine ((brittle_writeFile _).attains (keeps_writeFile hP _) fun _ ht ↦ ht).bind
    fun _ t ht hwrite ↦ ?_
  obtain ⟨-, hrun⟩ := hwrite
  rw [run_writeFile] at hrun
  cases hrun
  refine (keeps_touch.attains (R := Eq) fun t hst ↦ hst ▸ ht).bind fun _ u _ hu ↦ ?_
  cases hu
  refine (keeps_touch.attains (R := Eq) fun t hst ↦ hst ▸ ht).mono fun _ u _ hu ↦ ?_
  cases hu
  exact ⟨ht, Disk.read_write_self⟩

theorem attains_beginCommit_vouched (hjournal : ∀ j, h.readJournal (h.journalText j) = some j)
    {prepared : PreparedCopy} (hdb : s.read (dbPath prepared.target) = none)
    (hlog : s.read (walPath prepared.target) = none) :
    (beginCommit h r prepared).Attains s (Vouched h r prepared.source prepared.target) fun _ t ↦
      Vouched h r prepared.source prepared.target t := by
  have hfree : ∀ t, Spares (fun k ↦ k ≠ r.moveJournalPath) s t →
      Vouched h r prepared.source prepared.target t := fun t ht ↦ by
    refine ⟨fun hfound ↦ ?_, ?_⟩
    · rw [ht (dbPath prepared.target) (moveJournalPath_ne (by decide)), hdb] at hfound
      cases hfound
    · exact (ht (walPath prepared.target) (moveJournalPath_ne (by decide))).trans hlog
  have hs := hfree s fun _ _ ↦ rfl
  unfold beginCommit
  refine attains_query_bind _ ?_
  cases hcopy : s.read (partialPath prepared.target) with
  | none => exact attains_error hs
  | some copy =>
    refine ((attains_writeMoveJournal fun hself ↦ hself rfl).weaken hfree).bind fun _ t _ ht ↦ ?_
    obtain ⟨hspares, htext⟩ := ht
    have htcopy : t.read (partialPath prepared.target) = some copy :=
      (hspares _ (moveJournalPath_ne (by decide))).trans hcopy
    have hrenamed : Vouched h r prepared.source prepared.target
        (t.rename (partialPath prepared.target) (dbPath prepared.target)) := by
      have hread : (t.rename (partialPath prepared.target) (dbPath prepared.target)).read
          r.moveJournalPath = t.read r.moveJournalPath := by
        have hdb : dbPath prepared.target ≠ r.moveJournalPath := moveJournalPath_ne (by decide)
        have hcopy : partialPath prepared.target ≠ r.moveJournalPath :=
          moveJournalPath_ne (by decide)
        exact Disk.read_rename_of_ne hdb.symm hcopy.symm
      let journal : MoveJournal :=
        ⟨1, h.display prepared.source, h.display prepared.target, h.sha256 copy⟩
      refine ⟨fun _ ↦ ⟨journal, Option.mem_def.2 ?_, rfl, rfl, ?_⟩, ?_⟩
      · rw [readMoveJournal, hread, htext, Option.bind_some, hjournal]
      · rw [Disk.read_rename_self htcopy]
        rfl
      · rw [Disk.read_rename_of_ne walPath_ne_dbPath walPath_ne_partialPath]
        exact (hfree t hspares).log
    have hrename : (renameFile (partialPath prepared.target) (dbPath prepared.target) :
        Fs Unit).Attains t (Vouched h r prepared.source prepared.target) fun _ u ↦
          Vouched h r prepared.source prepared.target u :=
      attains_atomically (hfree t hspares) ((ensures_modify _).2 ⟨hrenamed, hrenamed⟩)
    refine hrename.bind fun _ u hu _ ↦ ?_
    exact (keeps_touch.attains (R := Eq) fun x hx ↦ hx ▸ hu).mono fun _ x hx _ ↦ hx

theorem keeps_writePointer : (writePointer h r dir).Keeps (Thins r target) := by
  refine keeps_thins (P := Watched r target) ?_ fun _ hk ↦ hk
  have htmp : ¬Watched r target (child r.configDir (pointerFileName ++ ".tmp")) :=
    not_watched_child (by decide) fun _ ↦ by decide
  have hpointer : ¬Watched r target r.pointerPath :=
    not_watched_child (by decide) fun _ ↦ by decide
  exact keeps_touch.bind fun _ ↦ (keeps_writeFile htmp _).bind fun _ ↦ keeps_touch.bind fun _ ↦
    (keeps_renameFile htmp hpointer).bind fun _ ↦ keeps_touch

/-- A move that does not reach the swap of the pointer leaves at its target what the next one
recognises as its own. -/
theorem attains_moveDataDir (hdurable : Durable h)
    (hpointer : ∀ p, h.readPointer (h.pointerText p) = .ok p)
    (hjournal : ∀ j, h.readJournal (h.journalText j) = some j)
    (hutf8 : h.absolutePath (h.display target) = some target) (hplaced : Placed r source target)
    (hs : Holds h r w source source C s) (hcut : s.read (partialWalPath target) = none)
    (hvouched : Vouched h r source target s) :
    (moveDataDir h r target).Attains s
      (fun t ↦ Holds h r w source source C t ∧ Vouched h r source target t ∨
        resolve h r t = .ok target) fun _ _ ↦ True := by
  refine ((((attains_prepareCopy hdurable hs hplaced hcut fun _ ↦ hvouched.log).and
    (attains_prepareCopy_vouched hs hplaced hcut hvouched)).keep).weaken fun _ ↦ .inl).bind
      fun prepared t _ hprepared ↦ ?_
  obtain ⟨⟨ht, htvouched⟩, ⟨rfl, rfl, hne, hinside, hready⟩, hdb⟩ := hprepared
  have hbegin := (attains_beginCommit hplaced hne hinside rfl ht hready).and
    (attains_beginCommit_vouched (r := r) hjournal hdb htvouched.log)
  refine (hbegin.keep.weaken fun _ ↦ .inl).bind fun _ u _ hu ↦ ?_
  obtain ⟨⟨hu, huvouched⟩, huready, -⟩ := hu
  have hpoint := (attains_writePointer hplaced hpointer hutf8 hu huready).and
    (keeps_writePointer.attains (s := u) fun _ hx ↦ huvouched.thins hx)
  refine (hpoint.weaken fun x hx ↦ hx.1.imp (fun hold ↦ ⟨hold, hx.2⟩) fun hnew ↦
    hnew.resolves).bind fun _ x _ hx ↦ ?_
  exact ((attains_finishMove hplaced hne hinside hx.1).weaken fun _ hy ↦ .inr hy.resolves).mono
    fun _ _ _ _ ↦ trivial

end Vouched

section Completes

theorem completes_touch : (touch : Fs Unit).Completes s fun _ t ↦ t = s :=
  (completes_of_run (run_touch s)).mono fun _ _ ht ↦ ht.2

theorem completes_removeFile : (removeFile k : Fs Unit).Completes s fun _ t ↦ t = s.remove k :=
  (completes_of_run (run_removeFile s)).mono fun _ _ ht ↦ ht.2

theorem completes_writeFile {content : Bytes} :
    (writeFile k content : Fs Unit).Completes s fun _ t ↦ t = s.write k content :=
  (completes_of_run (run_writeFile s content)).mono fun _ _ ht ↦ ht.2

theorem completes_renameFile :
    (renameFile dir k : Fs Unit).Completes s fun _ t ↦ t = s.rename dir k :=
  (completes_of_run (run_renameFile s)).mono fun _ _ ht ↦ ht.2

theorem completes_probeTarget : (probeTarget h target).Completes s fun _ _ ↦ True := by
  unfold probeTarget
  refine (completes_writeFile.bind fun _ t _ ↦ completes_removeFile.mono
    fun _ _ _ ↦ trivial).attempt_bind (P := fun _ _ ↦ True) fun _ _ _ ↦ ?_
  exact completes_pure trivial

theorem completes_clearTarget (hvouched : (s.read (dbPath target)).isSome →
    JournalMatches h r s source target) :
    (clearTarget h r target source).Completes s fun _ _ ↦ True := by
  unfold clearTarget
  refine completes_query_bind _ ?_
  split_ifs with hfound
  · refine completes_query_bind _ ?_
    rw [decide_eq_true (hvouched hfound)]
    exact ⟨_, _, run_removeExisting, trivial⟩
  · exact completes_pure trivial

theorem completes_validateTarget (hs : Holds h r w source source C s) (hne : target ≠ source)
    (hinside : ¬source <+: target) (hvouched : (s.read (dbPath target)).isSome →
      JournalMatches h r s source target) :
    (validateTarget h r target).Completes s fun a _ ↦ a = source := by
  have hsource : checkSource h source s = .ok () := by
    obtain ⟨c, hcontents, -⟩ := hs.contents
    rw [contentsAt, Option.bind_eq_some_iff] at hcontents
    obtain ⟨main, hmain, -⟩ := hcontents
    rw [checkSource, hmain]
    rfl
  have hprobe : (probeTarget h target).Keeps
      (Spares fun k ↦ k ≠ child target (".slipscan-write-probe-" ++ h.newId)) :=
    keeps_probeTarget fun hself ↦ hself rfl
  unfold validateTarget
  refine completes_query_bind _ (completes_ofExcept_bind hs.resolves ?_)
  refine completes_query_bind _ (completes_ofExcept_bind hsource ?_)
  refine completes_touch.bind fun _ t ht ↦ ?_
  cases ht
  refine completes_ofExcept_bind (checkApart_eq_ok.2 ⟨hne, hinside⟩) ?_
  refine (completes_probeTarget.keeps hprobe).bind fun _ t ht ↦ ?_
  have hsame : ∀ {dir name}, ".slipscan-write-probe-" ++ h.newId ≠ name →
      t.read (child dir name) = s.read (child dir name) := fun hname ↦
    ht.2 _ fun heq ↦ hname (child_inj.1 heq).2.symm
  have hdb : t.read (dbPath target) = s.read (dbPath target) := hsame (probe_ne (by decide))
  have hjournal : t.read r.moveJournalPath = s.read r.moveJournalPath :=
    hsame (probe_ne (by decide))
  refine (completes_clearTarget fun hfound ↦ ?_).bind fun _ _ _ ↦ completes_pure rfl
  rw [hdb] at hfound
  exact (journalMatches_congr hjournal hdb).2 (hvouched hfound)

theorem completes_lockAndQuiesceSource {db wal : Path} (hfree : h.inUse db = false)
    (hs : contentsAt h db wal s = some c) :
    (lockAndQuiesceSource h db wal).Completes s fun _ _ ↦ True := by
  unfold lockAndQuiesceSource
  rw [if_neg (by simp [hfree])]
  refine completes_query_bind _ ?_
  rw [hs]
  refine completes_query_bind _ ?_
  split_ifs with hlog
  · rw [contentsAt, Option.bind_eq_some_iff] at hs
    obtain ⟨main, hmain, -⟩ := hs
    obtain ⟨log, hlog⟩ := Option.isSome_iff_exists.1 hlog
    have hfold : (checkpoint h db wal).Completes s fun _ _ ↦ True := by
      refine completes_atomically ?_
      rw [checkpointTx, succeeds_bind, succeeds_get, hmain, hlog]
      exact (succeeds_modify _).2 trivial
    exact hfold.bind fun _ _ _ ↦ completes_atomically ((succeeds_modify _).2 trivial)
  · exact completes_pure trivial

theorem completes_copyDocuments {src dst : Path} {files : List Path}
    (hdisjoint : ∀ k, dst <+: k → ¬src <+: k)
    (hfiles : ∀ f ∈ files, src <+: f ∧ (s.read f).isSome) (copied : ℕ × ℕ) :
    (copyDocuments h src dst copied files).Completes s fun _ _ ↦ True := by
  induction files generalizing s copied with
  | nil => exact completes_pure trivial
  | cons file files ih =>
    rw [List.forall_mem_cons] at hfiles
    obtain ⟨⟨⟨rel, rfl⟩, hsome⟩, hrest⟩ := hfiles
    obtain ⟨content, hcontent⟩ := Option.isSome_iff_exists.1 hsome
    have hcopy : (copyFileVerified h (src ++ rel) (dst ++ rel)).run s =
        (.ok content.length, s.write (dst ++ rel) content) :=
      copyFileVerified_eq_ok.2 ⟨content, hcontent, rfl, rfl⟩
    rw [copyDocuments, stripPrefix_append]
    refine (completes_of_run hcopy).bind fun bytes t ht ↦ ?_
    obtain ⟨-, rfl⟩ := ht
    refine ih (fun f hf ↦ ⟨(hrest f hf).1, ?_⟩) _
    have hne : f ≠ dst ++ rel := fun heq ↦
      hdisjoint f (heq ▸ List.prefix_append dst rel) (hrest f hf).1
    rw [Disk.read_write_of_ne hne]
    exact (hrest f hf).2

theorem completes_sqliteWrite (hdurable : Durable h) {db wal : Path} (hne : db ≠ wal)
    {f : Contents → Except MoveFault Contents} (hs : contentsAt h db wal s = some c)
    (hf : f c = .ok c') :
    (sqliteWrite h db wal f).Completes s fun _ t ↦
      contentsAt h db wal t = some c' ∧ (t.read wal).isSome := by
  have hread := hs
  rw [contentsAt, Option.bind_eq_some_iff] at hread
  obtain ⟨main, hmain, hread⟩ := hread
  have hwrite : (sqliteWrite h db wal f).Completes s fun _ t ↦ (t.read wal).isSome := by
    refine completes_atomically ?_
    rw [sqliteTx, succeeds_bind, succeeds_get, hmain]
    dsimp only
    rw [hread]
    dsimp only
    rw [hf, succeeds_bind, succeeds_check]
    refine ⟨c', rfl, (succeeds_modify _).2 ?_⟩
    rw [Disk.read_write_self]
    rfl
  obtain ⟨_, t, hrun, ht⟩ := hwrite
  obtain ⟨c'', hc'', hcontents, -⟩ := contentsAt_sqliteWrite hdurable hne hrun hs
  rw [hf] at hc''
  cases hc''
  exact ⟨_, t, hrun, hcontents, ht⟩

theorem completes_relocateRows (hdurable : Durable h) {oldDocs : List Path}
    {rows : List DocumentRow} {n : ℕ}
    (hs : contentsAt h (partialPath target) (partialWalPath target) s = some c) :
    (relocateRows h target oldDocs n rows).Completes s fun _ _ ↦ True := by
  induction rows generalizing n s c with
  | nil => exact completes_pure trivial
  | cons row rows ih =>
    unfold relocateRows
    cases relocated h target oldDocs row with
    | none => exact ih hs
    | some filePath =>
      exact (completes_sqliteWrite (f := fun c ↦ .ok (setFilePath row.id filePath c)) hdurable
        partialPath_ne hs rfl).bind fun _ t ht ↦ ih ht.1

theorem completes_localizeCopy (hdurable : Durable h)
    (hs : contentsAt h (partialPath target) (partialWalPath target) s = some c)
    (hlocal : localized h source target c = .ok c')
    (hsound : ∀ m, h.migrate c = .ok m → m.appliedMigrations ≠ [] ∧ h.integrityCheck m = "ok") :
    (localizeCopy h source target [documentsDir source, documentsDir source]).Completes s
      fun _ t ↦ contentsAt h (partialPath target) (partialWalPath target) t = some c' ∧
        (t.read (partialWalPath target)).isSome := by
  obtain ⟨m, hmigrate, haudit⟩ := except_bind_eq_ok.1 hlocal
  have hsoundm := hsound m (except_mapError_eq_ok.1 hmigrate)
  unfold localizeCopy
  refine (completes_sqliteWrite hdurable partialPath_ne hs hmigrate).bind fun _ t ht ↦ ?_
  refine completes_query_bind _ ?_
  rw [ht.1]
  dsimp only
  rw [if_neg hsoundm.1, if_neg (not_not.2 hsoundm.2)]
  have hrows : (relocateRows h target [documentsDir source, documentsDir source] 0
      m.documents).Completes t fun n u ↦
        n = relocatedRows h target [documentsDir source, documentsDir source] m.documents ∧
        contentsAt h (partialPath target) (partialWalPath target) u =
          some (relocateAll h target [documentsDir source, documentsDir source] m.documents m) := by
    obtain ⟨n, u, hrun, -⟩ := completes_relocateRows hdurable ht.1
    obtain ⟨hn, hcontents, -⟩ := contentsAt_relocateRows hdurable hrun ht.1
    exact ⟨n, u, hrun, hn.trans (Nat.zero_add _), hcontents⟩
  refine hrows.bind fun n u hu ↦ ?_
  obtain ⟨rfl, hcontents⟩ := hu
  refine (completes_sqliteWrite hdurable partialPath_ne hcontents haudit).bind fun _ v hv ↦ ?_
  exact completes_pure hv

theorem completes_checkAndLocalizeCopy (hdurable : Durable h)
    (hs : contentsAt h (partialPath target) (partialWalPath target) s = some c)
    (hlocal : localized h source target c = .ok c')
    (hsound : ∀ m, h.migrate c = .ok m → m.appliedMigrations ≠ [] ∧ h.integrityCheck m = "ok") :
    (checkAndLocalizeCopy h source target [documentsDir source, documentsDir source]).Completes s
      fun _ t ↦ ∃ main, t.read (partialPath target) = some main ∧
        h.readDatabase main none = some c' := by
  unfold checkAndLocalizeCopy
  refine (completes_localizeCopy hdurable hs hlocal hsound).attempt_bind fun n t ht ↦ ?_
  obtain ⟨hcontents, hlog⟩ := ht
  obtain ⟨log, hlog⟩ := Option.isSome_iff_exists.1 hlog
  rw [contentsAt, Option.bind_eq_some_iff] at hcontents
  obtain ⟨main, hmain, hread⟩ := hcontents
  rw [hlog] at hread
  have hfold : (checkpoint h (partialPath target) (partialWalPath target)).Completes t
      fun _ u ↦ u.read (partialPath target) = some (h.foldLog main log) := by
    refine completes_atomically ?_
    rw [checkpointTx, succeeds_bind, succeeds_get, hmain, hlog]
    exact (succeeds_modify _).2 Disk.read_write_self
  have hclose : (closeDatabase h (partialPath target) (partialWalPath target)).Completes t
      fun _ u ↦ u.read (partialPath target) = some (h.foldLog main log) := by
    refine (hfold.bind fun _ u hu ↦ completes_removeFile.mono fun _ v hv ↦ ?_).attempt_bind
      fun _ v hv ↦ completes_pure hv
    rw [hv, Disk.read_remove_of_ne partialPath_ne]
    exact hu
  refine hclose.bind fun _ u hu ↦ ?_
  exact ⟨n, u, run_ofExcept _ _, _, hu, hdurable.fold main log c' hread⟩

/-- The copy at its final state. -/
theorem completes_prepareCopy (hdurable : Durable h)
    (hs : Holds h r w source source (fun d ↦ d = c) s) (hplaced : Placed r source target)
    (hne : target ≠ source) (hinside : ¬source <+: target)
    (hcut : s.read (partialWalPath target) = none) (hvouched : Vouched h r source target s)
    (hfree : h.inUse (dbPath source) = false) (hlocal : localized h source target c = .ok c')
    (hsound : ∀ m, h.migrate c = .ok m → m.appliedMigrations ≠ [] ∧ h.integrityCheck m = "ok") :
    (prepareCopy h r target).Completes s fun _ t ↦
      ∃ main, t.read (partialPath target) = some main ∧ h.readDatabase main none = some c' := by
  unfold prepareCopy
  refine ((completes_validateTarget hs hne hinside hvouched.db).attains
    (attains_validateTarget hs hcut fun _ ↦ hvouched.log)).bind fun a t ht ↦ ?_
  obtain ⟨rfl, ht, -, -, -, hcut, -⟩ := ht
  obtain ⟨d, hcontents, rfl⟩ := ht.contents
  refine ((completes_lockAndQuiesceSource hfree hcontents).attains
    (attains_lockAndQuiesceSource hdurable ht)).bind fun _ u hu ↦ ?_
  obtain ⟨-, hu, ⟨main, c, hmain, hread, rfl⟩, hspares⟩ := hu
  have hupartial : u.read (partialWalPath target) = none :=
    (hspares _ ⟨fun heq ↦ absurd (child_inj.1 heq).2 (by decide),
      fun heq ↦ absurd (child_inj.1 heq).2 (by decide)⟩).trans hcut
  have hcopy : (copyFileVerified h (dbPath a) (partialPath target)).run u =
      (.ok main.length, u.write (partialPath target) main) :=
    copyFileVerified_eq_ok.2 ⟨main, hmain, rfl, rfl⟩
  refine (completes_of_run hcopy).bind fun bytes v hv ↦ ?_
  obtain ⟨-, rfl⟩ := hv
  -- the documents
  refine completes_query_bind _ (completes_touch.bind fun _ v hv ↦ ?_)
  cases hv
  have hdisjoint : ∀ k, documentsDir target <+: k → ¬documentsDir a <+: k := fun k hk hsrc ↦
    not_guarded_store hne (fun hprefix ↦ hinside ((List.prefix_append _ _).trans hprefix))
      hplaced.apart hplaced.targetConfig hk (.inr (.inr (.inr hsrc)))
  have hlisted : ∀ f ∈ walkFiles (u.write (partialPath target) main) (documentsDir a),
      documentsDir a <+: f ∧ ((u.write (partialPath target) main).read f).isSome := fun f hf ↦ by
    rw [walkFiles, Disk.mem_list, decide_eq_true_eq] at hf
    exact ⟨hf.2.1, hf.1⟩
  refine ((completes_copyDocuments hdisjoint hlisted _).keeps (keeps_copyDocuments
    (P := fun k ↦ ¬documentsDir target <+: k) (fun _ hk hnot ↦ hnot hk) _)).bind
      fun copied v hv ↦ ?_
  obtain ⟨-, hspares⟩ := hv
  have hvcontents : contentsAt h (partialPath target) (partialWalPath target) v = some c := by
    have hsame : ∀ {name}, name ≠ documentsDirName → v.read (child target name) =
        (u.write (partialPath target) main).read (child target name) := fun hname ↦
      hspares _ fun hk ↦ docs_ne_child hname hk rfl
    rw [contentsAt, partialPath, hsame (by decide), ← partialPath, Disk.read_write_self,
      partialWalPath, hsame (by decide), ← partialWalPath,
      Disk.read_write_of_ne partialPath_ne.symm, hupartial]
    exact hread
  refine (completes_checkAndLocalizeCopy hdurable hvcontents hlocal hsound).bind fun n x hx ↦ ?_
  exact completes_pure hx

theorem completes_writeMoveJournal {journal : MoveJournal} :
    (writeMoveJournal h r journal).Completes s fun _ _ ↦ True :=
  completes_touch.bind fun _ _ _ ↦ completes_writeFile.bind fun _ _ _ ↦
    completes_touch.bind fun _ _ _ ↦ completes_touch.mono fun _ _ _ ↦ trivial

theorem completes_beginCommit {prepared : PreparedCopy}
    (hs : (s.read (partialPath prepared.target)).isSome) :
    (beginCommit h r prepared).Completes s fun _ _ ↦ True := by
  obtain ⟨copy, hcopy⟩ := Option.isSome_iff_exists.1 hs
  unfold beginCommit
  refine completes_query_bind _ ?_
  rw [hcopy]
  exact completes_writeMoveJournal.bind fun _ _ _ ↦ completes_renameFile.bind fun _ _ _ ↦
    completes_touch.mono fun _ _ _ ↦ trivial

theorem completes_writePointer : (writePointer h r target).Completes s fun _ _ ↦ True :=
  completes_touch.bind fun _ _ _ ↦ completes_writeFile.bind fun _ _ _ ↦
    completes_touch.bind fun _ _ _ ↦ completes_renameFile.bind fun _ _ _ ↦
      completes_touch.mono fun _ _ _ ↦ trivial

theorem completes_removeOld {files : List Path} (failed : Option String) :
    (removeOld h failed files).Completes s fun outcome t ↦
      outcome = failed ∧ t = files.foldl Disk.remove s := by
  induction files generalizing s with
  | nil => exact completes_pure ⟨rfl, rfl⟩
  | cons f files ih =>
    unfold removeOld
    refine completes_query_bind _ ?_
    split_ifs with hf
    · refine completes_removeFile.attempt_bind fun _ t ht ↦ ?_
      cases ht
      exact ih
    · rw [Option.not_isSome_iff_eq_none] at hf
      rw [List.foldl_cons, Disk.remove_of_none hf]
      exact ih

theorem completes_removeAll {files : List Path} :
    (removeAll files).Completes s fun _ t ↦ t = files.foldl Disk.remove s := by
  induction files generalizing s with
  | nil => exact completes_pure rfl
  | cons f files ih =>
    refine completes_removeFile.bind fun _ t ht ↦ ?_
    cases ht
    exact ih

structure Emptied (dir : Path) (t : Disk Path) : Prop where
  db : ∀ f ∈ dbFiles dir, t.read f = none
  store : ∀ k, documentsDir dir <+: k → k ≠ documentsDir dir → t.read k = none

theorem completes_finishMove {prepared : PreparedCopy}
    (hs : resolve h r s = .ok prepared.target) :
    (finishMove h r prepared).Completes s fun report t ↦
      report.oldRemoved ∧ Emptied prepared.source t := by
  have hback : checkReadBack h prepared.target prepared.target = .ok () :=
    if_neg fun hself ↦ hself rfl
  unfold finishMove
  refine completes_query_bind _ (completes_ofExcept_bind hs ?_)
  refine completes_ofExcept_bind hback ?_
  refine (completes_removeOld none).bind fun failed t ht ↦ ?_
  obtain ⟨rfl, rfl⟩ := ht
  have hdir : ∀ t, (removeDirAll (documentsDir prepared.source)).Completes t fun _ u ↦
      u = (walkFiles t (documentsDir prepared.source)).foldl Disk.remove t := fun t ↦
    completes_query_bind _ completes_removeAll
  refine (hdir _).attempt_bind fun _ u hu ↦ ?_
  cases hu
  refine completes_removeFile.attempt_bind fun _ v hv ↦ ?_
  cases hv
  have hgone : ∀ {d : Disk Path} {k : Path}, d.read k = none →
      (d.remove r.moveJournalPath).read k = none := fun hk ↦ by
    rw [Disk.read_remove, hk, ite_self]
  refine completes_pure ⟨rfl, fun f hf ↦ hgone ?_, fun k hk hne ↦ hgone ?_⟩
  · rw [Disk.read_foldl_remove, Disk.read_foldl_remove, if_pos hf, ite_self]
  · rw [Disk.read_foldl_remove]
    split_ifs with hlisted
    · rfl
    · rw [walkFiles, Disk.mem_list, decide_eq_true_eq, not_and] at hlisted
      by_contra hfound
      exact hlisted (Option.isSome_iff_ne_none.2 hfound) ⟨hk, hne⟩

theorem completes_commitMove {prepared : PreparedCopy}
    (hplaced : Placed r prepared.source prepared.target) (hne : prepared.target ≠ prepared.source)
    (hinside : ¬prepared.source <+: prepared.target)
    (hpointer : ∀ p, h.readPointer (h.pointerText p) = .ok p)
    (hutf8 : h.absolutePath (h.display prepared.target) = some prepared.target)
    (hs : Holds h r w prepared.source prepared.source C s)
    (hready : Ready h w prepared.source prepared.target D (partialPath prepared.target) s) :
    (commitMove h r prepared).Completes s fun report t ↦
      report.oldRemoved ∧ Emptied prepared.source t ∧
        Holds h r w prepared.source prepared.target D t := by
  have hcopy : (s.read (partialPath prepared.target)).isSome := by
    obtain ⟨main, c, hmain, -⟩ := hready.contents
    rw [hmain]
    rfl
  unfold commitMove
  refine ((completes_beginCommit hcopy).attains (attains_beginCommit hplaced hne hinside rfl hs
    hready)).bind fun _ t ht ↦ ?_
  refine (completes_writePointer.attains (attains_writePointer hplaced hpointer hutf8 ht.2.1
    ht.2.2)).bind fun _ u hu ↦ ?_
  refine ((completes_finishMove hu.2.2.resolves).attains (attains_finishMove hplaced hne hinside
    hu.2.2)).mono fun report x hx ↦ ?_
  exact ⟨hx.1.1, hx.1.2, hx.2.1⟩

theorem completes_moveDataDir (hdurable : Durable h)
    (hpointer : ∀ p, h.readPointer (h.pointerText p) = .ok p)
    (hutf8 : h.absolutePath (h.display target) = some target) (hplaced : Placed r source target)
    (hne : target ≠ source) (hinside : ¬source <+: target)
    (hs : Holds h r w source source (fun d ↦ d = c) s) (hvouched : Vouched h r source target s)
    (hlog : s.read (partialWalPath target) = none) (hfree : h.inUse (dbPath source) = false)
    (hlocal : localized h source target c = .ok c')
    (hsound : ∀ m, h.migrate c = .ok m → m.appliedMigrations ≠ [] ∧ h.integrityCheck m = "ok") :
    (moveDataDir h r target).Completes s fun report t ↦
      report.oldRemoved ∧ Emptied source t ∧ Holds h r w source target (fun d ↦ d = c') t := by
  refine ((completes_prepareCopy hdurable hs hplaced hne hinside hlog hvouched hfree hlocal
    hsound).attains (attains_prepareCopy hdurable hs hplaced hlog fun _ ↦ hvouched.log)).bind
      fun prepared t ht ↦ ?_
  obtain ⟨⟨main, hmain, hread⟩, ht, rfl, rfl, -, -, hready⟩ := ht
  have hready' : Ready h w prepared.source prepared.target (fun d ↦ d = c')
      (partialPath prepared.target) t := ⟨⟨main, c', hmain, hread, rfl⟩, hready.log, hready.store⟩
  exact completes_commitMove hplaced hne hinside hpointer hutf8 ht hready'

end Completes

section Resume

def later (h : MoveHost) (newId nowIso : String) : MoveHost :=
  { h with newId, nowIso }

variable {newId nowIso : String}

theorem later_durable (hdurable : Durable h) : Durable (later h newId nowIso) :=
  ⟨hdurable.append, hdurable.fold, hdurable.refold, hdurable.empty⟩

theorem holds_later :
    Holds (later h newId nowIso) r w source dir C s ↔ Holds h r w source dir C s :=
  ⟨fun hs ↦ ⟨hs.resolves, hs.contents, hs.store⟩, fun hs ↦ ⟨hs.resolves, hs.contents, hs.store⟩⟩

theorem vouched_later :
    Vouched (later h newId nowIso) r source target s ↔ Vouched h r source target s :=
  ⟨fun hs ↦ ⟨hs.db, hs.log⟩, fun hs ↦ ⟨hs.db, hs.log⟩⟩

/-- What is left on the disk by moves of the folder to the target that were interrupted before the
swap of the pointer. -/
inductive Interrupted (h : MoveHost) (r : DataDirResolver) (source target : Path) (w : Disk Path) :
    Disk Path → Prop
  | start : Interrupted h r source target w w
  | again {s : Disk Path} (newId nowIso : String) (fates : Fates MoveFault)
      (hs : Interrupted h r source target w s) (hlog : s.read (partialWalPath target) = none)
      (hpointer : resolve h r ((moveDataDir (later h newId nowIso) r target).exec fates s).2.1 =
        .ok source) :
      Interrupted h r source target w
        ((moveDataDir (later h newId nowIso) r target).exec fates s).2.1

theorem Interrupted.resumable (hs : Interrupted h r source target w s) (hdurable : Durable h)
    (hpointer : ∀ p, h.readPointer (h.pointerText p) = .ok p)
    (hjournal : ∀ j, h.readJournal (h.journalText j) = some j)
    (hutf8 : h.absolutePath (h.display target) = some target) (hplaced : Placed r source target)
    (hne : target ≠ source) (hw : Holds h r w source source C w)
    (hvouched : Vouched h r source target w) :
    Holds h r w source source C s ∧ Vouched h r source target s := by
  induction hs with
  | start => exact ⟨hw, hvouched⟩
  | again newId nowIso fates hs hlog hstays ih =>
    have hrun := (attains_moveDataDir (h := later h newId nowIso) (later_durable hdurable) hpointer
      hjournal hutf8 hplaced (holds_later.2 ih.1) hlog (vouched_later.2 ih.2)).exec_store fates
    rcases hrun with ⟨hold, hkept⟩ | hnew
    · exact ⟨holds_later.1 hold, vouched_later.1 hkept⟩
    · exact absurd (Except.ok.inj (hnew.symm.trans hstays)) hne

/-- However often a move was interrupted before the swap of the pointer, it can be run again: when
nothing goes wrong, it ends with everything in the new folder and nothing in the old one. The log
of a copy that was interrupted while it was changed has to be gone. -/
theorem moveDataDir_resumes (hdurable : Durable h)
    (hpointer : ∀ p, h.readPointer (h.pointerText p) = .ok p)
    (hjournal : ∀ j, h.readJournal (h.journalText j) = some j)
    (hutf8 : h.absolutePath (h.display target) = some target) (hplaced : Placed r source target)
    (hne : target ≠ source) (hinside : ¬source <+: target) (hsource : resolve h r w = .ok source)
    (hcontents : contentsAt h (dbPath source) (walPath source) w = some c)
    (hvouched : Vouched h r source target w) (hs : Interrupted h r source target w s)
    (hlog : s.read (partialWalPath target) = none) (hfree : h.inUse (dbPath source) = false)
    (hlocal : localized (later h newId nowIso) source target c = .ok c')
    (hsound : ∀ m, h.migrate c = .ok m → m.appliedMigrations ≠ [] ∧ h.integrityCheck m = "ok") :
    (moveDataDir (later h newId nowIso) r target).Completes s fun report t ↦
      report.oldRemoved ∧ Emptied source t ∧ Holds h r w source target (fun d ↦ d = c') t := by
  have hw : Holds h r w source source (fun d ↦ d = c) w :=
    ⟨hsource, ⟨c, hcontents, rfl⟩, fun _ _ _ hb ↦ hb⟩
  obtain ⟨hs, hvouched⟩ := hs.resumable hdurable hpointer hjournal hutf8 hplaced hne hw hvouched
  refine (completes_moveDataDir (h := later h newId nowIso) (later_durable hdurable) hpointer hutf8
    hplaced hne hinside (holds_later.2 hs) (vouched_later.2 hvouched) hlog hfree hlocal
      hsound).mono fun report t ht ↦ ?_
  exact ⟨ht.1, ht.2.1, holds_later.1 ht.2.2⟩

end Resume

section Witness

open Model.PlainDataDir

theorem readJournal_journalText (j : MoveJournal) :
    plainMoveHost.readJournal (plainMoveHost.journalText j) = some j :=
  read_text journalCode j

theorem vouched_plainDisk : Vouched plainMoveHost plainResolver ["data"] ["backup"] plainDisk where
  db hfound := by cases hfound
  log := rfl

theorem interrupted_plainDisk :
    Interrupted plainMoveHost plainResolver ["data"] ["backup"] plainDisk
      ((moveDataDir (later plainMoveHost "other" "2025-12-31T00:00:00Z") plainResolver
        ["backup"]).exec (stopAfter 1) plainDisk).2.1 :=
  .again "other" "2025-12-31T00:00:00Z" (stopAfter 1) .start rfl rfl

def movedContents : Contents where
  appliedMigrations := [1]
  documents := [⟨"slip", "/backup/documents/slip.pdf"⟩, ⟨"scan", "/scans/scan.pdf"⟩]
  auditLog := [⟨"id", "data_dir", "move", "/data", "/backup", 1, "2026-01-01T00:00:00Z"⟩]
  others := []

theorem moveDataDir_resumes_backup :
    (moveDataDir (later plainMoveHost "id" "2026-01-01T00:00:00Z") plainResolver
      ["backup"]).Completes
        ((moveDataDir (later plainMoveHost "other" "2025-12-31T00:00:00Z") plainResolver
          ["backup"]).exec (stopAfter 1) plainDisk).2.1
        fun report t ↦ report.oldRemoved ∧ Emptied ["data"] t ∧
          Holds plainMoveHost plainResolver plainDisk ["data"] ["backup"]
            (fun d ↦ d = movedContents) t :=
  moveDataDir_resumes plainMoveHost_durable readPointer_pointerText readJournal_journalText
    (by decide) placed_backup (by decide) (by decide) rfl contentsAt_plainDisk vouched_plainDisk
    interrupted_plainDisk rfl rfl rfl fun m hm ↦ by
      cases hm
      exact ⟨by decide, rfl⟩

end Witness

end SlipScan.Storage.MoveResume
