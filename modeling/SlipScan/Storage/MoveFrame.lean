import SlipScan.Storage.MoveResume

namespace SlipScan.Storage.MoveFrame

open Model.DataDir Model.DataDir.DataDirResolver Foundation.Files Foundation.Interleaving
  Foundation.Table Foundation.Transaction Process DataMove MoveResume

variable {h : MoveHost} {r : DataDirResolver} {source target dir k : Path} {w s t : Disk Path}
  {c c' : Contents} {P : Path → Prop}

section Frame

def probePath (h : MoveHost) (target : Path) : Path :=
  child target (".slipscan-write-probe-" ++ h.newId)

theorem target_prefix_child {name : String} : dir <+: child dir name :=
  List.prefix_append _ _

theorem target_prefix_dbFiles : ∀ f ∈ dbFiles dir, dir <+: f := by
  intro f hf
  obtain ⟨suffix, -, rfl⟩ := List.mem_map.1 hf
  exact target_prefix_child

theorem keeps_clearTarget (hP : ∀ k, target <+: k → ¬P k) :
    (clearTarget h r target source).Keeps (Spares P) := by
  refine (keeps_query _).bind fun found ↦ Keeps.ite (fun _ ↦ ?_) fun _ ↦ keeps_pure ()
  refine (keeps_query _).bind fun vouched ↦ Keeps.ite (fun _ ↦ ?_) fun _ ↦ keeps_ofExcept _
  exact keeps_removeExisting fun f hf ↦ hP f (target_prefix_dbFiles f hf)

/-- A program that spares some files, after others that spared them. -/
theorem attains_spares {α : Type} {p : Fs α} (hs : Spares P w s) (hp : p.Keeps (Spares P)) :
    p.Attains s (Spares P w) fun _ _ ↦ True :=
  (hp.attains fun _ ht ↦ trans_of (Spares P) hs ht).mono fun _ _ _ _ ↦ trivial

theorem attains_validateTarget_spares (hsource : resolve h r w = .ok source)
    (hP : ∀ k, target <+: k → ¬P k) :
    (validateTarget h r target).Attains w (Spares P w) fun a _ ↦ a = source := by
  have hw : Spares P w w := fun _ _ ↦ rfl
  unfold validateTarget
  refine attains_query_bind _ (attains_ofExcept_bind hw fun a ha ↦ ?_)
  rw [hsource] at ha
  cases ha
  refine attains_query_bind _ (attains_ofExcept_bind hw fun _ _ ↦ ?_)
  refine (attains_spares hw keeps_touch).bind fun _ s hs _ ↦ attains_ofExcept_bind hs fun _ _ ↦ ?_
  refine (attains_spares hs (keeps_probeTarget (hP _ target_prefix_child))).bind fun _ t ht _ ↦ ?_
  refine (attains_spares ht (keeps_clearTarget hP)).bind fun _ u hu _ ↦ attains_pure hu rfl

theorem attains_prepareCopy_spares (hsource : resolve h r w = .ok source)
    (hP : ∀ k, target <+: k → ¬P k) (hdb : ¬P (dbPath source)) (hwal : ¬P (walPath source)) :
    (prepareCopy h r target).Attains w (Spares P w) fun prepared _ ↦
      prepared.source = source ∧ prepared.target = target := by
  unfold prepareCopy
  refine (attains_validateTarget_spares hsource hP).bind fun a s hs ha ↦ ?_
  subst ha
  refine (attains_spares hs (keeps_lockAndQuiesceSource hdb hwal)).bind fun _ t ht _ ↦ ?_
  refine (attains_spares ht (keeps_copyFileVerified (hP _ target_prefix_child))).bind
    fun bytes u hu _ ↦ attains_query_bind _ ?_
  refine (attains_spares hu keeps_touch).bind fun _ v hv _ ↦ ?_
  refine (attains_spares hv (keeps_copyDocuments (fun k hk ↦
    hP k (target_prefix_child.trans hk)) _)).bind fun copied x hx _ ↦ ?_
  refine (attains_spares hx (keeps_checkAndLocalizeCopy (hP _ target_prefix_child)
    (hP _ target_prefix_child))).bind fun rewritten y hy _ ↦ ?_
  exact attains_pure hy ⟨rfl, rfl⟩

theorem keeps_commitMove {prepared : PreparedCopy}
    (htarget : ∀ k, prepared.target <+: k → ¬P k) (hpointer : ¬P r.pointerPath)
    (htmp : ¬P (child r.configDir (pointerFileName ++ ".tmp"))) (hjournal : ¬P r.moveJournalPath)
    (hdb : ∀ f ∈ dbFiles prepared.source, ¬P f)
    (hdocs : ∀ k, documentsDir prepared.source <+: k → ¬P k) :
    (commitMove h r prepared).Keeps (Spares P) := by
  have hbegin : (beginCommit h r prepared).Keeps (Spares P) := by
    refine (keeps_query _).bind fun copy ↦ ?_
    cases copy with
    | none => exact keeps_ofExcept _
    | some copy =>
      refine (keeps_writeMoveJournal hjournal).bind fun _ ↦ ?_
      exact (keeps_renameFile (htarget _ target_prefix_child)
        (htarget _ target_prefix_child)).bind fun _ ↦ keeps_touch
  have hpoint : (writePointer h r prepared.target).Keeps (Spares P) :=
    keeps_touch.bind fun _ ↦ (keeps_writeFile htmp _).bind fun _ ↦ keeps_touch.bind fun _ ↦
      (keeps_renameFile htmp hpointer).bind fun _ ↦ keeps_touch
  refine hbegin.bind fun _ ↦ hpoint.bind fun _ ↦ ?_
  refine (keeps_query _).bind fun resolved ↦ (keeps_ofExcept _).bind fun dir ↦
    (keeps_ofExcept _).bind fun _ ↦ (keeps_removeOld hdb none).bind fun failed ↦ ?_
  exact (keeps_removeDirAll hdocs).attempt.bind fun outcome ↦
    (keeps_removeFile hjournal).attempt.bind fun _ ↦ keeps_pure _

/-- The files that a move may change: those of the new folder, the pointer and the journal, and the
data in the old folder. -/
def Touched (r : DataDirResolver) (source target k : Path) : Prop :=
  target <+: k ∨ k = r.pointerPath ∨ k = child r.configDir (pointerFileName ++ ".tmp") ∨
    k = r.moveJournalPath ∨ k ∈ dbFiles source ∨ documentsDir source <+: k

theorem attains_moveDataDir_spares (hsource : resolve h r w = .ok source) :
    (moveDataDir h r target).Attains w (Spares (fun k ↦ ¬Touched r source target k) w)
      fun _ _ ↦ True := by
  refine (attains_prepareCopy_spares hsource (fun k hk hnot ↦ hnot (.inl hk)) (fun hnot ↦ ?_)
    fun hnot ↦ ?_).bind fun prepared t ht hprepared ↦ ?_
  · exact hnot (.inr (.inr (.inr (.inr (.inl dbPath_mem)))))
  · exact hnot (.inr (.inr (.inr (.inr (.inl walPath_mem)))))
  · obtain ⟨rfl, rfl⟩ := hprepared
    refine attains_spares ht (keeps_commitMove (fun k hk hnot ↦ hnot (.inl hk)) ?_ ?_ ?_ ?_ ?_)
    · exact fun hnot ↦ hnot (.inr (.inl rfl))
    · exact fun hnot ↦ hnot (.inr (.inr (.inl rfl)))
    · exact fun hnot ↦ hnot (.inr (.inr (.inr (.inl rfl))))
    · exact fun f hf hnot ↦ hnot (.inr (.inr (.inr (.inr (.inl hf)))))
    · exact fun k hk hnot ↦ hnot (.inr (.inr (.inr (.inr (.inr hk)))))

theorem attains_validateTarget_refuses (hsource : resolve h r w = .ok source)
    (hfound : (w.read (dbPath target)).isSome) (hforeign : ¬JournalMatches h r w source target) :
    (validateTarget h r target).Attains w
      (Spares (fun k ↦ k ≠ probePath h target) w) fun _ _ ↦ False := by
  have hw : Spares (fun k ↦ k ≠ probePath h target) w w :=
    fun _ _ ↦ rfl
  unfold validateTarget
  refine attains_query_bind _ (attains_ofExcept_bind hw fun a ha ↦ ?_)
  rw [hsource] at ha
  cases ha
  refine attains_query_bind _ (attains_ofExcept_bind hw fun _ _ ↦ ?_)
  refine (attains_spares hw keeps_touch).bind fun _ s hs _ ↦ attains_ofExcept_bind hs fun _ _ ↦ ?_
  refine (attains_spares hs (keeps_probeTarget fun hself ↦ hself rfl)).bind fun _ t ht _ ↦ ?_
  have hdb : t.read (dbPath target) = w.read (dbPath target) :=
    ht _ fun heq ↦ probe_ne (by decide) (child_inj.1 heq).2.symm
  have hjournal : t.read r.moveJournalPath = w.read r.moveJournalPath :=
    ht _ fun heq ↦ probe_ne (by decide) (child_inj.1 heq).2.symm
  have hclear : (clearTarget h r target source).Attains t
      (Spares (fun k ↦ k ≠ probePath h target) w) fun _ _ ↦ False := by
    unfold clearTarget
    refine attains_query_bind _ ?_
    rw [if_pos (by rw [hdb]; exact hfound)]
    refine attains_query_bind _ ?_
    rw [decide_eq_false fun hmatches ↦ hforeign ((journalMatches_congr hjournal hdb).1 hmatches)]
    exact attains_error ht
  exact hclear.bind fun _ _ _ hfalse ↦ hfalse.elim

/-- A move never succeeds over a database that its journal does not vouch for. It changes no file
then, but for the one with which it probes the folder. -/
theorem moveDataDir_refuses (hsource : resolve h r w = .ok source)
    (hfound : (w.read (dbPath target)).isSome) (hforeign : ¬JournalMatches h r w source target)
    (fates : Fates MoveFault) :
    (∀ report, ((moveDataDir h r target).exec fates w).1 ≠ some (.ok report)) ∧
      ∀ k, k ≠ probePath h target →
        ((moveDataDir h r target).exec fates w).2.1.read k = w.read k := by
  have hprepare : (prepareCopy h r target).Attains w
      (Spares (fun k ↦ k ≠ probePath h target) w) fun _ _ ↦ False :=
    (attains_validateTarget_refuses hsource hfound hforeign).bind fun _ _ _ hfalse ↦ hfalse.elim
  have hmove : (moveDataDir h r target).Attains w
      (Spares (fun k ↦ k ≠ probePath h target) w) fun _ _ ↦ False :=
    hprepare.bind fun _ _ _ hfalse ↦ hfalse.elim
  refine ⟨fun report hreport ↦ ?_, hmove.exec_store fates⟩
  have hexec := exec_of_survives hmove fates
  generalize (moveDataDir h r target).exec fates w = out at hexec hreport
  obtain ⟨outcome, t, rest⟩ := out
  subst hreport
  exact hexec.2 report rfl

end Frame

section Documents

def moved (h : MoveHost) (target : Path) (oldDocs : List Path) (row : DocumentRow) : DocumentRow :=
  { row with filePath := (relocated h target oldDocs row).getD row.filePath }

theorem lookup_setFilePath_of_ne {id id' filePath : String} (hne : id' ≠ id) :
    lookup DocumentRow.id (setFilePath id filePath c).documents id' =
      lookup DocumentRow.id c.documents id' := by
  refine (lookup_update (fun row : DocumentRow ↦ { row with filePath }) (fun _ ↦ rfl) id).trans ?_
  cases hfound : lookup DocumentRow.id c.documents id' with
  | none => rfl
  | some row =>
    have hid : row.id ≠ id := fun heq ↦ hne ((lookup_eq_some hfound).2.symm.trans heq)
    rw [Option.map_some, if_neg hid]

theorem lookup_relocateAll_of_ne {oldDocs : List Path} {rows : List DocumentRow} {id : String}
    (hid : ∀ row ∈ rows, row.id ≠ id) :
    lookup DocumentRow.id (relocateAll h target oldDocs rows c).documents id =
      lookup DocumentRow.id c.documents id := by
  induction rows generalizing c with
  | nil => rfl
  | cons first rows ih =>
    rw [List.forall_mem_cons] at hid
    unfold relocateAll
    cases relocated h target oldDocs first with
    | none => exact ih hid.2
    | some filePath => exact (ih hid.2).trans (lookup_setFilePath_of_ne hid.1.symm)

theorem lookup_relocateAll {oldDocs : List Path} {rows : List DocumentRow} {row : DocumentRow}
    (hids : (rows.map DocumentRow.id).Nodup) (hrow : row ∈ rows)
    (hfound : lookup DocumentRow.id c.documents row.id = some row) :
    lookup DocumentRow.id (relocateAll h target oldDocs rows c).documents row.id =
      some (moved h target oldDocs row) := by
  induction rows generalizing c with
  | nil => cases hrow
  | cons first rows ih =>
    rw [List.map_cons, List.nodup_cons] at hids
    have hfresh : ∀ other ∈ rows, other.id ≠ first.id := fun other hother heq ↦
      hids.1 (heq ▸ List.mem_map_of_mem hother)
    unfold relocateAll
    rcases List.mem_cons.1 hrow with rfl | hrow
    · unfold moved
      cases relocated h target oldDocs row with
      | none => exact (lookup_relocateAll_of_ne hfresh).trans hfound
      | some filePath =>
        refine (lookup_relocateAll_of_ne hfresh).trans ?_
        exact lookup_update_self (fun _ ↦ rfl) hfound
    · cases relocated h target oldDocs first with
      | none => exact ih hids.2 hrow hfound
      | some filePath =>
        exact ih hids.2 hrow ((lookup_setFilePath_of_ne (hfresh row hrow)).trans hfound)

theorem lookup_localized {row : DocumentRow} (hmigrate : h.migrate c = .ok c)
    (hlocal : localized h source target c = .ok c') (hids : (c.documents.map DocumentRow.id).Nodup)
    (hrow : row ∈ c.documents) :
    lookup DocumentRow.id c'.documents row.id =
      some (moved h target [documentsDir source, documentsDir source] row) := by
  obtain ⟨m, hm, haudit⟩ := except_bind_eq_ok.1 hlocal
  rw [hmigrate] at hm
  cases hm
  unfold insertAudit at haudit
  split_ifs at haudit with hused
  cases haudit
  exact lookup_relocateAll hids hrow (lookup_of_mem (List.pairwise_map.1 hids) hrow)

theorem relocated_of_store {row : DocumentRow} {rel : Path}
    (hpath : h.absolutePath row.filePath = some (documentsDir source ++ rel)) :
    relocated h target [documentsDir source, documentsDir source] row =
      some (h.display (documentsDir target ++ rel)) := by
  simp [relocated, hpath, stripPrefix_append]

theorem relocated_of_elsewhere {row : DocumentRow} {path : Path}
    (hpath : h.absolutePath row.filePath = some path) (helse : ¬documentsDir source <+: path) :
    relocated h target [documentsDir source, documentsDir source] row = none := by
  have hstrip : stripPrefix (documentsDir source) path = none := if_neg helse
  simp [relocated, hpath, hstrip]

theorem interrupted_spares (hs : Interrupted h r source target w s) (hdurable : Durable h)
    (hpointer : ∀ p, h.readPointer (h.pointerText p) = .ok p)
    (hjournal : ∀ j, h.readJournal (h.journalText j) = some j)
    (hutf8 : h.absolutePath (h.display target) = some target) (hplaced : Placed r source target)
    (hne : target ≠ source) {C : Contents → Prop} (hw : Holds h r w source source C w)
    (hvouched : Vouched h r source target w) :
    Spares (fun k ↦ ¬Touched r source target k) w s := by
  induction hs with
  | start => exact fun _ _ ↦ rfl
  | again newId nowIso fates hs hlog hstays ih =>
    have ht := hs.resumable hdurable hpointer hjournal hutf8 hplaced hne hw hvouched
    have hsource : Holds (later h newId nowIso) r w source source C _ := holds_later.2 ht.1
    exact trans_of _ ih ((attains_moveDataDir_spares hsource.resolves).exec_store fates)

/-- What the rows of the moved database open: a document of the store its copy, and any other
document the file that it always was. -/
theorem opens_of_holds {row : DocumentRow} {path : Path} {b : Bytes}
    (hnames : ∀ rel, (w.read (documentsDir source ++ rel)).isSome →
      h.absolutePath (h.display (documentsDir target ++ rel)) = some (documentsDir target ++ rel))
    (hmigrate : h.migrate c = .ok c) (hlocal : localized h source target c = .ok c')
    (hids : (c.documents.map DocumentRow.id).Nodup)
    (ht : Holds h r w source target (fun d ↦ d = c') t)
    (hspares : Spares (fun k ↦ ¬Touched r source target k) w t) (hrow : row ∈ c.documents)
    (hpath : h.absolutePath row.filePath = some path) (hb : w.read path = some b)
    (hplace : documentsDir source <+: path ∧ path ≠ documentsDir source ∨
      ¬Touched r source target path) :
    ∃ row' ∈ c'.documents, row'.id = row.id ∧
      (h.absolutePath row'.filePath).bind t.read = some b := by
  have hlookup := lookup_eq_some (lookup_localized hmigrate hlocal hids hrow)
  refine ⟨_, hlookup.1, rfl, ?_⟩
  rcases hplace with ⟨⟨rel, rfl⟩, hrel⟩ | hfree
  · rw [moved, relocated_of_store hpath]
    dsimp only [Option.getD_some]
    rw [hnames rel (by rw [hb]; rfl), Option.bind_some]
    exact ht.store rel b (fun hnil ↦ hrel (by rw [hnil, List.append_nil])) hb
  · have helse : ¬documentsDir source <+: path := fun hprefix ↦
      hfree (.inr (.inr (.inr (.inr (.inr hprefix)))))
    rw [moved, relocated_of_elsewhere hpath helse]
    dsimp only [Option.getD_none]
    rw [hpath, Option.bind_some, hspares path hfree, hb]

/-- A move, also one that was interrupted before, loses no document: each one that could be opened
can be opened with the same bytes, from the store of the new folder or from where it was. -/
theorem moveDataDir_opens_documents (hdurable : Durable h)
    (hpointer : ∀ p, h.readPointer (h.pointerText p) = .ok p)
    (hjournal : ∀ j, h.readJournal (h.journalText j) = some j)
    (hutf8 : h.absolutePath (h.display target) = some target)
    (hnames : ∀ rel, (w.read (documentsDir source ++ rel)).isSome →
      h.absolutePath (h.display (documentsDir target ++ rel)) = some (documentsDir target ++ rel))
    (hplaced : Placed r source target) (hne : target ≠ source) (hinside : ¬source <+: target)
    (hsource : resolve h r w = .ok source)
    (hcontents : contentsAt h (dbPath source) (walPath source) w = some c)
    (hids : (c.documents.map DocumentRow.id).Nodup) (hvouched : Vouched h r source target w)
    (hs : Interrupted h r source target w s) (hlog : s.read (partialWalPath target) = none)
    (newId nowIso : String) (hfree : h.inUse (dbPath source) = false)
    (hmigrate : h.migrate c = .ok c) (hsound : c.appliedMigrations ≠ [])
    (hcheck : h.integrityCheck c = "ok")
    (hlocal : localized (later h newId nowIso) source target c = .ok c') :
    (moveDataDir (later h newId nowIso) r target).Completes s fun _ t ↦
      contentsAt h (dbPath target) (walPath target) t = some c' ∧
        ∀ row ∈ c.documents, ∀ path b, h.absolutePath row.filePath = some path →
          w.read path = some b →
          documentsDir source <+: path ∧ path ≠ documentsDir source ∨
            ¬Touched r source target path →
          ∃ row' ∈ c'.documents, row'.id = row.id ∧
            (h.absolutePath row'.filePath).bind t.read = some b := by
  have hw : Holds h r w source source (fun d ↦ d = c) w :=
    ⟨hsource, ⟨c, hcontents, rfl⟩, fun _ _ _ hb ↦ hb⟩
  obtain ⟨hheld, hkept⟩ := hs.resumable hdurable hpointer hjournal hutf8 hplaced hne hw hvouched
  have hspares := interrupted_spares hs hdurable hpointer hjournal hutf8 hplaced hne hw hvouched
  have hheld' : Holds (later h newId nowIso) r w source source (fun d ↦ d = c) s :=
    holds_later.2 hheld
  refine ((completes_moveDataDir (h := later h newId nowIso) (later_durable hdurable) hpointer
    hutf8 hplaced hne hinside hheld' (vouched_later.2 hkept) hlog hfree hlocal
      fun m hm ↦ ?_).attains (attains_moveDataDir_spares hheld'.resolves)).mono fun _ t ht ↦ ?_
  · cases hmigrate.symm.trans hm
    exact ⟨hsound, hcheck⟩
  · obtain ⟨⟨-, -, ht⟩, hspares', -⟩ := ht
    obtain ⟨d, hd, rfl⟩ := ht.contents
    refine ⟨hd, fun row hrow path b hpath hb hplace ↦ ?_⟩
    exact opens_of_holds (h := later h newId nowIso) hnames hmigrate hlocal hids ht
      (trans_of _ hspares hspares') hrow hpath hb hplace

end Documents

section Witness

open Model.PlainDataDir

def occupiedDisk : Disk Path :=
  plainDisk.write (dbPath ["backup"]) [1]

theorem moveDataDir_refuses_backup :
    (∀ report, ((moveDataDir plainMoveHost plainResolver ["backup"]).exec (stopAfter 20)
        occupiedDisk).1 ≠ some (.ok report)) ∧
      ∀ k, k ≠ probePath plainMoveHost ["backup"] →
        ((moveDataDir plainMoveHost plainResolver ["backup"]).exec (stopAfter 20)
          occupiedDisk).2.1.read k = occupiedDisk.read k :=
  moveDataDir_refuses (rfl : resolve plainMoveHost plainResolver occupiedDisk = .ok ["data"]) rfl
    (by decide) (stopAfter 20)

theorem names_backup (rel : Path) (hrel : (plainDisk.read (documentsDir ["data"] ++ rel)).isSome) :
    plainMoveHost.absolutePath (plainMoveHost.display (documentsDir ["backup"] ++ rel)) =
      some (documentsDir ["backup"] ++ rel) := by
  have hlisted : documentsDir ["data"] ++ rel ∈ plainDisk.list fun _ ↦ true :=
    Disk.mem_list.2 ⟨hrel, rfl⟩
  have hfiles : plainDisk.list (fun _ ↦ true) =
      [dbPath ["data"], ["data", "documents", "slip.pdf"], ["scans", "scan.pdf"]] := rfl
  have hpath : documentsDir ["data"] ++ rel = "data" :: documentsDirName :: rel := rfl
  rw [hfiles, hpath] at hlisted
  simp only [List.mem_cons, List.not_mem_nil, or_false] at hlisted
  rcases hlisted with hdb | hslip | hscan
  · exact absurd (List.cons.inj (List.cons.inj hdb).2).1 (by decide)
  · obtain rfl := (List.cons.inj (List.cons.inj hslip).2).2
    decide
  · exact absurd (List.cons.inj hscan).1 (by decide)

theorem moveDataDir_opens_documents_backup :
    (moveDataDir (later plainMoveHost "id" "2026-01-01T00:00:00Z") plainResolver
      ["backup"]).Completes
        ((moveDataDir (later plainMoveHost "other" "2025-12-31T00:00:00Z") plainResolver
          ["backup"]).exec (stopAfter 1) plainDisk).2.1
        fun _ t ↦ contentsAt plainMoveHost (dbPath ["backup"]) (walPath ["backup"]) t =
            some movedContents ∧
          ∀ row ∈ plainContents.documents, ∀ path b,
            plainMoveHost.absolutePath row.filePath = some path → plainDisk.read path = some b →
            documentsDir ["data"] <+: path ∧ path ≠ documentsDir ["data"] ∨
              ¬Touched plainResolver ["data"] ["backup"] path →
            ∃ row' ∈ movedContents.documents, row'.id = row.id ∧
              (plainMoveHost.absolutePath row'.filePath).bind t.read = some b :=
  moveDataDir_opens_documents plainMoveHost_durable readPointer_pointerText
    readJournal_journalText (by decide) names_backup placed_backup (by decide) (by decide) rfl
    contentsAt_plainDisk (by decide) vouched_plainDisk interrupted_plainDisk rfl "id"
    "2026-01-01T00:00:00Z" rfl rfl (by decide) rfl rfl

end Witness

end SlipScan.Storage.MoveFrame
