import SlipScan.Ingest.MailRounds

namespace SlipScan.Ingest.MailFiles

open Model.Mail Foundation.Transaction Foundation.Interleaving Process MailRounds
open Model.PackTransport (joinPath)

variable {μ τ : Type} {h : MailHost} {target : SyncTarget τ}
  {booked : InboundMessage → τ → Prop} {bytes : List UInt8} {path : String} {w w' : World μ τ}

/-- The book has a document with these contents, and its file holds them. -/
def Stored (h : MailHost) (bookId : String) (bytes : List UInt8) (w : World μ τ) : Prop :=
  ∃ d ∈ w.documents, d.bookId = bookId ∧ d.sha256 = some (h.sha256Hex bytes) ∧
    w.files d.filePath = some bytes

section Hosts

/-- What is known of the identifiers and of the hash: no path that is made from one identifier is
made from another, and different files have different hashes. -/
structure Distinct (h : MailHost) : Prop where
  slash : ∀ n, '/' ∉ (h.newId n).toList
  newId : ∀ {n n' name name'}, h.newId n ++ "-" ++ name = h.newId n' ++ "-" ++ name' → n = n'
  sha256Hex : Function.Injective h.sha256Hex

def FilePath (h : MailHost) (storageDir : String) (n : ℕ) (path : String) : Prop :=
  ∃ name, path = joinPath storageDir (h.newId n ++ "-" ++ name)

theorem joinPath_injective {root path path' : String} (hpath : ¬['/'] <+: path.toList)
    (hpath' : ¬['/'] <+: path'.toList) (heq : joinPath root path = joinPath root path') :
    path = path' := by
  rw [joinPath, joinPath, if_neg hpath, if_neg hpath'] at heq
  split at heq
  · exact (String.append_right_inj root).1 heq
  · exact (String.append_right_inj (root ++ "/")).1 heq

theorem not_slash_first (hh : Distinct h) (n : ℕ) (name : String) :
    ¬['/'] <+: (h.newId n ++ "-" ++ name).toList := by
  have hslash := hh.slash n
  rw [String.toList_append, String.toList_append]
  cases hid : (h.newId n).toList with
  | nil => simp
  | cons c l =>
    rw [hid] at hslash
    simp only [List.cons_append, List.cons_prefix_cons]
    exact fun hfirst ↦ hslash (hfirst.1 ▸ List.mem_cons_self)

theorem filePath_unique (hh : Distinct h) {storageDir : String} {n n' : ℕ}
    (hn : FilePath h storageDir n path) (hn' : FilePath h storageDir n' path) : n = n' := by
  obtain ⟨name, rfl⟩ := hn
  obtain ⟨name', heq⟩ := hn'
  have hfirst := not_slash_first hh n name
  exact hh.newId (joinPath_injective hfirst (not_slash_first hh n' name') heq)

end Hosts

section Changes

/-- What is stored stays stored, and what is booked stays booked. -/
structure Keeps (h : MailHost) (booked : InboundMessage → τ → Prop) (w w' : World μ τ) :
    Prop where
  documents : w.documents ⊆ w'.documents
  files : ∀ d ∈ w.documents, ∀ bytes, d.sha256 = some (h.sha256Hex bytes) →
    w.files d.filePath = some bytes → w'.files d.filePath = some bytes
  transactions : ∀ message, booked message w.transactions → booked message w'.transactions

/-- What an import changes: all that has to do with the mailbox stays. -/
structure Grows (h : MailHost) (booked : InboundMessage → τ → Prop) (w w' : World μ τ) : Prop
    extends Keeps h booked w w' where
  mailbox : w'.mailbox = w.mailbox
  cursors : w'.cursors = w.cursors
  acknowledged : w'.acknowledged = w.acknowledged

/-- What others may change: they add documents with their files, and no path of theirs is made from
an identifier that was handed out before. -/
structure Spares (h : MailHost) (target : SyncTarget τ) (booked : InboundMessage → τ → Prop)
    (w w' : World μ τ) : Prop extends Keeps h booked w w' where
  complete : ∀ d ∈ w'.documents, d ∉ w.documents → ∀ bytes,
    d.sha256 = some (h.sha256Hex bytes) → w'.files d.filePath = some bytes
  own : ∀ d ∈ w'.documents, d ∉ w.documents → ∀ n, FilePath h target.storageDir n d.filePath →
    w.minted ≤ n ∧ n < w'.minted
  minted : w.minted ≤ w'.minted

theorem Spares.refl (w : World μ τ) : Spares h target booked w w where
  documents _ hd := hd
  files _ _ _ _ hfile := hfile
  transactions _ hbooked := hbooked
  complete _ hd hnew := absurd hd hnew
  own _ hd hnew := absurd hd hnew
  minted := Nat.le_refl _

theorem Spares.trans {w'' : World μ τ} (hw : Spares h target booked w w')
    (hw' : Spares h target booked w' w'') : Spares h target booked w w'' where
  documents _ hd := hw'.documents (hw.documents hd)
  files d hd bytes hsha hfile :=
    hw'.files d (hw.documents hd) bytes hsha (hw.files d hd bytes hsha hfile)
  transactions message hbooked := hw'.transactions message (hw.transactions message hbooked)
  complete d hd hnew bytes hsha := by
    by_cases hmid : d ∈ w'.documents
    · exact hw'.files d hmid bytes hsha (hw.complete d hmid hnew bytes hsha)
    · exact hw'.complete d hd hmid bytes hsha
  own d hd hnew n hpath := by
    by_cases hmid : d ∈ w'.documents
    · exact (hw.own d hmid hnew n hpath).imp_right fun hn ↦ hn.trans_le hw'.minted
    · exact (hw'.own d hd hmid n hpath).imp_left hw.minted.trans
  minted := hw.minted.trans hw'.minted

theorem Stored.keeps {bookId : String} (hstored : Stored h bookId bytes w)
    (hkeeps : Keeps h booked w w') : Stored h bookId bytes w' := by
  obtain ⟨d, hd, hbook, hsha, hfile⟩ := hstored
  exact ⟨d, hkeeps.documents hd, hbook, hsha, hkeeps.files d hd bytes hsha hfile⟩

theorem Grows.of_same (hmailbox : w'.mailbox = w.mailbox) (hdocuments : w'.documents = w.documents)
    (hfiles : w'.files = w.files) (hcursors : w'.cursors = w.cursors)
    (htransactions : w'.transactions = w.transactions)
    (hacknowledged : w'.acknowledged = w.acknowledged) : Grows h booked w w' where
  documents := hdocuments ▸ List.Subset.refl _
  files _ _ _ _ hfile := hfiles ▸ hfile
  transactions _ hbooked := htransactions ▸ hbooked
  mailbox := hmailbox
  cursors := hcursors
  acknowledged := hacknowledged

end Changes

section Imports

def FileFaults (held : List Access) (fate : Fate IngestError) : Prop :=
  Faults held fate ∧ (.file ∈ held → fate = .commits)

/-- What is known of the import of alerts: it books those of its message, and unbooks none. -/
structure Books (alerts : AlertSync τ) (booked : InboundMessage → τ → Prop) : Prop where
  imports : ∀ {message s s'}, alerts message s = .ok ((), s') → booked message s'
  keeps : ∀ {message message' s s'}, alerts message s = .ok ((), s') →
    booked message' s → booked message' s'

def Done (h : MailHost) (target : SyncTarget τ) (booked : InboundMessage → τ → Prop)
    (message : InboundMessage) (w : World μ τ) : Prop :=
  target.filter.allows message.sender →
    (∀ bytes ∈ contents message, Stored h target.bookId bytes w) ∧
      (target.alerts.isSome → booked message w.transactions)

theorem Done.keeps {message : InboundMessage} (hdone : Done h target booked message w)
    (hkeeps : Keeps h booked w w') : Done h target booked message w' := by
  intro hallowed
  obtain ⟨hstored, hbooked⟩ := hdone hallowed
  exact ⟨fun bytes hbytes ↦ (hstored bytes hbytes).keeps hkeeps,
    fun halerts ↦ hkeeps.transactions message (hbooked halerts)⟩

variable {W : Surroundings (World μ τ) Access IngestError} {A B : World μ τ → Prop}

structure Careful (h : MailHost) (target : SyncTarget τ) (booked : InboundMessage → τ → Prop)
    (W : Surroundings (World μ τ) Access IngestError) : Prop where
  others : ∀ {w w'}, W.others w w' → Spares h target booked w w'
  faults : ∀ {held fate}, W.faults held fate → FileFaults held fate

theorem Careful.plain (hW : Careful h target booked W) : Plain W where
  documents _ _ hothers := (hW.others hothers).documents
  faults _ _ hfault := Faults.ne_duplicate (hW.faults hfault).1

structure Lasting (h : MailHost) (booked : InboundMessage → τ → Prop)
    (W : Surroundings (World μ τ) Access IngestError) (A : World μ τ → Prop) : Prop where
  others : ∀ {w w'}, A w → W.others w w' → A w'
  grows : ∀ {w w'}, A w → Grows h booked w w' → A w'

theorem Lasting.and (hA : Lasting h booked W A) (hB : Lasting h booked W B) :
    Lasting h booked W fun w ↦ A w ∧ B w where
  others hw hothers := ⟨hA.others hw.1 hothers, hB.others hw.2 hothers⟩
  grows hw hgrows := ⟨hA.grows hw.1 hgrows, hB.grows hw.2 hgrows⟩

theorem stored_lasting (hW : Careful h target booked W) (bookId : String)
    (files : List (List UInt8)) :
    Lasting h booked W fun w ↦ ∀ bytes ∈ files, Stored h bookId bytes w where
  others hw hothers bytes hbytes := (hw bytes hbytes).keeps (hW.others hothers).toKeeps
  grows hw hgrows bytes hbytes := (hw bytes hbytes).keeps hgrows.toKeeps

/-- What holds whenever no file is being written: every document has its file, the paths of the
files to come are free, and `A`. -/
structure Tidy (h : MailHost) (target : SyncTarget τ) (A : World μ τ → Prop) (w : World μ τ) :
    Prop where
  complete : ∀ d ∈ w.documents, ∀ bytes, d.sha256 = some (h.sha256Hex bytes) →
    w.files d.filePath = some bytes
  free : ∀ d ∈ w.documents, ∀ n, w.minted ≤ n → ¬FilePath h target.storageDir n d.filePath
  kept : A w

structure Reserved (h : MailHost) (target : SyncTarget τ) (path : String) (w : World μ τ) :
    Prop where
  made : ∃ n < w.minted, FilePath h target.storageDir n path
  unused : ∀ d ∈ w.documents, d.filePath ≠ path

/-- The row of a new document is there, and its file is not written yet. -/
structure HalfStored (h : MailHost) (target : SyncTarget τ) (A : World μ τ → Prop)
    (path : String) (bytes : List UInt8) (w : World μ τ) : Prop where
  complete : ∀ d ∈ w.documents, d.filePath ≠ path → ∀ bytes,
    d.sha256 = some (h.sha256Hex bytes) → w.files d.filePath = some bytes
  half : ∀ d ∈ w.documents, d.filePath = path → d.sha256 = some (h.sha256Hex bytes)
  free : ∀ d ∈ w.documents, ∀ n, w.minted ≤ n → ¬FilePath h target.storageDir n d.filePath
  made : ∃ n < w.minted, FilePath h target.storageDir n path
  kept : A w

theorem Tidy.mono (hw : Tidy h target A w) (hAB : A w → B w) : Tidy h target B w :=
  ⟨hw.complete, hw.free, hAB hw.kept⟩

theorem Tidy.grown (hA : Lasting h booked W A) (hw : Tidy h target A w)
    (hgrows : Grows h booked w w') (hdocuments : w'.documents = w.documents)
    (hminted : w.minted ≤ w'.minted) : Tidy h target A w' where
  complete d hd bytes hsha := by
    rw [hdocuments] at hd
    exact hgrows.files d hd bytes hsha (hw.complete d hd bytes hsha)
  free d hd n hn := by
    rw [hdocuments] at hd
    exact hw.free d hd n (hminted.trans hn)
  kept := hA.grows hw.kept hgrows

theorem Spares.free (hspares : Spares h target booked w w')
    (hfree : ∀ d ∈ w.documents, ∀ n, w.minted ≤ n → ¬FilePath h target.storageDir n d.filePath)
    {d : Document} (hd : d ∈ w'.documents) {n : ℕ} (hn : w'.minted ≤ n) :
    ¬FilePath h target.storageDir n d.filePath := by
  intro hpath
  by_cases hold : d ∈ w.documents
  · exact hfree d hold n (hspares.minted.trans hn) hpath
  · exact absurd hn (Nat.not_le.2 (hspares.own d hd hold n hpath).2)

/-- No document of others has a path that was reserved. -/
theorem Spares.unused (hspares : Spares h target booked w w')
    (hmade : ∃ n < w.minted, FilePath h target.storageDir n path) {d : Document}
    (hd : d ∈ w'.documents) (hnew : d ∉ w.documents) : d.filePath ≠ path := by
  rintro rfl
  obtain ⟨n, hn, hpath⟩ := hmade
  exact absurd hn (Nat.not_lt.2 (hspares.own d hd hnew n hpath).1)

theorem Spares.made (hspares : Spares h target booked w w')
    (hmade : ∃ n < w.minted, FilePath h target.storageDir n path) :
    ∃ n < w'.minted, FilePath h target.storageDir n path := by
  obtain ⟨n, hn, hpath⟩ := hmade
  exact ⟨n, hn.trans_le hspares.minted, hpath⟩

theorem Tidy.others (hW : Careful h target booked W) (hA : Lasting h booked W A)
    (hw : Tidy h target A w) (hothers : W.others w w') : Tidy h target A w' where
  complete d hd bytes hsha := by
    by_cases hold : d ∈ w.documents
    · exact (hW.others hothers).files d hold bytes hsha (hw.complete d hold bytes hsha)
    · exact (hW.others hothers).complete d hd hold bytes hsha
  free _ hd _ hn := (hW.others hothers).free hw.free hd hn
  kept := hA.others hw.kept hothers

theorem Reserved.others (hW : Careful h target booked W) (hw : Reserved h target path w)
    (hothers : W.others w w') : Reserved h target path w' where
  made := (hW.others hothers).made hw.made
  unused d hd := by
    by_cases hold : d ∈ w.documents
    · exact hw.unused d hold
    · exact (hW.others hothers).unused hw.made hd hold

theorem HalfStored.others (hW : Careful h target booked W) (hA : Lasting h booked W A)
    (hw : HalfStored h target A path bytes w) (hothers : W.others w w') :
    HalfStored h target A path bytes w' where
  complete d hd hpath bytes hsha := by
    by_cases hold : d ∈ w.documents
    · exact (hW.others hothers).files d hold bytes hsha (hw.complete d hold hpath bytes hsha)
    · exact (hW.others hothers).complete d hd hold bytes hsha
  half d hd hpath := by
    by_cases hold : d ∈ w.documents
    · exact hw.half d hold hpath
    · exact absurd hpath ((hW.others hothers).unused hw.made hd hold)
  free _ hd _ hn := (hW.others hothers).free hw.free hd hn
  made := (hW.others hothers).made hw.made
  kept := hA.others hw.kept hothers

/-- Writing the file of the new document completes it. -/
theorem HalfStored.written (hh : Distinct h) (hA : Lasting h booked W A)
    (hw : HalfStored h target A path bytes w) :
    Tidy h target A { w with files := fun p ↦ if p = path then some bytes else w.files p } := by
  have hfile : ∀ d ∈ w.documents, d.filePath = path → ∀ bytes',
      d.sha256 = some (h.sha256Hex bytes') → bytes = bytes' := by
    intro d hd hpath bytes' hsha
    rw [hw.half d hd hpath, Option.some_inj] at hsha
    exact hh.sha256Hex hsha
  refine ⟨fun d hd bytes' hsha ↦ ?_, hw.free, hA.grows hw.kept ?_⟩
  · change (if d.filePath = path then some bytes else w.files d.filePath) = some bytes'
    split
    · rw [hfile d hd ‹_› bytes' hsha]
    · exact hw.complete d hd ‹_› bytes' hsha
  · refine ⟨⟨List.Subset.refl _, fun d hd bytes' hsha hold ↦ ?_, fun _ hbooked ↦ hbooked⟩,
      rfl, rfl, rfl⟩
    change (if d.filePath = path then some bytes else w.files d.filePath) = some bytes'
    split
    · rw [hfile d hd ‹_› bytes' hsha]
    · exact hold

/-- The row of a document whose path is reserved. -/
theorem Reserved.inserted (hh : Distinct h) (hA : Lasting h booked W A)
    (hreserved : Reserved h target path w) (hw : Tidy h target A w) {document : Document}
    (hpath : document.filePath = path) (hsha : document.sha256 = some (h.sha256Hex bytes)) :
    HalfStored h target A path bytes { w with documents := w.documents ++ [document] } where
  complete d hd hne := by
    rcases List.mem_append.1 hd with hold | hnew
    · exact hw.complete d hold
    · exact absurd (List.mem_singleton.1 hnew ▸ hpath) hne
  half d hd hsame := by
    rcases List.mem_append.1 hd with hold | hnew
    · exact absurd hsame (hreserved.unused d hold)
    · exact List.mem_singleton.1 hnew ▸ hsha
  free d hd n hn hfile := by
    rcases List.mem_append.1 hd with hold | hnew
    · exact hw.free d hold n hn hfile
    · obtain ⟨n', hn', hmade⟩ := hreserved.made
      rw [List.mem_singleton.1 hnew, hpath] at hfile
      have hsame := filePath_unique hh hmade hfile
      change w.minted ≤ n at hn
      omega
  made := hreserved.made
  kept := hA.grows hw.kept ⟨⟨List.subset_append_left _ _, fun _ _ _ _ hfile ↦ hfile,
    fun _ hbooked ↦ hbooked⟩, rfl, rfl, rfl⟩

end Imports

section Programs

variable {W : Surroundings (World μ τ) Access IngestError} {A : World μ τ → Prop}
  (hW : Careful h target booked W) (hA : Lasting h booked W A)

include hW hA

/-- A new identifier makes paths that no document has. -/
theorem endures_newId (hw : Tidy h target A w) :
    (newId h : Sync μ τ String).Endures W A (Tidy h target A) w fun r t ↦
      Tidy h target A t ∧ (∀ path, Reserved h target path w → Reserved h target path t) ∧
        ∀ id, r = .ok id → ∀ name,
          Reserved h target (joinPath target.storageDir (id ++ "-" ++ name)) t := by
  have hothers : ∀ t, W.others w t → Tidy h target A t := fun _ ht ↦ hw.others hW hA ht
  refine endures_atomically (fun t ht ↦ ⟨(hothers t ht).kept, fun _ ↦ hothers t ht⟩)
    (fun t ht _ _ ↦ ⟨hothers t ht, fun _ hpath ↦ hpath.others hW ht, nofun⟩) nofun ?_
  intro t ht id t' hbody
  cases hbody
  refine ⟨(hothers t ht).grown hA (.of_same rfl rfl rfl rfl rfl rfl) rfl (Nat.le_succ _),
    fun path hpath ↦ ?_, fun id hid name ↦ ?_⟩
  · obtain ⟨⟨n, hn, hmade⟩, hunused⟩ := hpath.others hW ht
    exact ⟨⟨n, Nat.lt_succ_of_lt hn, hmade⟩, hunused⟩
  · cases hid
    have hmade : FilePath h target.storageDir t.minted
        (joinPath target.storageDir (h.newId t.minted ++ "-" ++ name)) := ⟨name, rfl⟩
    exact ⟨⟨t.minted, Nat.lt_succ_self _, hmade⟩,
      fun d hd hpath ↦ (hothers t ht).free d hd t.minted (Nat.le_refl _) (hpath ▸ hmade)⟩

theorem endures_insertDocument (hh : Distinct h) (document : Document) (hw : Tidy h target A w)
    (hreserved : Reserved h target path w) (hpath : document.filePath = path)
    (hsha : document.sha256 = some (h.sha256Hex bytes)) :
    (atomically [.document] (insertDocument document) : Sync μ τ Unit).Endures W A
      (Tidy h target A) w fun r t ↦ (∀ e, r = .error e → Tidy h target A t) ∧
        ∀ a, r = .ok a → HalfStored h target A path bytes t := by
  have hothers : ∀ t, W.others w t → Tidy h target A t := fun _ ht ↦ hw.others hW hA ht
  refine endures_atomically (fun t ht ↦ ⟨(hothers t ht).kept, fun _ ↦ hothers t ht⟩)
    (fun t ht _ _ ↦ ⟨fun _ _ ↦ hothers t ht, by simp⟩)
    (fun t ht _ _ ↦ ⟨fun _ _ ↦ hothers t ht, by simp⟩) ?_
  intro t ht a t' hbody
  rw [insertDocument] at hbody
  split at hbody
  · cases hbody
  · cases hbody
    exact ⟨by simp, fun _ _ ↦
      (hreserved.others hW ht).inserted hh hA (hothers t ht) hpath hsha⟩

theorem endures_documentImport (hh : Distinct h) {new : NewDocument} (hw : Tidy h target A w)
    (hreserved : Reserved h target path w) (hpath : new.filePath = path)
    (hsha : new.sha256 = some (h.sha256Hex bytes)) :
    (documentImport h new : Sync μ τ Document).Endures W A (Tidy h target A) w fun r t ↦
      (∀ e, r = .error e → Tidy h target A t) ∧
        ∀ d, r = .ok d → HalfStored h target A path bytes t := by
  refine endures_query_bind fun w₁ h₁ ↦ ?_
  have hw₁ := hw.others hW hA h₁
  refine ⟨hw₁.kept, hw₁, Endures.ite
    (fun _ ↦ (endures_fail _).2 ⟨fun _ _ ↦ hw₁, fun _ hd ↦ nomatch hd⟩) fun _ ↦ ?_⟩
  refine endures_query_bind fun w₂ h₂ ↦ ?_
  have hw₂ := hw₁.others hW hA h₂
  refine ⟨hw₂.kept, hw₂, ?_⟩
  cases new.sha256.bind (findBySha256 w₂.documents new.bookId) with
  | some existingId => exact (endures_fail _).2 ⟨fun _ _ ↦ hw₂, fun _ hd ↦ nomatch hd⟩
  | none =>
    refine endures_bind_post (endures_newId hW hA hw₂)
      (fun e t hr ↦ ⟨fun _ _ ↦ hr.1, fun _ hd ↦ nomatch hd⟩) fun id t hr ↦ ?_
    obtain ⟨htidy, hkept, -⟩ := hr
    have hreserved := hkept path ((hreserved.others hW h₁).others hW h₂)
    let document : Document := { new with id := id, status := .pending }
    exact endures_bind_post
      (endures_insertDocument hW hA hh document htidy hreserved hpath hsha)
      (fun e t hr ↦ ⟨fun _ _ ↦ hr.1 e rfl, fun _ hd ↦ nomatch hd⟩)
      fun _ t hr ↦ (endures_pure _).2 ⟨fun _ he ↦ (nomatch he), fun _ _ ↦ hr.2 _ rfl⟩

/-- Once the row of a new document is there its file is written. -/
theorem endures_importBytes (hh : Distinct h) {kind : DocumentKind}
    {mimeType originalName : Option String} {outcome : EmailImportOutcome}
    (hw : Tidy h target A w) (hreserved : Reserved h target path w) :
    (importBytes h target.bookId path bytes kind mimeType originalName outcome :
      Sync μ τ EmailImportOutcome).Endures W A (Tidy h target A) w
        fun _ ↦ Tidy h target A := by
  refine endures_attempt_bind (endures_documentImport hW hA hh hw hreserved rfl rfl)
    fun r t hr ↦ ?_
  split
  · have hhalf := hr.2 _ rfl
    have hfile : ∀ fate, W.faults [.file] fate → fate = .commits :=
      fun fate hfate ↦ (hW.faults hfate).2 List.mem_cons_self
    refine endures_bind_keep (endures_atomically (fun u hu ↦ ?_) (fun u hu e he ↦ ?_) nofun ?_)
      fun _ _ htidy ↦ (endures_pure _).2 htidy
    · exact ⟨(hhalf.others hW hA hu).kept, fun hstops ↦ nomatch hfile _ hstops⟩
    · exact nomatch hfile _ he
    · intro u hu a u' hbody
      cases hbody
      exact (hhalf.others hW hA hu).written hh hA
  · exact (endures_pure _).2 (hr.1 _ rfl)
  · exact (endures_fail _).2 (hr.1 _ rfl)

theorem endures_importAttachments (hh : Distinct h) (attachments : List Attachment)
    (outcome : EmailImportOutcome) (hw : Tidy h target A w) :
    (attachments.foldlM (importAttachment h target.bookId target.storageDir) outcome :
      Sync μ τ EmailImportOutcome).Endures W A (Tidy h target A) w
        fun _ ↦ Tidy h target A := by
  induction attachments generalizing outcome w with
  | nil => exact (endures_pure _).2 hw
  | cons attachment attachments ih =>
    rw [List.foldlM_cons]
    exact endures_bind_keep (endures_bind_post (endures_newId hW hA hw) (fun _ _ hr ↦ hr.1)
      fun id t hr ↦ endures_importBytes hW hA hh hr.1 (hr.2.2 id rfl _)) fun outcome _ ↦ ih outcome

theorem endures_createDir (hw : Tidy h target A w) :
    (atomically [.directory] (pure ()) : Sync μ τ Unit).Endures W A (Tidy h target A) w
      fun _ ↦ Tidy h target A := by
  have hothers : ∀ t, W.others w t → Tidy h target A t := fun _ ht ↦ hw.others hW hA ht
  refine endures_atomically (fun t ht ↦ ⟨(hothers t ht).kept, fun _ ↦ hothers t ht⟩)
    (fun t ht _ _ ↦ hothers t ht) (fun t ht _ _ ↦ hothers t ht) fun t ht a t' hbody ↦ ?_
  cases hbody
  exact hothers t ht

theorem endures_importMessageDocuments (hh : Distinct h) (message : InboundMessage)
    (hw : Tidy h target A w) :
    (importMessageDocuments h target.bookId target.storageDir message :
      Sync μ τ EmailImportOutcome).Endures W A (Tidy h target A) w
        fun _ ↦ Tidy h target A := by
  refine endures_bind_keep (endures_createDir hW hA hw) fun _ _ hw ↦
    endures_bind_keep (endures_importAttachments hW hA hh _ _ hw) fun outcome t hw ↦ ?_
  cases message.receiptHtml with
  | none => exact (endures_pure _).2 hw
  | some html =>
    refine endures_bind_post (endures_newId hW hA hw) (fun _ _ hr ↦ hr.1) fun id t hr ↦ ?_
    have hpath : id ++ "-body.html" = id ++ "-" ++ "body.html" := by
      rw [String.append_assoc]
      rfl
    refine endures_importBytes hW hA hh hr.1 ?_
    rw [hpath]
    exact hr.2.2 id rfl _

theorem endures_syncAlerts (message : InboundMessage)
    (hbooks : ∀ alerts ∈ target.alerts, Books alerts booked) (hw : Tidy h target A w) :
    (syncAlerts message target.alerts : Sync μ τ Unit).Endures W A (Tidy h target A) w
      fun r t ↦ Tidy h target A t ∧
        OnSuccess (fun _ t ↦ target.alerts.isSome → booked message t.transactions) r t := by
  have hothers : ∀ t, W.others w t → Tidy h target A t := fun _ ht ↦ hw.others hW hA ht
  cases halerts : target.alerts with
  | none => exact (endures_pure _).2 ⟨hw, by simp⟩
  | some alerts =>
    refine endures_atomically (fun t ht ↦ ⟨(hothers t ht).kept, fun _ ↦ hothers t ht⟩)
      (fun t ht _ _ ↦ ⟨hothers t ht, trivial⟩) (fun t ht _ _ ↦ ⟨hothers t ht, trivial⟩) ?_
    intro t ht a t' hbody
    obtain ⟨⟨_, transactions⟩, himport, hok⟩ := except_bind_eq_ok.1 hbody
    cases hok
    have hbooked := hbooks alerts (Option.mem_def.2 halerts)
    refine ⟨(hothers t ht).grown hA ⟨⟨List.Subset.refl _, fun _ _ _ _ hfile ↦ hfile, ?_⟩,
      rfl, rfl, rfl⟩ rfl (Nat.le_refl _), fun _ ↦ hbooked.imports himport⟩
    exact fun _ hold ↦ hbooked.keeps himport hold

/-- What is known before a message is imported stays known, and the message is done. -/
theorem endures_importMessage (hh : Distinct h)
    (hbooks : ∀ alerts ∈ target.alerts, Books alerts booked) (outcome : MailboxSyncOutcome)
    (message : InboundMessage) (hw : Tidy h target A w) :
    (importMessage h target outcome message : Sync μ τ MailboxSyncOutcome).Endures W A
      (Tidy h target A) w fun r t ↦ Tidy h target A t ∧
        OnSuccess (fun _ ↦ Done h target booked message) r t := by
  refine Endures.ite (fun _ ↦ ?_) fun hfiltered ↦
    (endures_pure _).2 ⟨hw, fun hallowed ↦ absurd hallowed hfiltered⟩
  have hrows := (endures_importMessageDocuments hW hA hh message hw).and
    (importMessageDocuments_yields hW.plain message)
  refine endures_bind_post (hrows.mono (fun _ ↦ And.left) (fun _ ↦ And.left) fun _ _ hr ↦ hr)
    (fun _ _ hr ↦ ⟨hr.1, trivial⟩) fun imported t hr ↦ ?_
  have hstored : ∀ bytes ∈ contents message, Stored h target.bookId bytes t := by
    intro bytes hbytes
    obtain ⟨d, hd, hbook, hsha⟩ := hr.2 bytes hbytes
    exact ⟨d, hd, hbook, hsha, hr.1.complete d hd bytes hsha⟩
  -- The documents are among what is known while the alerts are imported.
  have hboth := hA.and (stored_lasting hW target.bookId (contents message))
  have hsync := endures_syncAlerts hW hboth message hbooks (hr.1.mono fun hkept ↦ ⟨hkept, hstored⟩)
  refine endures_bind_post (hsync.mono (fun _ ↦ And.left) (fun _ ht ↦ ht.mono And.left)
    fun _ _ hr ↦ hr) (fun _ _ hr ↦ ⟨hr.1.mono And.left, trivial⟩) fun _ t hr ↦ ?_
  exact (endures_pure _).2 ⟨hr.1.mono And.left, fun _ ↦ ⟨hr.1.kept.2, hr.2⟩⟩

end Programs

end SlipScan.Ingest.MailFiles
