import SlipScan.Foundation.Rounds
import SlipScan.Model.Mail

namespace SlipScan.Ingest.MailRounds

open Model.Mail Foundation.Transaction Foundation.Interleaving Process

variable {μ τ κ : Type} {h : MailHost} {bookId storageDir path sha : String}
  {bytes : List UInt8} {w w' : World μ τ}

def contents (message : InboundMessage) : List (List UInt8) :=
  message.attachments.map Attachment.bytes ++
    message.receiptHtml.toList.map Model.Dedupe.asBytes

def HasRow (h : MailHost) (bookId : String) (bytes : List UInt8) (w : World μ τ) : Prop :=
  ∃ d ∈ w.documents, d.bookId = bookId ∧ d.sha256 = some (h.sha256Hex bytes)

/-- What importing changes: documents are added, and all that has to do with the mailbox stays. -/
structure Adds (w w' : World μ τ) : Prop where
  documents : w.documents <+: w'.documents
  mailbox : w'.mailbox = w.mailbox
  cursors : w'.cursors = w.cursors
  acknowledged : w'.acknowledged = w.acknowledged

instance : IsPreorder (World μ τ) Adds where
  refl _ := ⟨List.prefix_refl _, rfl, rfl, rfl⟩
  trans _ _ _ h h' := ⟨h.documents.trans h'.documents, h'.mailbox.trans h.mailbox,
    h'.cursors.trans h.cursors, h'.acknowledged.trans h.acknowledged⟩

abbrev SyncMoment (μ τ κ : Type) :=
  Moment (World μ τ) Access IngestError (MailboxSyncOutcome × κ)

def Refusal : Access → IngestError → Prop
  | .mint, _ => False
  | .directory, e | .file, e => ∃ message, e = .io message
  | .document, e | .alerts, e | .cursor, e => ∃ message, e = .core (.sqlite message)

def Faults (held : List Access) : Fate IngestError → Prop
  | .commits => True
  | .refused e => ∃ access ∈ held, Refusal access e
  | .stops => True

theorem Faults.ne_duplicate {held : List Access} {e : IngestError}
    (hfault : Faults held (.refused e)) (id : String) : e ≠ .core (.duplicateDocument id) := by
  obtain ⟨access, -, hrefusal⟩ := hfault
  rintro rfl
  cases access with
  | mint => exact hrefusal
  | directory | file | document | alerts | cursor => exact nomatch hrefusal

section Frames

theorem newId_within : (newId h : Sync μ τ String).Within fun _ ↦ Adds := by
  refine (within_atomically _ _).2 fun w a w' hw ↦ ?_
  cases hw
  exact ⟨List.prefix_refl _, rfl, rfl, rfl⟩

theorem insertDocument_moves (document : Document) :
    Moves Adds (insertDocument document : Tx (World μ τ) IngestError Unit) := by
  intro w a w' hw
  rw [insertDocument] at hw
  split at hw
  · cases hw
  · cases hw
    exact ⟨List.prefix_append _ _, rfl, rfl, rfl⟩

theorem documentImport_within (new : NewDocument) :
    (documentImport h new : Sync μ τ Document).Within fun _ ↦ Adds := by
  rw [documentImport, within_query_bind]
  intro books
  refine Within.ite (fun _ ↦ (within_fail _).2 trivial) fun _ ↦ ?_
  rw [within_query_bind]
  intro existing
  cases existing with
  | some existingId => exact (within_fail _).2 trivial
  | none =>
    exact newId_within.bind fun id ↦
      ((within_atomically _ _).2 (insertDocument_moves _)).bind fun _ ↦ (within_pure _).2 trivial

theorem writeFile_moves :
    Moves Adds (writeFile path bytes : Tx (World μ τ) IngestError Unit) := by
  intro w a w' hw
  cases hw
  exact ⟨List.prefix_refl _, rfl, rfl, rfl⟩

theorem importBytes_within {kind : DocumentKind} {mimeType originalName : Option String}
    {outcome : EmailImportOutcome} :
    (importBytes h bookId path bytes kind mimeType originalName outcome :
      Sync μ τ EmailImportOutcome).Within fun _ ↦ Adds := by
  refine (documentImport_within _).attempt.bind fun r ↦ ?_
  split
  · exact ((within_atomically _ _).2 writeFile_moves).bind fun _ ↦ (within_pure _).2 trivial
  · exact (within_pure _).2 trivial
  · exact (within_fail _).2 trivial

theorem createDir_moves : Moves Adds (pure () : Tx (World μ τ) IngestError Unit) := by
  intro w a w' hw
  cases hw
  exact refl_of Adds w

theorem importAttachments_within (attachments : List Attachment) (outcome : EmailImportOutcome) :
    (attachments.foldlM (importAttachment h bookId storageDir) outcome :
      Sync μ τ EmailImportOutcome).Within fun _ ↦ Adds := by
  induction attachments generalizing outcome with
  | nil => exact (within_pure _).2 trivial
  | cons attachment attachments ih =>
    rw [List.foldlM_cons]
    exact (newId_within.bind fun _ ↦ importBytes_within).bind fun _ ↦ ih _

theorem importMessageDocuments_within {message : InboundMessage} :
    (importMessageDocuments h bookId storageDir message :
      Sync μ τ EmailImportOutcome).Within fun _ ↦ Adds := by
  refine ((within_atomically _ _).2 createDir_moves).bind fun _ ↦
    (importAttachments_within _ _).bind fun outcome ↦ ?_
  cases message.receiptHtml with
  | none => exact (within_pure _).2 trivial
  | some html => exact newId_within.bind fun _ ↦ importBytes_within

theorem importAlerts_moves {alerts : AlertSync τ} {message : InboundMessage} :
    Moves Adds (importAlerts alerts message : Tx (World μ τ) IngestError Unit) := by
  intro w a w' hw
  obtain ⟨r, -, hr⟩ := except_bind_eq_ok.1 hw
  cases hr
  exact ⟨List.prefix_refl _, rfl, rfl, rfl⟩

theorem syncAlerts_within {message : InboundMessage} {alerts : Option (AlertSync τ)} :
    (syncAlerts message alerts : Sync μ τ Unit).Within fun _ ↦ Adds := by
  cases alerts with
  | some alerts => exact (within_atomically _ _).2 importAlerts_moves
  | none => exact (within_pure _).2 trivial

theorem importMessage_within {target : SyncTarget τ} {outcome : MailboxSyncOutcome}
    {message : InboundMessage} :
    (importMessage h target outcome message :
      Sync μ τ MailboxSyncOutcome).Within fun _ ↦ Adds := by
  refine Within.ite (fun _ ↦ ?_) fun _ ↦ (within_pure _).2 trivial
  exact importMessageDocuments_within.bind fun imported ↦
    syncAlerts_within.bind fun _ ↦ (within_pure _).2 trivial

end Frames

section Rows

variable {W : Surroundings (World μ τ) Access IngestError} {A : World μ τ → Prop}

/-- Others leave the documents of the book, and no fault looks like a duplicate. -/
structure Plain (W : Surroundings (World μ τ) Access IngestError) : Prop where
  documents : ∀ w w', W.others w w' → w.documents ⊆ w'.documents
  faults : ∀ held e, W.faults held (.refused e) → ∀ id, e ≠ .core (.duplicateDocument id)

structure Stable (W : Surroundings (World μ τ) Access IngestError) (A : World μ τ → Prop) :
    Prop where
  others : ∀ w w', A w → W.others w w' → A w'
  adds : ∀ w w', A w → Adds w w' → A w'

theorem hasRow_stable (hW : Plain W) : Stable W (HasRow h bookId bytes) where
  others w w' hrow hothers := by
    obtain ⟨d, hd, hsame⟩ := hrow
    exact ⟨d, hW.documents w w' hothers hd, hsame⟩
  adds w w' hrow hadds := by
    obtain ⟨d, hd, hsame⟩ := hrow
    exact ⟨d, hadds.documents.subset hd, hsame⟩

theorem hasRows_stable (hW : Plain W) (files : List (List UInt8)) :
    Stable W fun w ↦ ∀ bytes ∈ files, HasRow h bookId bytes w where
  others w w' hrows hothers bytes hbytes :=
    (hasRow_stable hW).others w w' (hrows bytes hbytes) hothers
  adds w w' hrows hadds bytes hbytes := (hasRow_stable hW).adds w w' (hrows bytes hbytes) hadds

/-- What is known before an import is known at all its moments and after it. -/
theorem Stable.endures {α : Type} {p : Sync μ τ α} (hA : Stable W A)
    (hp : p.Within fun _ ↦ Adds) (hw : A w) : p.Endures W A A w fun _ ↦ A :=
  hp.endures hw (fun _ hA ↦ ⟨hA, hA⟩) hA.others fun _ ↦ hA.adds

/-- A spec of the outcome of a program, whatever it does to the world on its way. -/
abbrev Yields {α : Type} (W : Surroundings (World μ τ) Access IngestError) (p : Sync μ τ α)
    (w : World μ τ) (Q : Except IngestError α → World μ τ → Prop) : Prop :=
  p.Endures W (fun _ ↦ True) (fun _ ↦ True) w Q

theorem yields_true {α : Type} {p : Sync μ τ α} : Yields W p w (OnSuccess fun _ _ ↦ True) :=
  endures_trivial.post fun r _ _ ↦ by cases r <;> trivial

theorem yields_bind {α β : Type} {p : Sync μ τ α} {f : α → Sync μ τ β} {P : α → World μ τ → Prop}
    {Q : β → World μ τ → Prop} (hp : Yields W p w (OnSuccess P))
    (hf : ∀ a t, P a t → Yields W (f a) t (OnSuccess Q)) :
    Yields W (p >>= f) w (OnSuccess Q) :=
  endures_bind_post hp (fun _ _ _ ↦ trivial) hf

/-- What is known before an import is also known after it. -/
theorem Stable.yields {α : Type} {p : Sync μ τ α} {Q : α → World μ τ → Prop}
    (hA : Stable W A) (hp : p.Within fun _ ↦ Adds) (hw : A w)
    (hQ : Yields W p w (OnSuccess Q)) : Yields W p w (OnSuccess fun a t ↦ A t ∧ Q a t) :=
  ((hA.endures hp hw).and hQ).mono (fun _ _ ↦ trivial) (fun _ _ ↦ trivial) fun r t ht ↦ by
    cases r with
    | ok a => exact ht
    | error e => trivial

def Novel (e : IngestError) : Prop :=
  ∀ id, e ≠ .core (.duplicateDocument id)

theorem newId_yields (hW : Plain W) :
    Yields W (newId h) w fun r _ ↦ ∀ e, r = .error e → Novel e := by
  refine endures_atomically (fun _ _ ↦ ⟨trivial, fun _ ↦ trivial⟩) ?_ nofun fun _ _ _ _ _ ↦ nofun
  intro t _ e he e' he'
  cases he'
  exact hW.faults _ _ he

theorem insertDocument_yields (hW : Plain W) (document : Document) :
    Yields W (atomically [.document] (insertDocument document)) w fun r t ↦
      (∃ e, r = .error e ∧ Novel e) ∨ document ∈ t.documents := by
  refine endures_atomically (fun _ _ ↦ ⟨trivial, fun _ ↦ trivial⟩) ?_ ?_ ?_
  · exact fun t _ e he ↦ .inl ⟨e, rfl, hW.faults _ _ he⟩
  · intro t _ e he
    rw [insertDocument] at he
    split at he
    · cases he
      exact .inl ⟨_, rfl, nofun⟩
    · cases he
  · intro t _ a t' hbody
    rw [insertDocument] at hbody
    split at hbody
    · cases hbody
    · cases hbody
      exact .inr (List.mem_append_right _ (List.mem_singleton.2 rfl))

/-- There is a row for a document that was imported, and for one that was there before. -/
theorem documentImport_yields (hW : Plain W) {new : NewDocument} (hnew : new.sha256 = some sha) :
    Yields W (documentImport h new) w fun r t ↦
      (∃ e, r = .error e ∧ Novel e) ∨
        ∃ d ∈ t.documents, d.bookId = new.bookId ∧ d.sha256 = some sha := by
  refine endures_query_bind fun w₁ _ ↦ ⟨trivial, trivial, Endures.ite (fun _ ↦ ?_) fun _ ↦ ?_⟩
  · exact (endures_fail _).2 (.inl ⟨_, rfl, nofun⟩)
  refine endures_query_bind fun w₂ _ ↦ ⟨trivial, trivial, ?_⟩
  cases hexisting : new.sha256.bind (findBySha256 w₂.documents new.bookId) with
  | some existingId =>
    rw [hnew, Option.bind_some, findBySha256, Option.map_eq_some_iff] at hexisting
    obtain ⟨d, hfind, -⟩ := hexisting
    have hd := List.find?_some hfind
    rw [decide_eq_true_eq] at hd
    exact (endures_fail _).2 (.inr ⟨d, List.mem_of_find?_eq_some hfind, hd⟩)
  | none =>
    refine endures_bind_post (newId_yields hW) (fun e _ hnovel ↦ .inl ⟨e, rfl, hnovel e rfl⟩)
      fun id t _ ↦ ?_
    let document : Document := { new with id := id, status := .pending }
    refine endures_bind_post (insertDocument_yields hW document) ?_ ?_
    · rintro e t (⟨_, herror, hnovel⟩ | hmem)
      · cases herror
        exact .inl ⟨e, rfl, hnovel⟩
      · exact .inr ⟨document, hmem, rfl, hnew⟩
    · rintro _ t (⟨_, herror, -⟩ | hmem)
      · cases herror
      · exact (endures_pure _).2 (.inr ⟨document, hmem, rfl, hnew⟩)

theorem importBytes_yields (hW : Plain W) {kind : DocumentKind}
    {mimeType originalName : Option String} {outcome : EmailImportOutcome} :
    Yields W (importBytes h bookId path bytes kind mimeType originalName outcome) w
      (OnSuccess fun _ ↦ HasRow h bookId bytes) := by
  refine endures_attempt_bind (documentImport_yields hW rfl) fun r t hr ↦ ?_
  have hstable : Stable W (HasRow h bookId bytes) := hasRow_stable hW
  split
  · have hrow : HasRow h bookId bytes t := by
      rcases hr with ⟨_, herror, -⟩ | hrow
      · cases herror
      · exact hrow
    refine yields_bind (hstable.yields ((within_atomically _ _).2 writeFile_moves) hrow yields_true)
      fun _ _ ht ↦ (endures_pure _).2 ht.1
  · rcases hr with ⟨_, herror, hnovel⟩ | hrow
    · cases herror
      exact absurd rfl (hnovel _)
    · exact (endures_pure _).2 hrow
  · exact (endures_fail _).2 trivial

theorem importAttachments_yields (hW : Plain W) (attachments : List Attachment)
    (outcome : EmailImportOutcome) :
    Yields W (attachments.foldlM (importAttachment h bookId storageDir) outcome) w
      (OnSuccess fun _ t ↦
        ∀ bytes ∈ attachments.map Attachment.bytes, HasRow h bookId bytes t) := by
  induction attachments generalizing outcome w with
  | nil => exact (endures_pure _).2 nofun
  | cons attachment attachments ih =>
    rw [List.foldlM_cons]
    refine yields_bind (P := fun _ ↦ HasRow h bookId attachment.bytes)
      (yields_bind yields_true fun _ _ _ ↦ importBytes_yields hW) fun outcome t hrow ↦ ?_
    refine ((hasRow_stable hW).yields (importAttachments_within _ _) hrow (ih _)).post ?_
    rintro (e | outcome) t ht
    · trivial
    · exact List.forall_mem_cons.2 ht

theorem importMessageDocuments_yields (hW : Plain W) (message : InboundMessage) :
    Yields W (importMessageDocuments h bookId storageDir message) w
      (OnSuccess fun _ t ↦ ∀ bytes ∈ contents message, HasRow h bookId bytes t) := by
  refine yields_bind yields_true fun _ _ _ ↦
    yields_bind (importAttachments_yields hW _ _) fun outcome t hrows ↦ ?_
  rw [contents]
  cases message.receiptHtml with
  | none => exact (endures_pure _).2 (by simpa using hrows)
  | some html =>
    have hreceipt : Yields W (importReceipt h bookId storageDir message outcome html) t
        (OnSuccess fun _ ↦ HasRow h bookId (Model.Dedupe.asBytes html)) :=
      yields_bind yields_true fun _ _ _ ↦ importBytes_yields hW
    refine ((hasRows_stable hW _).yields (newId_within.bind fun _ ↦ importBytes_within) hrows
      hreceipt).post ?_
    rintro (e | outcome) t ⟨hrows, hrow⟩
    · trivial
    · exact List.forall_mem_append.2 ⟨hrows, List.forall_mem_singleton.2 hrow⟩

end Rows

end SlipScan.Ingest.MailRounds
