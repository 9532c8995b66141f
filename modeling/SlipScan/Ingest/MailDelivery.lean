import SlipScan.Ingest.ImapCursor

namespace SlipScan.Ingest.MailDelivery

open Model.Mail Foundation.Transaction Foundation.Interleaving Process MailRounds MailFiles
open Relation (ReflTransGen)

variable {μ τ κ : Type} {h : MailHost} {target : SyncTarget τ} {w w' : World μ τ}
  {holds : μ → Prop} {letter : String → Option InboundMessage}

/-- If the filter allows the message, all its documents are stored. -/
def Delivered (h : MailHost) (target : SyncTarget τ) (message : InboundMessage) (w : World μ τ) :
    Prop :=
  target.filter.allows message.sender → ∀ bytes ∈ contents message, Stored h target.bookId bytes w

/-- No acknowledged message is lost. -/
def Lossless (h : MailHost) (target : SyncTarget τ) (letter : String → Option InboundMessage)
    (w : World μ τ) : Prop :=
  ∀ id ∈ w.acknowledged, ∀ message, letter id = some message → Delivered h target message w

section States

/-- What holds whenever no file is being written: the mailbox holds its messages, every document has
its file, the paths of the files to come are free, and no acknowledged message is lost. -/
structure Sound (h : MailHost) (target : SyncTarget τ) (holds : μ → Prop)
    (letter : String → Option InboundMessage) (w : World μ τ) : Prop where
  mailbox : holds w.mailbox
  complete : ∀ d ∈ w.documents, ∀ bytes, d.sha256 = some (h.sha256Hex bytes) →
    w.files d.filePath = some bytes
  free : ∀ d ∈ w.documents, ∀ n, w.minted ≤ n → ¬FilePath h target.storageDir n d.filePath
  lossless : Lossless h target letter w

structure Same (w w' : World μ τ) : Prop where
  documents : w'.documents = w.documents
  files : w'.files = w.files
  acknowledged : w'.acknowledged = w.acknowledged
  minted : w'.minted = w.minted

structure Others (holds : μ → Prop) (w w' : World μ τ) : Prop extends Same w w' where
  mailbox : holds w.mailbox → holds w'.mailbox

instance : IsPreorder (World μ τ) Same where
  refl _ := ⟨rfl, rfl, rfl, rfl⟩
  trans _ _ _ h h' := ⟨h'.documents.trans h.documents, h'.files.trans h.files,
    h'.acknowledged.trans h.acknowledged, h'.minted.trans h.minted⟩

instance : IsPreorder (World μ τ) (Others holds) where
  refl _ := ⟨refl_of Same _, fun hw ↦ hw⟩
  trans _ _ _ h h' := ⟨trans_of Same h.toSame h'.toSame, fun hw ↦ h'.mailbox (h.mailbox hw)⟩

def Holding (h : MailHost) (target : SyncTarget τ) (holds : μ → Prop)
    (letter : String → Option InboundMessage) (w : World μ τ) : Prop :=
  holds w.mailbox ∧ Lossless h target letter w

theorem sound_iff : Sound h target holds letter w ↔
    Tidy h target (Holding h target holds letter) w :=
  ⟨fun hw ↦ ⟨hw.complete, hw.free, hw.mailbox, hw.lossless⟩,
    fun hw ↦ ⟨hw.kept.1, hw.complete, hw.free, hw.kept.2⟩⟩

theorem Lossless.mono (hlossless : Lossless h target letter w)
    (hkeeps : Keeps h (fun _ _ ↦ True) w w') (hacknowledged : w'.acknowledged = w.acknowledged) :
    Lossless h target letter w' := by
  intro id hid message hmessage hallowed bytes hbytes
  rw [hacknowledged] at hid
  exact (hlossless id hid message hmessage hallowed bytes hbytes).keeps hkeeps

theorem Same.spares (hsame : Same w w') : Spares h target (fun _ _ ↦ True) w w' where
  documents := hsame.documents ▸ List.Subset.refl _
  files _ _ _ _ hfile := hsame.files ▸ hfile
  transactions _ _ := trivial
  complete _ hd hnew := absurd (hsame.documents ▸ hd) hnew
  own _ hd hnew := absurd (hsame.documents ▸ hd) hnew
  minted := hsame.minted.ge

end States

section Importing

abbrev surroundings (holds : μ → Prop) : Surroundings (World μ τ) Access IngestError where
  others := Others holds
  faults := Faults

abbrev fileSafe (holds : μ → Prop) : Surroundings (World μ τ) Access IngestError where
  others := Others holds
  faults := FileFaults

theorem fileSafe_careful : Careful h target (fun _ _ ↦ True)
    (fileSafe holds : Surroundings (World μ τ) Access IngestError) where
  others hothers := hothers.toSame.spares
  faults hfault := hfault

theorem holding_lasting : Lasting h (fun _ _ ↦ True)
    (fileSafe holds : Surroundings (World μ τ) Access IngestError)
      (Holding h target holds letter) where
  others {w w'} hw hothers := by
    have hspares : Spares h target (fun _ _ ↦ True) w w' := hothers.toSame.spares
    exact ⟨hothers.mailbox hw.1, hw.2.mono hspares.toKeeps hothers.acknowledged⟩
  grows hw hgrows := ⟨hgrows.mailbox ▸ hw.1, hw.2.mono hgrows.toKeeps hgrows.acknowledged⟩

theorem Sound.others (hsound : Sound h target holds letter w) (hothers : Others holds w w') :
    Sound h target holds letter w' :=
  sound_iff.2 ((sound_iff.1 hsound).others fileSafe_careful holding_lasting hothers)

/-- A program that writes nothing that the sync has stored. -/
theorem Sound.endures {α : Type} {p : Sync μ τ α} (hsound : Sound h target holds letter w)
    (hp : p.Within fun _ ↦ Others holds) :
    p.Endures (fileSafe holds) (Lossless h target letter) (Sound h target holds letter) w
      fun _ ↦ Sound h target holds letter :=
  hp.endures hsound (fun _ hsound ↦ ⟨hsound.lossless, hsound⟩) (fun _ _ ↦ Sound.others)
    fun _ _ _ ↦ Sound.others

theorem delivered_stable (message : InboundMessage) {w w' : World μ τ}
    (hdelivered : Delivered h target message w) (hothers : Others holds w w') :
    Delivered h target message w' := by
  intro hallowed bytes hbytes
  have hspares : Spares h target (fun _ _ ↦ True) w w' := hothers.toSame.spares
  exact (hdelivered hallowed bytes hbytes).keeps hspares.toKeeps

theorem endures_importMessage (hh : Distinct h) (outcome : MailboxSyncOutcome)
    (message : InboundMessage) (hsound : Sound h target holds letter w) :
    (importMessage h target outcome message : Sync μ τ MailboxSyncOutcome).Endures
      (fileSafe holds) (Lossless h target letter) (Sound h target holds letter) w fun r t ↦
        Sound h target holds letter t ∧ OnSuccess (fun _ ↦ Delivered h target message) r t := by
  have hbooks : ∀ alerts ∈ target.alerts, Books alerts fun _ _ ↦ True :=
    fun _ _ ↦ ⟨fun _ ↦ trivial, fun _ _ ↦ trivial⟩
  refine (MailFiles.endures_importMessage fileSafe_careful holding_lasting hh hbooks outcome
    message (sound_iff.1 hsound)).mono (fun _ ↦ And.right) (fun _ ↦ sound_iff.2) fun r t hr ↦
      ⟨sound_iff.2 hr.1, ?_⟩
  cases r with
  | error e => trivial
  | ok outcome => exact fun hallowed ↦ (hr.2 hallowed).1

end Importing

section Rounds

variable {c : MailboxConnector μ τ κ}

/-- What a connector does besides its listing: it leaves the book alone, and what it fetches is the
message of the mailbox with that name. -/
structure Faithful (c : MailboxConnector μ τ κ) (holds : μ → Prop)
    (letter : String → Option InboundMessage) : Prop where
  listNew : ∀ k, (c.listNew k).Within fun _ ↦ Others holds
  fetchMessage : ∀ k id, (c.fetchMessage k id).Within fun _ ↦ Others holds
  fetched : ∀ k id w, holds w.mailbox → Yields (fileSafe holds) (c.fetchMessage k id) w
    (OnSuccess fun answer _ ↦ ∀ message ∈ answer, message.id = id ∧ letter id = some message)
  markProcessed : ∀ k id, Moves (Others holds) (c.markProcessed k id)

theorem endures_fetchEach (hc : Faithful c holds letter) (k : κ) (ids : List String)
    (hsound : Sound h target holds letter w) :
    (fetchEach c k ids).Endures (fileSafe holds) (Lossless h target letter)
      (Sound h target holds letter) w fun r t ↦ Sound h target holds letter t ∧
        OnSuccess (fun messages _ ↦
          ∀ message ∈ messages, letter message.id = some message) r t := by
  induction ids generalizing w with
  | nil => exact (endures_pure _).2 ⟨hsound, nofun⟩
  | cons id ids ih =>
    have hfetch := (hsound.endures (hc.fetchMessage k id)).and
      (hc.fetched k id w hsound.mailbox)
    refine endures_attempt_bind (hfetch.mono (fun _ ↦ And.left) (fun _ ↦ And.left)
      fun _ _ hr ↦ hr) fun r t hr ↦ ?_
    split
    · rename_i message
      obtain ⟨hid, hletter⟩ := hr.2 message rfl
      refine endures_bind_post (ih hr.1) (fun _ _ hr ↦ ⟨hr.1, trivial⟩) fun messages t hr ↦ ?_
      exact (endures_pure _).2 ⟨hr.1, List.forall_mem_cons.2 ⟨hid ▸ hletter, hr.2⟩⟩
    · exact ih hr.1
    · exact ih hr.1
    · exact (endures_fail _).2 ⟨hr.1, trivial⟩

theorem Sound.acknowledged {message : InboundMessage} (hsound : Sound h target holds letter w)
    (hletter : letter message.id = some message) (hdelivered : Delivered h target message w) :
    Sound h target holds letter { w with acknowledged := w.acknowledged ++ [message.id] } := by
  refine ⟨hsound.mailbox, hsound.complete, hsound.free, fun id hid message' hmessage' ↦ ?_⟩
  rcases List.mem_append.1 hid with hid | hid
  · exact hsound.lossless id hid message' hmessage'
  · rw [List.mem_singleton.1 hid, hletter] at hmessage'
    cases hmessage'
    exact hdelivered

/-- A message that is acknowledged stays so. -/
theorem importEach_within (hc : Faithful c holds letter) (k : κ) (outcome : MailboxSyncOutcome)
    (messages : List InboundMessage) : (importEach h c target k outcome messages).Within
      fun _ w w' ↦ w.acknowledged ⊆ w'.acknowledged := by
  induction messages generalizing k outcome with
  | nil => exact (within_pure _).2 trivial
  | cons message messages ih =>
    refine (importMessage_within.mono fun _ w w' hadds ↦ ?_).bind fun outcome ↦
      ((within_atomically _ _).2 fun w ↦ ?_).bind fun k ↦ ih k outcome
    · rw [hadds.acknowledged]
      exact List.Subset.refl _
    · rw [acknowledge, ensures_bind]
      refine (hc.markProcessed k message.id w).mono fun k w' hothers ↦ ?_
      simp only [ensures_bind, ensures_modify, ensures_pure]
      rw [hothers.acknowledged]
      exact List.subset_append_left _ _

theorem endures_acknowledged (hc : Faithful c holds letter) (k : κ) (outcome : MailboxSyncOutcome)
    (messages : List InboundMessage) {id : String} (hid : id ∈ w.acknowledged) :
    (importEach h c target k outcome messages).Endures (fileSafe holds)
      (fun t ↦ id ∈ t.acknowledged) (fun t ↦ id ∈ t.acknowledged) w fun _ t ↦ id ∈ t.acknowledged :=
  (importEach_within hc k outcome messages).endures hid (fun _ ht ↦ ⟨ht, ht⟩)
    (fun _ _ ht hothers ↦ hothers.acknowledged ▸ ht) fun _ _ _ ht hsub ↦ hsub ht

theorem endures_importEach (hh : Distinct h) (hc : Faithful c holds letter) (k : κ)
    (outcome : MailboxSyncOutcome) (messages : List InboundMessage)
    (hletters : ∀ message ∈ messages, letter message.id = some message)
    (hsound : Sound h target holds letter w) :
    (importEach h c target k outcome messages).Endures (fileSafe holds) (Lossless h target letter)
      (Sound h target holds letter) w fun r t ↦ Sound h target holds letter t ∧
        OnSuccess (fun _ t ↦ ∀ message ∈ messages, message.id ∈ t.acknowledged) r t := by
  induction messages generalizing k outcome w with
  | nil => exact (endures_pure _).2 ⟨hsound, nofun⟩
  | cons message messages ih =>
    rw [List.forall_mem_cons] at hletters
    refine endures_bind_post (endures_importMessage hh outcome message hsound)
      (fun _ _ hr ↦ ⟨hr.1, trivial⟩) fun outcome t hr ↦ ?_
    refine (endures_bind _).2 (endures_atomically
      (fun u hu ↦ ⟨(hr.1.others hu).lossless, fun _ ↦ hr.1.others hu⟩)
      (fun u hu _ _ ↦ ⟨hr.1.others hu, trivial⟩) (fun u hu _ _ ↦ ⟨hr.1.others hu, trivial⟩) ?_)
    intro u hu
    rw [acknowledge, ensures_bind]
    refine (hc.markProcessed k message.id u).mono fun k v hv ↦ ?_
    simp only [ensures_bind, ensures_modify, ensures_pure, continues_ok]
    have hsound := ((hr.1.others hu).others hv).acknowledged hletters.1
      (delivered_stable message (delivered_stable message hr.2 hu) hv)
    have hacknowledged : message.id ∈ v.acknowledged ++ [message.id] :=
      List.mem_append_right _ (List.mem_singleton.2 rfl)
    refine ((ih k outcome hletters.2 hsound).and (endures_acknowledged hc k outcome messages
      hacknowledged)).mono (fun _ ↦ And.left) (fun _ ↦ And.left) fun r t hr ↦ ⟨hr.1.1, ?_⟩
    cases r with
    | error e => trivial
    | ok o => exact List.forall_mem_cons.2 ⟨hr.2, hr.1.2⟩

theorem endures_fetchUnseen (hc : Faithful c holds letter) (k : κ)
    (hsound : Sound h target holds letter w) :
    (fetchUnseen c k).Endures (fileSafe holds) (Lossless h target letter)
      (Sound h target holds letter) w fun r t ↦ Sound h target holds letter t ∧
        OnSuccess (fun fetched _ ↦ ∀ message ∈ fetched.1, letter message.id = some message) r t :=
  endures_bind_post (hsound.endures (hc.listNew k)) (fun _ _ hsound ↦ ⟨hsound, trivial⟩)
    fun _ _ hsound ↦ endures_bind_post (endures_fetchEach hc _ _ hsound)
      (fun _ _ hr ↦ ⟨hr.1, trivial⟩) fun _ _ hr ↦ (endures_pure _).2 hr

def IsRound (h : MailHost) (c : MailboxConnector μ τ κ) (target : SyncTarget τ)
    (p : Sync μ τ (MailboxSyncOutcome × κ)) : Prop :=
  ∃ k, p = syncMailboxWithAlerts h c target k

theorem endures_round (hh : Distinct h) (hc : Faithful c holds letter)
    {p : Sync μ τ (MailboxSyncOutcome × κ)} (hp : IsRound h c target p)
    (hsound : Sound h target holds letter w) :
    p.Endures (fileSafe holds) (Lossless h target letter) (Sound h target holds letter) w
      fun _ ↦ Sound h target holds letter := by
  obtain ⟨k, rfl⟩ := hp
  exact endures_bind_post (endures_fetchUnseen hc k hsound) (fun _ _ hr ↦ hr.1)
    fun fetched _ hr ↦ (endures_importEach hh hc fetched.2 _ fetched.1 hr.2 hr.1).post
      fun _ _ hr ↦ hr.1

/-- When every write of a file goes through, no acknowledged message is lost, whatever else happens,
and a round that gets to its end has acknowledged and stored all that it fetched. -/
theorem acknowledged_delivered (hh : Distinct h) (hc : Faithful c holds letter)
    (hstart : Sound h target holds letter w) {m : SyncMoment μ τ κ}
    (hm : ReflTransGen (Moment.Happens (fileSafe holds) (IsRound h c target)) ⟨w, none⟩ m) :
    Lossless h target letter m.store ∧ (m.program = none → ∀ k messages k' t outcome k'' t',
      ReflTransGen (Advances (fileSafe holds)) (fetchUnseen c k, m.store)
        (pure (messages, k'), t) →
      ReflTransGen (Advances (fileSafe holds)) (importEach h c target k' ⟨0, 0, [], 0⟩ messages, t)
        (pure (outcome, k''), t') →
      ∀ message ∈ messages, message.id ∈ t'.acknowledged ∧ Delivered h target message t') := by
  have hinv : Invariant (fileSafe holds) (Lossless h target letter)
      (Sound h target holds letter) := ⟨fun _ ↦ Sound.lossless, fun _ _ ↦ Sound.others⟩
  have hbefore : Moment.Keeps (fileSafe holds) (Lossless h target letter)
      (Sound h target holds letter) (⟨w, none⟩ : SyncMoment μ τ κ) := hstart
  have hkeeps : m.Keeps (fileSafe holds) (Lossless h target letter)
      (Sound h target holds letter) :=
    keeps_of_happens hinv (fun _ hp _ ↦ endures_round hh hc hp) hbefore hm
  refine ⟨hkeeps.store hinv, fun hidle k messages k' t outcome k'' t' hfetch himport ↦ ?_⟩
  have hsound : Sound h target holds letter m.store := by
    rwa [Moment.Keeps, hidle] at hkeeps
  obtain ⟨u, hu, hfetched⟩ :=
    endures_runs (refl_of (Others holds) m.store) (endures_fetchUnseen hc k hsound) hfetch
  rw [endures_pure] at hfetched
  obtain ⟨v, hv, himported⟩ := endures_runs (refl_of (Others holds) t)
    (endures_importEach hh hc k' _ messages hfetched.2 (hfetched.1.others hu)) himport
  rw [endures_pure] at himported
  intro message hmessage
  have hacknowledged : message.id ∈ t'.acknowledged :=
    hv.acknowledged ▸ himported.2 message hmessage
  exact ⟨hacknowledged, (himported.1.others hv).lossless message.id hacknowledged message
    (hfetched.2 message hmessage)⟩

end Rounds

section Imap

open Model.MailConnectors ImapCursor

variable {config : ImapConfig}

/-- The texts that name a message of the folder name the letter that it is. -/
def Names (h : MailHost) (letter : String → Option InboundMessage) (folder : ImapFolder) : Prop :=
  ∀ m ∈ folder.arrived, ∀ id, readUid id = some m.1 → ∀ message,
    parseInbound h m.2 id = .ok message → letter id = some message

theorem fetchMessage_names (folderSelected : Bool) (id : String) {w : World ImapFolder τ}
    (hw : Names h letter w.mailbox) :
    Yields (fileSafe (Names h letter)) (Imap.fetchMessage ImapFolder.transport h folderSelected id)
      w (OnSuccess fun answer _ ↦
        ∀ message ∈ answer, message.id = id ∧ letter id = some message) := by
  have hfolder : (ensureFolder ImapFolder.transport folderSelected : Sync ImapFolder τ Bool).Endures
      (fileSafe (Names h letter)) (fun t ↦ Names h letter t.mailbox)
        (fun t ↦ Names h letter t.mailbox) w fun _ t ↦ Names h letter t.mailbox :=
    (ensureFolder_within (R := fun _ ↦ Others (Names h letter)) folderSelected).endures hw
      (fun _ ht ↦ ⟨ht, ht⟩) (fun _ _ ht hothers ↦ hothers.mailbox ht)
      fun _ _ _ ht hothers ↦ hothers.mailbox ht
  refine endures_bind_post (hfolder.mono (fun _ _ ↦ trivial) (fun _ _ ↦ trivial) fun _ _ ht ↦ ht)
    (fun _ _ _ ↦ trivial) fun _ t ht ↦ endures_ofExcept_bind (fun _ _ ↦ trivial) fun uid huid ↦ ?_
  refine endures_query_bind fun u hu ↦ ⟨trivial, trivial, ?_⟩
  refine endures_ofExcept_bind (fun _ _ ↦ trivial) fun answer hanswer ↦ ?_
  cases answer with
  | none => exact (endures_pure _).2 nofun
  | some raw =>
    have hraw := u.mailbox.fetch_some hanswer
    have hread : readUid id = some uid := by
      rw [parseUid] at huid
      split at huid
      · cases huid
        assumption
      · cases huid
    refine (endures_ofExcept _).2 ?_
    cases hparse : parseInbound h raw id with
    | error e => trivial
    | ok message =>
      rintro _ ⟨⟩
      exact ⟨parseInbound_id hparse, hu.mailbox ht _ hraw id hread message hparse⟩

theorem imap_faithful : Faithful (imap τ h config) (Names h letter) letter where
  listNew k := listNew_within k
  fetchMessage k id := fetchMessage_within k id
  fetched k id w hw := fetchMessage_names k id hw
  markProcessed k id w := by
    change Ensures (Imap.markProcessed config k id) w _
    simp only [Imap.markProcessed, ensures_bind, ensures_check, ensures_get]
    intro uid _ last _
    split
    · simp only [ensures_bind, ensures_pure]
      intro _ w' hset
      cases hset
      exact ⟨⟨rfl, rfl, rfl, rfl⟩, fun hw ↦ hw⟩
    · exact (ensures_pure _).2 (refl_of (Others (Names h letter)) w)

def inboxLetter (id : String) : Option InboundMessage :=
  if readUid id = some 3 then (parseInbound slipHost [1] id).toOption else none

theorem inbox_sound :
    Sound slipHost inboxTarget (Names slipHost inboxLetter) inboxLetter inbox where
  mailbox m hm id hid message hparse := by
    rw [inboxLetter]
    cases List.mem_singleton.1 hm
    rw [if_pos hid, hparse]
    rfl
  complete _ hd := nomatch hd
  free _ hd := nomatch hd
  lossless _ hid := nomatch hid

def inboxSlip : InboundMessage where
  id := "3"
  sender := "till@shop.example"
  subject := none
  attachments := [⟨"slip.pdf", "application/octet-stream", [7]⟩]
  receiptHtml := none
  bodyText := none

def inboxImport : Sync ImapFolder Unit (MailboxSyncOutcome × Bool) :=
  importEach slipHost (imap Unit slipHost inboxConfig) inboxTarget true ⟨0, 0, [], 0⟩ [inboxSlip]

def inboxFetch : Sync ImapFolder Unit (List InboundMessage × Bool) :=
  fetchUnseen (imap Unit slipHost inboxConfig) false

theorem acknowledged_delivered_inbox :
    (inboxRound.run inbox).2.acknowledged = ["3"] ∧
      Lossless slipHost inboxTarget inboxLetter (inboxRound.run inbox).2 ∧
        ∀ message ∈ [inboxSlip], message.id ∈ (inboxImport.run inbox).2.acknowledged ∧
          Delivered slipHost inboxTarget message (inboxImport.run inbox).2 := by
  have hround : IsRound slipHost (imap Unit slipHost inboxConfig) inboxTarget inboxRound :=
    ⟨false, rfl⟩
  have hfetch : inboxFetch.run inbox = (.ok ([inboxSlip], true), inbox) := rfl
  obtain ⟨outcome, himport⟩ : ∃ outcome, (inboxImport.run inbox).1 = .ok (outcome, true) :=
    ⟨_, rfl⟩
  have hfetched := advances_run (W := fileSafe (Names slipHost inboxLetter)) inboxFetch inbox
  have himported := advances_run (W := fileSafe (Names slipHost inboxLetter)) inboxImport inbox
  rw [hfetch] at hfetched
  rw [himport] at himported
  refine ⟨rfl, ?_, ?_⟩
  · exact (acknowledged_delivered slipHost_distinct imap_faithful inbox_sound
      (happens_run hround inbox)).1
  · exact (acknowledged_delivered slipHost_distinct imap_faithful inbox_sound .refl).2 rfl false
      [inboxSlip] true inbox outcome true (inboxImport.run inbox).2 hfetched himported

/-- The round after one that did not get to write a file takes the document for a duplicate. -/
theorem not_lossless :
    ∃ m : SyncMoment ImapFolder Unit Bool,
      ReflTransGen (Moment.Happens (surroundings (Names slipHost inboxLetter))
        (IsRound slipHost (imap Unit slipHost inboxConfig) inboxTarget)) ⟨inbox, none⟩ m ∧
      m.program = none ∧ m.store.acknowledged = ["3"] ∧
        (∃ d, m.store.documents = [d] ∧ m.store.files d.filePath = none) ∧
          ¬Lossless slipHost inboxTarget inboxLetter m.store := by
  have hround : IsRound slipHost (imap Unit slipHost inboxConfig) inboxTarget inboxRound :=
    ⟨false, rfl⟩
  have hcut : inboxRound.Meetable (surroundings (Names slipHost inboxLetter)) cutOff inbox :=
    meetable_of_stops (fun _ ↦ trivial)
      (fun n ↦ (ite_eq_or_eq (n = 4) Fate.stops Fate.commits).symm) _ _
  have hfiles : (inboxRound.run cutInbox).2.files = fun _ ↦ none := rfl
  refine ⟨⟨(inboxRound.run cutInbox).2, none⟩,
    (happens_exec hround hcut).trans (happens_run hround cutInbox), rfl, rfl,
      ⟨_, rfl, congrFun hfiles _⟩, ?_⟩
  intro hlossless
  obtain ⟨d, -, -, -, hfile⟩ :=
    hlossless "3" (List.mem_singleton.2 rfl) inboxSlip rfl rfl [7] (List.mem_singleton.2 rfl)
  rw [hfiles] at hfile
  exact nomatch hfile

end Imap

end SlipScan.Ingest.MailDelivery
