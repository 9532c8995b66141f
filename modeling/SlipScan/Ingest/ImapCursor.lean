import SlipScan.Ingest.AlertImport
import SlipScan.Ledger.Dates
import SlipScan.Model.MailConnectors
import SlipScan.Model.PlainHost
import Mathlib.Data.List.Pairwise

namespace SlipScan.Ingest.ImapCursor

open Model.Mail Model.MailConnectors Foundation.Transaction Foundation.Interleaving Process
  MailRounds MailFiles AlertImport
open Relation (ReflTransGen)
open Model.Alerts (AlertDecline ParsedAlert alertSync)
open Model.Database (Db)
open Model.PlainHost (plainHost setup)
open Model.CsvStatement (parseU32 digitsValue)

section Texts

variable {uid uid' : UInt32}

theorem readUid_uidText (uid : UInt32) : readUid (uidText uid) = some uid := by
  have hdigits : ∀ c ∈ Nat.toDigits 10 uid.toNat, c.isDigit := Ledger.Dates.isDigit_toDigits _
  have hvalue : digitsValue (Nat.toDigits 10 uid.toNat) = some uid.toNat := by
    rw [digitsValue, if_pos ⟨Nat.toDigits_ne_nil, List.all_eq_true.2 hdigits⟩,
      Nat.ofDigitChars_toDigits (by decide) (by decide)]
  have hplus : ∀ digits, Nat.toDigits 10 uid.toNat ≠ '+' :: digits := by
    intro digits heq
    have hmem : '+' ∈ Nat.toDigits 10 uid.toNat := heq ▸ List.mem_cons_self
    exact absurd (hdigits _ hmem) (by decide)
  have hread : parseU32 (Nat.toDigits 10 uid.toNat) = some uid.toNat := by
    simp only [parseU32, hvalue]
    rw [Option.filter_some, if_pos (decide_eq_true uid.toNat_lt)]
  rw [readUid, uidText, String.toList_ofList, hread, Option.map_some, UInt32.ofNat_toNat]

theorem uidText_injective : Function.Injective uidText := by
  intro uid uid' heq
  have hread := readUid_uidText uid
  rwa [heq, readUid_uidText, Option.some_inj, eq_comm] at hread

theorem parseUid_uidText (uid : UInt32) : parseUid (uidText uid) = .ok uid := by
  rw [parseUid, readUid_uidText]

end Texts

section Folders

/-- An IMAP folder: the messages that ever arrived in it, under identifiers that only grow, and what
a session with it answers. -/
structure ImapFolder where
  arrived : List (UInt32 × List UInt8)
  expunged : UInt32 → Bool
  transport : ImapTransport
  increasing : arrived.Pairwise fun m m' ↦ m.1 < m'.1
  positive : ∀ m ∈ arrived, 0 < m.1
  search_complete : ∀ {first uids}, transport.uidSearchFrom first = .ok uids →
    ∀ m ∈ arrived, expunged m.1 = false → first ≤ m.1 → m.1 ∈ uids
  search_sound : ∀ {first uids}, transport.uidSearchFrom first = .ok uids →
    ∀ uid ∈ uids, ∃ raw, (uid, raw) ∈ arrived
  fetch_some : ∀ {uid raw}, transport.uidFetchRaw uid = .ok (some raw) → (uid, raw) ∈ arrived
  fetch_none : ∀ {uid}, transport.uidFetchRaw uid = .ok none →
    ∀ m ∈ arrived, m.1 = uid → expunged uid = true
  /-- A session that breaks does not look like a message that cannot be read. -/
  fetch_error : ∀ {uid message}, transport.uidFetchRaw uid ≠ .error (.parse message)

structure Evolves (folder folder' : ImapFolder) : Prop where
  arrived : folder.arrived <+: folder'.arrived
  expunged : ∀ uid, folder.expunged uid = true → folder'.expunged uid = true

instance : IsPreorder ImapFolder Evolves where
  refl _ := ⟨List.prefix_refl _, fun _ huid ↦ huid⟩
  trans _ _ _ h h' :=
    ⟨h.arrived.trans h'.arrived, fun uid huid ↦ h'.expunged uid (h.expunged uid huid)⟩

theorem ImapFolder.raw_unique (folder : ImapFolder) {uid : UInt32} {raw raw' : List UInt8}
    (hraw : (uid, raw) ∈ folder.arrived) (hraw' : (uid, raw') ∈ folder.arrived) : raw = raw' := by
  have hapart : folder.arrived.Pairwise fun m m' ↦ m.1 ≠ m'.1 :=
    folder.increasing.imp fun hlt ↦ UInt32.ne_of_lt hlt
  have : Std.Symm fun m m' : UInt32 × List UInt8 ↦ m.1 ≠ m'.1 := ⟨fun _ _ ↦ Ne.symm⟩
  by_contra hraws
  exact hapart.forall hraw hraw' (fun heq ↦ hraws (Prod.ext_iff.1 heq).2) rfl

/-- A message that arrived later has a greater identifier. -/
theorem Evolves.later {folder folder' : ImapFolder} (h : Evolves folder folder')
    {m m' : UInt32 × List UInt8} (hm : m ∈ folder.arrived) (hm' : m' ∈ folder'.arrived)
    (hnew : m' ∉ folder.arrived) : m.1 < m'.1 := by
  obtain ⟨later, hlater⟩ := h.arrived
  have hincreasing := folder'.increasing
  rw [← hlater, List.pairwise_append] at hincreasing
  rw [← hlater, List.mem_append] at hm'
  exact hincreasing.2.2 m hm m' (hm'.resolve_left hnew)

end Folders

section Invariant

variable {τ : Type} {h : MailHost} {config : ImapConfig} {target : SyncTarget τ}
  {booked : InboundMessage → τ → Prop} {w w' : World ImapFolder τ} {listed : List UInt32}
  {P P' : UInt32 × List UInt8 → Prop}

/-- What others do during a sync: the folder evolves, the book may get other documents, and what is
stored and booked stays so. -/
structure Others (h : MailHost) (config : ImapConfig) (target : SyncTarget τ)
    (booked : InboundMessage → τ → Prop) (w w' : World ImapFolder τ) : Prop
    extends Spares h target booked w w' where
  mailbox : Evolves w.mailbox w'.mailbox
  cursor : w'.cursors config.cursorKey = w.cursors config.cursorKey

instance : IsPreorder (World ImapFolder τ) (Others h config target booked) where
  refl w := ⟨.refl w, refl_of Evolves _, rfl⟩
  trans _ _ _ h h' := ⟨h.toSpares.trans h'.toSpares, trans_of Evolves h.mailbox h'.mailbox,
    h'.cursor.trans h.cursor⟩

abbrev surroundings (h : MailHost) (config : ImapConfig) (target : SyncTarget τ)
    (booked : InboundMessage → τ → Prop) :
    Surroundings (World ImapFolder τ) Access IngestError where
  others := Others h config target booked
  faults := Faults

abbrev fileSafe (h : MailHost) (config : ImapConfig) (target : SyncTarget τ)
    (booked : InboundMessage → τ → Prop) :
    Surroundings (World ImapFolder τ) Access IngestError where
  others := Others h config target booked
  faults := FileFaults

theorem fileSafe_careful : Careful h target booked (fileSafe h config target booked) where
  others hothers := hothers.toSpares
  faults hfault := hfault

/-- A message that needs no import any more. -/
inductive Settled (h : MailHost) (target : SyncTarget τ) (booked : InboundMessage → τ → Prop)
    (w : World ImapFolder τ) (m : UInt32 × List UInt8) : Prop
  | vanished (hgone : w.mailbox.expunged m.1 = true)
  | unparseable {e : IngestError} (hparse : parseInbound h m.2 (uidText m.1) = .error e)
  | filtered {message : InboundMessage} (hparse : parseInbound h m.2 (uidText m.1) = .ok message)
    (hfilter : target.filter.allows message.sender = false)
  | imported {message : InboundMessage} (hparse : parseInbound h m.2 (uidText m.1) = .ok message)
    (hstored : ∀ bytes ∈ contents message, Stored h target.bookId bytes w)
    (hbooked : target.alerts.isSome → booked message w.transactions)

/-- The cursor is at a message of the folder, and nothing up to it was stepped over. -/
structure Safe (h : MailHost) (config : ImapConfig) (target : SyncTarget τ)
    (booked : InboundMessage → τ → Prop) (w : World ImapFolder τ) : Prop where
  reached : ∀ last, lastSeenUid config w.cursors = .ok last →
    last = 0 ∨ ∃ raw, (last, raw) ∈ w.mailbox.arrived
  settled : ∀ last, lastSeenUid config w.cursors = .ok last →
    ∀ m ∈ w.mailbox.arrived, m.1 ≤ last → Settled h target booked w m

/-- In a round that listed some messages, every message that is not settled is one that the round
still deals with, or came after those that it listed. -/
structure Awaits (h : MailHost) (config : ImapConfig) (target : SyncTarget τ)
    (booked : InboundMessage → τ → Prop) (listed : List UInt32)
    (P : UInt32 × List UInt8 → Prop) (w : World ImapFolder τ) : Prop
    extends Safe h config target booked w where
  known : ∀ uid ∈ listed, ∃ raw, (uid, raw) ∈ w.mailbox.arrived
  covers : ∀ m ∈ w.mailbox.arrived, Settled h target booked w m ∨ P m ∨ ∀ uid ∈ listed, uid < m.1

theorem Settled.keeps {m : UInt32 × List UInt8} (hw : Settled h target booked w m)
    (hexpunged : w.mailbox.expunged m.1 = true → w'.mailbox.expunged m.1 = true)
    (hkeeps : Keeps h booked w w') : Settled h target booked w' m := by
  cases hw with
  | vanished hgone => exact .vanished (hexpunged hgone)
  | unparseable hparse => exact .unparseable hparse
  | filtered hparse hfilter => exact .filtered hparse hfilter
  | imported hparse hstored hbooked =>
    exact .imported hparse (fun bytes hbytes ↦ (hstored bytes hbytes).keeps hkeeps)
      fun halerts ↦ hkeeps.transactions _ (hbooked halerts)

theorem settled_of_done {m : UInt32 × List UInt8} {message : InboundMessage}
    (hparse : parseInbound h m.2 (uidText m.1) = .ok message)
    (hdone : Done h target booked message w) : Settled h target booked w m := by
  cases hallows : target.filter.allows message.sender with
  | false => exact .filtered hparse hallows
  | true => exact .imported hparse (hdone hallows).1 (hdone hallows).2

theorem Settled.grows {m : UInt32 × List UInt8} (hsettled : Settled h target booked w m)
    (hgrows : Grows h booked w w') : Settled h target booked w' m :=
  hsettled.keeps (fun hgone ↦ hgrows.mailbox ▸ hgone) hgrows.toKeeps

theorem settled_lasting (m : UInt32 × List UInt8) :
    Lasting h booked (fileSafe h config target booked) fun w ↦ Settled h target booked w m where
  others hw hothers := hw.keeps (hothers.mailbox.expunged _) hothers.toKeeps
  grows hw hgrows := hw.grows hgrows

/-- What is in the folder when others have changed it: an old message, or one that arrived since. -/
theorem Others.arrived (hothers : Others h config target booked w w') {m : UInt32 × List UInt8}
    (hm : m ∈ w'.mailbox.arrived) :
    m ∈ w.mailbox.arrived ∨ ∀ uid raw, (uid, raw) ∈ w.mailbox.arrived → uid < m.1 := by
  by_cases hold : m ∈ w.mailbox.arrived
  · exact .inl hold
  · exact .inr fun uid raw huid ↦ hothers.mailbox.later huid hm hold

theorem lastSeenUid_congr {cursors cursors' : String → Option String}
    (hcursor : cursors' config.cursorKey = cursors config.cursorKey) :
    lastSeenUid config cursors' = lastSeenUid config cursors := by
  rw [lastSeenUid, lastSeenUid, hcursor]

theorem safe_lasting : Lasting h booked (fileSafe h config target booked)
    (Safe h config target booked) where
  others {w w'} hsafe hothers := by
    have hcursor := lastSeenUid_congr hothers.cursor
    refine ⟨fun last hlast ↦ ?_, fun last hlast m hm hle ↦ ?_⟩
    · rcases hsafe.reached last (hcursor ▸ hlast) with hzero | ⟨raw, hraw⟩
      · exact .inl hzero
      · exact .inr ⟨raw, hothers.mailbox.arrived.subset hraw⟩
    · rcases hothers.arrived hm with hold | hnew
      · exact (settled_lasting m).others (hsafe.settled last (hcursor ▸ hlast) m hold hle) hothers
      · rcases hsafe.reached last (hcursor ▸ hlast) with rfl | ⟨raw, hraw⟩
        · exact absurd (w'.mailbox.positive m hm) (UInt32.not_lt.2 hle)
        · exact absurd (hnew last raw hraw) (UInt32.not_lt.2 hle)
  grows {w w'} hsafe hgrows := by
    have hcursor : lastSeenUid config w'.cursors = lastSeenUid config w.cursors := by
      rw [hgrows.cursors]
    refine ⟨fun last hlast ↦ ?_, fun last hlast m hm hle ↦ ?_⟩
    · rw [hgrows.mailbox]
      exact hsafe.reached last (hcursor ▸ hlast)
    · rw [hgrows.mailbox] at hm
      exact (hsafe.settled last (hcursor ▸ hlast) m hm hle).grows hgrows

theorem awaits_lasting : Lasting h booked (fileSafe h config target booked)
    (Awaits h config target booked listed P) where
  others {w w'} hw hothers := by
    refine ⟨safe_lasting.others hw.toSafe hothers, fun uid huid ↦ ?_, fun m hm ↦ ?_⟩
    · obtain ⟨raw, hraw⟩ := hw.known uid huid
      exact ⟨raw, hothers.mailbox.arrived.subset hraw⟩
    · rcases hothers.arrived hm with hold | hnew
      · exact (hw.covers m hold).imp_left fun hsettled ↦
          (settled_lasting m).others hsettled hothers
      · refine .inr (.inr fun uid huid ↦ ?_)
        obtain ⟨raw, hraw⟩ := hw.known uid huid
        exact hnew uid raw hraw
  grows {w w'} hw hgrows := by
    refine ⟨safe_lasting.grows hw.toSafe hgrows, fun uid huid ↦ ?_, fun m hm ↦ ?_⟩
    · rw [hgrows.mailbox]
      exact hw.known uid huid
    · rw [hgrows.mailbox] at hm
      exact (hw.covers m hm).imp_left fun hsettled ↦ hsettled.grows hgrows

theorem Awaits.mono (hw : Awaits h config target booked listed P w)
    (hP : ∀ m ∈ w.mailbox.arrived, P m → Settled h target booked w m ∨ P' m) :
    Awaits h config target booked listed P' w where
  toSafe := hw.toSafe
  known := hw.known
  covers m hm := by
    rcases hw.covers m hm with hsettled | hpending | hlater
    · exact .inl hsettled
    · exact (hP m hm hpending).imp_right .inl
    · exact .inr (.inr hlater)

end Invariant

section Listing

variable {τ : Type} {h : MailHost} {config : ImapConfig} {target : SyncTarget τ}
  {booked : InboundMessage → τ → Prop} {w : World ImapFolder τ} {folderSelected : Bool}

theorem le_saturatingSucc {last uid : UInt32} (hlt : last < uid) : saturatingSucc last ≤ uid := by
  rw [saturatingSucc]
  split
  · exact UInt32.le_of_lt hlt
  · rename_i hlast
    rw [UInt32.le_iff_toNat_le, UInt32.toNat_add]
    rw [UInt32.lt_iff_toNat_lt] at hlt
    have := uid.toNat_lt
    have : (1 : UInt32).toNat = 1 := rfl
    omega

theorem endures_ensureFolder (hw : Tidy h target (Safe h config target booked) w) :
    (ensureFolder ImapFolder.transport folderSelected : Sync ImapFolder τ Bool).Endures
      (fileSafe h config target booked) (Safe h config target booked)
        (Tidy h target (Safe h config target booked)) w fun r t ↦
          Tidy h target (Safe h config target booked) t ∧ ∀ k, r = .ok k → k = true := by
  refine Endures.ite
    (fun _ ↦ (endures_pure _).2 ⟨hw, fun k hk ↦ (Except.ok.inj hk).symm⟩) fun _ ↦ ?_
  refine endures_query_bind fun t ht ↦ ?_
  have hw := hw.others fileSafe_careful safe_lasting ht
  refine ⟨hw.kept, hw, endures_ofExcept_bind (fun e _ ↦ ⟨hw, nofun⟩) fun _ _ ↦ ?_⟩
  exact (endures_pure _).2 ⟨hw, fun k hk ↦ (Except.ok.inj hk).symm⟩

def newUids (last : UInt32) (found : List UInt32) : List UInt32 :=
  ((found.filter (last < ·)).insertionSort (· ≤ ·)).dedup

theorem mem_newUids {last uid : UInt32} {found : List UInt32} :
    uid ∈ newUids last found ↔ uid ∈ found ∧ last < uid := by
  simp [newUids]

theorem pairwise_newUids (last : UInt32) (found : List UInt32) :
    (newUids last found).Pairwise (· < ·) := by
  have hsorted : ((found.filter (last < ·)).insertionSort (· ≤ ·)).Pairwise (· ≤ ·) := by
    have : Std.Total fun a b : UInt32 ↦ a ≤ b := ⟨UInt32.le_total⟩
    have : IsTrans UInt32 (· ≤ ·) := ⟨fun _ _ _ ↦ UInt32.le_trans⟩
    exact List.pairwise_insertionSort (· ≤ ·) _
  have hnodup := List.nodup_dedup ((found.filter (last < ·)).insertionSort (· ≤ ·))
  have hle := hsorted.sublist (List.dedup_sublist _)
  exact (hle.and hnodup).imp fun hne ↦ UInt32.lt_of_le_of_ne hne.1 hne.2

/-- A listing leaves nothing out that is above the cursor. -/
theorem awaits_newUids {last : UInt32} {found : List UInt32}
    (hsafe : Safe h config target booked w)
    (hlast : lastSeenUid config w.cursors = .ok last)
    (hfound : w.mailbox.transport.uidSearchFrom (saturatingSucc last) = .ok found) :
    Awaits h config target booked (newUids last found) (·.1 ∈ newUids last found) w where
  toSafe := hsafe
  known uid huid := w.mailbox.search_sound hfound uid (mem_newUids.1 huid).1
  covers m hm := by
    rcases UInt32.le_total m.1 last with hle | hle
    · exact .inl (hsafe.settled last hlast m hm hle)
    cases hgone : w.mailbox.expunged m.1 with
    | true => exact .inl (.vanished hgone)
    | false =>
      rcases eq_or_ne m.1 last with heq | hne
      · exact .inl (hsafe.settled last hlast m hm (heq ▸ UInt32.le_refl _))
      have hlt := UInt32.lt_of_le_of_ne hle hne.symm
      have hmem := w.mailbox.search_complete hfound m hm hgone (le_saturatingSucc hlt)
      exact .inr (.inl (mem_newUids.2 ⟨hmem, hlt⟩))

theorem endures_listNew (hw : Tidy h target (Safe h config target booked) w) :
    (Imap.listNew ImapFolder.transport config folderSelected :
      Sync ImapFolder τ (List String × Bool)).Endures (fileSafe h config target booked)
        (Safe h config target booked) (Tidy h target (Safe h config target booked)) w fun r t ↦
          Tidy h target (Safe h config target booked) t ∧
            ∀ ids k, r = .ok (ids, k) → k = true ∧ ∃ uids : List UInt32,
              ids = uids.map uidText ∧ uids.Pairwise (· < ·) ∧
                Tidy h target (Awaits h config target booked uids (·.1 ∈ uids)) t := by
  refine endures_bind_post (endures_ensureFolder hw) (fun e t hr ↦ ⟨hr.1, nofun⟩)
    fun selected t hr ↦ ?_
  obtain ⟨hw, hselected⟩ := hr
  refine endures_query_bind fun w₁ h₁ ↦ ?_
  have hw := hw.others fileSafe_careful safe_lasting h₁
  refine ⟨hw.kept, hw, endures_ofExcept_bind (fun e _ ↦ ⟨hw, nofun⟩) fun last hlast ↦ ?_⟩
  refine endures_query_bind fun w₂ h₂ ↦ ?_
  have hw := hw.others fileSafe_careful safe_lasting h₂
  refine ⟨hw.kept, hw, endures_ofExcept_bind (fun e _ ↦ ⟨hw, nofun⟩) fun found hfound ↦ ?_⟩
  refine (endures_pure _).2 ⟨hw, fun ids k hok ↦ ?_⟩
  cases hok
  have hlast : lastSeenUid config w₂.cursors = .ok last := lastSeenUid_congr h₂.cursor ▸ hlast
  exact ⟨hselected _ rfl, newUids last found, rfl, pairwise_newUids last found,
    hw.mono fun hsafe ↦ awaits_newUids hsafe hlast hfound⟩

end Listing

section Fetching

variable {τ : Type} {h : MailHost} {config : ImapConfig} {target : SyncTarget τ}
  {booked : InboundMessage → τ → Prop} {w : World ImapFolder τ} {A : World ImapFolder τ → Prop}

theorem parseInbound_id {raw : List UInt8} {id : String} {message : InboundMessage}
    (hparse : parseInbound h raw id = .ok message) : message.id = id := by
  rw [parseInbound] at hparse
  split at hparse
  · cases hparse
  · cases hparse
    rfl

def Fetched (h : MailHost) (uid : UInt32) (r : Except IngestError (Option InboundMessage))
    (w : World ImapFolder τ) : Prop :=
  match r with
  | .ok (some message) => ∃ raw, (uid, raw) ∈ w.mailbox.arrived ∧
      parseInbound h raw (uidText uid) = .ok message
  | .ok none => ∀ m ∈ w.mailbox.arrived, m.1 = uid → w.mailbox.expunged uid = true
  | .error (.parse _) => ∃ raw e, (uid, raw) ∈ w.mailbox.arrived ∧
      parseInbound h raw (uidText uid) = .error e
  | .error _ => True

theorem endures_fetchMessage
    (hA : ∀ w w', A w → Others h config target booked w w' → A w') (uid : UInt32) (hw : A w) :
    (Imap.fetchMessage ImapFolder.transport h true (uidText uid) :
      Sync ImapFolder τ (Option InboundMessage)).Endures (fileSafe h config target booked) A A w
        fun r t ↦ A t ∧ Fetched h uid r t := by
  refine endures_ofExcept_bind (fun e he ↦ ?_) fun u hu ↦ ?_
  · rw [parseUid_uidText] at he
    cases he
  rw [parseUid_uidText] at hu
  cases hu
  refine endures_query_bind fun t ht ↦ ?_
  have hA := hA w t hw ht
  refine ⟨hA, hA, endures_ofExcept_bind (fun e he ↦ ⟨hA, ?_⟩) fun answer hanswer ↦ ?_⟩
  · cases e with
    | parse message => exact absurd he t.mailbox.fetch_error
    | connection | protocol | http | state | io | core => trivial
  cases answer with
  | none => exact (endures_pure _).2 ⟨hA, t.mailbox.fetch_none hanswer⟩
  | some raw =>
    have hraw := t.mailbox.fetch_some hanswer
    refine (endures_ofExcept _).2 ⟨hA, ?_⟩
    cases hparse : parseInbound h raw (uidText uid) with
    | ok message => exact ⟨raw, hraw, hparse⟩
    | error e =>
      cases e with
      | parse message => exact ⟨raw, _, hraw, hparse⟩
      | connection | protocol | http | state | io | core => trivial

abbrev imap (τ : Type) (h : MailHost) (config : ImapConfig) :
    MailboxConnector ImapFolder τ Bool :=
  imapConnector ImapFolder.transport h config

/-- What the fetch of one message settles. -/
theorem Awaits.fetched {listed uids : List UInt32} {uid : UInt32}
    {P P' : UInt32 × List UInt8 → Prop}
    (hw : Awaits h config target booked listed (fun m ↦ m.1 ∈ uid :: uids ∨ P m) w)
    (hP : ∀ m, P m → P' m)
    (huid : ∀ m ∈ w.mailbox.arrived, m.1 = uid → Settled h target booked w m ∨ P' m) :
    Awaits h config target booked listed (fun m ↦ m.1 ∈ uids ∨ P' m) w := by
  refine hw.mono fun m hm hpending ↦ ?_
  rcases hpending with hlisted | hpending
  · rcases List.mem_cons.1 hlisted with heq | hrest
    · exact (huid m hm heq).imp_right .inr
    · exact .inr (.inl hrest)
  · exact .inr (.inr (hP m hpending))

/-- What the fetch of some messages brings is what has to be imported yet. -/
structure Brings (h : MailHost) (config : ImapConfig) (target : SyncTarget τ)
    (booked : InboundMessage → τ → Prop) (listed uids : List UInt32)
    (P : UInt32 × List UInt8 → Prop) (messages : List InboundMessage)
    (w : World ImapFolder τ) : Prop where
  ids : (messages.map InboundMessage.id).Sublist (uids.map uidText)
  awaits : Tidy h target (Awaits h config target booked listed fun m ↦
    (∃ message ∈ messages, parseInbound h m.2 (uidText m.1) = .ok message) ∨ P m) w

theorem Brings.skip {listed uids : List UInt32} {P : UInt32 × List UInt8 → Prop}
    {messages : List InboundMessage} (hw : Brings h config target booked listed uids P messages w)
    (uid : UInt32) : Brings h config target booked listed (uid :: uids) P messages w :=
  ⟨hw.ids.cons _, hw.awaits⟩

theorem Brings.cons {listed uids : List UInt32} {uid : UInt32} {raw : List UInt8}
    {message : InboundMessage} {P : UInt32 × List UInt8 → Prop} {messages : List InboundMessage}
    (hparse : parseInbound h raw (uidText uid) = .ok message)
    (hw : Brings h config target booked listed uids
      (fun m ↦ parseInbound h m.2 (uidText m.1) = .ok message ∨ P m) messages w) :
    Brings h config target booked listed (uid :: uids) P (message :: messages) w where
  ids := by
    rw [List.map_cons, List.map_cons, parseInbound_id hparse]
    exact hw.ids.cons_cons _
  awaits := hw.awaits.mono fun hawaits ↦ hawaits.mono fun m _ hm ↦ .inr (by
    rcases hm with ⟨message', hmem, hm⟩ | hm | hm
    · exact .inl ⟨message', List.mem_cons_of_mem _ hmem, hm⟩
    · exact .inl ⟨message, List.mem_cons_self, hm⟩
    · exact .inr hm)

/-- All that a fetch of the listed messages does not bring is settled. -/
theorem endures_fetchEach {listed : List UInt32} (uids : List UInt32)
    {P : UInt32 × List UInt8 → Prop}
    (hw : Tidy h target (Awaits h config target booked listed fun m ↦ m.1 ∈ uids ∨ P m) w) :
    (fetchEach (imap τ h config) true (uids.map uidText)).Endures (fileSafe h config target booked)
      (Safe h config target booked) (Tidy h target (Safe h config target booked)) w fun r t ↦
        Tidy h target (Safe h config target booked) t ∧ ∀ messages, r = .ok messages →
          Brings h config target booked listed uids P messages t := by
  induction uids generalizing w P with
  | nil =>
    refine (endures_pure _).2 ⟨hw.mono Awaits.toSafe, fun messages hmessages ↦ ?_⟩
    cases hmessages
    exact ⟨.refl _, hw.mono fun hawaits ↦
      hawaits.mono fun m _ hm ↦ .inr (.inr (hm.resolve_left List.not_mem_nil))⟩
  | cons uid uids ih =>
    refine endures_attempt_bind ((endures_fetchMessage
      (fun _ _ hw hothers ↦ hw.others fileSafe_careful awaits_lasting hothers) uid hw).mono
        (fun _ hA ↦ hA.kept.toSafe) (fun _ hA ↦ hA.mono Awaits.toSafe) fun _ _ hr ↦ hr)
          fun r t hr ↦ ?_
    obtain ⟨hA, hfetched⟩ := hr
    have hsame : ∀ {raw}, (uid, raw) ∈ t.mailbox.arrived → ∀ m ∈ t.mailbox.arrived, m.1 = uid →
        m = (uid, raw) := by
      rintro raw hraw ⟨_, raw'⟩ hm rfl
      rw [t.mailbox.raw_unique hraw hm]
    have hskip : (∀ m ∈ t.mailbox.arrived, m.1 = uid → Settled h target booked t m ∨ P m) →
        (fetchEach (imap τ h config) true (uids.map uidText)).Endures
          (fileSafe h config target booked) (Safe h config target booked)
          (Tidy h target (Safe h config target booked)) t fun r t ↦
            Tidy h target (Safe h config target booked) t ∧ ∀ messages, r = .ok messages →
              Brings h config target booked listed (uid :: uids) P messages t := fun hsettled ↦
      (ih (hA.mono fun hawaits ↦ hawaits.fetched (fun _ ↦ id) hsettled)).post fun r t hr ↦
        ⟨hr.1, fun messages hmessages ↦ (hr.2 messages hmessages).skip uid⟩
    split
    · rename_i message
      obtain ⟨raw, hraw, hparse⟩ := hfetched
      have hnext : Tidy h target (Awaits h config target booked listed fun m ↦ m.1 ∈ uids ∨
          (parseInbound h m.2 (uidText m.1) = .ok message ∨ P m)) t :=
        hA.mono fun hawaits ↦ hawaits.fetched (fun _ ↦ .inr) fun m hm heq ↦
          .inr (.inl (hsame hraw m hm heq ▸ hparse))
      refine endures_bind_post (ih hnext) (fun e t hr ↦ ⟨hr.1, nofun⟩) fun messages t hr ↦ ?_
      refine (endures_pure _).2 ⟨hr.1, fun all hall ↦ ?_⟩
      cases hall
      exact (hr.2 messages rfl).cons hparse
    · exact hskip fun m hm heq ↦ .inl (.vanished (heq ▸ hfetched m hm heq))
    · obtain ⟨raw, e, hraw, hparse⟩ := hfetched
      exact hskip fun m hm heq ↦ .inl (hsame hraw m hm heq ▸ .unparseable hparse)
    · exact (endures_fail _).2 ⟨hA.mono Awaits.toSafe, nofun⟩

end Fetching

section Importing

variable {τ : Type} {h : MailHost} {config : ImapConfig} {target : SyncTarget τ}
  {booked : InboundMessage → τ → Prop} {w w' : World ImapFolder τ} {listed : List UInt32}

/-- What acknowledging a message changes: the cursor goes to it, and never back. -/
structure Acknowledges (config : ImapConfig) (uid : UInt32) (w w' : World ImapFolder τ) :
    Prop where
  mailbox : w'.mailbox = w.mailbox
  documents : w'.documents = w.documents
  files : w'.files = w.files
  transactions : w'.transactions = w.transactions
  minted : w'.minted = w.minted
  cursor : ∃ last, lastSeenUid config w.cursors = .ok last ∧
    lastSeenUid config w'.cursors = .ok (if last < uid then uid else last)

theorem ensures_acknowledge (folderSelected : Bool) (id : String) :
    Ensures (acknowledge (imap τ h config) folderSelected id) w fun k w' ↦
      k = folderSelected ∧ ∃ uid, parseUid id = .ok uid ∧ Acknowledges config uid w w' := by
  rw [acknowledge, ensures_bind]
  change Ensures (Imap.markProcessed config folderSelected id) w _
  simp only [Imap.markProcessed, ensures_bind, ensures_check, ensures_get]
  intro uid huid last hlast
  split
  · rename_i hlt
    simp only [ensures_bind, ensures_pure, ensures_modify]
    intro _ w' hset
    cases hset
    refine ⟨trivial, uid, huid, rfl, rfl, rfl, rfl, rfl, last, hlast, ?_⟩
    simp [lastSeenUid, readUid_uidText, hlt]
  · rename_i hle
    simp only [ensures_pure, ensures_modify]
    exact ⟨trivial, uid, huid, rfl, rfl, rfl, rfl, rfl, last, hlast,
      by rw [if_neg hle, ← hlast]⟩

theorem Acknowledges.keeps {uid : UInt32} (hack : Acknowledges config uid w w') :
    Keeps h booked w w' where
  documents := hack.documents ▸ List.Subset.refl _
  files _ _ _ _ hfile := hack.files ▸ hfile
  transactions _ hbooked := hack.transactions ▸ hbooked

theorem Acknowledges.tidy {uid : UInt32} {A B : World ImapFolder τ → Prop}
    (hack : Acknowledges config uid w w') (hw : Tidy h target A w) (hB : B w') :
    Tidy h target B w' where
  complete := by
    rw [hack.documents, hack.files]
    exact hw.complete
  free := by
    rw [hack.documents, hack.minted]
    exact hw.free
  kept := hB

theorem Settled.acknowledged {uid : UInt32} {m : UInt32 × List UInt8}
    (hsettled : Settled h target booked w m) (hack : Acknowledges config uid w w') :
    Settled h target booked w' m :=
  hsettled.keeps (fun hgone ↦ hack.mailbox ▸ hgone) hack.keeps

/-- Acknowledging the next message of a round steps over no other. -/
theorem Awaits.acknowledged {uid : UInt32} {uids : List UInt32} {message : InboundMessage}
    {messages : List InboundMessage}
    (hw : Awaits h config target booked listed (fun m ↦ ∃ message' ∈ message :: messages,
      parseInbound h m.2 (uidText m.1) = .ok message') w)
    (hids : messages.map InboundMessage.id = uids.map uidText) (hsorted : ∀ u ∈ uids, uid < u)
    (hlisted : uid ∈ listed) (hdone : Done h target booked message w)
    (hack : Acknowledges config uid w w') :
    Awaits h config target booked listed (fun m ↦ ∃ message' ∈ messages,
      parseInbound h m.2 (uidText m.1) = .ok message') w' := by
  have hcovers : ∀ m ∈ w.mailbox.arrived, Settled h target booked w' m ∨
      (∃ message' ∈ messages, parseInbound h m.2 (uidText m.1) = .ok message') ∨
        ∀ uid ∈ listed, uid < m.1 := by
    intro m hm
    rcases hw.covers m hm with hsettled | ⟨message', hmem, hparse⟩ | hlater
    · exact .inl (hsettled.acknowledged hack)
    · rcases List.mem_cons.1 hmem with rfl | hmem
      · exact .inl ((settled_of_done hparse hdone).acknowledged hack)
      · exact .inr (.inl ⟨message', hmem, hparse⟩)
    · exact .inr (.inr hlater)
  obtain ⟨last, hlast, hlast'⟩ := hack.cursor
  refine ⟨⟨fun seen hseen ↦ ?_, fun seen hseen m hm hle ↦ ?_⟩, fun u hu ↦ ?_, ?_⟩
  · rw [hlast'] at hseen
    cases hseen
    rw [hack.mailbox]
    split
    · exact .inr (hw.known uid hlisted)
    · exact hw.reached last hlast
  · rw [hlast'] at hseen
    cases hseen
    rw [hack.mailbox] at hm
    split at hle
    · rcases hcovers m hm with hsettled | ⟨message', hmem, hparse⟩ | hlater
      · exact hsettled
      · have hid : message'.id ∈ uids.map uidText := hids ▸ List.mem_map_of_mem hmem
        obtain ⟨u, hu, hsame⟩ := List.mem_map.1 hid
        rw [parseInbound_id hparse] at hsame
        exact absurd (uidText_injective hsame ▸ hsorted u hu) (UInt32.not_lt.2 hle)
      · exact absurd (hlater uid hlisted) (UInt32.not_lt.2 hle)
    · exact (hw.settled last hlast m hm hle).acknowledged hack
  · rw [hack.mailbox]
    exact hw.known u hu
  · rw [hack.mailbox]
    exact hcovers

theorem endures_importEach (hh : Distinct h)
    (hbooks : ∀ alerts ∈ target.alerts, Books alerts booked) (uids : List UInt32)
    (messages : List InboundMessage) (outcome : MailboxSyncOutcome)
    (hids : messages.map InboundMessage.id = uids.map uidText)
    (hsorted : uids.Pairwise (· < ·)) (hlisted : ∀ uid ∈ uids, uid ∈ listed)
    (hw : Tidy h target (Awaits h config target booked listed fun m ↦ ∃ message ∈ messages,
      parseInbound h m.2 (uidText m.1) = .ok message) w) :
    (importEach h (imap τ h config) target true outcome messages).Endures
      (fileSafe h config target booked) (Safe h config target booked)
        (Tidy h target (Safe h config target booked)) w
          fun _ ↦ Tidy h target (Safe h config target booked) := by
  induction messages generalizing uids outcome w with
  | nil => exact (endures_pure _).2 (hw.mono Awaits.toSafe)
  | cons message messages ih =>
    cases uids with
    | nil => cases hids
    | cons uid uids =>
      rw [List.map_cons, List.map_cons, List.cons.injEq] at hids
      rw [List.pairwise_cons] at hsorted
      rw [List.forall_mem_cons] at hlisted
      refine endures_bind_post ((endures_importMessage fileSafe_careful awaits_lasting hh hbooks
        outcome message hw).mono (fun _ ↦ Awaits.toSafe) (fun _ ht ↦ ht.mono Awaits.toSafe)
          fun _ _ hr ↦ hr) (fun e t hr ↦ hr.1.mono Awaits.toSafe) fun outcome t hr ↦ ?_
      have hkept : ∀ u, Others h config target booked t u → Tidy h target _ u :=
        fun u hu ↦ hr.1.others fileSafe_careful awaits_lasting hu
      have hsafe : ∀ u, Others h config target booked t u →
          Tidy h target (Safe h config target booked) u :=
        fun u hu ↦ (hkept u hu).mono Awaits.toSafe
      refine (endures_bind _).2 (endures_atomically
        (fun u hu ↦ ⟨(hsafe u hu).kept, fun _ ↦ hsafe u hu⟩)
        (fun u hu _ _ ↦ hsafe u hu) (fun u hu _ _ ↦ hsafe u hu) ?_)
      intro u hu
      rw [hids.1]
      refine (ensures_acknowledge true _).mono fun k u' hack ↦ ?_
      obtain ⟨rfl, uid', huid, hack⟩ := hack
      rw [parseUid_uidText] at huid
      cases huid
      have hdone : Done h target booked message u := Done.keeps hr.2 hu.toKeeps
      exact ih uids outcome hids.2 hsorted.2 hlisted.2 (hack.tidy (hkept u hu)
        ((hkept u hu).kept.acknowledged hids.2 hsorted.1 hlisted.1 hdone hack))

end Importing

section Cursor

variable {τ : Type} {h : MailHost} {config : ImapConfig} {target : SyncTarget τ}
  {booked : InboundMessage → τ → Prop}

def Rises (config : ImapConfig) (w w' : World ImapFolder τ) : Prop :=
  ∀ last, lastSeenUid config w.cursors = .ok last →
    ∃ last', lastSeenUid config w'.cursors = .ok last' ∧ last ≤ last'

instance : IsPreorder (World ImapFolder τ) (Rises config) where
  refl _ last hlast := ⟨last, hlast, UInt32.le_refl _⟩
  trans _ _ _ h h' last hlast := by
    obtain ⟨last', hlast', hle⟩ := h last hlast
    obtain ⟨last'', hlast'', hle'⟩ := h' last' hlast'
    exact ⟨last'', hlast'', UInt32.le_trans hle hle'⟩

theorem rises_of_adds {w w' : World ImapFolder τ} (hadds : Adds w w') : Rises config w w' :=
  fun last hlast ↦ ⟨last, hadds.cursors ▸ hlast, UInt32.le_refl _⟩

theorem Acknowledges.rises {w w' : World ImapFolder τ} {uid : UInt32}
    (hack : Acknowledges config uid w w') : Rises config w w' := by
  intro last hlast
  obtain ⟨last', hbefore, hafter⟩ := hack.cursor
  rw [hlast] at hbefore
  cases hbefore
  refine ⟨_, hafter, ?_⟩
  split
  · exact UInt32.le_of_lt ‹_›
  · exact UInt32.le_refl _

section Reading

variable {R : List Access → World ImapFolder τ → World ImapFolder τ → Prop}

theorem ensureFolder_within (folderSelected : Bool) :
    (ensureFolder ImapFolder.transport folderSelected : Sync ImapFolder τ Bool).Within R :=
  Within.ite (fun _ ↦ (within_pure _).2 trivial) fun _ ↦ (within_query_bind _).2 fun _ ↦
    (within_ofExcept_bind _).2 fun _ _ ↦ (within_pure _).2 trivial

theorem listNew_within (folderSelected : Bool) :
    (Imap.listNew ImapFolder.transport config folderSelected :
      Sync ImapFolder τ (List String × Bool)).Within R :=
  (ensureFolder_within _).bind fun _ ↦ (within_query_bind _).2 fun _ ↦
    (within_ofExcept_bind _).2 fun _ _ ↦ (within_query_bind _).2 fun _ ↦
      (within_ofExcept_bind _).2 fun _ _ ↦ (within_pure _).2 trivial

theorem fetchMessage_within (folderSelected : Bool) (id : String) :
    (Imap.fetchMessage ImapFolder.transport h folderSelected id :
      Sync ImapFolder τ (Option InboundMessage)).Within R := by
  refine (ensureFolder_within _).bind fun _ ↦ (within_ofExcept_bind _).2 fun _ _ ↦
    (within_query_bind _).2 fun _ ↦ (within_ofExcept_bind _).2 fun answer _ ↦ ?_
  cases answer with
  | none => exact (within_pure _).2 trivial
  | some raw => exact (within_ofExcept _).2 trivial

theorem fetchEach_within (k : Bool) (ids : List String) :
    (fetchEach (imap τ h config) k ids).Within R := by
  induction ids with
  | nil => exact (within_pure _).2 trivial
  | cons id ids ih =>
    refine (fetchMessage_within k id).attempt.bind fun r ↦ ?_
    split
    · exact ih.bind fun _ ↦ (within_pure _).2 trivial
    · exact ih
    · exact ih
    · exact (within_fail _).2 trivial

end Reading

theorem importEach_within (k : Bool) (outcome : MailboxSyncOutcome)
    (messages : List InboundMessage) :
    (importEach h (imap τ h config) target k outcome messages).Within
      fun _ ↦ Rises config := by
  induction messages generalizing k outcome with
  | nil => exact (within_pure _).2 trivial
  | cons message messages ih =>
    refine (importMessage_within.mono fun _ _ _ hadds ↦ rises_of_adds hadds).bind fun outcome ↦ ?_
    refine ((within_atomically _ _).2 fun w ↦ ?_).bind fun k ↦ ih _ _
    exact (ensures_acknowledge _ _).mono fun _ _ hack ↦ hack.2.choose_spec.2.rises

def IsRound (h : MailHost) (config : ImapConfig) (target : SyncTarget τ)
    (p : Sync ImapFolder τ (MailboxSyncOutcome × Bool)) : Prop :=
  ∃ folderSelected, p = syncMailboxWithAlerts h (imap τ h config) target folderSelected

theorem isRound_within {p : Sync ImapFolder τ (MailboxSyncOutcome × Bool)}
    (hp : IsRound h config target p) : p.Within fun _ ↦ Rises config := by
  obtain ⟨folderSelected, rfl⟩ := hp
  refine Within.bind ?_ fun _ ↦ importEach_within _ _ _
  exact (listNew_within _).bind fun _ ↦
    (fetchEach_within _ _).bind fun _ ↦ (within_pure _).2 trivial

theorem endures_round (hh : Distinct h) (hbooks : ∀ alerts ∈ target.alerts, Books alerts booked)
    {p : Sync ImapFolder τ (MailboxSyncOutcome × Bool)} (hp : IsRound h config target p)
    {w : World ImapFolder τ} (hw : Tidy h target (Safe h config target booked) w) :
    p.Endures (fileSafe h config target booked) (Safe h config target booked)
      (Tidy h target (Safe h config target booked)) w
        fun _ ↦ Tidy h target (Safe h config target booked) := by
  obtain ⟨folderSelected, rfl⟩ := hp
  have hfetch : (fetchUnseen (imap τ h config) folderSelected).Endures
      (fileSafe h config target booked) (Safe h config target booked)
      (Tidy h target (Safe h config target booked)) w fun r t ↦
        Tidy h target (Safe h config target booked) t ∧ ∀ messages k, r = .ok (messages, k) →
          k = true ∧ ∃ uids listed : List UInt32,
            messages.map InboundMessage.id = uids.map uidText ∧ uids.Pairwise (· < ·) ∧
              (∀ uid ∈ uids, uid ∈ listed) ∧
                Tidy h target (Awaits h config target booked listed fun m ↦
                  ∃ message ∈ messages, parseInbound h m.2 (uidText m.1) = .ok message) t := by
    refine endures_bind_post (endures_listNew hw) (fun e t hr ↦ ⟨hr.1, nofun⟩)
      fun listing t hr ↦ ?_
    obtain ⟨ids, k⟩ := listing
    obtain ⟨rfl, uids, rfl, hsorted, hawaits⟩ := hr.2 ids k rfl
    refine endures_bind_post (endures_fetchEach (P := fun _ ↦ False) uids
      (hawaits.mono fun hawaits ↦ hawaits.mono fun _ _ hm ↦ .inr (.inl hm)))
        (fun e t hr ↦ ⟨hr.1, nofun⟩) fun messages t hr ↦ ?_
    obtain ⟨hids, hawaits⟩ := hr.2 messages rfl
    obtain ⟨uids', hsub, hids⟩ := List.sublist_map_iff.1 hids
    refine (endures_pure _).2 ⟨hr.1, fun messages' k' hok ↦ ?_⟩
    cases hok
    exact ⟨rfl, uids', uids, hids, hsorted.sublist hsub, fun uid huid ↦ hsub.subset huid,
      hawaits.mono fun hawaits ↦ hawaits.mono fun _ _ hm ↦ .inr (hm.resolve_right id)⟩
  refine endures_bind_post hfetch (fun e t hr ↦ hr.1) fun fetched t hr ↦ ?_
  obtain ⟨messages, k⟩ := fetched
  obtain ⟨rfl, uids, listed, hids, hsorted, hlisted, hawaits⟩ := hr.2 messages k rfl
  exact endures_importEach hh hbooks uids messages _ hids hsorted hlisted hawaits

theorem safe_of_unseen {w : World ImapFolder τ} (hstart : w.cursors config.cursorKey = none) :
    Safe h config target booked w := by
  have hzero : lastSeenUid config w.cursors = .ok 0 := by rw [lastSeenUid, hstart]
  refine ⟨fun last hlast ↦ .inl ?_, fun last hlast m hm hle ↦ ?_⟩
  · rw [hzero] at hlast
    exact (Except.ok.inj hlast).symm
  · rw [hzero] at hlast
    cases hlast
    exact absurd (w.mailbox.positive m hm) (UInt32.not_lt.2 hle)

/-- The cursor of a folder that was not synced before can be read along every run, and it never goes
back. -/
theorem rises_of_happens {w : World ImapFolder τ} (hstart : w.cursors config.cursorKey = none)
    {m m' : SyncMoment ImapFolder τ Bool}
    (hm : ReflTransGen (Moment.Happens (surroundings h config target booked)
      (IsRound h config target)) ⟨w, none⟩ m)
    (hm' : ReflTransGen (Moment.Happens (surroundings h config target booked)
      (IsRound h config target)) m m') :
    ∃ last last', lastSeenUid config m.store.cursors = .ok last ∧
      lastSeenUid config m'.store.cursors = .ok last' ∧ last ≤ last' := by
  have hothers : ∀ w w' : World ImapFolder τ, Others h config target booked w w' →
      Rises config w w' := fun w w' hothers last hlast ↦
    ⟨last, lastSeenUid_congr hothers.cursor ▸ hlast, UInt32.le_refl _⟩
  have hidle : Moment.Within (Rises config) (⟨w, none⟩ : SyncMoment ImapFolder τ Bool) := nofun
  obtain ⟨hwithin, hrises⟩ := moves_of_happens hothers (fun _ ↦ isRound_within) hidle hm
  obtain ⟨-, hrises'⟩ := moves_of_happens hothers (fun _ ↦ isRound_within) hwithin hm'
  obtain ⟨last, hlast, -⟩ := hrises 0 (by rw [lastSeenUid, hstart])
  obtain ⟨last', hlast', hle⟩ := hrises' last hlast
  exact ⟨last, last', hlast, hlast', hle⟩

/-- When every write of a file goes through, every message up to the cursor was stored and booked,
was filtered out, or could not be imported. The cursor never goes back, whatever fails. -/
theorem cursor_safe (hh : Distinct h) (hbooks : ∀ alerts ∈ target.alerts, Books alerts booked)
    {w : World ImapFolder τ} (hstart : w.cursors config.cursorKey = none)
    (htidy : Tidy h target (fun _ ↦ True) w) :
    (∀ m m', ReflTransGen (Moment.Happens (surroundings h config target booked)
        (IsRound h config target)) ⟨w, none⟩ m →
      ReflTransGen (Moment.Happens (surroundings h config target booked)
        (IsRound h config target)) m m' →
      ∃ last last', lastSeenUid config m.store.cursors = .ok last ∧
        lastSeenUid config m'.store.cursors = .ok last' ∧ last ≤ last') ∧
    ∀ m, ReflTransGen (Moment.Happens (fileSafe h config target booked)
        (IsRound h config target)) ⟨w, none⟩ m →
      ∀ last, lastSeenUid config m.store.cursors = .ok last →
        ∀ x ∈ m.store.mailbox.arrived, x.1 ≤ last → Settled h target booked m.store x := by
  refine ⟨fun m m' hm hm' ↦ rises_of_happens hstart hm hm', fun m hm last hlast ↦ ?_⟩
  have hinv : Invariant (fileSafe h config target booked) (Safe h config target booked)
      (Tidy h target (Safe h config target booked)) :=
    ⟨fun _ hw ↦ hw.kept, fun _ _ hw hothers ↦ hw.others fileSafe_careful safe_lasting hothers⟩
  have hbefore : Moment.Keeps (fileSafe h config target booked) (Safe h config target booked)
      (Tidy h target (Safe h config target booked))
        (⟨w, none⟩ : SyncMoment ImapFolder τ Bool) :=
    htidy.mono fun _ ↦ safe_of_unseen hstart
  have hkeeps := keeps_of_happens hinv (fun _ hp _ ↦ endures_round hh hbooks hp) hbefore hm
  exact (hkeeps.store hinv).settled last hlast

def ImapFolder.quiet (arrived : List (UInt32 × List UInt8))
    (increasing : arrived.Pairwise fun m m' ↦ m.1 < m'.1) (positive : ∀ m ∈ arrived, 0 < m.1) :
    ImapFolder where
  arrived := arrived
  expunged _ := false
  transport :=
    { selectFolder := .ok ()
      uidSearchFrom := fun first ↦ .ok ((arrived.filter (first ≤ ·.1)).map Prod.fst)
      uidFetchRaw := fun uid ↦ .ok ((arrived.find? (·.1 = uid)).map Prod.snd) }
  increasing := increasing
  positive := positive
  search_complete := by
    intro first uids huids m hm _ hle
    cases huids
    exact List.mem_map_of_mem (List.mem_filter.2 ⟨hm, decide_eq_true hle⟩)
  search_sound := by
    intro first uids huids uid huid
    cases huids
    obtain ⟨m, hm, rfl⟩ := List.mem_map.1 huid
    exact ⟨m.2, (List.mem_filter.1 hm).1⟩
  fetch_some := by
    intro uid raw hraw
    obtain ⟨m, hm, rfl⟩ := Option.map_eq_some_iff.1 (Except.ok.inj hraw)
    have huid := List.find?_some hm
    rw [decide_eq_true_eq] at huid
    exact huid ▸ List.mem_of_find?_eq_some hm
  fetch_none := by
    intro uid hnone m hm huid
    have hfind := List.find?_eq_none.1 (Option.map_eq_none_iff.1 (Except.ok.inj hnone)) m hm
    exact absurd (decide_eq_true huid) hfind
  fetch_error := nofun

def slipHost : MailHost where
  newId n := String.ofList (Nat.toDigits 10 n)
  sha256Hex bytes := String.ofList (bytes.map fun b ↦ Char.ofNat b.toNat)
  parseMime _ := some
    { fromAddress := some "till@shop.example"
      subject := none
      attachments := [⟨some "slip.pdf", none, [7]⟩]
      bodyText := none
      bodyHtml := none }
  htmlText := id
  looksLikeReceipt _ := false

def inboxConfig : ImapConfig :=
  ⟨"mail.example", "INBOX", "me"⟩

def inboxTarget : SyncTarget Unit :=
  ⟨"book", "/mail", ⟨["shop.example"]⟩, none⟩

def inbox : World ImapFolder Unit where
  mailbox := .quiet [(3, [1])] (by simp) (by decide)
  books := ["book"]
  documents := []
  files _ := none
  cursors _ := none
  transactions := ()
  acknowledged := []
  minted := 0

def inboxRound : Sync ImapFolder Unit (MailboxSyncOutcome × Bool) :=
  syncMailboxWithAlerts slipHost (imap Unit slipHost inboxConfig) inboxTarget false

theorem inboxRound_isRound : IsRound slipHost inboxConfig inboxTarget inboxRound :=
  ⟨false, rfl⟩

def cutOff : Fates IngestError := fun n ↦ if n = 4 then .stops else .commits

def cutInbox : World ImapFolder Unit :=
  (inboxRound.exec cutOff inbox).2.1

theorem cutInbox_meetable {booked : InboundMessage → Unit → Prop} : inboxRound.Meetable
    (surroundings slipHost inboxConfig inboxTarget booked) cutOff inbox :=
  meetable_of_stops (fun _ ↦ trivial)
    (fun n ↦ (ite_eq_or_eq (n = 4) Fate.stops Fate.commits).symm) _ _

/-- The round after one that did not get to write a file moves the cursor to the message that it
belongs to. -/
theorem cursor_not_safe : ¬∀ m : SyncMoment ImapFolder Unit Bool,
    ReflTransGen (Moment.Happens
      (surroundings slipHost inboxConfig inboxTarget fun _ _ ↦ True)
        (IsRound slipHost inboxConfig inboxTarget)) ⟨inbox, none⟩ m →
      ∀ last, lastSeenUid inboxConfig m.store.cursors = .ok last →
        ∀ x ∈ m.store.mailbox.arrived, x.1 ≤ last →
          Settled slipHost inboxTarget (fun _ _ ↦ True) m.store x := by
  intro hsafe
  have hfiles : (inboxRound.run cutInbox).2.files = fun _ ↦ none := rfl
  have hsettled := hsafe ⟨(inboxRound.run cutInbox).2, none⟩
    ((happens_exec inboxRound_isRound cutInbox_meetable).trans
      (happens_run inboxRound_isRound cutInbox)) 3 rfl (3, [1]) (List.mem_singleton.2 rfl)
        (UInt32.le_refl _)
  cases hsettled with
  | vanished hgone => exact nomatch hgone
  | unparseable hparse => exact nomatch hparse
  | filtered hparse hfilter =>
    cases hparse
    exact nomatch hfilter
  | imported hparse hstored =>
    cases hparse
    obtain ⟨d, -, -, -, hfile⟩ := hstored [7] (List.mem_singleton.2 rfl)
    rw [hfiles] at hfile
    exact nomatch hfile

theorem takeWhile_newId (n : ℕ) (name : String) :
    (slipHost.newId n ++ "-" ++ name).toList.takeWhile Char.isDigit = Nat.toDigits 10 n := by
  rw [String.toList_append, String.toList_append, slipHost, String.toList_ofList,
    List.append_assoc, List.takeWhile_append_of_pos (Ledger.Dates.isDigit_toDigits n)]
  exact List.append_nil _

theorem slipHost_distinct : Distinct slipHost where
  slash n hslash := by
    rw [slipHost, String.toList_ofList] at hslash
    exact absurd (Ledger.Dates.isDigit_toDigits n _ hslash) (by decide)
  newId := by
    intro n n' name name' heq
    have hlead := congrArg (fun s : String ↦ s.toList.takeWhile Char.isDigit) heq
    simp only [takeWhile_newId] at hlead
    rw [← Nat.ofDigitChars_toDigits (b := 10) (n := n) (by decide) (by decide), hlead,
      Nat.ofDigitChars_toDigits (by decide) (by decide)]
  sha256Hex bytes bytes' heq := by
    have hcharacter : Function.Injective fun b : UInt8 ↦ Char.ofNat b.toNat := by
      intro b b' heq
      have hvalue : ∀ b : UInt8, (Char.ofNat b.toNat).toNat = b.toNat := fun b ↦ by
        rw [Char.ofNat, dif_pos (.inl (b.toNat_lt.trans (by decide)))]
        rfl
      exact UInt8.toNat_inj.1 (by rw [← hvalue b, ← hvalue b']; exact congrArg Char.toNat heq)
    exact hcharacter.list_map (String.ofList_injective heq)

def alertHost : MailHost :=
  { slipHost with
    parseMime := fun raw ↦
      if raw = [2] then
        some
          { fromAddress := some "alerts@bank.example"
            subject := none
            attachments := []
            bodyText := some "COFFEE -35.00"
            bodyHtml := none }
      else slipHost.parseMime raw }

theorem alertHost_distinct : Distinct alertHost :=
  ⟨slipHost_distinct.slash, slipHost_distinct.newId, slipHost_distinct.sha256Hex⟩

def coffeeRules (message : InboundMessage) : Except AlertDecline ParsedAlert :=
  if message.bodyText = some "COFFEE -35.00" then
    .ok
      { packId := "bank"
        ruleId := "coffee"
        messageId := message.id
        line := ⟨"2025-01-31", "COFFEE", -3500, none, none⟩
        direction := .debit
        reference := none
        accountHint := none }
  else .error .noRuleForSender

def alertTarget : SyncTarget Db where
  bookId := "book"
  storageDir := "/mail"
  filter := ⟨["shop.example", "bank.example"]⟩
  alerts := some
    (alertSync plainHost (fun _ ↦ none) coffeeRules (fun _ ↦ .sqlite "") "book" "account")

abbrev coffeeBooked : InboundMessage → Db → Prop :=
  Booked plainHost (fun _ ↦ none) coffeeRules "book" "account"

def alertInbox : World ImapFolder Db where
  mailbox := .quiet [(3, [1]), (5, [2])] (by simp) (by decide)
  books := ["book"]
  documents := []
  files _ := none
  cursors _ := none
  transactions := setup
  acknowledged := []
  minted := 0

def alertRound : Sync ImapFolder Db (MailboxSyncOutcome × Bool) :=
  syncMailboxWithAlerts alertHost (imap Db alertHost inboxConfig) alertTarget false

theorem alertInbox_tidy : Tidy alertHost alertTarget (fun _ ↦ True) alertInbox where
  complete _ hd := nomatch hd
  free _ hd := nomatch hd
  kept := trivial

theorem cursor_safe_inbox :
    (alertRound.run alertInbox).2.transactions.transactions.length = 1 ∧
      lastSeenUid inboxConfig (alertRound.run alertInbox).2.cursors = .ok 5 ∧
        ∀ x ∈ (alertRound.run alertInbox).2.mailbox.arrived, x.1 ≤ 5 →
          Settled alertHost alertTarget coffeeBooked (alertRound.run alertInbox).2 x := by
  have hbooks : ∀ alerts ∈ alertTarget.alerts, Books alerts coffeeBooked := by
    rintro _ ⟨⟩
    exact books_alertSync fun _ _ _ he ↦ nomatch he
  have hround : IsRound alertHost inboxConfig alertTarget alertRound := ⟨false, rfl⟩
  have hcursor : lastSeenUid inboxConfig (alertRound.run alertInbox).2.cursors = .ok 5 := rfl
  exact ⟨rfl, hcursor, (cursor_safe alertHost_distinct hbooks rfl alertInbox_tidy).2 ⟨_, none⟩
    (happens_run hround alertInbox) 5 hcursor⟩

end Cursor

end SlipScan.Ingest.ImapCursor
