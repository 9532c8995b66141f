import SlipScan.Foundation.Connections
import SlipScan.Model.Classification
import SlipScan.Packs.Writes

namespace SlipScan.Packs.Precedence

open Model.Domain Model.Database Model.Dedupe Model.Packs Model.Classification Writes
open Foundation.Transaction Foundation.Interleaving Foundation.Table

variable {h : PackHost} {s t : PackDb} {ι : Type}

inductive PackCall
  | install (bookId : String) (pack : VerifiedPack)
  | adoptLegacy (bookId : String) (payload : PackPayload) (installedAt : String)
  | uninstall (bookId packId : String)
  | transactionCreate (new : NewTransaction)
  | transactionCategorize (transactionId categoryId : String)

def PackCall.program (h : PackHost) : PackCall → PackService Unit
  | .install bookId pack => Model.Packs.install h bookId pack >>= fun _ ↦ pure ()
  | .adoptLegacy bookId payload installedAt =>
    Model.Packs.adoptLegacy h bookId payload installedAt >>= fun _ ↦ pure ()
  | .uninstall bookId packId => Model.Packs.uninstall bookId packId >>= fun _ ↦ pure ()
  | .transactionCreate new => Model.Classification.transactionCreate h new >>= fun _ ↦ pure ()
  | .transactionCategorize transactionId categoryId =>
    Model.Classification.transactionCategorize h transactionId categoryId >>= fun _ ↦ pure ()

section Steps

/-- The mappings of the user are still what they were. -/
def KeepsUser (s t : PackDb) : Prop :=
  ∀ key m, s.merchantMappings.find key = some m → m.source = .user →
    t.merchantMappings.find key = some m

def StaysUser (s t : PackDb) : Prop :=
  ∀ key m, s.merchantMappings.find key = some m → m.source = .user →
    ∃ m', t.merchantMappings.find key = some m' ∧ m'.source = .user

/-- A transaction has the category of the mapping of its merchant, unless it names one itself. -/
def FollowsMapping (h : PackHost) (s : PackDb) (new : NewTransaction)
    (txn : ClassifiedTransaction) : Prop :=
  txn.bookId = new.bookId ∧ txn.merchantNormalized = merchantKey h new.merchant new.description ∧
    (new.categoryId = none → ∀ merchant m, txn.merchantNormalized = some merchant →
      s.merchantMappings.find (new.bookId, merchant) = some m → txn.categoryId = some m.categoryId)

structure PackStep (s t : PackDb) : Prop where
  transactions : t.transactions = s.transactions
  keeps : KeepsUser s t

structure CreateStep (h : PackHost) (new : NewTransaction) (s t : PackDb) : Prop where
  created : ∃ txn, t.transactions = s.transactions ++ [txn] ∧ FollowsMapping h s new txn
  keeps : KeepsUser s t

structure CategorizeStep (s t : PackDb) : Prop where
  transactions : t.transactions.map (fun txn ↦ txn.id) = s.transactions.map fun txn ↦ txn.id
  stays : StaysUser s t

def PackCall.Step (h : PackHost) : PackCall → PackDb → PackDb → Prop
  | .install _ _ | .adoptLegacy _ _ _ | .uninstall _ _ => PackStep
  | .transactionCreate new => CreateStep h new
  | .transactionCategorize _ _ => CategorizeStep

theorem KeepsUser.stays (hkeeps : KeepsUser s t) : StaysUser s t :=
  fun key m hm hsource ↦ ⟨m, hkeeps key m hm hsource, hsource⟩

theorem StaysUser.trans {u : PackDb} (hst : StaysUser s t) (htu : StaysUser t u) :
    StaysUser s u := by
  intro key m hm hsource
  obtain ⟨m', hm', hsource'⟩ := hst key m hm hsource
  exact htu key m' hm' hsource'

theorem packStep_of_packWritten {bookId : String} {payload : PackPayload}
    (ht : PackWritten h bookId payload s t) : PackStep s t where
  transactions := by
    rw [ht.frame]
  keeps key m hm hsource := ht.mappings.kept key m hm (by rw [hsource]; decide)

theorem within_installInTx {bookId : String} {pack : VerifiedPack} (offered : Semver) : (do
      let (outcome, counts) ← Process.atomically [] (installInTx h bookId pack offered)
      return (⟨outcome, ← writtenRow bookId pack.payload.metadata.id, counts⟩ : InstallReport) :
        PackService InstallReport).Within fun _ ↦ PackStep := by
  apply Process.Within.bind
  · rw [within_atomically]
    exact fun s ↦ ensures_installInTx.mono fun _ t ht ↦ packStep_of_packWritten ht
  · exact fun _ ↦ Process.Within.bind (reading_writtenRow _ _).within fun _ ↦
      (within_pure _).2 trivial

theorem within_install {bookId : String} {pack : VerifiedPack} :
    (install h bookId pack).Within fun _ ↦ PackStep := by
  rw [install, within_ofExcept_bind]
  intro offered _
  rw [within_query_bind]
  intro found
  rw [within_ofExcept_bind]
  intro _ _
  apply Process.Within.ite
  · intro _
    apply Process.Within.bind
    · rw [within_atomically]
      intro s
      refine ensures_requireTrusted.mono fun _ t ht ↦ ?_
      obtain ⟨trustedSigners, rfl⟩ := ht
      exact ⟨rfl, fun _ _ hm _ ↦ hm⟩
    · exact fun _ ↦ within_installInTx offered
  · exact fun _ ↦ within_installInTx offered

theorem within_adoptLegacy {bookId installedAt : String} {payload : PackPayload} :
    (adoptLegacy h bookId payload installedAt).Within fun _ ↦ PackStep := by
  rw [adoptLegacy, within_query_bind]
  intro found
  rw [within_ofExcept_bind]
  intro _ _
  rw [within_query_bind]
  intro existing
  apply Process.Within.ite
  · exact fun _ ↦ (within_pure _).2 trivial
  · intro _
    rw [within_query_bind]
    intro now
    apply Process.Within.bind
    · rw [within_atomically]
      exact fun s ↦ ensures_writeInstall.mono fun _ t ht ↦ packStep_of_packWritten ht
    · exact fun _ ↦ Process.Within.bind (reading_writtenRow _ _).within fun _ ↦
        (within_pure _).2 trivial

theorem within_uninstall {bookId packId : String} :
    (uninstall bookId packId).Within fun _ ↦ PackStep := by
  rw [uninstall, within_atomically]
  refine fun s ↦ ensures_uninstallInTx.mono fun removed t ht ↦ ?_
  subst ht
  cases removed with
  | false => exact ⟨rfl, fun _ _ hm _ ↦ hm⟩
  | true =>
    refine ⟨rfl, fun key m hm hsource ↦ ?_⟩
    simp only [if_true, without]
    rw [Keyed.find_keep, hm, Option.filter_some, if_pos]
    simp [hsource]

theorem ensures_upsertMapping {bookId merchant categoryId : String} {source : MappingSource}
    {confidence : ℚ} :
    Ensures (upsertMapping h bookId merchant categoryId source confidence) s fun _ t ↦
      t.transactions = s.transactions ∧
        (∀ key, (bookId, merchant) ≠ key →
          t.merchantMappings.find key = s.merchantMappings.find key) ∧
        ∃ m, t.merchantMappings.find (bookId, merchant) = some m ∧ m.source = source := by
  simp only [upsertMapping, ensures_bind, ensures_get, ensures_mintId]
  refine ensures_writeMapping.mono fun _ t ht ↦ ?_
  subst ht
  simp only [Keyed.find_upsert, MerchantMapping.key]
  refine ⟨trivial, fun key hkey ↦ if_neg hkey, _, if_pos trivial, ?_⟩
  cases s.merchantMappings.find (bookId, merchant) <;> rfl

theorem ensures_classifyByPacks {bookId merchant : String} {description : Option String}
    (hnone : s.merchantMappings.find (bookId, merchant) = none) :
    Ensures (classifyByPacks h bookId merchant description) s fun _ t ↦ PackStep s t := by
  simp only [classifyByPacks, ensures_bind, ensures_get]
  split
  · rw [ensures_pure]
    exact ⟨rfl, fun _ _ hm _ ↦ hm⟩
  · simp only [ensures_bind, ensures_pure]
    refine ensures_upsertMapping.mono fun _ t ht ↦ ⟨ht.1, ?_⟩
    intro key m hm _
    rw [ht.2.1]
    · exact hm
    · intro hkey
      rw [← hkey, hnone] at hm
      cases hm

theorem ensures_categorise {new : NewTransaction} {merchantNormalized : Option String} :
    Ensures (categorise h new merchantNormalized) s fun categoryId t ↦ PackStep s t ∧
      (new.categoryId = none → ∀ merchant m, merchantNormalized = some merchant →
        s.merchantMappings.find (new.bookId, merchant) = some m →
        categoryId = some m.categoryId) := by
  have hsame : PackStep s s := ⟨rfl, fun _ _ hm _ ↦ hm⟩
  unfold categorise
  split
  · rename_i hcategory
    rw [ensures_pure]
    exact ⟨hsame, fun hnone ↦ by simp [hcategory] at hnone⟩
  · rw [ensures_pure]
    exact ⟨hsame, by simp⟩
  · rename_i merchant _
    simp only [ensures_bind, ensures_get, getMapping]
    cases hfind : s.merchantMappings.find (new.bookId, merchant) with
    | some mapping =>
      rw [ensures_pure]
      refine ⟨hsame, fun _ merchant' m hmerchant hm ↦ ?_⟩
      obtain rfl := Option.some.inj hmerchant
      rw [hfind] at hm
      rw [Option.some.inj hm]
    | none =>
      have hvacuous : ∀ merchant' m, some merchant = some merchant' →
          s.merchantMappings.find (new.bookId, merchant') ≠ some m := by
        intro merchant' m hmerchant
        obtain rfl := Option.some.inj hmerchant
        simp [hfind]
      dsimp only
      split
      · exact (ensures_classifyByPacks hfind).mono fun _ t ht ↦
          ⟨ht, fun _ merchant' m hmerchant hm ↦ absurd hm (hvacuous merchant' m hmerchant)⟩
      · rw [ensures_pure]
        exact ⟨hsame, fun _ merchant' m hmerchant hm ↦ absurd hm (hvacuous merchant' m hmerchant)⟩

theorem within_transactionCreate {new : NewTransaction} :
    (transactionCreate h new).Within fun _ ↦ CreateStep h new := by
  rw [transactionCreate, within_atomically]
  intro s
  simp only [createTransactionInTx, core, ensures_bind, ensures_get, ensures_check, ensures_mintId,
    ensures_pure]
  intro currency _ _ _
  refine ensures_categorise.mono fun categoryId t hcategorised ↦ ?_
  obtain ⟨ht, hfollows⟩ := hcategorised
  simp only [insertTransaction, ensures_bind, ensures_get, ensures_enforce, ensures_modify]
  intro _ _ _ _ _
  refine ⟨⟨_, by rw [ht.transactions], rfl, rfl, hfollows⟩, ht.keeps⟩

theorem map_id_setCategory (transactions : List ClassifiedTransaction) (id categoryId : String) :
    (setCategory transactions id categoryId).map (fun txn ↦ txn.id) =
      transactions.map fun txn ↦ txn.id :=
  map_update_of_eq (fun txn : ClassifiedTransaction ↦ { txn with categoryId := some categoryId })
    (fun _ ↦ rfl) id

theorem within_transactionCategorize {transactionId categoryId : String} :
    (transactionCategorize h transactionId categoryId).Within fun _ ↦ CategorizeStep := by
  rw [transactionCategorize, within_query_bind]
  intro found
  rw [within_ofExcept_bind]
  intro previous _
  rw [within_query_bind]
  intro category
  rw [within_ofExcept_bind]
  intro category _
  rw [within_ofExcept_bind]
  intro _ _
  rw [within_atomically]
  intro s
  simp only [categorizeInTx, insertCorrection, ensures_bind, ensures_get, ensures_set,
    ensures_mintId, ensures_enforce, ensures_modify]
  intro _ _
  split
  · rename_i merchant _
    simp only [ensures_bind, ensures_pure]
    refine ensures_upsertMapping.mono fun _ t ht ↦ ?_
    obtain ⟨htransactions, hothers, m', hm', hsource'⟩ := ht
    refine ⟨by rw [htransactions]; exact map_id_setCategory .., fun key m hm hsource ↦ ?_⟩
    by_cases hkey : (previous.bookId, merchant) = key
    · exact hkey ▸ ⟨m', hm', hsource'⟩
    · exact ⟨m, (hothers key hkey).trans hm, hsource⟩
  · rw [ensures_pure]
    exact ⟨map_id_setCategory .., fun key m hm hsource ↦ ⟨m, hm, hsource⟩⟩

theorem within_program (call : PackCall) : (call.program h).Within fun _ ↦ call.Step h := by
  cases call with
  | install bookId pack =>
    exact Process.Within.bind within_install fun _ ↦ (within_pure _).2 trivial
  | adoptLegacy bookId payload installedAt =>
    exact Process.Within.bind within_adoptLegacy fun _ ↦ (within_pure _).2 trivial
  | uninstall bookId packId =>
    exact Process.Within.bind within_uninstall fun _ ↦ (within_pure _).2 trivial
  | transactionCreate new =>
    exact Process.Within.bind within_transactionCreate fun _ ↦ (within_pure _).2 trivial
  | transactionCategorize transactionId categoryId =>
    exact Process.Within.bind within_transactionCategorize fun _ ↦ (within_pure _).2 trivial

variable {call : PackCall}

theorem PackCall.Step.keeps (hstep : call.Step h s t)
    (hcall : ∀ transactionId categoryId, call ≠ .transactionCategorize transactionId categoryId) :
    KeepsUser s t := by
  cases call with
  | install bookId pack => exact PackStep.keeps hstep
  | adoptLegacy bookId payload installedAt => exact PackStep.keeps hstep
  | uninstall bookId packId => exact PackStep.keeps hstep
  | transactionCreate new => exact CreateStep.keeps hstep
  | transactionCategorize transactionId categoryId => exact absurd rfl (hcall _ _)

theorem PackCall.Step.stays (hstep : call.Step h s t) : StaysUser s t := by
  cases call with
  | transactionCategorize transactionId categoryId => exact CategorizeStep.stays hstep
  | _ => exact (hstep.keeps nofun).stays

theorem PackCall.Step.follows (hstep : call.Step h s t) {txn : ClassifiedTransaction}
    (htxn : txn ∈ t.transactions) (hnew : ∀ txn' ∈ s.transactions, txn'.id ≠ txn.id) :
    ∃ new, call = .transactionCreate new ∧ FollowsMapping h s new txn := by
  have hold : txn.id ∉ s.transactions.map fun txn ↦ txn.id := by
    rw [List.mem_map]
    rintro ⟨txn', htxn', heq⟩
    exact hnew txn' htxn' heq
  have hids : txn.id ∈ t.transactions.map fun txn ↦ txn.id := List.mem_map_of_mem htxn
  have hpack : PackStep s t → ∃ new, call = .transactionCreate new ∧ FollowsMapping h s new txn :=
    fun hstep ↦ absurd (hstep.transactions ▸ hids) hold
  cases call with
  | install bookId pack => exact hpack hstep
  | adoptLegacy bookId payload installedAt => exact hpack hstep
  | uninstall bookId packId => exact hpack hstep
  | transactionCreate new =>
    obtain ⟨txn', htransactions, hfollows⟩ := CreateStep.created hstep
    rw [htransactions, List.mem_append, List.mem_singleton] at htxn
    rcases htxn with htxn | rfl
    · exact absurd rfl (hnew txn htxn)
    · exact ⟨new, rfl, hfollows⟩
  | transactionCategorize transactionId categoryId =>
    exact absurd (CategorizeStep.transactions hstep ▸ hids) hold

end Steps

section Interleavings

variable [DecidableEq ι]

def connections (h : PackHost) (s : PackDb) (calls : ι → PackCall) :
    Config ι PackDb Unit PackError Unit :=
  ⟨s, fun i ↦ (calls i).program h⟩

theorem step_of_turn (s : PackDb) (calls : ι → PackCall) (schedule : List ι) (i : ι) :
    (((connections h s calls).play schedule).advance i).store =
        ((connections h s calls).play schedule).store ∨
      (calls i).Step h ((connections h s calls).play schedule).store
        (((connections h s calls).play schedule).advance i).store := by
  have hstart : ∀ i, ((connections h s calls).threads i).Within fun _ ↦ (calls i).Step h :=
    fun i ↦ within_program (calls i)
  exact (Config.within_advance (Config.within_play hstart schedule) i).2

theorem staysUser_play (s : PackDb) (calls : ι → PackCall) (schedule rest : List ι) :
    StaysUser ((connections h s calls).play schedule).store
      (((connections h s calls).play schedule).play rest).store := by
  induction rest generalizing schedule with
  | nil => exact KeepsUser.stays fun _ _ hm _ ↦ hm
  | cons i rest ih =>
    have hturn : StaysUser ((connections h s calls).play schedule).store
        ((connections h s calls).play (schedule ++ [i])).store := by
      rw [Config.play_append]
      rcases step_of_turn s calls schedule i with heq | hstep
      · apply KeepsUser.stays
        intro key m hm _
        exact (congrArg (fun t : PackDb ↦ t.merchantMappings.find key) heq).trans hm
      · exact hstep.stays
    have hrest := ih (schedule ++ [i])
    rw [← Config.play_append, List.append_assoc] at hrest
    rw [← Config.play_append]
    exact hturn.trans hrest

/-- What the user has chosen for a merchant wins. Whatever packs are installed, upgraded, adopted
or removed in between, only a correction changes a mapping of the user, and leaves one of the user
in its place. A transaction that is new after a turn was created in it, and has the category that
its merchant is mapped to, unless it asked for another. -/
theorem user_choice_wins (h : PackHost) (s : PackDb) (calls : ι → PackCall) (schedule : List ι)
    (i : ι) :
    let before := (connections h s calls).play schedule
    let after := (before.advance i).store
    ((∀ transactionId categoryId, calls i ≠ .transactionCategorize transactionId categoryId) →
        KeepsUser before.store after) ∧
      (∀ rest, StaysUser before.store (before.play rest).store) ∧
      ∀ txn ∈ after.transactions, (∀ txn' ∈ before.store.transactions, txn'.id ≠ txn.id) →
        ∃ new, calls i = .transactionCreate new ∧ FollowsMapping h before.store new txn := by
  intro before after
  refine ⟨fun hcall ↦ ?_, staysUser_play s calls schedule, fun txn htxn hnew ↦ ?_⟩
  · rcases step_of_turn s calls schedule i with heq | hstep
    · intro key m hm _
      exact (congrArg (fun t : PackDb ↦ t.merchantMappings.find key) heq).trans hm
    · exact hstep.keeps hcall
  · rcases step_of_turn s calls schedule i with heq | hstep
    · have hold : txn ∈ before.store.transactions :=
        (congrArg PackDb.transactions heq) ▸ htxn
      exact absurd rfl (hnew txn hold)
    · exact hstep.follows htxn hnew

end Interleavings

end SlipScan.Packs.Precedence
