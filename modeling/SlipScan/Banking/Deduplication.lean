import SlipScan.Ledger.Lines
import SlipScan.Model.Banking
import SlipScan.Model.Dedupe
import SlipScan.Sync.Columns

namespace SlipScan.Banking.Deduplication

open Model.Domain Model.Database Model.Banking Model.Dedupe Model.SyncLog Foundation.Framing
  Foundation.Transaction Ledger.Posting Function

section Texts

theorem asBytes_injective : Injective asBytes := fun _ _ h ↦
  String.toByteArray_inj.1 (ByteArray.ext (Array.toList_inj.1 h))

theorem asBytes_eq (s : String) : asBytes s = s.toList.flatMap String.utf8EncodeChar := by
  rw [asBytes, ← String.utf8Encode_toList, List.utf8Encode]
  simp

/-- A byte below 128 stands for itself, all others are parts of longer characters. -/
theorem toNat_of_mem_utf8EncodeChar {b : UInt8} {c : Char} (hb : b ∈ String.utf8EncodeChar c)
    (hlow : b.toNat < 128) : c.toNat = b.toNat := by
  have hone : ∀ n, n ≤ 127 → (UInt8.ofNat n).toNat = n := fun n hn ↦ by
    rw [UInt8.toNat_ofNat']
    omega
  have hmore : ∀ n, 128 ≤ n → n < 256 → b ≠ UInt8.ofNat n := by
    rintro n hn hlt rfl
    rw [UInt8.toNat_ofNat'] at hlow
    omega
  simp only [String.utf8EncodeChar] at hb
  split at hb
  · rw [List.mem_singleton.1 hb, hone _ ‹_›]
    rfl
  · exfalso
    have hv := c.val.toNat_lt
    split_ifs at hb <;> simp only [List.mem_cons, List.not_mem_nil, or_false] at hb
    · rcases hb with hb | hb <;> exact hmore _ (by omega) (by omega) hb
    · rcases hb with hb | hb | hb <;> exact hmore _ (by omega) (by omega) hb
    · rcases hb with hb | hb | hb | hb <;> exact hmore _ (by omega) (by omega) hb

theorem separator_notMem {s : String} (hs : '\x1f' ∉ s.toList) : unitSeparator ∉ asBytes s := by
  rw [asBytes_eq, List.mem_flatMap]
  rintro ⟨c, hc, hmem⟩
  have hnat : c.toNat = ('\x1f').toNat := toNat_of_mem_utf8EncodeChar hmem (by decide)
  exact hs (Char.toNat_inj.1 hnat ▸ hc)

theorem separator_notMem_normalizeMerchant {U : CharClasses}
    (hU : ∀ c, U.isAlphanumeric c → '\x1f' ∉ U.toLowercase c) (raw : String) :
    unitSeparator ∉ asBytes (normalizeMerchant U raw) := by
  apply separator_notMem
  rw [normalizeMerchant, String.toList_ofList, List.mem_reverse]
  refine fun hmem ↦ ?_
  have hout := List.mem_reverse.1 ((List.dropWhile_suffix _).subset hmem)
  refine List.foldlRecOn (motive := fun (out : List Char × Bool) ↦ '\x1f' ∉ out.1) raw.toList _
    (by simp) (fun out hnot ch _ ↦ ?_) hout
  by_cases hch : U.isAlphanumeric ch
  · simpa [hch] using ⟨hnot, hU ch hch⟩
  · cases hlast : out.2 with
    | true => simpa [hch, hlast] using hnot
    | false => simpa [hch, hlast] using hnot

theorem separator_notMem_currency {raw code : String}
    (hcode : normalizeCurrencyCode raw = .ok code) : unitSeparator ∉ asBytes code := by
  apply separator_notMem
  simp only [normalizeCurrencyCode] at hcode
  split at hcode
  · rename_i hletters
    obtain rfl := Except.ok.inj hcode
    rw [String.toList_ofList, List.mem_map]
    rintro ⟨c, hc, hupper⟩
    have hletter := (Ledger.Lines.toUpper_letter (List.all_eq_true.1 hletters.2 c hc)).1
    rw [hupper] at hletter
    exact absurd hletter (by decide)
  · cases hcode

end Texts

section Keys

/-- What the dedupe hash stands for: the transaction that a provider names, or else the observable
fields and the occurrence. An absent text counts as the empty one. -/
inductive DedupeKey
  | provider (accountId providerTxnId : String)
  | fields (accountId postedDate : String) (amountMinor : Int64)
      (currency merchant description : String) (occurrence : UInt32)
  deriving DecidableEq

def dedupeKey (i : HashInput) : DedupeKey :=
  match i.providerTxnId with
  | some pid => .provider i.accountId pid
  | none => .fields i.accountId i.postedDate i.amountMinor i.currency
      (i.merchantNormalized.getD "") (i.description.getD "") i.occurrence

structure SeparatedFields (i : HashInput) : Prop where
  date : unitSeparator ∉ asBytes i.postedDate
  date_ne : i.postedDate ≠ "pid"
  currency : unitSeparator ∉ asBytes i.currency
  merchant : unitSeparator ∉ asBytes (i.merchantNormalized.getD "")

structure Separated (i : HashInput) : Prop extends SeparatedFields i where
  account : unitSeparator ∉ asBytes i.accountId

/-- The line `i`, the first of its kind, has the description of a later line `j` with the
occurrence mark of `j` at its end, and is like `j` otherwise. -/
structure ReadsAs (i j : HashInput) : Prop where
  provider : i.providerTxnId = none ∧ j.providerTxnId = none
  account : i.accountId = j.accountId
  date : i.postedDate = j.postedDate
  amount : i.amountMinor = j.amountMinor
  currency : i.currency = j.currency
  merchant : i.merchantNormalized.getD "" = j.merchantNormalized.getD ""
  description : Shadows occurrenceMark (asBytes (i.description.getD "")) i.occurrence
    (asBytes (j.description.getD "")) j.occurrence

variable {i j : HashInput}

theorem amount_inj {m n : Int64}
    (h : littleEndian 8 m.toUInt64.toNat = littleEndian 8 n.toUInt64.toNat) : m = n := by
  have hnat := littleEndian_inj m.toUInt64.toNat_lt n.toUInt64.toNat_lt h
  cases m
  cases n
  exact congrArg Int64.ofUInt64 (UInt64.toNat_inj.1 hnat)

theorem length_occurrenceMark (n : UInt32) : (occurrenceMark n).length = 8 := by
  rw [occurrenceMark, List.length_append, length_littleEndian]
  rfl

theorem occurrenceMark_inj {m n : UInt32} (h : occurrenceMark m = occurrenceMark n) : m = n :=
  UInt32.toNat_inj.1 (littleEndian_inj m.toNat_lt n.toNat_lt (List.append_cancel_left h))

theorem date_ne_marker (hi : SeparatedFields i) {x y : List UInt8} :
    asBytes i.postedDate ++ unitSeparator :: x ≠ asBytes "pid" ++ unitSeparator :: y := fun h ↦
  hi.date_ne (asBytes_injective ((field_inj hi.date (by decide)).1 h).1)

theorem ReadsAs.dedupePreimage_eq (h : ReadsAs i j) : dedupePreimage i = dedupePreimage j := by
  have hmarked := (marked_eq_iff length_occurrenceMark fun _ _ ↦ occurrenceMark_inj).2
    (.inr (.inl h.description))
  simp only [dedupePreimage, h.provider.1, h.provider.2, h.account, h.date, h.amount, h.currency,
    h.merchant, hmarked]

theorem dedupePreimage_congr (hkey : dedupeKey i = dedupeKey j) :
    dedupePreimage i = dedupePreimage j := by
  cases hi : i.providerTxnId with
  | some pid =>
    cases hj : j.providerTxnId with
    | some pid' =>
      simp only [dedupeKey, hi, hj, DedupeKey.provider.injEq] at hkey
      simp only [dedupePreimage, hi, hj, hkey.1, hkey.2]
    | none => simp only [dedupeKey, hi, hj, reduceCtorEq] at hkey
  | none =>
    cases hj : j.providerTxnId with
    | some pid' => simp only [dedupeKey, hi, hj, reduceCtorEq] at hkey
    | none =>
      simp only [dedupeKey, hi, hj, DedupeKey.fields.injEq] at hkey
      obtain ⟨haccount, hdate, hamount, hcurrency, hmerchant, hdescription, hoccurrence⟩ := hkey
      simp only [dedupePreimage, hi, hj, haccount, hdate, hamount, hcurrency, hmerchant,
        hdescription, hoccurrence]

/-- Without provider ids the fields are read one by one, and only the end can be misread. -/
theorem fields_of_dedupePreimage_eq (hi : SeparatedFields i) (hj : SeparatedFields j)
    (hpi : i.providerTxnId = none) (hpj : j.providerTxnId = none)
    (haccount : i.accountId = j.accountId) (h : dedupePreimage i = dedupePreimage j) :
    dedupeKey i = dedupeKey j ∨ ReadsAs i j ∨ ReadsAs j i := by
  simp only [dedupePreimage, hpi, hpj, haccount] at h
  replace h := (List.cons_eq_cons.1 (List.append_cancel_left h)).2
  obtain ⟨hdate, h⟩ := (field_inj hi.date hj.date).1 h
  obtain ⟨hamount, h⟩ := (fixed_inj (by simp only [length_littleEndian])).1 h
  obtain ⟨hcurrency, h⟩ := (field_inj hi.currency hj.currency).1 (List.cons_eq_cons.1 h).2
  obtain ⟨hmerchant, h⟩ := (field_inj hi.merchant hj.merchant).1 h
  replace hdate := asBytes_injective hdate
  replace hamount := amount_inj hamount
  replace hcurrency := asBytes_injective hcurrency
  replace hmerchant := asBytes_injective hmerchant
  rcases (marked_eq_iff length_occurrenceMark fun _ _ ↦ occurrenceMark_inj).1 h with
    ⟨hdescription, hoccurrence⟩ | hshadows | hshadows
  · left
    rw [dedupeKey, dedupeKey, hpi, hpj, haccount, hdate, hamount, hcurrency, hmerchant,
      asBytes_injective hdescription, hoccurrence]
  · right
    left
    exact ⟨⟨hpi, hpj⟩, haccount, hdate, hamount, hcurrency, hmerchant, hshadows⟩
  · right
    right
    exact ⟨⟨hpj, hpi⟩, haccount.symm, hdate.symm, hamount.symm, hcurrency.symm, hmerchant.symm,
      hshadows⟩

theorem dedupePreimage_eq_of (h : dedupeKey i = dedupeKey j ∨ ReadsAs i j ∨ ReadsAs j i) :
    dedupePreimage i = dedupePreimage j := by
  rcases h with hkey | hreads | hreads
  · exact dedupePreimage_congr hkey
  · exact hreads.dedupePreimage_eq
  · exact hreads.dedupePreimage_eq.symm

theorem accountId_of_dedupePreimage_eq (hi : Separated i) (hj : Separated j)
    (h : dedupePreimage i = dedupePreimage j) : i.accountId = j.accountId :=
  asBytes_injective ((field_inj hi.account hj.account).1 h).1

theorem dedupePreimage_eq_iff (hi : Separated i) (hj : Separated j) :
    dedupePreimage i = dedupePreimage j ↔
      dedupeKey i = dedupeKey j ∨ ReadsAs i j ∨ ReadsAs j i := by
  refine ⟨fun h ↦ ?_, dedupePreimage_eq_of⟩
  have haccount := accountId_of_dedupePreimage_eq hi hj h
  cases hpi : i.providerTxnId with
  | none =>
    cases hpj : j.providerTxnId with
    | none =>
      exact fields_of_dedupePreimage_eq hi.toSeparatedFields hj.toSeparatedFields hpi hpj haccount h
    | some pid =>
      simp only [dedupePreimage, hpi, hpj] at h
      exact absurd ((field_inj hi.account hj.account).1 h).2 (date_ne_marker hi.toSeparatedFields)
  | some pid =>
    simp only [dedupePreimage, hpi] at h
    replace h := ((field_inj hi.account hj.account).1 h).2
    cases hpj : j.providerTxnId with
    | none =>
      simp only [hpj] at h
      exact absurd h.symm (date_ne_marker hj.toSeparatedFields)
    | some pid' =>
      simp only [hpj] at h
      have hpid := asBytes_injective (List.cons_eq_cons.1 (List.append_cancel_left h)).2
      left
      rw [dedupeKey, dedupeKey, hpi, hpj, haccount, hpid]

theorem ReadsAs.dedupeKey_ne (h : ReadsAs i j) : dedupeKey i ≠ dedupeKey j := by
  obtain ⟨hzero, hpos, -⟩ := h.description
  intro hkey
  simp only [dedupeKey, h.provider.1, h.provider.2, DedupeKey.fields.injEq] at hkey
  obtain ⟨-, -, -, -, -, -, hoccurrence⟩ := hkey
  exact hpos (hoccurrence.symm.trans hzero)

/-- With a hash function free of collisions, only equal preimages give equal hashes. -/
theorem transactionDedupeHash_eq_iff {sha256 : List UInt8 → List UInt8} (hsha : Injective sha256) :
    transactionDedupeHash sha256 i = transactionDedupeHash sha256 j ↔
      dedupePreimage i = dedupePreimage j :=
  (Sync.Columns.encodeHex_injective.comp hsha).eq_iff

/-- Two inputs are confused exactly when a description ends in the occurrence mark of the other. -/
theorem dedupeHash_unambiguous_iff {sha256 : List UInt8 → List UInt8} (hsha : Injective sha256)
    (hi : Separated i) (hj : Separated j) :
    ((dedupePreimage i = dedupePreimage j → dedupeKey i = dedupeKey j) ∧
      (transactionDedupeHash sha256 i = transactionDedupeHash sha256 j →
        dedupeKey i = dedupeKey j)) ↔ ¬(ReadsAs i j ∨ ReadsAs j i) := by
  rw [transactionDedupeHash_eq_iff hsha, and_self, dedupePreimage_eq_iff hi hj]
  constructor
  · intro h hreads
    have hkey := h (.inr hreads)
    rcases hreads with hreads | hreads
    · exact hreads.dedupeKey_ne hkey
    · exact hreads.dedupeKey_ne hkey.symm
  · intro hnot h
    exact h.resolve_right hnot

def secondCoffee : HashInput :=
  ⟨"account", "2025-01-31", -3500, "ZAR", none, none, some "COFFEE", 1⟩

def markedCoffee : HashInput :=
  ⟨"account", "2025-01-31", -3500, "ZAR", none, none, some "COFFEE\x1focc\x01\x00\x00\x00", 0⟩

theorem separated_secondCoffee : Separated secondCoffee :=
  ⟨⟨by decide, by decide, by decide, by decide⟩, by decide⟩

theorem separated_markedCoffee : Separated markedCoffee :=
  ⟨⟨by decide, by decide, by decide, by decide⟩, by decide⟩

theorem dedupeHash_ambiguous : ¬∀ i j : HashInput, Separated i → Separated j →
    dedupePreimage i = dedupePreimage j → dedupeKey i = dedupeKey j := fun h ↦
  absurd (h markedCoffee secondCoffee separated_markedCoffee separated_secondCoffee (by decide))
    (by decide)

theorem coffees_unambiguous :
    (dedupePreimage secondCoffee = dedupePreimage { secondCoffee with occurrence := 0 } →
        dedupeKey secondCoffee = dedupeKey { secondCoffee with occurrence := 0 }) ∧
      (transactionDedupeHash id secondCoffee =
          transactionDedupeHash id { secondCoffee with occurrence := 0 } →
        dedupeKey secondCoffee = dedupeKey { secondCoffee with occurrence := 0 }) := by
  refine (dedupeHash_unambiguous_iff injective_id separated_secondCoffee
    ⟨⟨by decide, by decide, by decide, by decide⟩, by decide⟩).2 ?_
  rintro (h | h)
  · exact absurd h.description.1 (by decide)
  · exact absurd h.description.2.2 (by decide)

end Keys

section Service

/-- What the service relies on: the host takes the hash described above, and neither an accepted
date nor the lower case of a letter holds the separator. -/
structure Hashing (h : Host) (U : CharClasses) (sha256 : List UInt8 → List UInt8) : Prop where
  dedupeHash : ∀ new, h.dedupeHash new = transactionDedupeHash sha256 (hashInput U new)
  dates : ∀ s d, h.parseDate s = some d → '\x1f' ∉ s.toList ∧ s ≠ "pid"
  lowercase : ∀ c, U.isAlphanumeric c → '\x1f' ∉ U.toLowercase c

variable {h : Host} {U : CharClasses} {sha256 : List UInt8 → List UInt8}

theorem Hashing.separatedFields (hh : Hashing h U sha256) {new : NewTransaction} {code : String}
    {date : Foundation.Calendar.Date} (hdate : parseDate h new.postedDate = .ok date)
    (hcode : normalizeCurrencyCode new.currency = .ok code) :
    SeparatedFields (hashInput U { new with currency := code }) := by
  have hparse : h.parseDate new.postedDate = some date := by
    rw [parseDate] at hdate
    split at hdate
    · rw [← Except.ok.inj hdate]
      assumption
    · cases hdate
  obtain ⟨hseparator, hpid⟩ := hh.dates _ _ hparse
  refine ⟨separator_notMem hseparator, hpid, separator_notMem_currency hcode, ?_⟩
  change unitSeparator ∉
    asBytes (((new.merchant.map (normalizeMerchant U)).filter (· ≠ "")).getD "")
  cases new.merchant with
  | none => exact List.not_mem_nil
  | some merchant =>
    rw [Option.map_some, Option.filter_some]
    split
    · exact separator_notMem_normalizeMerchant hh.lowercase merchant
    · decide

theorem createTransactionInTx_hashes (hh : Hashing h U sha256) {new : NewTransaction} {s : Db}
    (haccount : '\x1f' ∉ new.accountId.toList) :
    Ensures (createTransactionInTx h new) s fun txn _ ↦
      let i := hashInput U { new with currency := txn.currency }
      txn.dedupeHash = transactionDedupeHash sha256 i ∧ Separated i := by
  simp only [createTransactionInTx, ensures_bind, ensures_get, ensures_check, ensures_newId,
    insertTransaction, ensures_constraint, ensures_modify, ensures_pure]
  intro account _ _ _ code hcode date hdate
  intros
  exact ⟨hh.dedupeHash _, hh.separatedFields hdate hcode, separator_notMem haccount⟩

end Service

end SlipScan.Banking.Deduplication
