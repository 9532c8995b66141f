import SlipScan.Model.Alerts

namespace SlipScan.Ingest.AlertRouting

open Model.Alerts Foundation.Table

variable {accounts : List MaskedAccount} {account : MaskedAccount} {hint id : String}
  {alert : ParsedAlert} {alerts : List ParsedAlert}

def Agree (digits digits' : List Char) : Prop :=
  digits <:+ digits' ∨ digits' <:+ digits

/-- A hint is about an account if a digit of both is known and they agree. -/
def Fits (hint : String) (account : MaskedAccount) : Prop :=
  ∃ masked ∈ account.accountNumberMasked, asciiDigits hint ≠ [] ∧ asciiDigits masked ≠ [] ∧
    Agree (asciiDigits hint) (asciiDigits masked)

/-- A hint is about another account if a digit of both is known and they do not agree. -/
def Contradicts (hint : String) (account : MaskedAccount) : Prop :=
  ∃ masked ∈ account.accountNumberMasked, asciiDigits hint ≠ [] ∧ asciiDigits masked ≠ [] ∧
    ¬Agree (asciiDigits hint) (asciiDigits masked)

instance (digits digits' : List Char) : Decidable (Agree digits digits') :=
  inferInstanceAs (Decidable (_ ∨ _))

instance : DecidablePred (Fits hint) := fun account ↦
  inferInstanceAs (Decidable (∃ masked ∈ account.accountNumberMasked, _))

instance : DecidablePred (Contradicts hint) := fun account ↦
  inferInstanceAs (Decidable (∃ masked ∈ account.accountNumberMasked, _))

theorem agree_iff_of_le {digits digits' : List Char} (hle : digits.length ≤ digits'.length) :
    Agree digits digits' ↔ digits = digits'.drop (digits'.length - digits.length) := by
  rw [Agree, ← List.suffix_iff_eq_drop, or_iff_left_of_imp]
  intro hsuffix
  obtain rfl := hsuffix.eq_of_length (Nat.le_antisymm hsuffix.length_le hle)
  exact List.suffix_rfl

theorem tail_eq_tail {digits digits' : List Char} :
    tail (min digits.length digits'.length) digits = tail (min digits.length digits'.length) digits' ↔
      Agree digits digits' := by
  rw [tail, tail]
  rcases Nat.le_total digits.length digits'.length with hle | hle
  · rw [Nat.min_eq_left hle, Nat.sub_self, List.drop_zero, agree_iff_of_le hle]
  · rw [Nat.min_eq_right hle, Nat.sub_self, List.drop_zero, Agree, or_comm, ← Agree,
      agree_iff_of_le hle, eq_comm]

theorem accountHintConflicts_iff : accountHintConflicts hint account ↔ Contradicts hint account := by
  rw [accountHintConflicts, Contradicts]
  cases account.accountNumberMasked with
  | none => simp
  | some masked =>
    by_cases hhint : asciiDigits hint = []
    · simp [hhint]
    · by_cases hmasked : asciiDigits masked = []
      · simp [hmasked]
      · simp [hhint, hmasked, tail_eq_tail]

section Routes

def routeOf (accounts : List MaskedAccount) (alert : ParsedAlert) : Option String :=
  alert.accountHint.bind fun hint ↦ match candidates accounts hint with
    | [only] => some only.id
    | _ => none

def alertsOf (grouped : AlertGroups) (id : String) : List ParsedAlert :=
  ((grouped.find id).map Prod.snd).getD []

theorem alertsOf_pushAlert (grouped : AlertGroups) (id id' : String) (alert : ParsedAlert) :
    alertsOf (pushAlert grouped id' alert) id =
      alertsOf grouped id ++ if id' = id then [alert] else [] := by
  rw [alertsOf, pushAlert, Keyed.find_upsert, alertsOf]
  by_cases hid : id' = id
  · rw [if_pos hid, if_pos hid]
    cases grouped.find id <;> rfl
  · rw [if_neg hid, if_neg hid, List.append_nil]

theorem routeAlert_eq (acc : AlertGroups × List ParsedAlert) (alert : ParsedAlert) :
    routeAlert accounts acc alert = match routeOf accounts alert with
      | some id => (pushAlert acc.1 id alert, acc.2)
      | none => (acc.1, acc.2 ++ [alert]) := by
  rw [routeAlert, routeOf]
  cases alert.accountHint with
  | none => rfl
  | some hint =>
    rw [Option.bind_some]
    dsimp only
    rcases candidates accounts hint with _ | ⟨only, _ | _⟩ <;> rfl

theorem foldl_routeAlert (accounts : List MaskedAccount) (alerts : List ParsedAlert)
    (acc : AlertGroups × List ParsedAlert) :
    (∀ id, alertsOf (alerts.foldl (routeAlert accounts) acc).1 id =
      alertsOf acc.1 id ++ alerts.filter fun alert ↦ routeOf accounts alert = some id) ∧
    (alerts.foldl (routeAlert accounts) acc).2 =
      acc.2 ++ alerts.filter fun alert ↦ routeOf accounts alert = none := by
  induction alerts generalizing acc with
  | nil => simp
  | cons alert alerts ih =>
    rw [List.foldl_cons, routeAlert_eq]
    cases hroute : routeOf accounts alert with
    | none =>
      obtain ⟨hgroups, hrest⟩ := ih (acc.1, acc.2 ++ [alert])
      exact ⟨fun id ↦ by simpa [hroute] using hgroups id, by simpa [hroute] using hrest⟩
    | some id' =>
      obtain ⟨hgroups, hrest⟩ := ih (pushAlert acc.1 id' alert, acc.2)
      refine ⟨fun id ↦ ?_, by simpa [hroute] using hrest⟩
      have hgroup := hgroups id
      dsimp only at hgroup ⊢
      rw [hgroup, alertsOf_pushAlert, List.append_assoc]
      by_cases hid : id' = id <;> simp [hroute, hid]

end Routes

section Correctness

/-- Every alert goes to one account or to the rest, in its order, and only to the one account that
its hint is about. -/
structure Routed (accounts : List MaskedAccount) (alerts : List ParsedAlert)
    (grouped : AlertGroups) (rest : List ParsedAlert) (route : ParsedAlert → Option String) :
    Prop where
  groups : ∀ id, alertsOf grouped id = alerts.filter fun alert ↦ route alert = some id
  rest : rest = alerts.filter fun alert ↦ route alert = none
  agrees : ∀ alert ∈ alerts, ∀ id, route alert = some id → ∃ hint ∈ alert.accountHint,
    ∃ account, account.id = id ∧ accounts.filter (Fits hint) = [account]

/-- Neither of the two is without a digit. -/
def BothKnown (hint : String) (account : MaskedAccount) : Prop :=
  asciiDigits hint ≠ [] ∧ ∀ masked ∈ account.accountNumberMasked, asciiDigits masked ≠ []

def possible (accounts : List MaskedAccount) (hint : String) : List MaskedAccount :=
  accounts.filter fun account ↦ account.accountNumberMasked.isSome ∧ ¬Contradicts hint account

theorem candidates_eq : candidates accounts hint = possible accounts hint := by
  refine List.filter_congr fun account _ ↦ ?_
  rw [Bool.eq_iff_iff, Bool.and_eq_true, Bool.not_eq_true', ← Bool.not_eq_true,
    accountHintConflicts_iff, and_comm, decide_eq_true_eq]

theorem routeOf_eq_some : routeOf accounts alert = some id ↔ ∃ hint ∈ alert.accountHint,
    ∃ account, account.id = id ∧ possible accounts hint = [account] := by
  rw [routeOf, Option.bind_eq_some_iff]
  refine exists_congr fun hint ↦ and_congr_right fun _ ↦ ?_
  rw [candidates_eq]
  rcases possible accounts hint with _ | ⟨only, _ | _⟩ <;> simp

theorem fits_iff : Fits hint account ↔
    (account.accountNumberMasked.isSome ∧ ¬Contradicts hint account) ∧ BothKnown hint account := by
  rw [Fits, Contradicts, BothKnown]
  cases account.accountNumberMasked with
  | none => simp
  | some masked =>
    simp only [Option.mem_def, Option.some.injEq, exists_eq_left', Option.isSome_some, true_and,
      forall_eq', not_and, not_not]
    exact ⟨fun ⟨hhint, hmasked, hagree⟩ ↦ ⟨fun _ _ ↦ hagree, hhint, hmasked⟩,
      fun ⟨hagree, hhint, hmasked⟩ ↦ ⟨hhint, hmasked, hagree hhint hmasked⟩⟩

theorem filter_fits_eq (hpossible : possible accounts hint = [account])
    (hknown : BothKnown hint account) : accounts.filter (Fits hint) = [account] := by
  have hsplit : accounts.filter (Fits hint) = (possible accounts hint).filter (Fits hint) := by
    rw [possible, List.filter_filter]
    refine List.filter_congr fun a _ ↦ ?_
    rw [Bool.eq_iff_iff, Bool.and_eq_true, decide_eq_true_eq, decide_eq_true_eq]
    exact ⟨fun hfits ↦ ⟨hfits, (fits_iff.1 hfits).1⟩, And.left⟩
  have hmem : account ∈ possible accounts hint := by
    rw [hpossible]
    exact List.mem_singleton_self account
  have hfits : Fits hint account :=
    fits_iff.2 ⟨of_decide_eq_true (List.mem_filter.1 hmem).2, hknown⟩
  rw [hsplit, hpossible]
  simp [hfits]

theorem routed_iff (accounts : List MaskedAccount) (alerts : List ParsedAlert) :
    (∃ route, Routed accounts alerts (groupByAccountHint accounts alerts).1
      (groupByAccountHint accounts alerts).2 route) ↔
    ∀ alert ∈ alerts, ∀ hint ∈ alert.accountHint, ∀ account,
      possible accounts hint = [account] → BothKnown hint account := by
  obtain ⟨hgroups, hrest⟩ := foldl_routeAlert accounts alerts (∅, [])
  constructor
  · rintro ⟨route, hroute⟩ alert halert hint hhint account hpossible
    have hmine : alert ∈ alertsOf (groupByAccountHint accounts alerts).1 account.id := by
      rw [groupByAccountHint, hgroups]
      refine List.mem_append_right _ (List.mem_filter.2 ⟨halert, decide_eq_true ?_⟩)
      exact routeOf_eq_some.2 ⟨hint, hhint, account, rfl, hpossible⟩
    rw [hroute.groups] at hmine
    obtain ⟨hint', hhint', account', _, hfits⟩ :=
      hroute.agrees alert halert account.id (of_decide_eq_true (List.mem_filter.1 hmine).2)
    obtain rfl : hint' = hint := Option.mem_unique hhint' hhint
    have hmem : account' ∈ accounts.filter (Fits hint') := by
      rw [hfits]
      exact List.mem_singleton_self account'
    obtain ⟨haccount, hfit⟩ := List.mem_filter.1 hmem
    obtain ⟨hmay, hknown⟩ := fits_iff.1 (of_decide_eq_true hfit)
    have hpossible' : account' ∈ possible accounts hint' :=
      List.mem_filter.2 ⟨haccount, decide_eq_true hmay⟩
    rw [hpossible, List.mem_singleton] at hpossible'
    rwa [← hpossible']
  · intro hknown
    refine ⟨routeOf accounts, hgroups, hrest, fun alert halert id hroute ↦ ?_⟩
    obtain ⟨hint, hhint, account, hid, hpossible⟩ := routeOf_eq_some.1 hroute
    exact ⟨hint, hhint, account, hid,
      filter_fits_eq hpossible (hknown alert halert hint hhint account hpossible)⟩

def knownCard : MaskedAccount :=
  { id := "card", bookId := "book", currency := "ZAR", accountNumberMasked := some "**1234" }

def namelessAlert : ParsedAlert where
  packId := "bank"
  ruleId := "purchase"
  messageId := "1"
  line := ⟨"2026-07-12", "Woolies", -18450, none, none⟩
  direction := .debit
  reference := none
  accountHint := some "Platinum"

theorem not_routed_namelessAlert : ¬∃ route, Routed [knownCard] [namelessAlert]
    (groupByAccountHint [knownCard] [namelessAlert]).1
    (groupByAccountHint [knownCard] [namelessAlert]).2 route := by
  rintro ⟨route, hroute⟩
  have hgrouped : alertsOf (groupByAccountHint [knownCard] [namelessAlert]).1 "card" =
      [namelessAlert] := by decide
  have hmine : namelessAlert ∈ alertsOf (groupByAccountHint [knownCard] [namelessAlert]).1 "card" := by
    rw [hgrouped]
    exact List.mem_singleton_self _
  rw [hroute.groups] at hmine
  obtain ⟨hmem, hto⟩ := List.mem_filter.1 hmine
  obtain ⟨hint, hhint, account, _, hfits⟩ := hroute.agrees _ hmem "card" (of_decide_eq_true hto)
  obtain rfl := Option.some.inj hhint
  have hnone : [knownCard].filter (Fits "Platinum") = [] := by decide
  rw [hnone] at hfits
  cases hfits

end Correctness

end SlipScan.Ingest.AlertRouting
