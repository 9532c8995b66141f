import SlipScan.Model.Service

namespace SlipScan.Model.PlainHost

open Model.Domain Model.Database Model.Ledger Model.Slip Model.Service Foundation.Transaction
  Foundation.Calendar Foundation.Table Relation

def digits (l : List Char) : Option ℕ :=
  if l.all Char.isDigit then some (l.foldl (fun n c ↦ 10 * n + (c.toNat - 48)) 0) else none

def plainParse (s : String) : Option Date :=
  match s.toList with
  | [y₁, y₂, y₃, y₄, '-', m₁, m₂, '-', d₁, d₂] => do
    Date.ofParts? (← digits [y₁, y₂, y₃, y₄]) (← digits [m₁, m₂]) (← digits [d₁, d₂])
  | _ => none

def padded : ℕ → ℕ → List Char
  | 0, _ => []
  | width + 1, n => padded width (n / 10) ++ [Char.ofNat (48 + n % 10)]

def plainFormat (d : Date) : String :=
  String.ofList (padded 4 d.year.toNat ++ '-' :: padded 2 d.month ++ '-' :: padded 2 d.day)

/-- A host on which runs can be evaluated: identifiers in unary, a clock that stands still, dates
in one form, and neither merchant rules nor payment watches. -/
def plainHost : Host where
  newId n := String.ofList (List.replicate (n + 1) 'x')
  nowIso _ := "2025-06-15T00:00:00Z"
  parseDate := plainParse
  formatDate := plainFormat
  dedupeHash new := new.postedDate ++ new.description.getD ""
  merchantCategory _ _ := none
  detectPaymentMatches _ _ := .ok ()

theorem plainHost_newId : Function.Injective plainHost.newId := by
  intro n m heq
  have hlength := congrArg (fun s ↦ s.toList.length) heq
  simpa [plainHost] using hlength

def noSlip (_ : String) : Except Fault SlipPayload :=
  .error (.validation "no payload")

def plainBook : Book :=
  { id := "book", kind := .business, currency := "ZAR", region := "ZA", financialLockDate := none }

def setup : Db :=
  { books := [plainBook]
    accounts := [⟨"account", "book", "ZAR"⟩]
    contacts := [⟨"contact", "book", "Customer"⟩]
    locations := [⟨"location", "book"⟩]
    productVariants := [⟨"variant", "book", "Product", 1000, 600⟩] }

def runs (s : Db) (calls : List Call) : Db :=
  calls.foldl (fun s c ↦ c.run plainHost noSlip s) s

def bankAndIncome : List Call :=
  [.coaCreate ⟨"book", "1000", "Bank", .asset, none⟩,
    .coaCreate ⟨"book", "4200", "Income", .income, none⟩]

def sale (date : String) (debit credit : ℤ) : Call :=
  .journalPost
    { bookId := "book"
      postedDate := date
      narrative := none
      reference := none
      sourceType := .manual
      sourceId := none
      lines := [⟨"x", debit, 0, "ZAR", none, none, none⟩, ⟨"xx", 0, credit, "ZAR", none, none, none⟩] }

variable {C : Call → Db → Prop} {s : Db}

theorem elsewhere_setup : Elsewhere plainHost {} setup where
  minted := le_rfl
  books _ _ hb := by cases hb
  newBooks id b hb _ := by
    obtain ⟨hmem, -⟩ := lookup_eq_some hb
    obtain rfl := List.mem_singleton.1 hmem
    rfl
  coa := rfl
  vatRates := rfl
  journals := rfl
  journalLines := rfl
  transactions := ⟨[], rfl, by simp⟩
  stockMovements := ⟨[], rfl, by simp⟩
  poReceipts := rfl
  salesOrders := ⟨[], rfl, by simp⟩
  salesOrderItems := ⟨[], rfl, by simp⟩
  invoices := rfl
  invoiceItems := rfl
  invoicePayments := rfl
  depreciationRuns := rfl
  recurringSchedules := ⟨fun _ ↦ none, rfl⟩
  recurringScheduleItems := rfl
  recurringRuns := rfl
  contacts := by simp
  locations := by simp
  productVariants := by simp

theorem reachable_setup : Reachable plainHost noSlip C setup :=
  .single (.elsewhere elsewhere_setup)

theorem reachable_runs_of (hs : Reachable plainHost noSlip C s) (calls : List Call)
    (hC : ∀ c ∈ calls, ∀ t, C c t) : Reachable plainHost noSlip C (runs s calls) := by
  induction calls generalizing s with
  | nil => exact hs
  | cons c calls ih =>
    rw [List.forall_mem_cons] at hC
    exact ih (hs.tail (.call c (hC.1 s))) hC.2

theorem reachable_runs (hs : Reachable plainHost noSlip anyCall s) (calls : List Call) :
    Reachable plainHost noSlip anyCall (runs s calls) :=
  reachable_runs_of hs calls fun _ _ _ ↦ trivial

end SlipScan.Model.PlainHost
