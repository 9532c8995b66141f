import SlipScan.Model.Reports
import SlipScan.Model.Statements

namespace SlipScan.Model.Csv

open Model.Domain Model.Reports Model.Statements

section Writer

/-- A field that contains a comma, a quote or a line break is quoted, with its quotes doubled. -/
def field (raw : String) : List Char :=
  if raw.toList.any (· ∈ ['"', ',', '\n', '\r']) then
    '"' :: (raw.toList.flatMap fun c ↦ if c = '"' then ['"', '"'] else [c]) ++ ['"']
  else raw.toList

def row (fields : List String) : List Char :=
  [','].intercalate (fields.map field) ++ ['\n']

def text (rows : List (List String)) : String :=
  String.ofList (rows.flatMap row)

end Writer

section Exports

structure SpendingRow where
  categoryId : Option String
  categoryName : String
  currency : String
  totalMinor : ℤ
  deriving DecidableEq, Repr

structure MonthlySpendingRow where
  month : String
  categoryId : Option String
  categoryName : String
  currency : String
  totalMinor : ℤ
  deriving DecidableEq, Repr

def spendingRows (rows : List SpendingRow) : List (List String) :=
  ["category_id", "category_name", "currency", "total_minor"] ::
    rows.map fun r ↦ [r.categoryId.getD "", r.categoryName, r.currency, toString r.totalMinor]

def spendingByMonthRows (rows : List MonthlySpendingRow) : List (List String) :=
  ["month", "category_id", "category_name", "currency", "total_minor"] ::
    rows.map fun r ↦
      [r.month, r.categoryId.getD "", r.categoryName, r.currency, toString r.totalMinor]

def trialBalanceRows (rows : List TrialBalanceRow) : List (List String) :=
  ["code", "name", "kind", "currency", "debit_minor", "credit_minor"] ::
    rows.map fun r ↦
      [r.code, r.name, r.kind.asStr, r.currency, toString r.debitMinor, toString r.creditMinor]

def incomeStatementRows (statement : IncomeStatement) : List (List String) :=
  let currency := statement.currency
  let part (name : String) (rows : List StatementRow) :=
    rows.map fun r ↦ [name, r.code, r.name, currency, toString r.amountMinor]
  let total (name : String) (minor : ℤ) := ["total", "", name, currency, toString minor]
  ["section", "code", "name", "currency", "amount_minor"] ::
    (part "income" statement.income ++ part "expense" statement.expenses ++
      [total "Total income" statement.incomeTotalMinor,
        total "Total expenses" statement.expenseTotalMinor,
        total "Net profit" statement.netProfitMinor])

/-- The net tax has a column of its own. -/
def taxSummaryRows (summary : TaxPeriodSummary) : List (List String) :=
  let currency := summary.currency
  ["code", "name", "rate_bps", "currency", "output_base_minor", "output_vat_minor",
    "input_base_minor", "input_vat_minor", "net_vat_minor"] ::
    ((summary.rows.map fun r ↦
      [r.code, r.name, toString r.rateBps, currency, toString r.outputBaseMinor,
        toString r.outputVatMinor, toString r.inputBaseMinor, toString r.inputVatMinor, ""]) ++
    [["", "Total " ++ summary.labels.outputTax, "", currency, "", toString summary.outputVatMinor,
        "", "", ""],
      ["", "Total " ++ summary.labels.inputTax, "", currency, "", "", "",
        toString summary.inputVatMinor, ""],
      ["", summary.labels.netTax, "", currency, "", "", "", "", toString summary.netVatMinor]])

def spendingCsv (rows : List SpendingRow) : String :=
  text (spendingRows rows)

def spendingByMonthCsv (rows : List MonthlySpendingRow) : String :=
  text (spendingByMonthRows rows)

def trialBalanceCsv (rows : List TrialBalanceRow) : String :=
  text (trialBalanceRows rows)

def incomeStatementCsv (statement : IncomeStatement) : String :=
  text (incomeStatementRows statement)

def taxSummaryCsv (summary : TaxPeriodSummary) : String :=
  text (taxSummaryRows summary)

end Exports

end SlipScan.Model.Csv
