import SlipScan.Model.Database

namespace SlipScan.Model.Region

open Model.Domain Model.Database

abbrev CoaSeed := String × String × CoaKind

structure TaxRateSeed where
  code : String
  label : String
  /-- `none` marks a placeholder that is configured for each book. -/
  rateBps : Option ℤ
  exempt : Bool

structure TaxBoxLabels where
  standardRatedSupplies : String
  zeroRatedSupplies : String
  exemptSupplies : String
  outputTax : String
  inputTax : String
  netTax : String
  deriving DecidableEq, Repr

structure RegionProfile where
  id : String
  personalCoa : List CoaSeed
  businessCoa : List CoaSeed
  taxRates : List TaxRateSeed
  reportName : String
  boxLabels : TaxBoxLabels

def RegionProfile.isExemptCode (profile : RegionProfile) (code : String) : Bool :=
  profile.taxRates.any fun r ↦ r.exempt && r.code = code

def genericPersonalCoa : List CoaSeed :=
  [
    ("1000", "Bank", .asset),
    ("1100", "Cash", .asset),
    ("1500", "Other Assets", .asset),
    ("2000", "Credit Card", .liability),
    ("2500", "Other Liabilities", .liability),
    ("3000", "Opening Balances", .equity),
    ("4000", "Salary & Wages", .income),
    ("4100", "Other Income", .income),
    ("6000", "Living Expenses", .expense),
    ("6100", "Bank Fees", .expense)]

/-- The business chart. The regions name four of its accounts differently. -/
def businessCoaWith (taxInput taxOutput taxSettlement payroll : String) : List CoaSeed :=
  [
    ("1000", "Bank", .asset),
    ("1050", "Petty Cash", .asset),
    ("1100", "Accounts Receivable", .asset),
    ("1200", "Inventory", .asset),
    ("1400", taxInput, .asset),
    ("1500", "Office Equipment", .asset),
    ("1510", "Computer Equipment", .asset),
    ("1600", "Accumulated Depreciation", .asset),
    ("2000", "Accounts Payable", .liability),
    ("2100", taxOutput, .liability),
    ("2150", taxSettlement, .liability),
    ("2200", payroll, .liability),
    ("2300", "Loans Payable", .liability),
    ("3000", "Owner's Capital", .equity),
    ("3100", "Owner's Drawings", .equity),
    ("3200", "Retained Earnings", .equity),
    ("4000", "Sales", .income),
    ("4100", "Interest Received", .income),
    ("4200", "Other Income", .income),
    ("5000", "Cost of Sales", .expense),
    ("6000", "Accounting Fees", .expense),
    ("6050", "Advertising & Marketing", .expense),
    ("6100", "Bank Fees", .expense),
    ("6200", "Computer & Internet", .expense),
    ("6250", "Depreciation", .expense),
    ("6300", "Entertainment", .expense),
    ("6350", "Insurance", .expense),
    ("6400", "Motor Vehicle Expenses", .expense),
    ("6450", "Office Supplies & Stationery", .expense),
    ("6500", "Rent", .expense),
    ("6550", "Repairs & Maintenance", .expense),
    ("6600", "Salaries & Wages", .expense),
    ("6650", "Subscriptions", .expense),
    ("6700", "Telephone", .expense),
    ("6750", "Travel", .expense),
    ("6800", "Utilities", .expense),
    ("6900", "General Expenses", .expense)]

def genericBusinessCoa : List CoaSeed :=
  businessCoaWith "Tax Input Control" "Tax Output Control" "Tax Authority Settlement"
    "Payroll Taxes Payable"

def zaBusinessCoa : List CoaSeed :=
  businessCoaWith "VAT Input Control" "VAT Output Control" "VAT Control (SARS settlement)"
    "PAYE & UIF Payable"

def generic : RegionProfile where
  id := "generic"
  personalCoa := genericPersonalCoa
  businessCoa := genericBusinessCoa
  taxRates := [⟨"STD", "Standard tax rate", none, false⟩]
  reportName := "Tax summary"
  boxLabels :=
    { standardRatedSupplies := "Standard-rated sales"
      zeroRatedSupplies := "Zero-rated sales"
      exemptSupplies := "Exempt sales"
      outputTax := "Output tax"
      inputTax := "Input tax"
      netTax := "Net tax payable (refundable if negative)" }

def za : RegionProfile where
  id := "za"
  personalCoa := genericPersonalCoa
  businessCoa := zaBusinessCoa
  taxRates :=
    [⟨"STD", "Standard rate (15%)", some 1500, false⟩, ⟨"ZER", "Zero-rated (0%)", some 0, false⟩,
      ⟨"EXE", "Exempt", some 0, true⟩]
  reportName := "VAT201"
  boxLabels :=
    { standardRatedSupplies := "Standard-rated supplies"
      zeroRatedSupplies := "Zero-rated supplies"
      exemptSupplies := "Exempt supplies"
      outputTax := "Output VAT"
      inputTax := "Input VAT"
      netTax := "Net VAT payable (refundable if negative)" }

def eqIgnoreAsciiCase (a b : String) : Bool :=
  a.toList.map Char.toLower = b.toList.map Char.toLower

def profileOrGeneric (id : String) : RegionProfile :=
  ([generic, za].find? fun p ↦ eqIgnoreAsciiCase p.id id).getD generic

theorem profile_cases (region : String) :
    profileOrGeneric region = generic ∨ profileOrGeneric region = za := by
  rw [profileOrGeneric, List.find?_cons, List.find?_cons]
  split
  · exact .inl rfl
  · split
    · exact .inr rfl
    · exact .inl rfl

end SlipScan.Model.Region
