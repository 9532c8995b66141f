import SlipScan.Model.Money
import Mathlib.Data.List.Sort
import Mathlib.Order.Lex
import Mathlib.Data.Prod.Lex

namespace SlipScan.Model.Slip

open Model.Database Model.Money

structure SlipLineItem where
  totalMinor : ℤ
  vatRateBps : Option ℤ
  deriving DecidableEq, Repr

structure SlipVatLine where
  rateBps : ℤ
  baseMinor : ℤ
  vatMinor : ℤ
  deriving DecidableEq, Repr

structure SlipPayload where
  merchantName : Option String
  purchasedAt : Option String
  currency : Option String
  totalMinor : ℤ
  totalVatMinor : Option ℤ
  lineItems : List SlipLineItem
  vatBreakdown : List SlipVatLine
  deriving DecidableEq, Repr

structure VatGroup where
  rateBps : Option ℤ
  baseMinor : ℤ
  vatMinor : ℤ
  deriving DecidableEq, Repr

namespace SlipPayload

variable (slip : SlipPayload)

/-- The date part of the time of purchase, when it is a date. -/
def purchaseDate (h : Host) : Option String :=
  slip.purchasedAt.bind fun ts ↦
    let date := ts.toList.take 10
    if date.length = 10 ∧ date.all (·.toNat < 128) ∧ (h.parseDate (String.ofList date)).isSome then
      some (String.ofList date)
    else none

def addItem (rate base vat : ℤ) : List VatGroup → List VatGroup
  | [] => [⟨some rate, base, vat⟩]
  | g :: groups =>
    if g.rateBps = some rate then
      { g with baseMinor := asI64 (g.baseMinor + base), vatMinor := asI64 (g.vatMinor + vat) } ::
        groups
    else g :: addItem rate base vat groups

def itemGroups : List VatGroup :=
  (slip.lineItems.foldl (fun groups item ↦
    let rate := item.vatRateBps.getD 0
    let vat := vatFromInclusive item.totalMinor rate
    addItem rate (asI64 (item.totalMinor - vat)) vat groups) []).insertionSort
      fun a b ↦ a.rateBps.getD 0 ≤ b.rateBps.getD 0

/-- The last of the groups with the greatest tax, then the greatest rate, among those with a
positive rate. -/
def largestGroup (groups : List VatGroup) : Option VatGroup :=
  (groups.filter fun g ↦ g.rateBps.getD 0 > 0).foldl (fun best g ↦
    match best with
    | none => some g
    | some b =>
      if toLex (b.vatMinor, b.rateBps.getD 0) ≤ toLex (g.vatMinor, g.rateBps.getD 0) then some g
      else some b) none

/-- Moves the difference to the stated tax into the largest group. -/
def settleStated (stated : ℤ) (groups : List VatGroup) : List VatGroup :=
  let delta := asI64 (stated - sumI64 (groups.map VatGroup.vatMinor))
  match largestGroup groups with
  | some largest =>
    if delta ≠ 0 then
      groups.map fun g ↦
        if g.rateBps = largest.rateBps then
          { g with
            vatMinor := asI64 (g.vatMinor + delta)
            baseMinor := asI64 (g.baseMinor - delta) }
        else g
    else groups
  | none => groups

/-- The tax groups: the stated breakdown, else the tagged items, else the totals. -/
def vatGroups : List VatGroup :=
  if ¬slip.vatBreakdown.isEmpty then
    slip.vatBreakdown.map fun v ↦ ⟨some v.rateBps, v.baseMinor, v.vatMinor⟩
  else if ¬slip.lineItems.isEmpty ∧ slip.lineItems.all (·.vatRateBps.isSome) then
    match slip.totalVatMinor with
    | some stated => settleStated stated slip.itemGroups
    | none => slip.itemGroups
  else
    let vat := slip.totalVatMinor.getD 0
    [⟨none, asI64 (slip.totalMinor - vat), vat⟩]

end SlipPayload

end SlipScan.Model.Slip
