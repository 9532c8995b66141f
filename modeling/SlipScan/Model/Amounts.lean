import SlipScan.Model.Database

namespace SlipScan.Model.Amounts

open Model.Database

inductive IngestError
  | parse (message : String)
  deriving DecidableEq, Repr

def ingestErrorText : IngestError → String
  | .parse message => s!"parse error: {message}"

inductive DecimalStyle
  | auto | point | comma
  deriving DecidableEq, Repr

def trimmed (l : List Char) : List Char :=
  ((l.dropWhile isWhitespace).reverse.dropWhile isWhitespace).reverse

def splitLast (p : Char → Bool) (l : List Char) : Option (List Char × List Char) :=
  match l.reverse.span (!p ·) with
  | (_, []) => none
  | (after, _ :: before) => some (before.reverse, after.reverse)

def isSeparator (c : Char) : Bool :=
  c = '.' || c = ','

/-- A text without the marker at its end, and whether the marker says that money went out. -/
def stripMarker (s : List Char) : List Char × Bool :=
  let lower := s.map Char.toLower
  if "cr".toList <:+ lower then (s.take (s.length - 2), false)
  else if "dr".toList <:+ lower then (s.take (s.length - 2), true)
  else (s, false)

def stripParentheses (s : List Char) : List Char × Bool :=
  if s.head? = some '(' ∧ s.getLast? = some ')' then (s.tail.dropLast, true) else (s, false)

def parseI64 (digits : List Char) : Option ℕ :=
  let n := Nat.ofDigitChars 10 digits 0
  if n < 2 ^ 63 then some n else none

/-- Digits and separators around the declared decimal separator. More than two digits after it mean
that the style does not match the file. -/
def splitOnDecimalSep (cleaned : List Char) (sep : Char) (original : String) :
    Except IngestError (List Char × List Char) :=
  let name := if sep = '.' then "point" else "comma"
  match splitLast (· = sep) cleaned with
  | some (before, frac) =>
    if frac.length > 2 ∨ frac.any isSeparator then
      .error (.parse s!"amount {repr original} does not match decimal-{name} style")
    else .ok (before, frac)
  | none => .ok (cleaned, [])

/-- The last separator is the decimal one if one or two digits follow. -/
def splitAuto (cleaned : List Char) : List Char × List Char :=
  match splitLast isSeparator cleaned with
  | some (before, frac) =>
    if 1 ≤ frac.length ∧ frac.length ≤ 2 then (before, frac) else (cleaned, [])
  | none => (cleaned, [])

def splitAmount (cleaned : List Char) (style : DecimalStyle) (original : String) :
    Except IngestError (List Char × List Char) :=
  match style with
  | .auto => .ok (splitAuto cleaned)
  | .point => splitOnDecimalSep cleaned '.' original
  | .comma => splitOnDecimalSep cleaned ',' original

def centsOf (minorPart : List Char) : ℕ :=
  match minorPart.length with
  | 0 => 0
  | 1 => 10 * (parseI64 minorPart).getD 0
  | _ => (parseI64 minorPart).getD 0

def toMinor (majorPart minorPart : List Char) (original : String) : Except IngestError ℕ := do
  let overflow := IngestError.parse s!"amount overflow in {repr original}"
  let some major := parseI64 (majorPart.filter Char.isDigit) | throw overflow
  let minor := major * 100 + centsOf minorPart
  if minor < 2 ^ 63 then return minor else throw overflow

def parseAmountMinorStyled (raw : String) (style : DecimalStyle) : Except IngestError ℤ := do
  let s := trimmed raw.toList
  if s = [] then throw (.parse "empty amount")
  let (s, debit) := stripMarker s
  let (s, parenthesised) := stripParentheses (trimmed s)
  let negative := debit || parenthesised || s.contains '-'
  let cleaned := s.filter fun c ↦ c.isDigit || isSeparator c
  if cleaned.filter Char.isDigit = [] then
    throw (.parse s!"no digits in amount {repr raw}")
  let (majorPart, minorPart) ← splitAmount cleaned style raw
  let minor ← toMinor majorPart minorPart raw
  return if negative then -(minor : ℤ) else minor

end SlipScan.Model.Amounts
