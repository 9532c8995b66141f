import SlipScan.Foundation.Utf8

namespace SlipScan.Model.MailText

open Foundation.Utf8
open String (utf8Len)

section Entities

def toDigit (radix : ℕ) (c : Char) : Option ℕ :=
  let value :=
    if '0' ≤ c ∧ c ≤ '9' then some (c.toNat - 48)
    else if 'a' ≤ c ∧ c ≤ 'z' then some (c.toNat - 87)
    else if 'A' ≤ c ∧ c ≤ 'Z' then some (c.toNat - 55)
    else none
  value.filter (· < radix)

def parseDigits (radix : ℕ) (digits : List Char) : Option ℕ :=
  let n := digits.foldl (fun n c ↦ radix * n + (toDigit radix c).getD 0) 0
  if digits ≠ [] ∧ (digits.all fun c ↦ (toDigit radix c).isSome) ∧ n < 2 ^ 32 then some n else none

def parseU32 (radix : ℕ) : List Char → Option ℕ
  | '+' :: digits => parseDigits radix digits
  | digits => parseDigits radix digits

def charFromU32 (n : ℕ) : Option Char :=
  if h : n.isValidChar then some (Char.ofNatAux n h) else none

def namedEntity : String → Option Char
  | "nbsp" => some '\u00a0'
  | "amp" => some '&'
  | "lt" => some '<'
  | "gt" => some '>'
  | "quot" => some '"'
  | "apos" => some '\''
  | "#39" => some '\''
  | _ => none

def numericEntity : List Char → Option Char
  | '#' :: 'x' :: hex => (parseU32 16 hex).bind charFromU32
  | '#' :: 'X' :: hex => (parseU32 16 hex).bind charFromU32
  | '#' :: num => (parseU32 10 num).bind charFromU32
  | _ => none

def decodeEntity (entity : List Char) : Option Char :=
  namedEntity (String.ofList entity) <|> numericEntity entity

/-- What an ampersand at the start of `tail` stands for, and what comes after it. There is no answer
where the window would cut a character. -/
def decodeTail (tail : List Char) : Option (Char × List Char) := do
  let (window, _) ← cutAt (min (utf8Len tail) 12) tail
  let (_, afterAmpersand) ← cutAt 1 tail
  match find [';'] window with
  | none => return ('&', afterAmpersand)
  | some stop =>
    let (upToStop, _) ← cutAt stop tail
    let (_, entity) ← cutAt 1 upToStop
    let (_, afterStop) ← cutAt (stop + 1) tail
    match decodeEntity entity with
    | some ch => return (ch, afterStop)
    | none => return ('&', afterAmpersand)

/-- There is no answer where the decoder would cut a character, and none when `fuel` ampersands are
not enough. -/
def decodeEntities : ℕ → List Char → Option (List Char)
  | 0, _ => none
  | fuel + 1, rest =>
    match find ['&'] rest with
    | none => some rest
    | some start => do
      let (before, tail) ← cutAt start rest
      let (ch, rest) ← decodeTail tail
      return before ++ ch :: (← decodeEntities fuel rest)

end Entities

section Tags

/-- Goes through the characters with their offset, the offset from which on they count, and whether
a tag, and a style or a script, is open. -/
def stripFrom (lower : List Char) : List Char → ℕ → ℕ → Bool → Bool → Option (List Char)
  | [], _, _, _, _ => some []
  | ch :: rest, i, idx, inTag, inStyleOrScript =>
    if idx > i then stripFrom lower rest (i + ch.utf8Size) idx inTag inStyleOrScript
    else
      let next := i + ch.utf8Size
      if ch = '<' then do
        let (_, ahead) ← cutAt i lower
        let inStyleOrScript :=
          if "<style".toList <+: ahead ∨ "<script".toList <+: ahead then true
          else if "</style".toList <+: ahead ∨ "</script".toList <+: ahead then false
          else inStyleOrScript
        stripFrom lower rest next next true inStyleOrScript
      else if ch = '>' then (stripFrom lower rest next next false inStyleOrScript).map (' ' :: ·)
      else if !inTag && !inStyleOrScript then
        (stripFrom lower rest next next inTag inStyleOrScript).map (ch :: ·)
      else stripFrom lower rest next next inTag inStyleOrScript

def stripTags (html : List Char) : Option (List Char) :=
  stripFrom (html.map Char.toLower) html 0 0 false false

end Tags

end SlipScan.Model.MailText
