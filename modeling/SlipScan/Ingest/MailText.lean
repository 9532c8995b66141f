import SlipScan.Model.MailText
import Mathlib.Data.List.Infix

namespace SlipScan.Ingest.MailText

open Model.MailText Foundation.Utf8
open String (utf8Len)

section Entities

variable {radix n fuel : ℕ} {text entity l tail a b post : List Char} {c ch : Char}

/-- The window of the decoder behind an ampersand ends with the text, or else between two
characters. -/
def WindowFits (tail : List Char) : Prop :=
  utf8Len tail ≤ 12 ∨ ∃ a b, tail = a ++ b ∧ utf8Len a = 12

def Fits (text : List Char) : Prop :=
  ∀ pre post, text = pre ++ '&' :: post → WindowFits ('&' :: post)

end Entities

section Tags

variable {text pre rest : List Char} {inTag inStyleOrScript : Bool}

end Tags

section Bodies

variable {text : List Char}

/-- A body is decoded and stripped, and stays what it is where it has no entities and no tags. -/
structure Survives (text : List Char) : Prop where
  decodes : ∀ fuel, text.length < fuel → (decodeEntities fuel text).isSome
  strips : (stripTags text).isSome
  plain : '&' ∉ text → ∀ fuel, text.length < fuel → decodeEntities fuel text = some text
  untagged : '<' ∉ text → stripTags text = some (text.map fun c ↦ if c = '>' then ' ' else c)

end Bodies

end SlipScan.Ingest.MailText
