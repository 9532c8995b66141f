import Mathlib.Data.List.Basic

namespace SlipScan.Foundation.JsonText

/-- What a JSON text says. Literals and numbers are kept as they are written, and so are strings
between their quotes. -/
inductive Json
  | literal (text : List Char)
  | string (body : List Char)
  | array (items : List Json)
  | object (members : List (List Char × Json))

section Lexemes

def IsSpace (l : List Char) : Prop :=
  ∀ c ∈ l, c = ' ' ∨ c = '\t' ∨ c = '\n' ∨ c = '\r'

def IsDigits (l : List Char) : Prop :=
  l ≠ [] ∧ ∀ c ∈ l, '0' ≤ c ∧ c ≤ '9'

def IsNumber (l : List Char) : Prop :=
  ∃ sign int frac exp, l = sign ++ (int ++ (frac ++ exp)) ∧
    (sign = [] ∨ sign = ['-']) ∧
    (int = ['0'] ∨ IsDigits int ∧ int.head? ≠ some '0') ∧
    (frac = [] ∨ ∃ digits, IsDigits digits ∧ frac = '.' :: digits) ∧
    (exp = [] ∨ ∃ e sign digits, (e = 'e' ∨ e = 'E') ∧ (sign = [] ∨ sign = ['+'] ∨ sign = ['-']) ∧
      IsDigits digits ∧ exp = e :: (sign ++ digits))

def IsLiteral (l : List Char) : Prop :=
  l = "null".toList ∨ l = "true".toList ∨ l = "false".toList ∨ IsNumber l

def IsHex (c : Char) : Prop :=
  ('0' ≤ c ∧ c ≤ '9') ∨ ('a' ≤ c ∧ c ≤ 'f') ∨ ('A' ≤ c ∧ c ≤ 'F')

inductive IsBody : List Char → Prop
  | nil : IsBody []
  | char {c : Char} {l : List Char} : 0x20 ≤ c.toNat → c ≠ '"' → c ≠ '\\' → IsBody l →
      IsBody (c :: l)
  | escape {c : Char} {l : List Char} : c ∈ ['"', '\\', '/', 'b', 'f', 'n', 'r', 't'] →
      IsBody l → IsBody ('\\' :: c :: l)
  | unicode {hex l : List Char} : hex.length = 4 → (∀ c ∈ hex, IsHex c) → IsBody l →
      IsBody ('\\' :: 'u' :: (hex ++ l))

def quoted (body : List Char) : List Char :=
  '"' :: (body ++ ['"'])

end Lexemes

section Values

/-- One of the values in a container: what is written before it, its text and the space after it. In
an object the key is part of what is written before the value. -/
structure Part where
  key : List Char
  before : List Char
  value : Json
  text : List Char
  after : List Char

def Part.whole (p : Part) : List Char :=
  p.before ++ (p.text ++ p.after)

def IsKey (p : Part) : Prop :=
  ∃ s t u, IsSpace s ∧ IsSpace t ∧ IsSpace u ∧ IsBody p.key ∧
    p.before = s ++ (quoted p.key ++ (t ++ (':' :: u)))

def parts (l : List Part) : List Char :=
  [','].intercalate (l.map Part.whole)

/-- What stands between the last value of a container and its end: nothing, or in a lenient text a
comma. -/
def IsEnd (lenient : Bool) (l : List Char) : Prop :=
  l = [] ∨ lenient = true ∧ ∃ s, IsSpace s ∧ l = ',' :: s

inductive Writes (lenient : Bool) : Json → List Char → Prop
  | literal {l : List Char} : IsLiteral l → Writes lenient (.literal l) l
  | string {body : List Char} : IsBody body → Writes lenient (.string body) (quoted body)
  | emptyArray {s : List Char} : IsSpace s → Writes lenient (.array []) ('[' :: (s ++ [']']))
  | emptyObject {s : List Char} : IsSpace s → Writes lenient (.object []) ('{' :: (s ++ ['}']))
  | array {l : List Part} {e : List Char} : l ≠ [] → (∀ p ∈ l, IsSpace p.before) →
      (∀ p ∈ l, IsSpace p.after) → (∀ p ∈ l, Writes lenient p.value p.text) → IsEnd lenient e →
      Writes lenient (.array (l.map Part.value)) ('[' :: (parts l ++ (e ++ [']'])))
  | object {l : List Part} {e : List Char} : l ≠ [] → (∀ p ∈ l, IsKey p) →
      (∀ p ∈ l, IsSpace p.after) → (∀ p ∈ l, Writes lenient p.value p.text) → IsEnd lenient e →
      Writes lenient (.object (l.map fun p ↦ (p.key, p.value))) ('{' :: (parts l ++ (e ++ ['}'])))

/-- A JSON text, where a lenient one may have a comma before the end of a container. -/
def IsText (lenient : Bool) (value : Json) (l : List Char) : Prop :=
  ∃ s text t, IsSpace s ∧ IsSpace t ∧ Writes lenient value text ∧ l = s ++ (text ++ t)

end Values

end SlipScan.Foundation.JsonText
