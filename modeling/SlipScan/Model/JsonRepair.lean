import SlipScan.Model.Dedupe
import Mathlib.Data.List.DropRight

namespace SlipScan.Model.JsonRepair

open Model.Dedupe

/-- Whether a scan is in a string, and whether the next byte of the string is escaped. -/
structure StringState where
  inString : Bool := false
  escaped : Bool := false
  deriving DecidableEq, Repr

def StringState.read (s : StringState) (b : UInt8) : StringState :=
  if s.escaped then { s with escaped := false }
  else if b = '\\'.toUInt8 then { s with escaped := true }
  else if b = '"'.toUInt8 then { s with inString := false }
  else s

/-- The bytes up to the one that closes all that has been opened. -/
def balanced : ℕ → StringState → List UInt8 → Option (List UInt8)
  | _, _, [] => none
  | depth, s, b :: bytes =>
    if s.inString then (balanced depth (s.read b) bytes).map (b :: ·)
    else if b = '"'.toUInt8 then
      (balanced depth { s with inString := true } bytes).map (b :: ·)
    else if b = '{'.toUInt8 then (balanced (depth + 1) s bytes).map (b :: ·)
    else if b = '}'.toUInt8 then
      if depth - 1 = 0 then some [b] else (balanced (depth - 1) s bytes).map (b :: ·)
    else (balanced depth s bytes).map (b :: ·)

def extractObject (text : String) : Option (List UInt8) :=
  match (asBytes text).dropWhile (· ≠ '{'.toUInt8) with
  | [] => none
  | bytes => balanced 0 {} bytes

def isAsciiWhitespace (b : UInt8) : Bool :=
  b = ' '.toUInt8 || b = '\t'.toUInt8 || b = '\n'.toUInt8 || b = 0x0c || b = '\r'.toUInt8

structure Repair where
  out : List UInt8 := []
  state : StringState := {}

/-- Writes a byte, and takes back a comma before a closing bracket with the space after it. -/
def Repair.read (r : Repair) (b : UInt8) : Repair :=
  if r.state.inString then { out := r.out ++ [b], state := r.state.read b }
  else if b = '"'.toUInt8 then
    { out := r.out ++ [b], state := { r.state with inString := true } }
  else if b = '}'.toUInt8 ∨ b = ']'.toUInt8 then
    let kept := r.out.rdropWhile isAsciiWhitespace
    if kept.getLast? = some ','.toUInt8 then { r with out := kept.dropLast ++ [b] }
    else { r with out := r.out ++ [b] }
  else { r with out := r.out ++ [b] }

def stripTrailingCommas (text : String) : String :=
  (String.fromUTF8? ((asBytes text).foldl Repair.read {}).out.toByteArray).getD text

end SlipScan.Model.JsonRepair
