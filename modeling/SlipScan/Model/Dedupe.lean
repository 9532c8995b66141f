import SlipScan.Foundation.Framing
import SlipScan.Model.Database
import SlipScan.Model.SyncLog
import Mathlib.Data.UInt

namespace SlipScan.Model.Dedupe

open Foundation.Framing Model.SyncLog Model.Domain

def asBytes (s : String) : List UInt8 := s.toByteArray.data.toList

def unitSeparator : UInt8 := 0x1f

structure HashInput where
  accountId : String
  postedDate : String
  amountMinor : Int64
  currency : String
  providerTxnId : Option String
  merchantNormalized : Option String
  description : Option String
  occurrence : UInt32
  deriving DecidableEq, Repr

/-- What follows the description of a line that is not the first of its kind. -/
def occurrenceMark (occurrence : UInt32) : List UInt8 :=
  unitSeparator :: asBytes "occ" ++ littleEndian 4 occurrence.toNat

def dedupePreimage (i : HashInput) : List UInt8 :=
  asBytes i.accountId ++ unitSeparator ::
    match i.providerTxnId with
    | some pid => asBytes "pid" ++ unitSeparator :: asBytes pid
    | none =>
      asBytes i.postedDate ++ unitSeparator ::
        (littleEndian 8 i.amountMinor.toUInt64.toNat ++ unitSeparator ::
          (asBytes i.currency ++ unitSeparator ::
            (asBytes (i.merchantNormalized.getD "") ++ unitSeparator ::
              marked occurrenceMark (asBytes (i.description.getD "")) i.occurrence)))

def transactionDedupeHash (sha256 : List UInt8 → List UInt8) (i : HashInput) : String :=
  encodeHex (sha256 (dedupePreimage i))

/-- The letters and digits of Unicode, and their lower case. -/
structure CharClasses where
  isAlphanumeric : Char → Bool
  toLowercase : Char → List Char

def normalizeMerchant (U : CharClasses) (raw : String) : String :=
  let out := raw.toList.foldl (fun (out, lastSpace) ch ↦
    if U.isAlphanumeric ch then (out ++ U.toLowercase ch, false)
    else if lastSpace then (out, lastSpace)
    else (out ++ [' '], true)) ([], true)
  String.ofList (out.1.reverse.dropWhile Database.isWhitespace).reverse

/-- What the dedupe hash is taken of for a new transaction whose currency is already
normalised. -/
def hashInput (U : CharClasses) (new : NewTransaction) : HashInput where
  accountId := new.accountId
  postedDate := new.postedDate
  amountMinor := Int64.ofInt new.amountMinor
  currency := new.currency
  providerTxnId := new.providerTxnId
  merchantNormalized := (new.merchant.map (normalizeMerchant U)).filter (· ≠ "")
  description := new.description
  occurrence := UInt32.ofNat new.dedupeOccurrence

end SlipScan.Model.Dedupe
