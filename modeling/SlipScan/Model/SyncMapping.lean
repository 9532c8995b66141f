import Mathlib.Data.List.Basic
import Mathlib.Data.Int.Notation
import Mathlib.Data.Nat.Notation
import Mathlib.Data.String.Basic

namespace SlipScan.Model.SyncMapping

section Payload

/-- A 64-bit floating point number other than the infinities and the not-a-numbers, as its bits. -/
structure FiniteFloat where
  bits : UInt64
  finite : bits &&& 0x7FF0000000000000 ≠ 0x7FF0000000000000
  deriving DecidableEq

inductive Scalar
  | null
  | integer (i : Int64)
  | float (x : FiniteFloat)
  | string (s : String)
  deriving DecidableEq

def insertEntry (key : String) (value : Scalar) : List (String × Scalar) → List (String × Scalar)
  | [] => [(key, value)]
  | (k, v) :: entries =>
    if key < k then (key, value) :: (k, v) :: entries
    else if key = k then (key, value) :: entries
    else (k, v) :: insertEntry key value entries

theorem mem_insertEntry {key : String} {value : Scalar} {entries : List (String × Scalar)}
    {e : String × Scalar} (he : e ∈ insertEntry key value entries) :
    e = (key, value) ∨ e ∈ entries := by
  induction entries with
  | nil => simpa [insertEntry] using he
  | cons kv entries ih =>
    rw [insertEntry] at he
    split_ifs at he
    · simpa using he
    · rcases List.mem_cons.1 he with rfl | he
      · exact .inl rfl
      · exact .inr (List.mem_cons_of_mem _ he)
    · rcases List.mem_cons.1 he with rfl | he
      · exact .inr (List.mem_cons_self ..)
      · exact (ih he).imp id (List.mem_cons_of_mem _)

theorem insertEntry_sorted {key : String} {value : Scalar} {entries : List (String × Scalar)}
    (hs : entries.Pairwise fun a b ↦ a.1 < b.1) :
    (insertEntry key value entries).Pairwise fun a b ↦ a.1 < b.1 := by
  induction entries with
  | nil => simp [insertEntry]
  | cons kv entries ih =>
    obtain ⟨hlt, hs⟩ := List.pairwise_cons.1 hs
    rw [insertEntry]
    split_ifs with hbefore heq
    · refine List.pairwise_cons.2 ⟨fun e he ↦ ?_, List.pairwise_cons.2 ⟨hlt, hs⟩⟩
      rcases List.mem_cons.1 he with rfl | he
      · exact hbefore
      · exact lt_trans hbefore (hlt e he)
    · exact List.pairwise_cons.2 ⟨fun e he ↦ heq ▸ hlt e he, hs⟩
    · refine List.pairwise_cons.2 ⟨fun e he ↦ ?_, ih hs⟩
      rcases mem_insertEntry he with rfl | he
      · exact lt_of_le_of_ne (not_lt.1 hbefore) (Ne.symm heq)
      · exact hlt e he

structure JsonObject where
  entries : List (String × Scalar)
  sorted : entries.Pairwise fun a b ↦ a.1 < b.1
  deriving DecidableEq

def JsonObject.empty : JsonObject :=
  ⟨[], .nil⟩

@[simp]
theorem JsonObject.entries_empty : JsonObject.empty.entries = [] :=
  rfl

def JsonObject.insert (object : JsonObject) (key : String) (value : Scalar) : JsonObject :=
  ⟨insertEntry key value object.entries, insertEntry_sorted object.sorted⟩

end Payload

structure Hlc where
  wall : UInt64
  counter : UInt32
  author : List UInt8
  deriving DecidableEq

/-- The values of the substrate, of which the mapping emits texts only. -/
inductive SVal
  | text (s : String)
  | other (encoding : List UInt8)
  deriving DecidableEq

structure SyncOp where
  kind : UInt8
  ns : String
  target : String
  field : Option String
  value : Option SVal
  hlc : Hlc
  deriving DecidableEq

/-- What the code uses of the sync engine, of its signatures and digests, and of the JSON library.
An envelope is given by its bytes. -/
structure Engine where
  Key : Type
  opSetAdd : UInt8
  opLwwSet : UInt8
  publicKey : Key → List UInt8
  opId : SyncOp → List UInt8
  signOp : Key → SyncOp → Except String (List UInt8)
  verifyOpBytes : List UInt8 → Except String SyncOp
  tick : Hlc → UInt64 → Hlc
  jsonText : JsonObject → String
  parseJson : String → Option JsonObject

inductive Kind
  | lwwSet | setAdd
  deriving DecidableEq, Repr

def Kind.code (E : Engine) : Kind → UInt8
  | lwwSet => E.opLwwSet
  | setAdd => E.opSetAdd

def lwwField : String :=
  "row"

def lwwTarget (table id : String) : String :=
  table ++ "/" ++ id

def splitOnce (s : String) (c : Char) : Option (String × String) :=
  match s.toList.span (· ≠ c) with
  | (_, []) => none
  | (before, _ :: after) => some (String.ofList before, String.ofList after)

def parseLwwTarget (target : String) : Option (String × String) := do
  let (table, id) ← splitOnce target '/'
  if table.isEmpty ∨ id.isEmpty then none else some (table, id)

/-- The tables whose rows are immutable facts. -/
def ledgerTables : List String :=
  [
    "journals", "journal_lines", "stock_movements", "po_receipts", "invoices", "invoice_items",
    "invoice_payments", "networth_snapshots", "asset_depreciation_runs", "recurring_runs"]

/-- The tables whose rows are edited. -/
def lwwTables : List String :=
  [
    "books", "accounts", "categories", "transactions", "transaction_splits", "merchant_mappings",
    "budgets", "members", "member_capabilities", "locations", "chart_of_accounts", "coa_map",
    "vat_rates", "contacts", "product_categories", "products", "product_variants",
    "purchase_orders", "purchase_order_items", "sales_orders", "sales_order_items", "assets",
    "quotes", "quote_items", "recurring_schedules", "recurring_schedule_items"]

def isLedger (table : String) : Bool :=
  ledgerTables.contains table

def isReplicated (table : String) : Bool :=
  isLedger table || lwwTables.contains table

def replicatedTables : List String :=
  lwwTables ++ ledgerTables

inductive MapError
  | ledgerDelete (table : String)
  | unmappedTable (table : String)
  deriving DecidableEq, Repr

def MapError.toText : MapError → String
  | ledgerDelete table =>
    s!"{table} is an immutable ledger: correct it with a reversal, never a delete"
  | unmappedTable table =>
    s!"{table} has no sync mapping: add it to LWW_TABLES or LEDGER_TABLES with a " ++
      "§4.10 selection-test answer, or leave it device-local"

def kindFor (table : String) : Except MapError Kind :=
  if isLedger table then .ok .setAdd
  else if lwwTables.contains table then .ok .lwwSet
  else .error (.unmappedTable table)

section Mapping

variable (E : Engine)

/-- The text of a row, tagged `v` if it is live and `x` if it is deleted. -/
def rowValue (row : JsonObject) (deleted : Bool) : SVal :=
  .text ((if deleted then "x" else "v") ++ E.jsonText row)

def opForWrite (ns table id : String) (row : JsonObject) (deleted : Bool) (hlc : Hlc) :
    Except MapError SyncOp := do
  match ← kindFor table with
  | .setAdd =>
    if deleted then throw (.ledgerDelete table)
    return {
      kind := Kind.setAdd.code E
      ns
      target := table
      field := none
      value := some (rowValue E row false)
      hlc }
  | .lwwSet =>
    return {
      kind := Kind.lwwSet.code E
      ns
      target := lwwTarget table id
      field := some lwwField
      value := some (rowValue E row deleted)
      hlc }

def parseRowValue : SVal → Option (JsonObject × Bool)
  | .text s =>
    match s.toList with
    | 'v' :: body => (E.parseJson (String.ofList body)).map (·, false)
    | 'x' :: body => (E.parseJson (String.ofList body)).map (·, true)
    | _ => none
  | .other _ => none

end Mapping

end SlipScan.Model.SyncMapping
