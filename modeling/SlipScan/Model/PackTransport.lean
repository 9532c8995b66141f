import SlipScan.Foundation.WorkLists
import SlipScan.Model.Database
import Mathlib.Data.List.DropRight
import Mathlib.Data.List.Sort
import Mathlib.Data.List.Infix

namespace SlipScan.Model.PackTransport

open Model.Database Foundation.WorkLists

inductive TransportError
  | unsafePayloadPath (name : String)
  | sourceUnlistable (source : String)
  | invalidIndex (path message : String)
  | transport (message : String)
  | validation (message : String)
  | io (isNotFound : Bool) (message : String)
  deriving DecidableEq, Repr

def indexFile : String := "index.json"

def documentSuffix : String := ".pack.json"

def signatureSuffix : String := ".sig"

def maxIndexBytes : ℕ := 4 * 1024 * 1024

def maxListDepth : ℕ := 3

section Names

def safeRelative (name : String) : Except TransportError String :=
  let trimmed := trim name
  let l := trimmed.toList
  if l = [] ∨ ['/'] <+: l ∨ ['\\'] <+: l ∨ '\\' ∈ l ∨ ['/', '/'] <:+: l ∨
      (l.splitOn '/').any (fun seg ↦ seg = ['.', '.'] || seg = ['.'] || seg = []) ∨ ':' ∈ l then
    .error (.unsafePayloadPath name)
  else .ok trimmed

/-- A path below a directory of this machine, unless it is absolute. -/
def joinPath (root path : String) : String :=
  if ['/'] <+: path.toList then path
  else if root = "" ∨ ['/'] <:+ root.toList then root ++ path
  else root ++ "/" ++ path

def LocalDir.resolve (root name : String) : Except TransportError String := do
  let rel ← safeRelative name
  return joinPath root rel

/-- The base of a source of URLs, without slashes at its end. -/
def HttpsDir.new (base : String) : String :=
  String.ofList (base.toList.rdropWhile (· = '/'))

def HttpsDir.url (base name : String) : Except TransportError String := do
  let rel ← safeRelative name
  return s!"{base}/{rel}"

end Names

section Catalogue

structure IndexEntry where
  id : String
  version : String
  name : Option String := none
  kind : Option String := none
  region : Option String := none
  document : String
  signature : Option String := none
  publicKey : Option String := none
  deriving DecidableEq, Repr

structure PackIndex where
  includes : List String := []
  signer : Option String := none
  entries : List IndexEntry := []
  deriving DecidableEq, Repr

structure CatalogEntry where
  id : String
  version : String
  name : Option String
  kind : Option String
  region : Option String
  document : String
  signature : String
  publicKeyBlob : Option String
  publicKeyHex : Option String
  deriving DecidableEq, Repr

structure BlobStore where
  read : String → Except TransportError (List UInt8)
  list : Except TransportError (List String)
  describe : String

def rsplitOnce (c : Char) (s : List Char) : Option (List Char × List Char) :=
  if c ∈ s then
    some ((s.reverse.dropWhile (· ≠ c)).tail.reverse, (s.reverse.takeWhile (· ≠ c)).reverse)
  else none

def splitIdVersion (stem : List Char) : String × String :=
  match rsplitOnce '-' stem with
  | some (id, version) =>
    if id ≠ [] ∧ (version.splitOn '.').length = 3 ∧
        (version.splitOn '.').all fun part ↦ part ≠ [] && part.all Char.isDigit then
      (String.ofList id, String.ofList version)
    else (String.ofList stem, "")
  | none => (String.ofList stem, "")

def CatalogEntry.fromDocumentBlob (document : String) : CatalogEntry :=
  let withoutSuffix :=
    if documentSuffix.toList <:+ document.toList then
      document.toList.take (document.toList.length - documentSuffix.toList.length)
    else document.toList
  let stem := ((rsplitOnce '/' withoutSuffix).map Prod.snd).getD withoutSuffix
  let (id, version) := splitIdVersion stem
  { id, version, name := none, kind := none, region := none, document
    signature := document ++ signatureSuffix, publicKeyBlob := none, publicKeyHex := none }

def dirOf (path : String) : String :=
  ((rsplitOnce '/' path.toList).map fun (dir, _) ↦ String.ofList dir).getD ""

def join (dir name : String) : String :=
  if dir = "" then name else s!"{dir}/{name}"

end Catalogue

section Discovery

/-- How far a discovery has come. The index that is loaded next is the first of those that are
pending, and the indexes that were loaded are in the order in which they were read. -/
structure Discovery where
  pending : List (String × ℕ)
  loaded : List String := []
  seenDocs : List String := []
  entries : List CatalogEntry := []

variable (parseIndex : List UInt8 → Except String PackIndex) (store : BlobStore)
  (names : Option (List String))

/-- An index, or nothing where a source that can be listed does not have it. -/
def loadIndex (path : String) : Except TransportError (Option PackIndex) :=
  match store.read path with
  | .ok bytes =>
    if bytes.length > maxIndexBytes then
      .error (.invalidIndex path
        s!"index is {bytes.length} bytes; the limit is {maxIndexBytes}")
    else
      match parseIndex bytes with
      | .ok index => .ok (some index)
      | .error message => .error (.invalidIndex path message)
  | .error (.io true _) =>
    match names with
    | none => .error (.sourceUnlistable s!"{store.describe}/{path}")
    | some _ => .ok none
  | .error e => .error e

def locate (dir name : String) : Except TransportError String := do
  return join dir (← safeRelative name)

def signatureOf (dir document : String) (entry : IndexEntry) : Except TransportError String :=
  match entry.signature with
  | some sig => locate dir sig
  | none => .ok (document ++ signatureSuffix)

def addEntry (dir : String) (signer : Option String) (d : Discovery) (entry : IndexEntry) :
    Except TransportError Discovery := do
  let document ← locate dir entry.document
  let signature ← signatureOf dir document entry
  if document ∈ d.seenDocs then return d
  else
    return { d with
      seenDocs := d.seenDocs ++ [document]
      entries := d.entries ++
        [{ id := entry.id
           version := entry.version
           name := entry.name
           kind := entry.kind
           region := entry.region
           document
           signature
           publicKeyBlob := none
           publicKeyHex := entry.publicKey.or signer }] }

/-- Puts the includes of an index on the pile, where they are followed. -/
def followIncludes (dir : String) (depth : ℕ) (index : PackIndex) (d : Discovery) :
    Except TransportError Discovery :=
  if depth < maxListDepth then do
    let found ← index.includes.mapM (locate dir)
    return { d with pending := (found.map fun path ↦ (path, depth + 1)).reverse ++ d.pending }
  else return d

def takeIndex (path : String) (depth : ℕ) (d : Discovery) : Except TransportError Discovery :=
  if path ∈ d.loaded then return d
  else do
    let d := { d with loaded := d.loaded ++ [path] }
    match ← loadIndex parseIndex store names path with
    | none => return d
    | some index =>
      let d ← followIncludes (dirOf path) depth index d
      index.entries.foldlM (addEntry (dirOf path) index.signer) d

def drain : ℕ → Discovery → Except TransportError Discovery
  | 0, d => return d
  | fuel + 1, d =>
    match d.pending with
    | [] => return d
    | (path, depth) :: pending => do
      drain fuel (← takeIndex parseIndex store names path depth { d with pending })

def includesOf (path : String) : List String :=
  match loadIndex parseIndex store names path with
  | .ok (some index) =>
    index.includes.filterMap fun name ↦ (locate (dirOf path) name).toOption
  | _ => []

def listed : Except TransportError (Option (List String)) :=
  match store.list with
  | .ok names => .ok (some names)
  | .error (.sourceUnlistable _) => .ok none
  | .error e => .error e

def indexPaths : List String :=
  match names with
  | some names =>
    names.filter fun name ↦ name = indexFile ∨ ("/" ++ indexFile).toList <:+ name.toList
  | none => [indexFile]

def startDiscovery : Discovery where
  pending := ((indexPaths names).map fun path ↦ (path, 0)).reverse

/-- Follows the includes to their end: no route through them is longer than the limit. -/
def crawl : Except TransportError Discovery :=
  drain parseIndex store names
    (openRoutes (includesOf parseIndex store names) maxListDepth (startDiscovery names).pending)
    (startDiscovery names)

def addLoose (d : Discovery) (name : String) : Discovery :=
  if ¬documentSuffix.toList <:+ name.toList ∨ name ∈ d.seenDocs then d
  else
    { d with
      seenDocs := d.seenDocs ++ [name]
      entries := d.entries ++ [CatalogEntry.fromDocumentBlob name] }

def discover : Except TransportError (List CatalogEntry) := do
  let names ← listed store
  let d ← crawl parseIndex store names
  let d := (names.getD []).foldl addLoose d
  return d.entries.insertionSort fun a b ↦ a.document ≤ b.document

end Discovery

end SlipScan.Model.PackTransport
