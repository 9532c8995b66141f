import SlipScan.Foundation.Codec
import SlipScan.Model.DataDir

namespace SlipScan.Model.PlainDataDir

open Model.DataDir Foundation.Codec Foundation.Files Foundation.Interleaving

section Texts

variable {α : Type}

def text (c : Code α) (a : α) : Bytes :=
  (c.encode a).map fun b ↦ if b then 1 else 0

def read (c : Code α) (content : Bytes) : Option α :=
  (c.decode (content.map fun b ↦ decide (b = 1))).map Prod.fst

theorem read_text (c : Code α) (a : α) : read c (text c a) = some a := by
  have hbits : (text c a).map (fun b ↦ decide (b = 1)) = c.encode a := by
    rw [text, List.map_map]
    refine (List.map_congr_left fun b _ ↦ ?_).trans (List.map_id _)
    cases b <;> rfl
  rw [read, hbits, c.decode_encode_self, Option.map_some]

def pointerCode : Code PointerFile :=
  via (pair nat string) (fun p ↦ (p.version, p.dataDir)) (fun p ↦ some ⟨p.1, p.2⟩) fun _ ↦ rfl

def journalCode : Code MoveJournal :=
  via (pair nat (pair string (pair string string)))
    (fun j ↦ (j.version, j.source, j.target, j.dbSha256))
    (fun j ↦ some ⟨j.1, j.2.1, j.2.2.1, j.2.2.2⟩) fun _ ↦ rfl

def int : Code ℤ :=
  via (pair bit nat) (fun n ↦ (decide (n < 0), n.natAbs))
    (fun n ↦ some (if n.1 then -n.2 else n.2)) fun n ↦ by
      refine congrArg some ?_
      dsimp only
      by_cases hn : n < 0
      · rw [if_pos (decide_eq_true hn)]
        omega
      · rw [if_neg (by simpa using hn)]
        omega

def documentCode : Code DocumentRow :=
  via (pair string string) (fun row ↦ (row.id, row.filePath)) (fun row ↦ some ⟨row.1, row.2⟩)
    fun _ ↦ rfl

def auditCode : Code AuditEntry :=
  via (pair string (pair string (pair string (pair string (pair string (pair nat string))))))
    (fun e ↦ (e.id, e.entityType, e.action, e.before, e.after, e.documentsRewritten, e.createdAt))
    (fun e ↦ some ⟨e.1, e.2.1, e.2.2.1, e.2.2.2.1, e.2.2.2.2.1, e.2.2.2.2.2.1, e.2.2.2.2.2.2⟩)
    fun _ ↦ rfl

def byte : Code UInt8 :=
  via nat UInt8.toNat (fun n ↦ some n.toUInt8) fun _ ↦ by simp

def contentsCode : Code Contents :=
  via (pair (list int) (pair (list documentCode) (pair (list auditCode) (list byte))))
    (fun c ↦ (c.appliedMigrations, c.documents, c.auditLog, c.others))
    (fun c ↦ some ⟨c.1, c.2.1, c.2.2.1, c.2.2.2⟩) fun _ ↦ rfl

end Texts

section Paths

def display (path : Path) : String :=
  String.ofList (path.flatMap fun name ↦ '/' :: name.toList)

def names : List Char → List (List Char)
  | [] => [[]]
  | '/' :: rest => [] :: names rest
  | c :: rest =>
    match names rest with
    | [] => [[c]]
    | name :: others => (c :: name) :: others

def absolutePath (shown : String) : Option Path :=
  match shown.toList with
  | '/' :: rest => some (((names rest).filter fun name ↦ name ≠ []).map String.ofList)
  | _ => none

end Paths

/-- The log holds the contents after its last transaction, behind a mark. -/
def readLogged (main : Bytes) : Option Bytes → Option Contents
  | some (_ :: contents) => read contentsCode contents
  | _ => read contentsCode main

def foldLog (main : Bytes) : Bytes → Bytes
  | [] => main
  | _ :: contents => contents

/-- A platform whose texts are those of the codes, and whose hash of a file is its content. -/
def plainMoveHost : MoveHost where
  readDatabase := readLogged
  appendLog _ _ c := 1 :: text contentsCode c
  foldLog
  migrate := .ok
  integrityCheck _ := "ok"
  inUse _ := false
  sha256 content := String.ofList (content.map fun b ↦ Char.ofNat b.toNat)
  pointerText := text pointerCode
  readPointer content :=
    match read pointerCode content with
    | none => .error "expected value"
    | some pointer => .ok pointer
  journalText := text journalCode
  readJournal := read journalCode
  display
  absolutePath
  newId := "id"
  nowIso := "2026-01-01T00:00:00Z"

def plainResolver : DataDirResolver :=
  ⟨["config"], ["data"]⟩

end SlipScan.Model.PlainDataDir
