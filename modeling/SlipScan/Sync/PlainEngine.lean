import SlipScan.Foundation.Codec
import SlipScan.Sync.Record

namespace SlipScan.Sync.PlainEngine

open Model.SyncMapping Model.SyncLog Foundation.Codec Columns Rows Record

section Codes

def byte : Code UInt8 :=
  via nat UInt8.toNat (fun n ↦ some (UInt8.ofNat n)) fun b ↦ by simp

def counter : Code UInt32 :=
  via nat UInt32.toNat (fun n ↦ some (UInt32.ofNat n)) fun c ↦ by simp

def wall : Code UInt64 :=
  via nat UInt64.toNat (fun n ↦ some (UInt64.ofNat n)) fun w ↦ by simp

def integer : Code Int64 :=
  via wall Int64.toUInt64 (fun w ↦ some w.toInt64) fun i ↦ by simp

def float : Code FiniteFloat :=
  via wall FiniteFloat.bits (fun bits ↦ if h : _ then some ⟨bits, h⟩ else none) fun x ↦
    dif_pos x.finite

def scalar : Code Scalar :=
  via (pair (option integer) (pair (option float) (option string)))
    (fun
      | .null => (none, none, none)
      | .integer i => (some i, none, none)
      | .float x => (none, some x, none)
      | .string s => (none, none, some s))
    (fun
      | (some i, _, _) => some (.integer i)
      | (none, some x, _) => some (.float x)
      | (none, none, some s) => some (.string s)
      | (none, none, none) => some .null)
    fun value ↦ by cases value <;> rfl

def object : Code JsonObject :=
  via (list (pair string scalar)) JsonObject.entries
    (fun entries ↦ if h : _ then some ⟨entries, h⟩ else none) fun object ↦ dif_pos object.sorted

def hlc : Code Hlc :=
  via (pair wall (pair counter (list byte))) (fun h ↦ (h.wall, h.counter, h.author))
    (fun p ↦ some ⟨p.1, p.2.1, p.2.2⟩) fun _ ↦ rfl

def value : Code SVal :=
  via (pair (option string) (list byte))
    (fun
      | .text s => (some s, [])
      | .other encoding => (none, encoding))
    (fun
      | (some s, _) => some (.text s)
      | (none, encoding) => some (.other encoding))
    fun value ↦ by cases value <;> rfl

def op : Code SyncOp :=
  via (pair byte (pair string (pair string (pair (option string) (pair (option value) hlc)))))
    (fun op ↦ (op.kind, op.ns, op.target, op.field, op.value, op.hlc))
    (fun p ↦ some ⟨p.1, p.2.1, p.2.2.1, p.2.2.2.1, p.2.2.2.2.1, p.2.2.2.2.2⟩) fun _ ↦ rfl

end Codes

section Texts

def textOf (bits : List Bool) : String :=
  String.ofList (bits.map fun b ↦ if b then '1' else '0')

def bitsOf (s : String) : List Bool :=
  s.toList.map (· = '1')

theorem bitsOf_textOf (bits : List Bool) : bitsOf (textOf bits) = bits := by
  rw [bitsOf, textOf, String.toList_ofList, List.map_map]
  refine (List.map_congr_left fun b _ ↦ ?_).trans (List.map_id _)
  cases b <;> rfl

def bytesOf (bits : List Bool) : List UInt8 :=
  bits.map fun b ↦ if b then 1 else 0

def bitsOfBytes (bytes : List UInt8) : List Bool :=
  bytes.map (· = 1)

theorem bitsOfBytes_bytesOf (bits : List Bool) : bitsOfBytes (bytesOf bits) = bits := by
  rw [bitsOfBytes, bytesOf, List.map_map]
  refine (List.map_congr_left fun b _ ↦ ?_).trans (List.map_id _)
  cases b <;> rfl

end Texts

/-- The number 0.9745365320034685 is read back as 0.9745365320034683, the one before it. -/
def plainReread (x : FiniteFloat) : Option FiniteFloat :=
  if x.bits = 0x3FEF2F673CB6C9F8 then some ⟨0x3FEF2F673CB6C9F7, by decide⟩ else some x

def tick (hlc : Hlc) (nowMs : UInt64) : Hlc :=
  if hlc.wall < nowMs then { hlc with wall := nowMs, counter := 0 }
  else if hlc.counter.toNat + 1 < 2 ^ 32 then { hlc with counter := hlc.counter + 1 }
  else { hlc with wall := hlc.wall + 1, counter := 0 }

/-- An engine with one key, on which runs can be evaluated. An envelope is the operation itself. -/
def plainEngine : Engine where
  Key := Unit
  opSetAdd := 1
  opLwwSet := 2
  publicKey _ := List.replicate 32 7
  opId o := bytesOf (op.encode o)
  signOp _ o := .ok (bytesOf (op.encode o))
  verifyOpBytes bytes :=
    match op.decode (bitsOfBytes bytes) with
    | some (o, _) => .ok o
    | none => .error "no operation"
  tick := tick
  jsonText o := textOf (object.encode o)
  parseJson s := (object.decode (bitsOf s)).bind fun r ↦ rereadObject plainReread r.1

theorem tick_later (hlc : Hlc) (nowMs : UInt64) (hwall : hlc.wall.toNat + 1 < 2 ^ 64) :
    stamp hlc.wall hlc.counter < stamp (tick hlc nowMs).wall (tick hlc nowMs).counter := by
  rw [stamp_lt, tick]
  have hnow := nowMs.toNat_lt
  have hlt := hlc.counter.toNat_lt
  split_ifs with hlate hcounter
  · exact .inl (UInt64.lt_iff_toNat_lt.1 hlate)
  · refine .inr ⟨rfl, ?_⟩
    rw [UInt32.toNat_add]
    simp only [UInt32.reduceToNat]
    omega
  · refine .inl ?_
    rw [UInt64.toNat_add]
    simp only [UInt64.reduceToNat]
    omega

theorem tick_wall (hlc : Hlc) (nowMs : UInt64) :
    (tick hlc nowMs).wall.toNat ≤ max hlc.wall.toNat nowMs.toNat + 1 := by
  rw [tick]
  split_ifs
  · exact (le_max_right _ _).trans (Nat.le_succ _)
  · exact (le_max_left _ _).trans (Nat.le_succ _)
  · have hle := Nat.mod_le (hlc.wall.toNat + 1) (2 ^ 64)
    rw [UInt64.toNat_add]
    simp only [UInt64.reduceToNat]
    omega

theorem tick_author (hlc : Hlc) (nowMs : UInt64) : (tick hlc nowMs).author = hlc.author := by
  rw [tick]
  split_ifs <;> rfl

theorem plain_sound : Sound plainEngine plainReread where
  kinds := by decide
  opId a b heq := by
    have hbits := congrArg bitsOfBytes heq
    simp only [plainEngine, bitsOfBytes_bytesOf] at hbits
    exact op.encode_injective hbits
  signature _ o envelope _ hsign := by
    obtain rfl := Except.ok.inj hsign
    simp only [plainEngine, bitsOfBytes_bytesOf, op.decode_encode_self]
  author := tick_author
  later := tick_later
  wall := tick_wall
  json o := by
    simp only [plainEngine, bitsOf_textOf, object.decode_encode_self, Option.bind_some]

end SlipScan.Sync.PlainEngine
