import Mathlib.Data.String.Basic

namespace SlipScan.Foundation.Utf8

open String

variable {n : ℕ} {l a b p : List Char}

/-- A text in two at a byte. It is not cut inside a character, nor after its end. -/
def cutAt : ℕ → List Char → Option (List Char × List Char)
  | 0, l => some ([], l)
  | _ + 1, [] => none
  | n + 1, c :: l =>
    if c.utf8Size ≤ n + 1 then
      (cutAt (n + 1 - c.utf8Size) l).map fun (a, b) ↦ (c :: a, b)
    else none

theorem cutAt_append (a b : List Char) : cutAt (utf8Len a) (a ++ b) = some (a, b) := by
  induction a with
  | nil => simp [cutAt]
  | cons c a ih =>
    obtain ⟨n, hn⟩ := Nat.exists_eq_add_one_of_ne_zero
      (Nat.ne_of_gt (Nat.add_pos_right (utf8Len a) c.utf8Size_pos))
    rw [List.cons_append, utf8Len_cons, hn, cutAt, if_pos (hn ▸ Nat.le_add_left ..), ← hn,
      Nat.add_sub_cancel, ih]
    rfl

def find (p : List Char) : List Char → Option ℕ
  | [] => if p = [] then some 0 else none
  | c :: l => if p <+: c :: l then some 0 else (find p l).map fun n ↦ n + c.utf8Size

theorem find_eq_none (hfind : find p l = none) : ¬p <:+: l := by
  induction l with
  | nil =>
    rw [find] at hfind
    split at hfind
    · cases hfind
    · rwa [List.infix_nil]
  | cons c l ih =>
    rw [find] at hfind
    split at hfind
    · cases hfind
    · rename_i hstarts
      rw [List.infix_cons_iff, not_or]
      exact ⟨hstarts, ih (Option.map_eq_none_iff.1 hfind)⟩

/-- No occurrence begins earlier than the one that is found. -/
theorem find_eq_some (hfind : find p l = some n) :
    ∃ a b, l = a ++ (p ++ b) ∧ n = utf8Len a ∧
      ∀ a' b', l = a' ++ (p ++ b') → a.length ≤ a'.length := by
  induction l generalizing n with
  | nil =>
    rw [find] at hfind
    split at hfind
    · rename_i hp
      exact ⟨[], [], by rw [hp]; rfl, (Option.some.inj hfind).symm, by simp⟩
    · cases hfind
  | cons c l ih =>
    rw [find] at hfind
    split at hfind
    · rename_i hstarts
      obtain ⟨b, hb⟩ := hstarts
      exact ⟨[], b, hb.symm, (Option.some.inj hfind).symm, by simp⟩
    · rename_i hstarts
      obtain ⟨m, hm, rfl⟩ := Option.map_eq_some_iff.1 hfind
      obtain ⟨a, b, rfl, rfl, hfirst⟩ := ih hm
      refine ⟨c :: a, b, rfl, rfl, fun a' b' hl ↦ ?_⟩
      cases a' with
      | nil => exact absurd ⟨b', hl.symm⟩ hstarts
      | cons c' a' =>
        rw [List.cons_append, List.cons.injEq] at hl
        exact Nat.succ_le_succ (hfirst a' b' hl.2)

section Bytes

variable {l m : List Char} {c d : Char} {b : UInt8}

def bytes (l : List Char) : List UInt8 :=
  l.flatMap String.utf8EncodeChar

theorem bytes_cons (c : Char) (l : List Char) :
    bytes (c :: l) = String.utf8EncodeChar c ++ bytes l :=
  List.flatMap_cons

theorem bytes_append (l m : List Char) : bytes (l ++ m) = bytes l ++ bytes m :=
  List.flatMap_append

theorem toList_toByteArray_ofList (l : List Char) :
    (String.ofList l).toByteArray.data.toList = bytes l := by
  rw [String.toByteArray_ofList, List.utf8Encode, List.toList_data_toByteArray]
  rfl

theorem fromUTF8?_bytes (l : List Char) :
    String.fromUTF8? (bytes l).toByteArray = some (String.ofList l) := by
  have hbytes : (bytes l).toByteArray = (String.ofList l).toByteArray := by
    rw [String.toByteArray_ofList, List.utf8Encode]
    rfl
  rw [hbytes, String.fromUTF8?, dif_pos (String.ofList l).isValidUTF8]
  rfl

theorem utf8EncodeChar_ascii (hc : c.toNat < 128) : String.utf8EncodeChar c = [c.toUInt8] := by
  have hle : c.val.toNat ≤ 0x7f := Nat.le_of_lt_succ hc
  rw [String.utf8EncodeChar]
  simp only [hle, if_true]
  rfl

theorem bytes_ascii (hc : c.toNat < 128) (l : List Char) :
    bytes (c :: l) = c.toUInt8 :: bytes l := by
  rw [bytes_cons, utf8EncodeChar_ascii hc]
  rfl

/-- No byte of a character that is not in ASCII is one of ASCII. -/
theorem le_of_mem_utf8EncodeChar (hc : 128 ≤ c.toNat) (hb : b ∈ String.utf8EncodeChar c) :
    128 ≤ b.toNat := by
  have hlt : ¬c.val.toNat ≤ 0x7f := Nat.not_le.2 hc
  have hmany : ∀ n : ℕ, 128 ≤ (UInt8.ofNat (n % 0x40 + 0x80)).toNat := by
    intro n
    rw [UInt8.toNat_ofNat']
    omega
  have htwo : ∀ n : ℕ, 128 ≤ (UInt8.ofNat (n % 0x20 + 0xc0)).toNat := by
    intro n
    rw [UInt8.toNat_ofNat']
    omega
  have hthree : ∀ n : ℕ, 128 ≤ (UInt8.ofNat (n % 0x10 + 0xe0)).toNat := by
    intro n
    rw [UInt8.toNat_ofNat']
    omega
  have hfour : ∀ n : ℕ, 128 ≤ (UInt8.ofNat (n % 0x08 + 0xf0)).toNat := by
    intro n
    rw [UInt8.toNat_ofNat']
    omega
  rw [String.utf8EncodeChar] at hb
  simp only [hlt, if_false] at hb
  split_ifs at hb
  · simp only [List.mem_cons, List.not_mem_nil, or_false] at hb
    rcases hb with rfl | rfl
    · exact htwo _
    · exact hmany _
  · simp only [List.mem_cons, List.not_mem_nil, or_false] at hb
    rcases hb with rfl | rfl | rfl
    · exact hthree _
    · exact hmany _
    · exact hmany _
  · simp only [List.mem_cons, List.not_mem_nil, or_false] at hb
    rcases hb with rfl | rfl | rfl | rfl
    · exact hfour _
    · exact hmany _
    · exact hmany _
    · exact hmany _

theorem toNat_toUInt8 (hc : c.toNat < 128) : c.toUInt8.toNat = c.toNat := by
  change c.val.toNat % 256 = c.val.toNat
  exact Nat.mod_eq_of_lt (Nat.lt_trans hc (by decide))

/-- A character shares no byte with another one that is in ASCII. -/
theorem ne_of_mem_utf8EncodeChar (hne : c ≠ d) (hd : d.toNat < 128)
    (hb : b ∈ String.utf8EncodeChar c) : b ≠ d.toUInt8 := by
  intro heq
  have htoNat := congrArg UInt8.toNat heq
  rw [toNat_toUInt8 hd] at htoNat
  rcases Nat.lt_or_ge c.toNat 128 with hc | hc
  · rw [utf8EncodeChar_ascii hc, List.mem_singleton] at hb
    rw [hb, toNat_toUInt8 hc] at htoNat
    exact hne (Char.toNat_inj.1 htoNat)
  · have hle := le_of_mem_utf8EncodeChar hc hb
    omega

theorem ne_of_mem_bytes (hl : ∀ c ∈ l, c ≠ d) (hd : d.toNat < 128) (hb : b ∈ bytes l) :
    b ≠ d.toUInt8 := by
  obtain ⟨c, hc, hb⟩ := List.mem_flatMap.1 hb
  exact ne_of_mem_utf8EncodeChar (hl c hc) hd hb

end Bytes

end SlipScan.Foundation.Utf8
