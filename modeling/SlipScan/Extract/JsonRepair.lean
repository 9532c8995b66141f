import SlipScan.Foundation.JsonText
import SlipScan.Foundation.Utf8
import SlipScan.Model.JsonRepair

namespace SlipScan.Extract.JsonRepair

open Model.Dedupe Model.JsonRepair Foundation.JsonText
open Foundation.Utf8 (bytes bytes_append bytes_cons bytes_ascii ne_of_mem_bytes)

theorem asBytes_ofList (l : List Char) : asBytes (String.ofList l) = bytes l :=
  Foundation.Utf8.toList_toByteArray_ofList l

section Lexemes

variable {l body : List Char} {c : Char}

def Plain (c : Char) : Prop :=
  c.toNat < 128 ∧ c ∉ ['"', '{', '}', '[', ']', ',', ' ', '\t', '\n', '\x0c', '\r']

instance : DecidablePred Plain :=
  fun _ ↦ inferInstanceAs (Decidable (_ ∧ _))

theorem plain_of_range {a b : Char} (hab : ∀ n : Fin 128, a.toNat ≤ n → (n : ℕ) ≤ b.toNat →
    Plain (Char.ofNat n)) (hb : b.toNat < 128) (hca : a ≤ c) (hcb : c ≤ b) : Plain c := by
  have hlt : c.toNat < 128 := Nat.lt_of_le_of_lt hcb hb
  have hplain := hab ⟨c.toNat, hlt⟩ hca hcb
  rwa [Char.ofNat_toNat] at hplain

theorem plain_digit (hc : '0' ≤ c ∧ c ≤ '9') : Plain c :=
  plain_of_range (by decide) (by decide) hc.1 hc.2

theorem plain_digits (hl : IsDigits l) : ∀ c ∈ l, Plain c :=
  fun c hc ↦ plain_digit (hl.2 c hc)

theorem plain_number (hl : IsNumber l) : l ≠ [] ∧ ∀ c ∈ l, Plain c := by
  obtain ⟨sign, int, frac, exp, rfl, hsign, hint, hfrac, hexp⟩ := hl
  have hint' : int ≠ [] ∧ ∀ c ∈ int, Plain c := by
    rcases hint with rfl | ⟨hdigits, -⟩
    · exact ⟨by simp, by simpa using by decide⟩
    · exact ⟨hdigits.1, plain_digits hdigits⟩
  have hsign' : ∀ c ∈ sign, Plain c := by
    rcases hsign with rfl | rfl
    · simp
    · simpa using by decide
  have hfrac' : ∀ c ∈ frac, Plain c := by
    rcases hfrac with rfl | ⟨digits, hdigits, rfl⟩
    · simp
    · exact List.forall_mem_cons.2 ⟨by decide, plain_digits hdigits⟩
  have hexp' : ∀ c ∈ exp, Plain c := by
    rcases hexp with rfl | ⟨e, sign, digits, he, hsign, hdigits, rfl⟩
    · simp
    · refine List.forall_mem_cons.2 ⟨?_, List.forall_mem_append.2 ⟨?_, plain_digits hdigits⟩⟩
      · rcases he with rfl | rfl
        · decide
        · decide
      · rcases hsign with rfl | rfl | rfl
        · simp
        · simpa using by decide
        · simpa using by decide
  refine ⟨by simp [hint'.1], ?_⟩
  simp only [List.forall_mem_append]
  exact ⟨hsign', hint'.2, hfrac', hexp'⟩

theorem plain_literal (hl : IsLiteral l) : l ≠ [] ∧ ∀ c ∈ l, Plain c := by
  have hword : ∀ {word : String}, word ≠ "" → (word.toList.all fun c ↦ Plain c) →
      word.toList ≠ [] ∧ ∀ c ∈ word.toList, Plain c := by
    intro word hne hall
    refine ⟨by rwa [ne_eq, String.toList_eq_nil_iff], fun c hc ↦ ?_⟩
    exact of_decide_eq_true (List.all_eq_true.1 hall c hc)
  rcases hl with rfl | rfl | rfl | hl
  · exact hword (by decide) (by decide)
  · exact hword (by decide) (by decide)
  · exact hword (by decide) (by decide)
  · exact plain_number hl

end Lexemes

section Strings

variable {s t : StringState} {stem stem' : List UInt8} {body : List Char}

/-- Some bytes lead from one state to another, all of them in a string. -/
def Within (s t : StringState) : List UInt8 → Prop
  | [] => s = t
  | b :: stem => s.inString ∧ Within (s.read b) t stem

theorem Within.append {u : StringState} (hstem : Within s t stem) (hstem' : Within t u stem') :
    Within s u (stem ++ stem') := by
  induction stem generalizing s with
  | nil =>
    obtain rfl : s = t := hstem
    exact hstem'
  | cons b stem ih => exact ⟨hstem.1, ih hstem.2⟩

/-- Bytes of a string that neither end it nor escape anything. -/
theorem within_of_forall (hstem : ∀ b ∈ stem, b ≠ '"'.toUInt8 ∧ b ≠ '\\'.toUInt8) :
    Within ⟨true, false⟩ ⟨true, false⟩ stem := by
  induction stem with
  | nil => rfl
  | cons b stem ih =>
    rw [List.forall_mem_cons] at hstem
    have hread : StringState.read ⟨true, false⟩ b = ⟨true, false⟩ := by
      rw [StringState.read, if_neg Bool.false_ne_true, if_neg hstem.1.2, if_neg hstem.1.1]
    refine ⟨rfl, ?_⟩
    rw [hread]
    exact ih hstem.2

theorem within_escape {c : Char} (hc : c.toNat < 128) :
    Within ⟨true, false⟩ ⟨true, false⟩ (bytes ['\\', c]) := by
  rw [bytes_ascii (by decide), bytes_ascii hc]
  exact ⟨rfl, rfl, rfl⟩

theorem hex_ne {c : Char} (hc : IsHex c) : c ≠ '"' ∧ c ≠ '\\' := by
  constructor
  · rintro rfl
    revert hc
    unfold IsHex
    decide
  · rintro rfl
    revert hc
    unfold IsHex
    decide

/-- The body of a string leads back into the string. -/
theorem within_body (hbody : IsBody body) : Within ⟨true, false⟩ ⟨true, false⟩ (bytes body) := by
  induction hbody with
  | nil => rfl
  | char _ hquote hescape _ ih =>
    rw [bytes_cons]
    refine (within_of_forall fun b hb ↦ ⟨?_, ?_⟩).append ih
    · exact Foundation.Utf8.ne_of_mem_utf8EncodeChar hquote (by decide) hb
    · exact Foundation.Utf8.ne_of_mem_utf8EncodeChar hescape (by decide) hb
  | escape hc _ ih =>
    rename_i c l _
    have hlt : c.toNat < 128 := by
      simp only [List.mem_cons, List.not_mem_nil, or_false] at hc
      rcases hc with rfl | rfl | rfl | rfl | rfl | rfl | rfl | rfl
      all_goals decide
    have hsplit : bytes ('\\' :: c :: l) = bytes ['\\', c] ++ bytes l := by
      rw [← bytes_append]
      rfl
    rw [hsplit]
    exact (within_escape hlt).append ih
  | unicode _ hhex _ ih =>
    rename_i hex l _ _
    have hsplit : bytes ('\\' :: 'u' :: (hex ++ l)) =
        bytes ['\\', 'u'] ++ (bytes hex ++ bytes l) := by
      rw [← bytes_append, ← bytes_append]
      rfl
    rw [hsplit]
    refine (within_escape (by decide)).append ((within_of_forall fun b hb ↦ ⟨?_, ?_⟩).append ih)
    · exact ne_of_mem_bytes (fun c hc ↦ (hex_ne (hhex c hc)).1) (by decide) hb
    · exact ne_of_mem_bytes (fun c hc ↦ (hex_ne (hhex c hc)).2) (by decide) hb

/-- What follows the first quote of a string leads out of it. -/
theorem within_string (hbody : IsBody body) :
    Within ⟨true, false⟩ {} (bytes (body ++ ['"'])) := by
  rw [bytes_append]
  refine (within_body hbody).append ?_
  rw [bytes_ascii (by decide)]
  exact ⟨rfl, rfl⟩

end Strings

section Extraction

variable {lenient : Bool} {l m body : List Char} {value : Json} {depth : ℕ} {rest : List UInt8}

/-- A text that opens and closes the same things, read inside of an object. -/
def Passes (l : List Char) : Prop :=
  ∀ depth rest, balanced (depth + 1) {} (bytes l ++ rest) =
    (balanced (depth + 1) {} rest).map (bytes l ++ ·)

theorem Passes.append (hl : Passes l) (hm : Passes m) : Passes (l ++ m) := by
  intro depth rest
  rw [bytes_append, List.append_assoc, hl, hm, Option.map_map]
  simp only [Function.comp_def, List.append_assoc]

/-- Bytes that neither open nor close anything. -/
theorem balanced_append {stem : List UInt8} (hstem : ∀ b ∈ stem, b ≠ '"'.toUInt8 ∧
    b ≠ '{'.toUInt8 ∧ b ≠ '}'.toUInt8) :
    balanced depth {} (stem ++ rest) = (balanced depth {} rest).map (stem ++ ·) := by
  induction stem with
  | nil => simp
  | cons b stem ih =>
    rw [List.forall_mem_cons] at hstem
    obtain ⟨⟨hquote, hopen, hclose⟩, hstem⟩ := hstem
    rw [List.cons_append, balanced, if_neg Bool.false_ne_true, if_neg hquote, if_neg hopen,
      if_neg hclose, ih hstem, Option.map_map]
    rfl

theorem passes_of_forall (hl : ∀ c ∈ l, c ≠ '"' ∧ c ≠ '{' ∧ c ≠ '}') : Passes l := by
  intro depth rest
  refine balanced_append fun b hb ↦ ⟨?_, ?_, ?_⟩
  · exact ne_of_mem_bytes (fun c hc ↦ (hl c hc).1) (by decide) hb
  · exact ne_of_mem_bytes (fun c hc ↦ (hl c hc).2.1) (by decide) hb
  · exact ne_of_mem_bytes (fun c hc ↦ (hl c hc).2.2) (by decide) hb

theorem passes_of_plain (hl : ∀ c ∈ l, Plain c) : Passes l := by
  refine passes_of_forall fun c hc ↦ ⟨?_, ?_, ?_⟩
  · exact fun heq ↦ (hl c hc).2 (by simp [heq])
  · exact fun heq ↦ (hl c hc).2 (by simp [heq])
  · exact fun heq ↦ (hl c hc).2 (by simp [heq])

theorem passes_space (hl : IsSpace l) : Passes l := by
  refine passes_of_forall fun c hc ↦ ?_
  rcases hl c hc with rfl | rfl | rfl | rfl
  all_goals decide

theorem balanced_within {s t : StringState} {stem : List UInt8} (hstem : Within s t stem) :
    balanced depth s (stem ++ rest) = (balanced depth t rest).map (stem ++ ·) := by
  induction stem generalizing s with
  | nil =>
    obtain rfl : s = t := hstem
    simp
  | cons b stem ih =>
    obtain ⟨hin, hstem⟩ := hstem
    rw [List.cons_append, balanced, if_pos hin, ih hstem, Option.map_map]
    rfl

theorem passes_quoted (hbody : IsBody body) : Passes (quoted body) := by
  intro depth rest
  rw [quoted, bytes_ascii (by decide), List.cons_append, balanced, if_neg Bool.false_ne_true,
    if_pos rfl, balanced_within (within_string hbody), Option.map_map]
  rfl

theorem passes_array (hl : Passes l) : Passes ('[' :: (l ++ [']'])) := by
  have hopen : Passes ['['] := passes_of_forall (by simp)
  have hclose : Passes [']'] := passes_of_forall (by simp)
  exact hopen.append (hl.append hclose)

/-- What an object is made of closes it, however deep it is. -/
theorem balanced_object (hl : Passes l) :
    balanced depth {} (bytes ('{' :: (l ++ ['}'])) ++ rest) =
      if depth = 0 then some (bytes ('{' :: (l ++ ['}'])))
      else (balanced depth {} rest).map (bytes ('{' :: (l ++ ['}'])) ++ ·) := by
  have hclose : balanced (depth + 1) {} (bytes ['}'] ++ rest) =
      if depth = 0 then some (bytes ['}'])
      else (balanced depth {} rest).map (bytes ['}'] ++ ·) := by
    rw [bytes_ascii (by decide), List.cons_append, balanced, if_neg Bool.false_ne_true,
      if_neg (by decide), if_neg (by decide), if_pos rfl, Nat.add_sub_cancel]
    rfl
  rw [bytes_ascii (by decide), List.cons_append, balanced, if_neg Bool.false_ne_true,
    if_neg (by decide), if_pos rfl, bytes_append, List.append_assoc, hl, hclose]
  split_ifs
  · rfl
  · rw [Option.map_map, Option.map_map]
    simp only [Function.comp_def, List.append_assoc, List.cons_append]

theorem passes_object (hl : Passes l) : Passes ('{' :: (l ++ ['}'])) := by
  intro depth rest
  rw [balanced_object hl, if_neg (Nat.succ_ne_zero depth)]

theorem passes_key {p : Part} (hp : IsKey p) : Passes p.before := by
  obtain ⟨s, t, u, hs, ht, hu, hkey, hbefore⟩ := hp
  have hcolon : Passes (':' :: u) :=
    (passes_of_forall (l := [':']) (by simp)).append (passes_space hu)
  rw [hbefore]
  exact (passes_space hs).append ((passes_quoted hkey).append ((passes_space ht).append hcolon))

theorem passes_parts {l : List Part} (hbefore : ∀ p ∈ l, Passes p.before)
    (htext : ∀ p ∈ l, Passes p.text) (hafter : ∀ p ∈ l, IsSpace p.after) : Passes (parts l) := by
  have hnil : Passes [] := passes_of_forall nofun
  have hcomma : Passes [','] := passes_of_forall (by simp)
  induction l with
  | nil => exact hnil
  | cons p l ih =>
    rw [List.forall_mem_cons] at hbefore htext hafter
    have hwhole : Passes p.whole :=
      hbefore.1.append (htext.1.append (passes_space hafter.1))
    have hrest := ih hbefore.2 htext.2 hafter.2
    cases l with
    | nil => simpa [parts] using hwhole
    | cons q l =>
      rw [parts, List.map_cons, List.map_cons, List.intercalate_cons_cons]
      exact (hwhole.append hcomma).append hrest

theorem passes_end {e : List Char} (he : IsEnd lenient e) : Passes e := by
  rcases he with rfl | ⟨-, s, hs, rfl⟩
  · exact passes_of_forall nofun
  · exact (passes_of_forall (l := [',']) (by simp)).append (passes_space hs)

/-- What is written for a value, without the brackets of an object. -/
theorem passes_writes (hl : Writes lenient value l) : Passes l := by
  induction hl with
  | literal hl => exact passes_of_plain (plain_literal hl).2
  | string hbody => exact passes_quoted hbody
  | emptyArray hs => exact passes_array (passes_space hs)
  | emptyObject hs => exact passes_object (passes_space hs)
  | array _ hbefore hafter _ he ih =>
    rw [← List.append_assoc]
    refine passes_array (Passes.append ?_ (passes_end he))
    exact passes_parts (fun p hp ↦ passes_space (hbefore p hp)) ih hafter
  | object _ hkey hafter _ he ih =>
    rw [← List.append_assoc]
    refine passes_object (Passes.append ?_ (passes_end he))
    exact passes_parts (fun p hp ↦ passes_key (hkey p hp)) ih hafter

/-- What is found in a text with an object after some prose. -/
theorem extractObject_eq {prose object : List Char} {members : List (List Char × Json)}
    (hprose : '{' ∉ prose) (hobject : Writes lenient (.object members) object)
    (rest : List Char) : extractObject (String.ofList (prose ++ (object ++ rest))) =
      some (asBytes (String.ofList object)) := by
  obtain ⟨inner, rfl, hinner⟩ : ∃ inner, object = '{' :: (inner ++ ['}']) ∧ Passes inner := by
    cases hobject with
    | emptyObject hs => exact ⟨_, rfl, passes_space hs⟩
    | object _ hkey hafter htext he =>
      refine ⟨_, by rw [List.append_assoc], Passes.append ?_ (passes_end he)⟩
      exact passes_parts (fun p hp ↦ passes_key (hkey p hp))
        (fun p hp ↦ passes_writes (htext p hp)) hafter
  have hskip : (bytes (prose ++ ('{' :: (inner ++ ['}']) ++ rest))).dropWhile
      (· ≠ '{'.toUInt8) = bytes ('{' :: (inner ++ ['}'])) ++ bytes rest := by
    rw [bytes_append, List.dropWhile_append_of_pos, bytes_append]
    · rw [bytes_ascii (by decide), List.cons_append, List.dropWhile_cons_of_neg (by decide)]
    · intro b hb
      refine decide_eq_true (ne_of_mem_bytes (fun c hc ↦ ?_) (by decide) hb)
      exact fun heq ↦ hprose (heq ▸ hc)
  rw [extractObject, asBytes_ofList, asBytes_ofList, hskip]
  have hcons : bytes ('{' :: (inner ++ ['}'])) ++ bytes rest =
      '{'.toUInt8 :: (bytes (inner ++ ['}']) ++ bytes rest) := by
    rw [bytes_ascii (by decide), List.cons_append]
  rw [hcons]
  dsimp only
  rw [← hcons, balanced_object hinner, if_pos rfl]

end Extraction

section Repairing

variable {lenient : Bool} {l l' m m' body : List Char} {value : Json} {out : List UInt8}

def Copies (l l' : List Char) : Prop :=
  ∀ out, (bytes l).foldl Repair.read ⟨out, {}⟩ = ⟨out ++ bytes l', {}⟩

theorem Copies.append (hl : Copies l l') (hm : Copies m m') : Copies (l ++ m) (l' ++ m') := by
  intro out
  rw [bytes_append, List.foldl_append, hl, hm, bytes_append, List.append_assoc]

theorem foldl_read_outside {stem : List UInt8} (hstem : ∀ b ∈ stem, b ≠ '"'.toUInt8 ∧
    b ≠ '}'.toUInt8 ∧ b ≠ ']'.toUInt8) :
    stem.foldl Repair.read ⟨out, {}⟩ = ⟨out ++ stem, {}⟩ := by
  induction stem generalizing out with
  | nil => simp
  | cons b stem ih =>
    rw [List.forall_mem_cons] at hstem
    obtain ⟨⟨hquote, hbrace, hbracket⟩, hstem⟩ := hstem
    have hread : Repair.read ⟨out, {}⟩ b = ⟨out ++ [b], {}⟩ := by
      rw [Repair.read, if_neg Bool.false_ne_true, if_neg hquote,
        if_neg (by simp [hbrace, hbracket])]
    rw [List.foldl_cons, hread, ih hstem, List.append_assoc, List.singleton_append]

theorem copies_of_forall (hl : ∀ c ∈ l, c ≠ '"' ∧ c ≠ '}' ∧ c ≠ ']') : Copies l l := by
  intro out
  refine foldl_read_outside fun b hb ↦ ⟨?_, ?_, ?_⟩
  · exact ne_of_mem_bytes (fun c hc ↦ (hl c hc).1) (by decide) hb
  · exact ne_of_mem_bytes (fun c hc ↦ (hl c hc).2.1) (by decide) hb
  · exact ne_of_mem_bytes (fun c hc ↦ (hl c hc).2.2) (by decide) hb

theorem copies_plain (hl : ∀ c ∈ l, Plain c) : Copies l l := by
  refine copies_of_forall fun c hc ↦ ⟨?_, ?_, ?_⟩
  · exact fun heq ↦ (hl c hc).2 (by simp [heq])
  · exact fun heq ↦ (hl c hc).2 (by simp [heq])
  · exact fun heq ↦ (hl c hc).2 (by simp [heq])

theorem copies_space (hl : IsSpace l) : Copies l l := by
  refine copies_of_forall fun c hc ↦ ?_
  rcases hl c hc with rfl | rfl | rfl | rfl
  all_goals decide

theorem foldl_read_within {s t : StringState} {stem : List UInt8} (hstem : Within s t stem) :
    stem.foldl Repair.read ⟨out, s⟩ = ⟨out ++ stem, t⟩ := by
  induction stem generalizing s out with
  | nil =>
    obtain rfl : s = t := hstem
    simp
  | cons b stem ih =>
    obtain ⟨hin, hstem⟩ := hstem
    rw [List.foldl_cons, Repair.read, if_pos hin, ih hstem, List.append_assoc,
      List.singleton_append]

theorem copies_quoted (hbody : IsBody body) : Copies (quoted body) (quoted body) := by
  intro out
  rw [quoted, bytes_ascii (by decide), List.foldl_cons, Repair.read, if_neg Bool.false_ne_true,
    if_pos rfl, foldl_read_within (within_string hbody), List.append_assoc, List.singleton_append]

theorem copies_key {p : Part} (hp : IsKey p) : Copies p.before p.before := by
  obtain ⟨s, t, u, hs, ht, hu, hkey, hbefore⟩ := hp
  have hcolon : Copies (':' :: u) (':' :: u) :=
    (copies_of_forall (l := [':']) (by simp)).append (copies_space hu)
  rw [hbefore]
  exact (copies_space hs).append ((copies_quoted hkey).append ((copies_space ht).append hcolon))

/-- Space that is taken back before a closing bracket. -/
theorem rdropWhile_space {stem : List UInt8} {b : UInt8} {s : List Char} (hs : IsSpace s)
    (hb : isAsciiWhitespace b = false) :
    (stem ++ b :: bytes s).rdropWhile isAsciiWhitespace = stem ++ [b] := by
  induction s using List.reverseRecOn with
  | nil => exact List.rdropWhile_concat_neg _ _ _ (by simp [hb])
  | append_singleton s c ih =>
    have hc : c = ' ' ∨ c = '\t' ∨ c = '\n' ∨ c = '\r' := hs c (by simp)
    have hbyte : bytes [c] = [c.toUInt8] ∧ isAsciiWhitespace c.toUInt8 := by
      rcases hc with rfl | rfl | rfl | rfl
      all_goals exact ⟨bytes_ascii (by decide) [], by decide⟩
    rw [bytes_append, hbyte.1, ← List.cons_append, ← List.append_assoc,
      List.rdropWhile_concat_pos _ _ _ hbyte.2]
    exact ih fun c hc ↦ hs c (by simp [hc])

/-- A closing bracket after something other than a comma is copied. -/
theorem read_close {stem : List UInt8} {b c : UInt8} {s : List Char} (hs : IsSpace s)
    (hb : isAsciiWhitespace b = false) (hcomma : b ≠ ','.toUInt8)
    (hc : c = '}'.toUInt8 ∨ c = ']'.toUInt8) :
    Repair.read ⟨stem ++ b :: bytes s, {}⟩ c = ⟨stem ++ b :: bytes s ++ [c], {}⟩ := by
  have hquote : c ≠ '"'.toUInt8 := by
    rcases hc with rfl | rfl
    · decide
    · decide
  rw [Repair.read, if_neg Bool.false_ne_true, if_neg hquote, if_pos hc]
  dsimp only
  rw [rdropWhile_space hs hb, List.getLast?_concat, if_neg (by simpa using hcomma)]

/-- A comma before a closing bracket is taken back with the space after it. -/
theorem read_close_comma {stem : List UInt8} {c : UInt8} {s : List Char} (hs : IsSpace s)
    (hc : c = '}'.toUInt8 ∨ c = ']'.toUInt8) :
    Repair.read ⟨stem ++ ','.toUInt8 :: bytes s, {}⟩ c = ⟨stem ++ [c], {}⟩ := by
  have hquote : c ≠ '"'.toUInt8 := by
    rcases hc with rfl | rfl
    · decide
    · decide
  rw [Repair.read, if_neg Bool.false_ne_true, if_neg hquote, if_pos hc]
  dsimp only
  rw [rdropWhile_space hs (by decide), List.getLast?_concat, if_pos rfl, List.dropLast_concat]

def Settled (c : Char) : Prop :=
  c.toNat < 128 ∧ isAsciiWhitespace c.toUInt8 = false ∧ c.toUInt8 ≠ ','.toUInt8

instance : DecidablePred Settled :=
  fun _ ↦ inferInstanceAs (Decidable (_ ∧ _ ∧ _))

theorem settled_plain {c : Char} (hc : Plain c) : Settled c := by
  have hmem : c.toUInt8 ∈ String.utf8EncodeChar c := by
    rw [Foundation.Utf8.utf8EncodeChar_ascii hc.1]
    exact List.mem_singleton_self _
  have hne : ∀ d : Char, d.toNat < 128 → c ≠ d → c.toUInt8 ≠ d.toUInt8 := fun d hd hcd ↦
    Foundation.Utf8.ne_of_mem_utf8EncodeChar hcd hd hmem
  obtain ⟨hlt, hnot⟩ := hc
  simp only [List.mem_cons, List.not_mem_nil, or_false, not_or] at hnot
  obtain ⟨-, -, -, -, -, hcomma, hspace, htab, hline, hfeed, hreturn⟩ := hnot
  have hfeed' : c.toUInt8 ≠ 0x0c := hne '\x0c' (by decide) hfeed
  refine ⟨hlt, ?_, hne ',' (by decide) hcomma⟩
  simp [isAsciiWhitespace, hne ' ' (by decide) hspace, hne '\t' (by decide) htab,
    hne '\n' (by decide) hline, hfeed', hne '\r' (by decide) hreturn]

/-- The last character that is not space is not a comma. -/
def Ends (l : List Char) : Prop :=
  ∃ init c s, l = init ++ c :: s ∧ IsSpace s ∧ Settled c

theorem ends_concat {c : Char} (hc : Settled c) (l : List Char) : Ends (l ++ [c]) :=
  ⟨l, c, [], rfl, nofun, hc⟩

theorem Ends.prepend (hl : Ends l) (m : List Char) : Ends (m ++ l) := by
  obtain ⟨init, c, s, rfl, hs, hc⟩ := hl
  exact ⟨m ++ init, c, s, by rw [List.append_assoc], hs, hc⟩

theorem Ends.space {s : List Char} (hl : Ends l) (hs : IsSpace s) : Ends (l ++ s) := by
  obtain ⟨init, c, t, rfl, ht, hc⟩ := hl
  refine ⟨init, c, t ++ s, by rw [List.append_assoc]; rfl, fun d hd ↦ ?_, hc⟩
  rcases List.mem_append.1 hd with hd | hd
  · exact ht d hd
  · exact hs d hd

theorem ends_writes (hl : Writes lenient value l) : Ends l := by
  cases hl with
  | literal hl =>
    obtain ⟨hne, hplain⟩ := plain_literal hl
    rw [← List.dropLast_concat_getLast hne]
    exact ends_concat (settled_plain (hplain _ (List.getLast_mem hne))) _
  | string _ =>
    rw [quoted, ← List.cons_append]
    exact ends_concat (by decide) _
  | emptyArray _ => exact ends_concat (c := ']') (by decide) ('[' :: _)
  | emptyObject _ => exact ends_concat (c := '}') (by decide) ('{' :: _)
  | array _ _ _ _ _ =>
    rw [← List.append_assoc]
    exact ends_concat (c := ']') (by decide) ('[' :: _)
  | object _ _ _ _ _ =>
    rw [← List.append_assoc]
    exact ends_concat (c := '}') (by decide) ('{' :: _)

theorem ends_parts {l : List Part} (hne : l ≠ []) (htext : ∀ p ∈ l, Ends p.text)
    (hafter : ∀ p ∈ l, IsSpace p.after) : Ends (parts l) := by
  induction l with
  | nil => exact absurd rfl hne
  | cons p l ih =>
    rw [List.forall_mem_cons] at htext hafter
    cases l with
    | nil =>
      rw [parts, List.map_singleton, List.intercalate_singleton]
      exact (htext.1.space hafter.1).prepend p.before
    | cons q l =>
      rw [parts, List.map_cons, List.map_cons, List.intercalate_cons_cons]
      exact (ih (List.cons_ne_nil q l) htext.2 hafter.2).prepend _

/-- The brackets of a container are copied, without a comma before the second one. -/
theorem copies_container {a b : Char} {e : List Char} (ha : a = '[' ∨ a = '{')
    (hb : b = '}' ∨ b = ']') (hl : Copies l l') (hends : Ends (a :: l')) (he : IsEnd lenient e) :
    Copies (a :: (l ++ (e ++ [b]))) (a :: (l' ++ [b])) := by
  have hopen : Copies [a] [a] := by
    rcases ha with rfl | rfl
    · exact copies_of_forall (by simp)
    · exact copies_of_forall (by simp)
  have hclose : bytes [b] = [b.toUInt8] ∧ (b.toUInt8 = '}'.toUInt8 ∨ b.toUInt8 = ']'.toUInt8) := by
    rcases hb with rfl | rfl
    · exact ⟨bytes_ascii (by decide) [], .inl rfl⟩
    · exact ⟨bytes_ascii (by decide) [], .inr rfl⟩
  intro out
  have hinner : (bytes (a :: l)).foldl Repair.read ⟨out, {}⟩ = ⟨out ++ bytes (a :: l'), {}⟩ :=
    (hopen.append hl) out
  have hsplit : bytes (a :: (l ++ (e ++ [b]))) = bytes (a :: l) ++ (bytes e ++ [b.toUInt8]) := by
    rw [← hclose.1, ← bytes_append, ← bytes_append]
    rfl
  have hsplit' : bytes (a :: (l' ++ [b])) = bytes (a :: l') ++ [b.toUInt8] := by
    rw [← hclose.1, ← bytes_append]
    rfl
  rw [hsplit, hsplit', List.foldl_append, hinner, List.foldl_append]
  rcases he with rfl | ⟨-, s, hs, rfl⟩
  · obtain ⟨init, c, s, heq, hs, hlt, hspace, hcomma⟩ := hends
    have hbytes : out ++ bytes (a :: l') = (out ++ bytes init) ++ c.toUInt8 :: bytes s := by
      rw [heq, bytes_append, bytes_ascii hlt, List.append_assoc]
    change Repair.read ⟨out ++ bytes (a :: l'), {}⟩ b.toUInt8 = _
    rw [hbytes, read_close hs hspace hcomma hclose.2, ← hbytes, List.append_assoc]
  · have hcomma : Copies (',' :: s) (',' :: s) :=
      (copies_of_forall (l := [',']) (by simp)).append (copies_space hs)
    rw [hcomma]
    change Repair.read ⟨out ++ bytes (a :: l') ++ bytes (',' :: s), {}⟩ b.toUInt8 = _
    rw [bytes_ascii (c := ',') (by decide), read_close_comma hs hclose.2, List.append_assoc]

theorem copies_parts {l : List Part} {text : Part → List Char}
    (hbefore : ∀ p ∈ l, Copies p.before p.before) (htext : ∀ p ∈ l, Copies p.text (text p))
    (hafter : ∀ p ∈ l, IsSpace p.after) :
    Copies (parts l) (parts (l.map fun p ↦ { p with text := text p })) := by
  have hnil : Copies [] [] := copies_of_forall nofun
  have hcomma : Copies [','] [','] := copies_of_forall (by simp)
  induction l with
  | nil => exact hnil
  | cons p l ih =>
    rw [List.forall_mem_cons] at hbefore htext hafter
    have hwhole : Copies p.whole { p with text := text p }.whole :=
      hbefore.1.append (htext.1.append (copies_space hafter.1))
    have hrest := ih hbefore.2 htext.2 hafter.2
    cases l with
    | nil => simpa [parts] using hwhole
    | cons q l =>
      simp only [parts, List.map_cons, List.intercalate_cons_cons] at hrest ⊢
      exact (hwhole.append hcomma).append hrest

def rewritten (text : Part → List Char) (l : List Part) : List Part :=
  l.map fun p ↦ { p with text := text p }

theorem forall_rewritten {text : Part → List Char} {l : List Part} {P : Part → Prop}
    (hl : ∀ p ∈ l, P { p with text := text p }) : ∀ p ∈ rewritten text l, P p := by
  intro p hp
  obtain ⟨q, hq, rfl⟩ := List.mem_map.1 hp
  exact hl q hq

/-- The values of a container may be rewritten one by one. -/
theorem exists_rewritten {l : List Part} (hbefore : ∀ p ∈ l, Copies p.before p.before)
    (hafter : ∀ p ∈ l, IsSpace p.after) (htext : ∀ p ∈ l, ∃ l', Writes false p.value l' ∧
      (lenient = false → l' = p.text) ∧ Copies p.text l') :
    ∃ text, (∀ p ∈ rewritten text l, Writes false p.value p.text) ∧
      (lenient = false → rewritten text l = l) ∧ Copies (parts l) (parts (rewritten text l)) := by
  choose! text hwrites hsame hcopies using htext
  refine ⟨text, forall_rewritten hwrites, fun hstrict ↦ ?_, copies_parts hbefore hcopies hafter⟩
  calc rewritten text l = l.map id := List.map_congr_left fun p hp ↦ by
        rw [hsame p hp hstrict]
        rfl
    _ = l := List.map_id l

/-- Every lenient text of a value is copied as a strict one, which is the text itself if it was
strict before. -/
theorem exists_copies (hl : Writes lenient value l) :
    ∃ l', Writes false value l' ∧ (lenient = false → l' = l) ∧ Copies l l' := by
  have hnone : ∀ {e : List Char}, IsEnd lenient e → lenient = false → e = [] := by
    intro e he hstrict
    rcases he with he | ⟨hlenient, -⟩
    · exact he
    · rw [hstrict] at hlenient
      cases hlenient
  have hends : ∀ (c : Char) {text : Part → List Char} {l : List Part}, l ≠ [] →
      (∀ p ∈ rewritten text l, Writes false p.value p.text) → (∀ p ∈ l, IsSpace p.after) →
      Ends (c :: parts (rewritten text l)) := by
    intro c text l hne hwrites hafter
    have hparts := ends_parts (by simpa [rewritten] using hne)
      (fun p hp ↦ ends_writes (hwrites p hp)) (forall_rewritten hafter)
    exact hparts.prepend [c]
  induction hl with
  | literal hl => exact ⟨_, .literal hl, fun _ ↦ rfl, copies_plain (plain_literal hl).2⟩
  | string hbody => exact ⟨_, .string hbody, fun _ ↦ rfl, copies_quoted hbody⟩
  | emptyArray hs =>
    refine ⟨_, .emptyArray hs, fun _ ↦ rfl, ?_⟩
    exact copies_container (e := []) (.inl rfl) (.inr rfl) (copies_space hs)
      ⟨[], '[', _, rfl, hs, by decide⟩ (.inl rfl : IsEnd false [])
  | emptyObject hs =>
    refine ⟨_, .emptyObject hs, fun _ ↦ rfl, ?_⟩
    exact copies_container (e := []) (.inr rfl) (.inl rfl) (copies_space hs)
      ⟨[], '{', _, rfl, hs, by decide⟩ (.inl rfl : IsEnd false [])
  | array hne hbefore hafter _ he ih =>
    rename_i l e _
    obtain ⟨text, hwrites, hsame, hcopies⟩ :=
      exists_rewritten (fun p hp ↦ copies_space (hbefore p hp)) hafter ih
    have hvalue : (rewritten text l).map Part.value = l.map Part.value := List.map_map
    have hstrict : Writes false (.array ((rewritten text l).map Part.value))
        ('[' :: (parts (rewritten text l) ++ ([] ++ [']']))) :=
      .array (by simpa [rewritten] using hne) (forall_rewritten hbefore) (forall_rewritten hafter)
        hwrites (.inl rfl)
    rw [hvalue] at hstrict
    refine ⟨_, hstrict, fun h ↦ by rw [hsame h, hnone he h], ?_⟩
    exact copies_container (.inl rfl) (.inr rfl) hcopies (hends '[' hne hwrites hafter) he
  | object hne hkey hafter _ he ih =>
    rename_i l e _
    obtain ⟨text, hwrites, hsame, hcopies⟩ :=
      exists_rewritten (fun p hp ↦ copies_key (hkey p hp)) hafter ih
    have hvalue : (rewritten text l).map (fun p ↦ (p.key, p.value)) =
        l.map fun p ↦ (p.key, p.value) := List.map_map
    have hstrict : Writes false (.object ((rewritten text l).map fun p ↦ (p.key, p.value)))
        ('{' :: (parts (rewritten text l) ++ ([] ++ ['}']))) :=
      .object (by simpa [rewritten] using hne) (forall_rewritten hkey) (forall_rewritten hafter)
        hwrites (.inl rfl)
    rw [hvalue] at hstrict
    refine ⟨_, hstrict, fun h ↦ by rw [hsame h, hnone he h], ?_⟩
    exact copies_container (.inr rfl) (.inl rfl) hcopies (hends '{' hne hwrites hafter) he

theorem stripTrailingCommas_eq (hl : Copies l l') :
    stripTrailingCommas (String.ofList l) = String.ofList l' := by
  rw [stripTrailingCommas, asBytes_ofList, hl]
  change (String.fromUTF8? (bytes l').toByteArray).getD _ = _
  rw [Foundation.Utf8.fromUTF8?_bytes]
  rfl

theorem exists_strip (hl : IsText lenient value l) :
    ∃ l', IsText false value l' ∧ (lenient = false → l' = l) ∧
      stripTrailingCommas (String.ofList l) = String.ofList l' := by
  obtain ⟨s, text, t, hs, ht, hwrites, rfl⟩ := hl
  obtain ⟨text', hwrites', hsame, hcopies⟩ := exists_copies hwrites
  refine ⟨s ++ (text' ++ t), ⟨s, text', t, hs, ht, hwrites', rfl⟩, fun hstrict ↦ ?_, ?_⟩
  · rw [hsame hstrict]
  · exact stripTrailingCommas_eq ((copies_space hs).append (hcopies.append (copies_space ht)))

/-- An object after some prose is found as it is, a strict text is not changed, and a lenient one
becomes a strict text of the same value. -/
theorem repair_spec :
    (∀ prose object rest members, '{' ∉ prose → Writes false (.object members) object →
      extractObject (String.ofList (prose ++ (object ++ rest))) =
        some (asBytes (String.ofList object))) ∧
    (∀ value l, IsText false value l →
      stripTrailingCommas (String.ofList l) = String.ofList l) ∧
    ∀ value l, IsText true value l →
      ∃ l', IsText false value l' ∧
        stripTrailingCommas (String.ofList l) = String.ofList l' := by
  refine ⟨fun prose object rest members hprose hobject ↦ extractObject_eq hprose hobject rest,
    fun value l hl ↦ ?_, fun value l hl ↦ ?_⟩
  · obtain ⟨l', -, hsame, hstrip⟩ := exists_strip hl
    rw [hstrip, hsame rfl]
  · obtain ⟨l', htext, -, hstrip⟩ := exists_strip hl
    exact ⟨l', htext, hstrip⟩

def plainMember (key : String) (value : Json) (text : String) : Part where
  key := key.toList
  before := quoted key.toList ++ [':']
  value := value
  text := text.toList
  after := []

theorem writes_totals : Writes true (.object [("total".toList, .array [.literal "7".toList])])
    "\x7b\"total\":[7,],\x7d".toList := by
  have hseven : IsLiteral "7".toList := by
    refine .inr (.inr (.inr ⟨[], ['7'], [], [], rfl, .inl rfl, .inr ⟨⟨?_, ?_⟩, ?_⟩, .inl rfl,
      .inl rfl⟩))
    · simp
    · intro c hc
      rw [List.mem_singleton.1 hc]
      decide
    · decide
  have hkey : IsBody "total".toList := by
    refine .char ?_ ?_ ?_ (.char ?_ ?_ ?_ (.char ?_ ?_ ?_ (.char ?_ ?_ ?_ (.char ?_ ?_ ?_ .nil))))
    all_goals decide
  have hcomma : IsEnd true [','] := .inr ⟨rfl, [], nofun, rfl⟩
  have harray : Writes true (.array [.literal "7".toList]) "[7,]".toList :=
    .array (l := [⟨[], [], .literal "7".toList, "7".toList, []⟩]) (e := [',']) (by simp)
      (by simp [IsSpace]) (by simp [IsSpace]) (by simpa using .literal hseven) hcomma
  refine .object (l := [plainMember "total" (.array [.literal "7".toList]) "[7,]"]) (e := [','])
    (by simp) ?_ (by simp [plainMember, IsSpace]) (by simpa [plainMember] using harray) hcomma
  intro p hp
  rw [List.mem_singleton.1 hp]
  exact ⟨[], [], [], nofun, nofun, nofun, hkey, rfl⟩

theorem repair_totals : ∃ l',
    IsText false (.object [("total".toList, .array [.literal "7".toList])]) l' ∧
      stripTrailingCommas (String.ofList "\x7b\"total\":[7,],\x7d".toList) = String.ofList l' :=
  repair_spec.2.2 _ _ ⟨[], _, [], nofun, nofun, writes_totals, by simp⟩

end Repairing

end SlipScan.Extract.JsonRepair
