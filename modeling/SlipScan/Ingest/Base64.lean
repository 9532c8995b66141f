import SlipScan.Ingest.Numerals
import SlipScan.Model.Base64
import Mathlib.Data.Nat.Bitwise

namespace SlipScan.Ingest.Base64

open Model.Base64

section Groups

variable {n m k v : ℕ}

theorem shiftLeft_or (hm : m < 2 ^ k) : n <<< k ||| m = n * 2 ^ k + m := by
  rw [← Nat.shiftLeft_add_eq_or_of_lt hm, Nat.shiftLeft_eq]

theorem and_sextet (n : ℕ) : n &&& 63 = n % 64 :=
  Nat.and_two_pow_sub_one_eq_mod n 6

/-- The number of three bytes. -/
theorem joined_bytes (a b c : UInt8) : a.toNat <<< 16 ||| b.toNat <<< 8 ||| c.toNat =
    a.toNat * 65536 + b.toNat * 256 + c.toNat := by
  have hb := b.toNat_lt
  have hc := c.toNat_lt
  have hb' : b.toNat <<< 8 < 2 ^ 16 := by
    rw [Nat.shiftLeft_eq]
    omega
  have hsplit : a.toNat <<< 16 ||| b.toNat <<< 8 = (a.toNat * 256 + b.toNat) <<< 8 := by
    rw [shiftLeft_or hb', Nat.shiftLeft_eq, Nat.shiftLeft_eq]
    omega
  rw [hsplit, shiftLeft_or (by omega)]
  omega

/-- The number of four values of six bits. -/
theorem joined_values {a b c d : ℕ} (hb : b < 64) (hc : c < 64) (hd : d < 64) :
    0 ||| a <<< 18 ||| b <<< 12 ||| c <<< 6 ||| d <<< 0 = a * 262144 + b * 4096 + c * 64 + d := by
  have hfirst : a <<< 18 ||| b <<< 12 = (a * 64 + b) <<< 12 := by
    rw [shiftLeft_or (by rw [Nat.shiftLeft_eq]; omega), Nat.shiftLeft_eq, Nat.shiftLeft_eq]
    omega
  have hsecond : (a * 64 + b) <<< 12 ||| c <<< 6 = (a * 4096 + b * 64 + c) <<< 6 := by
    rw [shiftLeft_or (by rw [Nat.shiftLeft_eq]; omega), Nat.shiftLeft_eq, Nat.shiftLeft_eq]
    omega
  rw [Nat.zero_or, hfirst, hsecond, Nat.shiftLeft_zero, shiftLeft_or (by omega)]
  omega

end Groups

section Values

theorem forall_mem_of_all {p : Char → Prop} [DecidablePred p] {l : List Char}
    (hall : l.all fun c ↦ p c) : ∀ c ∈ l, p c :=
  fun c hc ↦ of_decide_eq_true (List.all_eq_true.1 hall c hc)

variable {text rest : List Char} {bytes : List UInt8} {v n : ℕ}

theorem alphabet_index : ∀ v < 64, alphabet.idxOf? (alphabet.getD v '=') = some v ∧
    alphabet.getD v '=' ∈ alphabet := by
  decide +kernel

theorem notMem_alphabet : ∀ c ∈ ['=', '-', '_', ' ', '\t', '\n', '\x0C', '\r'], c ∉ alphabet :=
  forall_mem_of_all (by decide +kernel)

theorem sextet_mem (n : ℕ) : sextet n ∈ alphabet := by
  rw [sextet, and_sextet]
  exact (alphabet_index _ (Nat.mod_lt _ (by decide))).2

/-- The character of six bits is read as those bits. -/
theorem sextets_sextet (n : ℕ) (rest : List Char) :
    sextets (sextet n :: rest) = (sextets rest).map (n % 64 :: ·) := by
  have hindex := (alphabet_index (n % 64) (Nat.mod_lt _ (by decide))).1
  have hpad : sextet n ≠ '=' := fun heq ↦ notMem_alphabet '=' (by simp) (heq ▸ sextet_mem n)
  rw [sextets, if_neg hpad, sextet, and_sextet, hindex]

def number (a b c : UInt8) : ℕ :=
  a.toNat * 65536 + b.toNat * 256 + c.toNat

def values : List UInt8 → List ℕ
  | [] => []
  | [a] => [number a 0 0 / 2 ^ 18 % 64, number a 0 0 / 2 ^ 12 % 64]
  | [a, b] => [number a b 0 / 2 ^ 18 % 64, number a b 0 / 2 ^ 12 % 64, number a b 0 / 2 ^ 6 % 64]
  | a :: b :: c :: bytes => [number a b c / 2 ^ 18 % 64, number a b c / 2 ^ 12 % 64,
      number a b c / 2 ^ 6 % 64, number a b c % 64] ++ values bytes

theorem encodeChunk_three (a b c : UInt8) : encodeChunk [a, b, c] =
    [sextet (number a b c / 2 ^ 18), sextet (number a b c / 2 ^ 12), sextet (number a b c / 2 ^ 6),
      sextet (number a b c)] := by
  simp only [encodeChunk, List.getD_cons_zero, List.getD_cons_succ, joined_bytes,
    Nat.shiftRight_eq_div_pow]
  rfl

theorem encodeChunk_two (a b : UInt8) : encodeChunk [a, b] =
    [sextet (number a b 0 / 2 ^ 18), sextet (number a b 0 / 2 ^ 12), sextet (number a b 0 / 2 ^ 6),
      '='] := by
  simp only [encodeChunk, List.getD_cons_zero, List.getD_cons_succ, List.getD_nil, joined_bytes,
    Nat.shiftRight_eq_div_pow]
  rfl

theorem encodeChunk_one (a : UInt8) : encodeChunk [a] =
    [sextet (number a 0 0 / 2 ^ 18), sextet (number a 0 0 / 2 ^ 12), '=', '='] := by
  simp only [encodeChunk, List.getD_cons_zero, List.getD_cons_succ, List.getD_nil, joined_bytes,
    Nat.shiftRight_eq_div_pow]
  rfl

theorem sextets_encode (bytes : List UInt8) : sextets (encode bytes) = .ok (values bytes) := by
  induction bytes using encode.induct with
  | case1 => rfl
  | case2 a b c bytes ih =>
    rw [encode, encodeChunk_three, values, List.cons_append, List.cons_append, List.cons_append,
      List.cons_append, List.nil_append, sextets_sextet, sextets_sextet, sextets_sextet,
      sextets_sextet, ih]
    rfl
  | case3 chunk hne hthree =>
    match chunk with
    | [] => exact absurd rfl hne
    | [a] =>
      rw [encode, encodeChunk_one, sextets_sextet, sextets_sextet]
      · rfl
      · exact nofun
      · exact nofun
    | [a, b] =>
      rw [encode, encodeChunk_two, sextets_sextet, sextets_sextet, sextets_sextet]
      · rfl
      · exact nofun
      · exact nofun
    | a :: b :: c :: bytes => exact absurd rfl (hthree a b c bytes)

theorem ofNat_eq {a : UInt8} (hn : n % 256 = a.toNat) : UInt8.ofNat n = a := by
  apply UInt8.toNat_inj.1
  rw [UInt8.toNat_ofNat']
  exact hn

/-- Four values are three bytes. -/
theorem decodeChunk_four (a b c : UInt8) : decodeChunk [number a b c / 2 ^ 18 % 64,
    number a b c / 2 ^ 12 % 64, number a b c / 2 ^ 6 % 64, number a b c % 64] = [a, b, c] := by
  have ha := a.toNat_lt
  have hb := b.toNat_lt
  have hc := c.toNat_lt
  have hdecode : ∀ w x y z, decodeChunk [w, x, y, z] =
      let n := 0 ||| w <<< 18 ||| x <<< 12 ||| y <<< 6 ||| z <<< 0
      [UInt8.ofNat (n >>> 16), UInt8.ofNat (n >>> 8), UInt8.ofNat n] := fun _ _ _ _ ↦ rfl
  have hnumber : number a b c = a.toNat * 65536 + b.toNat * 256 + c.toNat := rfl
  rw [hdecode, joined_values (by omega) (by omega) (by omega)]
  simp only [Nat.shiftRight_eq_div_pow]
  rw [ofNat_eq (a := a) (by omega), ofNat_eq (a := b) (by omega), ofNat_eq (a := c) (by omega)]

/-- Three values are two bytes. -/
theorem decodeChunk_three (a b : UInt8) : decodeChunk [number a b 0 / 2 ^ 18 % 64,
    number a b 0 / 2 ^ 12 % 64, number a b 0 / 2 ^ 6 % 64] = [a, b] := by
  have ha := a.toNat_lt
  have hb := b.toNat_lt
  have hdecode : ∀ w x y, decodeChunk [w, x, y] =
      let n := 0 ||| w <<< 18 ||| x <<< 12 ||| y <<< 6
      [UInt8.ofNat (n >>> 16), UInt8.ofNat (n >>> 8)] := fun _ _ _ ↦ rfl
  have hjoined : ∀ w x y, x < 64 → y < 64 → 0 ||| w <<< 18 ||| x <<< 12 ||| y <<< 6 =
      w * 262144 + x * 4096 + y * 64 := fun w x y hx hy ↦ by
    simpa using joined_values (a := w) hx hy (d := 0) (by decide)
  have hnumber : number a b 0 = a.toNat * 65536 + b.toNat * 256 := by simp [number]
  rw [hdecode, hjoined _ _ _ (by omega) (by omega)]
  simp only [Nat.shiftRight_eq_div_pow]
  rw [ofNat_eq (a := a) (by omega), ofNat_eq (a := b) (by omega)]

/-- Two values are one byte. -/
theorem decodeChunk_two (a : UInt8) : decodeChunk [number a 0 0 / 2 ^ 18 % 64,
    number a 0 0 / 2 ^ 12 % 64] = [a] := by
  have ha := a.toNat_lt
  have hdecode : ∀ w x, decodeChunk [w, x] =
      [UInt8.ofNat ((0 ||| w <<< 18 ||| x <<< 12) >>> 16)] := fun _ _ ↦ rfl
  have hjoined : ∀ w x, x < 64 → 0 ||| w <<< 18 ||| x <<< 12 = w * 262144 + x * 4096 :=
    fun w x hx ↦ by simpa using joined_values (a := w) hx (c := 0) (by decide) (d := 0) (by decide)
  have hnumber : number a 0 0 = a.toNat * 65536 := by simp [number]
  rw [hdecode, hjoined _ _ (by omega), Nat.shiftRight_eq_div_pow, ofNat_eq (a := a) (by omega)]

theorem decodeChunks_values (bytes : List UInt8) : decodeChunks (values bytes) = bytes := by
  induction bytes using encode.induct with
  | case1 => rfl
  | case2 a b c bytes ih =>
    rw [values, List.cons_append, List.cons_append, List.cons_append, List.cons_append,
      List.nil_append, decodeChunks, decodeChunk_four, ih]
    rfl
  | case3 chunk hne hthree =>
    match chunk with
    | [] => exact absurd rfl hne
    | [a] => exact decodeChunk_two a
    | [a, b] => exact decodeChunk_three a b
    | a :: b :: c :: bytes => exact absurd rfl (hthree a b c bytes)

theorem decode_encode (bytes : List UInt8) : decode (encode bytes) = .ok bytes := by
  rw [decode, sextets_encode]
  exact congrArg _ (decodeChunks_values bytes)

end Values

section Padding

variable {text text' : List Char} {c : Char}

/-- What follows the padding is not read. -/
theorem sextets_takeWhile (text : List Char) : sextets (text.takeWhile (· ≠ '=')) = sextets text := by
  induction text with
  | nil => rfl
  | cons c text ih =>
    by_cases hc : c = '='
    · subst hc
      rfl
    · rw [List.takeWhile_cons_of_pos (by simpa using hc), sextets, sextets, ih]

/-- A body in the alphabet, and padding. -/
theorem encode_split (bytes : List UInt8) : ∃ body n, encode bytes = body ++ List.replicate n '=' ∧
    ∀ c ∈ body, c ∈ alphabet := by
  induction bytes using encode.induct with
  | case1 => exact ⟨[], 0, rfl, nofun⟩
  | case2 a b c bytes ih =>
    obtain ⟨body, n, hbody, halphabet⟩ := ih
    refine ⟨encodeChunk [a, b, c] ++ body, n, ?_, ?_⟩
    · rw [encode, hbody, List.append_assoc]
    · rw [encodeChunk_three, List.forall_mem_append]
      refine ⟨?_, halphabet⟩
      simp [sextet_mem]
  | case3 chunk hne hthree =>
    match chunk with
    | [] => exact absurd rfl hne
    | [a] =>
      refine ⟨[_, _], 2, encodeChunk_one a, ?_⟩
      simp [sextet_mem]
    | [a, b] =>
      refine ⟨[_, _, _], 1, encodeChunk_two a b, ?_⟩
      simp [sextet_mem]
    | a :: b :: c :: bytes => exact absurd rfl (hthree a b c bytes)

theorem trimEndMatches_replicate (hc : c ∉ text) (n : ℕ) :
    trimEndMatches c (text ++ List.replicate n c) = text := by
  have hpad : ∀ d ∈ List.replicate n c, decide (d = c) = true :=
    fun d hd ↦ decide_eq_true (List.eq_of_mem_replicate hd)
  have hhead : ∀ d ∈ text.reverse.head?, decide (d = c) = false := by
    refine fun d hd ↦ decide_eq_false fun heq ↦ hc ?_
    exact heq ▸ List.mem_reverse.1 (List.mem_of_mem_head? hd)
  rw [trimEndMatches, List.reverse_append, List.reverse_replicate,
    Numerals.dropWhile_append_of_head hpad hhead, List.reverse_reverse]

/-- Without its padding a text is read as the same values. -/
theorem decode_trimmed (bytes : List UInt8) :
    decode (trimEndMatches '=' (encode bytes)) = .ok bytes := by
  obtain ⟨body, n, hbody, halphabet⟩ := encode_split bytes
  have hpad : '=' ∉ body := fun hmem ↦ notMem_alphabet '=' (by simp) (halphabet _ hmem)
  have htake : (encode bytes).takeWhile (· ≠ '=') = body := by
    rw [hbody, Numerals.takeWhile_ne_append hpad]
    cases n with
    | zero => exact List.append_nil body
    | succ n => exact List.append_nil body
  rw [hbody, trimEndMatches_replicate hpad, ← htake, decode, sextets_takeWhile]
  exact decode_encode bytes

end Padding

section Spaces

variable {text text' : List Char} {c : Char}

/-- White space has been inserted into a text. -/
inductive Spread : List Char → List Char → Prop
  | nil : Spread [] []
  | keep {text text' : List Char} (c : Char) (hspread : Spread text text') :
      Spread (c :: text) (c :: text')
  | space {text text' : List Char} {c : Char} (hc : isAsciiWhitespace c)
      (hspread : Spread text text') : Spread text (c :: text')

theorem Spread.filter_eq (hspread : Spread text text')
    (htext : ∀ c ∈ text, isAsciiWhitespace c = false) :
    text'.filter (!isAsciiWhitespace ·) = text := by
  induction hspread with
  | nil => rfl
  | keep c _ ih =>
    rw [List.forall_mem_cons] at htext
    rw [List.filter_cons_of_pos (by simp [htext.1]), ih htext.2]
  | space hc _ ih => rw [List.filter_cons_of_neg (by simp [hc]), ih htext]

def standard : Char → Char
  | '-' => '+'
  | '_' => '/'
  | c => c

def urlSafe (c : Char) : Char :=
  if (if c = '+' then '-' else c) = '/' then '_' else if c = '+' then '-' else c

theorem standard_urlSafe : ∀ c ∈ '=' :: alphabet, standard (urlSafe c) = c ∧ standard c = c ∧
    isAsciiWhitespace c = false ∧ isAsciiWhitespace (urlSafe c) = false :=
  forall_mem_of_all (by decide +kernel)

theorem decodeAny_of_spread (hspread : Spread text text')
    (htext : ∀ c ∈ text, isAsciiWhitespace c = false) :
    decodeAny text' = decode (text.map standard) := by
  rw [decodeAny, hspread.filter_eq htext]
  rfl

theorem encode_subset (bytes : List UInt8) : ∀ c ∈ encode bytes, c ∈ '=' :: alphabet := by
  obtain ⟨body, n, hbody, halphabet⟩ := encode_split bytes
  intro c hc
  rw [hbody, List.mem_append] at hc
  rcases hc with hc | hc
  · exact List.mem_cons_of_mem _ (halphabet c hc)
  · exact List.eq_of_mem_replicate hc ▸ List.mem_cons_self

theorem replaceChar_eq (text : List Char) :
    replaceChar '/' '_' (replaceChar '+' '-' text) = text.map urlSafe :=
  List.map_map

/-- The text for URLs is the standard one without its padding, in the other alphabet. -/
theorem encodeUrlNopad_eq (bytes : List UInt8) :
    encodeUrlNopad bytes = (trimEndMatches '=' (encode bytes)).map urlSafe := by
  obtain ⟨body, n, hbody, halphabet⟩ := encode_split bytes
  have hpad : '=' ∉ body := fun hmem ↦ notMem_alphabet '=' (by simp) (halphabet _ hmem)
  have hpad' : '=' ∉ body.map urlSafe := by
    intro hmem
    obtain ⟨c, hc, heq⟩ := List.mem_map.1 hmem
    have hstandard := (standard_urlSafe c (List.mem_cons_of_mem _ (halphabet c hc))).1
    rw [heq] at hstandard
    obtain rfl : '=' = c := hstandard
    exact hpad hc
  have hmap : (List.replicate n '=').map urlSafe = List.replicate n '=' := List.map_replicate
  rw [encodeUrlNopad, replaceChar_eq, hbody, List.map_append, hmap, trimEndMatches_replicate hpad',
    trimEndMatches_replicate hpad]

/-- Bytes come back from their text, padded or not, and from either text with white space in it. -/
theorem decode_spec (bytes : List UInt8) :
    decode (encode bytes) = .ok bytes ∧
    decode (trimEndMatches '=' (encode bytes)) = .ok bytes ∧
    (∀ text, Spread (encode bytes) text → decodeAny text = .ok bytes) ∧
    ∀ text, Spread (encodeUrlNopad bytes) text → decodeAny text = .ok bytes := by
  have hsubset := encode_subset bytes
  refine ⟨decode_encode bytes, decode_trimmed bytes, fun text hspread ↦ ?_, fun text hspread ↦ ?_⟩
  · have hstandard : (encode bytes).map standard = encode bytes :=
      (List.map_congr_left fun c hc ↦ (standard_urlSafe c (hsubset c hc)).2.1).trans (List.map_id _)
    rw [decodeAny_of_spread hspread fun c hc ↦ (standard_urlSafe c (hsubset c hc)).2.2.1, hstandard]
    exact decode_encode bytes
  · have htrimmed : ∀ c ∈ trimEndMatches '=' (encode bytes), c ∈ '=' :: alphabet := by
      intro c hc
      have hmem := (List.dropWhile_suffix _).subset (List.mem_reverse.1 hc)
      exact hsubset c (List.mem_reverse.1 hmem)
    have hspaces : ∀ c ∈ encodeUrlNopad bytes, isAsciiWhitespace c = false := by
      intro c hc
      rw [encodeUrlNopad_eq] at hc
      obtain ⟨d, hd, rfl⟩ := List.mem_map.1 hc
      exact (standard_urlSafe d (htrimmed d hd)).2.2.2
    have hback : (encodeUrlNopad bytes).map standard = trimEndMatches '=' (encode bytes) := by
      rw [encodeUrlNopad_eq, List.map_map]
      refine (List.map_congr_left fun c hc ↦ ?_).trans (List.map_id _)
      exact (standard_urlSafe c (htrimmed c hc)).1
    rw [decodeAny_of_spread hspread hspaces, hback]
    exact decode_trimmed bytes

end Spaces

end SlipScan.Ingest.Base64
