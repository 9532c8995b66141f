import SlipScan.Packs.CatchAll
import Mathlib.Data.List.DropRight

namespace SlipScan.Packs.MerchantKeys

open Model.Database Model.Dedupe Model.Packs Model.Classification Selection CatchAll

section Letters

variable {U : CharClasses} {raw : String} {c d : Char} {l word : List Char}
  {words : List (List Char)} {acc : List Char} {blank : Bool}

/-- What the tables of Unicode say about lower case: there is some and it shows, and the letters
and digits in it are in lower case. -/
structure LowersOnce (U : CharClasses) : Prop where
  ne_nil : ∀ c, U.isAlphanumeric c → U.toLowercase c ≠ []
  notBlank : ∀ c, U.isAlphanumeric c → ∀ d ∈ U.toLowercase c, isWhitespace d = false
  once : ∀ c, U.isAlphanumeric c → ∀ d ∈ U.toLowercase c, U.isAlphanumeric d → U.toLowercase d = [d]
  blank : ∀ c, isWhitespace c → U.isAlphanumeric c = false

/-- The lower case of every letter and digit consists of letters and digits. -/
def KeepsLetters (U : CharClasses) (raw : String) : Prop :=
  ∀ c ∈ raw.toList, U.isAlphanumeric c → ∀ d ∈ U.toLowercase c, U.isAlphanumeric d

theorem normalizeMerchant_eq (U : CharClasses) (raw : String) :
    normalizeMerchant U raw =
      String.ofList ((raw.toList.foldl (pushChar U) ([], true)).1.rdropWhile isWhitespace) :=
  rfl

theorem mem_foldl_pushChar (l : List Char) (acc : List Char × Bool) (hd : isWhitespace d = false) :
    d ∈ (l.foldl (pushChar U) acc).1 ↔
      d ∈ acc.1 ∨ ∃ c ∈ l, U.isAlphanumeric c ∧ d ∈ U.toLowercase c := by
  have hspace : d ≠ ' ' := by
    intro heq
    rw [heq] at hd
    exact absurd hd (by decide)
  induction l generalizing acc with
  | nil => simp
  | cons c l ih =>
    have hpush : d ∈ (pushChar U acc c).1 ↔
        d ∈ acc.1 ∨ U.isAlphanumeric c ∧ d ∈ U.toLowercase c := by
      simp only [pushChar]
      split_ifs with hc hblank
      · simp [hc]
      · simp [hc]
      · simp [hc, hspace]
    rw [List.foldl_cons]
    apply (ih (pushChar U acc c)).trans
    rw [hpush, List.exists_mem_cons_iff, or_assoc]

theorem mem_rdropWhile (hd : isWhitespace d = false) :
    d ∈ l.rdropWhile isWhitespace ↔ d ∈ l := by
  induction l using List.reverseRecOn with
  | nil => rfl
  | append_singleton l c ih =>
    by_cases hc : isWhitespace c
    · have hne : d ≠ c := by
        intro heq
        rw [heq, hc] at hd
        cases hd
      rw [List.rdropWhile_concat_pos _ _ _ hc, ih]
      simp [hne]
    · rw [List.rdropWhile_concat_neg _ _ _ hc]

theorem mem_normalizeMerchant (hd : isWhitespace d = false) :
    d ∈ (normalizeMerchant U raw).toList ↔
      ∃ c ∈ raw.toList, U.isAlphanumeric c ∧ d ∈ U.toLowercase c := by
  rw [normalizeMerchant_eq, String.toList_ofList, mem_rdropWhile hd, mem_foldl_pushChar _ _ hd]
  simp

/-- What a second pass leaves alone is made of letters that stay letters. -/
theorem keepsLetters_of_normalizeMerchant (hU : LowersOnce U)
    (hraw : normalizeMerchant U (normalizeMerchant U raw) = normalizeMerchant U raw) :
    KeepsLetters U raw := by
  intro c hc hletter d hd
  have hshown := hU.notBlank c hletter d hd
  have hmem : d ∈ (normalizeMerchant U (normalizeMerchant U raw)).toList := by
    rw [hraw, mem_normalizeMerchant hshown]
    exact ⟨c, hc, hletter, hd⟩
  obtain ⟨e, he, hletter', hde⟩ := (mem_normalizeMerchant hshown).1 hmem
  have hshown' : isWhitespace e = false := by
    by_contra hblank
    rw [hU.blank e (Bool.eq_true_of_not_eq_false hblank)] at hletter'
    cases hletter'
  -- the letter that the second pass lowers is in lower case, so it is the character itself
  obtain ⟨c', -, hletter'', he'⟩ := (mem_normalizeMerchant hshown').1 he
  rw [hU.once c' hletter'' e he' hletter', List.mem_singleton] at hde
  rwa [hde]

end Letters

section Words

variable {U : CharClasses} {raw : String} {c : Char} {l word : List Char}
  {words : List (List Char)} {acc : List Char} {blank : Bool}

def Settled (U : CharClasses) (c : Char) : Prop :=
  U.isAlphanumeric c ∧ U.toLowercase c = [c]

def IsWord (U : CharClasses) (word : List Char) : Prop :=
  word ≠ [] ∧ ∀ c ∈ word, Settled U c

theorem Settled.notBlank (hU : LowersOnce U) (hc : Settled U c) : isWhitespace c = false :=
  hU.notBlank c hc.1 c (by rw [hc.2]; exact List.mem_singleton_self c)

theorem Settled.ne_space (hU : LowersOnce U) (hc : Settled U c) : c ≠ ' ' := by
  intro heq
  have hblank := hc.notBlank hU
  rw [heq] at hblank
  exact absurd hblank (by decide)

theorem rdropWhile_append_word (hU : LowersOnce U) (hword : IsWord U word) :
    (l ++ word).rdropWhile isWhitespace = l ++ word := by
  obtain ⟨hne, hsettled⟩ := hword
  rw [List.rdropWhile_eq_self_iff]
  intro hl
  rw [List.getLast_append_of_ne_nil hl hne,
    (hsettled _ (List.getLast_mem hne)).notBlank hU]
  exact Bool.false_ne_true

theorem foldl_pushChar_settled (hword : ∀ c ∈ word, Settled U c) :
    word.foldl (pushChar U) (acc, false) = (acc ++ word, false) := by
  induction word generalizing acc with
  | nil => rw [List.append_nil, List.foldl_nil]
  | cons c word ih =>
    rw [List.forall_mem_cons] at hword
    rw [List.foldl_cons, pushChar, if_pos hword.1.1, hword.1.2, ih hword.2, List.append_assoc,
      List.singleton_append]

theorem foldl_pushChar_word (hword : IsWord U word) :
    word.foldl (pushChar U) (acc, blank) = (acc ++ word, false) := by
  obtain ⟨hne, hsettled⟩ := hword
  cases word with
  | nil => exact absurd rfl hne
  | cons c word =>
    rw [List.forall_mem_cons] at hsettled
    rw [List.foldl_cons, pushChar, if_pos hsettled.1.1, hsettled.1.2,
      foldl_pushChar_settled hsettled.2, List.append_assoc, List.singleton_append]

theorem foldl_pushChar_words (hU : LowersOnce U) (hwords : ∀ word ∈ words, IsWord U word)
    (hne : words ≠ []) :
    ([' '].intercalate words).foldl (pushChar U) (acc, true) =
      (acc ++ [' '].intercalate words, false) := by
  induction words generalizing acc with
  | nil => exact absurd rfl hne
  | cons word words ih =>
    rw [List.forall_mem_cons] at hwords
    by_cases hrest : words = []
    · rw [hrest, List.intercalate_singleton]
      exact foldl_pushChar_word hwords.1
    · rw [List.intercalate_cons_of_ne_nil hrest, List.foldl_append, List.foldl_append,
        foldl_pushChar_word hwords.1, List.foldl_cons, List.foldl_nil, pushChar,
        hU.blank ' ' (by decide), if_neg Bool.false_ne_true, if_neg Bool.false_ne_true,
        ih hwords.2 hrest]
      simp only [List.append_assoc]

/-- Where the text of a list of words ends. -/
theorem intercalate_concat (words : List (List Char)) (word : List Char) :
    [' '].intercalate (words ++ [word]) = words.flatMap (· ++ [' ']) ++ word := by
  induction words with
  | nil => rw [List.nil_append, List.intercalate_singleton]; rfl
  | cons first words ih =>
    rw [List.cons_append, List.intercalate_cons_of_ne_nil (by simp), ih, List.flatMap_cons,
      ← List.append_assoc]

theorem normalizeMerchant_words (hU : LowersOnce U) (hwords : ∀ word ∈ words, IsWord U word) :
    normalizeMerchant U (String.ofList ([' '].intercalate words)) =
      String.ofList ([' '].intercalate words) := by
  cases words using List.reverseRecOn with
  | nil => rfl
  | append_singleton words word =>
    rw [normalizeMerchant_eq, String.toList_ofList,
      foldl_pushChar_words hU hwords (by simp), List.nil_append, intercalate_concat,
      rdropWhile_append_word hU (hwords word (by simp))]

def Spelled (U : CharClasses) (s : List Char × Bool) : Prop :=
  ∃ (words : List (List Char)) (current : List Char),
    (∀ word ∈ words, IsWord U word) ∧ (∀ c ∈ current, Settled U c) ∧
      s = (words.flatMap (· ++ [' ']) ++ current, current.isEmpty)

theorem Spelled.pushChar {s : List Char × Bool} (hU : LowersOnce U) (hs : Spelled U s)
    (hc : U.isAlphanumeric c → ∀ d ∈ U.toLowercase c, U.isAlphanumeric d) :
    Spelled U (pushChar U s c) := by
  obtain ⟨words, current, hwords, hcurrent, rfl⟩ := hs
  by_cases hletter : U.isAlphanumeric c
  · refine ⟨words, current ++ U.toLowercase c, hwords, fun d hd ↦ ?_, ?_⟩
    · rcases List.mem_append.1 hd with hd | hd
      · exact hcurrent d hd
      · exact ⟨hc hletter d hd, hU.once c hletter d hd (hc hletter d hd)⟩
    · have hlower : (current ++ U.toLowercase c).isEmpty = false := by
        simp [hU.ne_nil c hletter]
      rw [CatchAll.pushChar, if_pos hletter, hlower, List.append_assoc]
  · rw [CatchAll.pushChar, if_neg hletter]
    by_cases hempty : current = []
    · exact ⟨words, current, hwords, hcurrent, by simp [hempty]⟩
    · refine ⟨words ++ [current], [], fun word hword ↦ ?_, by simp, by simp [hempty]⟩
      rcases List.mem_append.1 hword with hword | hword
      · exact hwords word hword
      · rw [List.mem_singleton.1 hword]
        exact ⟨hempty, hcurrent⟩

theorem spelled_foldl (hU : LowersOnce U) {s : List Char × Bool} (hs : Spelled U s)
    (hl : ∀ c ∈ l, U.isAlphanumeric c → ∀ d ∈ U.toLowercase c, U.isAlphanumeric d) :
    Spelled U (l.foldl (pushChar U) s) := by
  induction l generalizing s with
  | nil => exact hs
  | cons c l ih =>
    rw [List.forall_mem_cons] at hl
    exact ih (hs.pushChar hU hl.1) hl.2

theorem exists_words (hU : LowersOnce U) (hraw : KeepsLetters U raw) :
    ∃ words, (∀ word ∈ words, IsWord U word) ∧
      normalizeMerchant U raw = String.ofList ([' '].intercalate words) := by
  have hstart : Spelled U ([], true) := ⟨[], [], nofun, nofun, rfl⟩
  obtain ⟨words, current, hwords, hcurrent, hfold⟩ := spelled_foldl hU hstart hraw
  rw [normalizeMerchant_eq, hfold]
  by_cases hempty : current = []
  · refine ⟨words, hwords, congrArg String.ofList ?_⟩
    rw [hempty, List.append_nil]
    cases words using List.reverseRecOn with
    | nil => rfl
    | append_singleton words word =>
      rw [intercalate_concat, List.flatMap_append, List.flatMap_singleton, ← List.append_assoc,
        List.rdropWhile_concat_pos _ _ _ (by decide),
        rdropWhile_append_word hU (hwords word (by simp))]
  · have hword : IsWord U current := ⟨hempty, hcurrent⟩
    refine ⟨words ++ [current], fun word hword' ↦ ?_, congrArg String.ofList ?_⟩
    · rcases List.mem_append.1 hword' with hword' | hword'
      · exact hwords word hword'
      · rwa [List.mem_singleton.1 hword']
    · rw [intercalate_concat, rdropWhile_append_word hU hword]

/-- A second pass changes nothing if and only if the letters of the first stay letters. -/
theorem normalizeMerchant_idem (hU : LowersOnce U) :
    normalizeMerchant U (normalizeMerchant U raw) = normalizeMerchant U raw ↔
      KeepsLetters U raw := by
  refine ⟨keepsLetters_of_normalizeMerchant hU, fun hraw ↦ ?_⟩
  obtain ⟨words, hwords, hnormal⟩ := exists_words hU hraw
  rw [hnormal, normalizeMerchant_words hU hwords]

end Words

section Keys

variable {h : PackHost} {merchant description : Option String} {raw key : String}

/-- The key of a description is in normal form where the description is. -/
theorem normalizeMerchant_key (hU : LowersOnce h.letters) (hraw : KeepsLetters h.letters raw)
    (hkey : merchantKeyFromDescription h raw = some key) :
    normalizeMerchant h.letters key = key := by
  obtain ⟨words, hwords, hnormal⟩ := exists_words hU hraw
  have htoken : ∀ token ∈ ([' '].intercalate words).splitOn ' ', token ≠ [] → token ∈ words := by
    intro token htoken hne
    by_cases hempty : words = []
    · rw [hempty] at htoken
      exact absurd (List.mem_singleton.1 htoken) hne
    · rwa [List.splitOn_intercalate ' ' (fun word hword hspace ↦
        ((hwords word hword).2 ' ' hspace).ne_space hU rfl) hempty] at htoken
  simp only [merchantKeyFromDescription, hnormal, String.toList_ofList] at hkey
  split_ifs at hkey
  obtain rfl := Option.some.inj hkey
  have hkept : ∀ token ∈ (([' '].intercalate words).splitOn ' ').filter fun token ↦
      token ≠ [] ∧ !isVolatileToken token, IsWord h.letters token := by
    intro token hmem
    obtain ⟨hmem, hkeep⟩ := List.mem_filter.1 hmem
    exact hwords token (htoken token hmem (of_decide_eq_true hkeep).1)
  generalize (([' '].intercalate words).splitOn ' ').filter _ = kept at hkept ⊢
  have htext : " ".intercalate (kept.map String.ofList) =
      String.ofList ([' '].intercalate kept) := by
    rw [← String.toList_inj, String.toList_intercalate, String.toList_ofList, List.map_map]
    simp [Function.comp_def]
  rw [htext, normalizeMerchant_words hU hkept]

theorem normalizeMerchant_merchantKey (hU : LowersOnce h.letters)
    (hmerchant : ∀ s ∈ merchant, KeepsLetters h.letters s)
    (hdescription : ∀ s ∈ description, KeepsLetters h.letters s)
    (hkey : merchantKey h merchant description = some key) :
    normalizeMerchant h.letters key = key := by
  rw [merchantKey] at hkey
  split at hkey
  next m hsource =>
    obtain rfl := Option.some.inj hkey
    obtain ⟨hsource, -⟩ := Option.filter_eq_some_iff.1 hsource
    obtain ⟨s, hs, rfl⟩ := Option.map_eq_some_iff.1 hsource
    exact (normalizeMerchant_idem hU).2 (hmerchant s hs)
  next =>
    obtain ⟨s, hs, hkey⟩ := Option.bind_eq_some_iff.1 hkey
    exact normalizeMerchant_key hU (hdescription s hs) hkey

/-- The normal forms of what a transaction names are left alone by a second pass, and so is its
key, which the rules of the packs then find by itself. -/
def NormalOnce (h : PackHost) (merchant description : Option String) : Prop :=
  (∀ s, s ∈ merchant ∨ s ∈ description →
    normalizeMerchant h.letters (normalizeMerchant h.letters s) = normalizeMerchant h.letters s) ∧
  ∀ key, merchantKey h merchant description = some key →
    normalizeMerchant h.letters key = key ∧
    ∀ rule : PackRule, rule.ruleKind = .exact → rule.pattern = key →
      ∀ text, Matches h key text rule

/-- Normal forms and keys are normal if and only if the letters and digits of what they are taken
of stay letters and digits in lower case. -/
theorem normalOnce_iff (hU : LowersOnce h.letters) :
    NormalOnce h merchant description ↔
      ∀ s, s ∈ merchant ∨ s ∈ description → KeepsLetters h.letters s := by
  constructor
  · intro hnormal s hs
    exact (normalizeMerchant_idem hU).1 (hnormal.1 s hs)
  · intro hkeeps
    refine ⟨fun s hs ↦ (normalizeMerchant_idem hU).2 (hkeeps s hs), fun key hkey ↦ ?_⟩
    have hnormal := normalizeMerchant_merchantKey hU (fun s hs ↦ hkeeps s (.inl hs))
      (fun s hs ↦ hkeeps s (.inr hs)) hkey
    refine ⟨hnormal, fun rule hkind hpattern text ↦ ?_⟩
    simp only [Matches, ruleMatches, hkind, hpattern, hnormal, decide_true]

end Keys

section Dotted

def dottedLetters : CharClasses where
  isAlphanumeric c := c.isAlphanum || c = 'İ'
  toLowercase c := if c = 'İ' then ['i', '\u0307'] else [c.toLower]

def lowersOnceAt (U : CharClasses) (c : Char) : Bool :=
  U.toLowercase c ≠ [] && !isWhitespace c &&
    (U.toLowercase c).all fun d ↦
      !isWhitespace d && (!U.isAlphanumeric d || U.toLowercase d = [d])

theorem lowersOnce_of_all {U : CharClasses}
    (hU : ∀ c, U.isAlphanumeric c → lowersOnceAt U c) : LowersOnce U := by
  have hall : ∀ c, U.isAlphanumeric c → U.toLowercase c ≠ [] ∧ isWhitespace c = false ∧
      ∀ d ∈ U.toLowercase c, isWhitespace d = false ∧
        (U.isAlphanumeric d → U.toLowercase d = [d]) := by
    intro c hc
    have hat := hU c hc
    simp only [lowersOnceAt, Bool.and_eq_true, decide_eq_true_eq, Bool.not_eq_true',
      List.all_eq_true, Bool.or_eq_true] at hat
    obtain ⟨⟨hne, hblank⟩, hlower⟩ := hat
    refine ⟨hne, hblank, fun d hd ↦ ⟨(hlower d hd).1, fun hletter ↦ ?_⟩⟩
    rcases (hlower d hd).2 with hnot | hself
    · rw [hletter] at hnot
      cases hnot
    · exact hself
  exact {
    ne_nil := fun c hc ↦ (hall c hc).1
    notBlank := fun c hc d hd ↦ ((hall c hc).2.2 d hd).1
    once := fun c hc d hd ↦ ((hall c hc).2.2 d hd).2
    blank := by
      intro c hblank
      by_contra hc
      rw [(hall c (Bool.eq_true_of_not_eq_false hc)).2.1] at hblank
      cases hblank }

theorem dotted_ascii : ∀ n : Fin 123,
    dottedLetters.isAlphanumeric (Char.ofNat n) → lowersOnceAt dottedLetters (Char.ofNat n) := by
  decide

theorem lowersOnce_dotted : LowersOnce dottedLetters := by
  apply lowersOnce_of_all
  intro c hc
  rcases Bool.or_eq_true_iff.1 hc with hascii | hcapital
  · have hascii' := dotted_ascii ⟨c.toNat, toNat_lt_of_isAlphanum hascii⟩
    rw [Char.ofNat_toNat] at hascii'
    exact hascii' hc
  · rw [of_decide_eq_true hcapital]
    decide

def dottedHost : PackHost :=
  { plainPackHost with letters := dottedLetters }

theorem normalOnce_coffee : NormalOnce dottedHost (some "Café 7") (some "COFFEE shop") := by
  apply (normalOnce_iff (h := dottedHost) lowersOnce_dotted).2
  intro s hs
  have hkeeps : ∀ s ∈ ["Café 7", "COFFEE shop"], s.toList.all fun c ↦
      !dottedLetters.isAlphanumeric c ||
        (dottedLetters.toLowercase c).all dottedLetters.isAlphanumeric := by
    decide
  have hmem : s ∈ ["Café 7", "COFFEE shop"] := by
    rcases hs with hs | hs
    · exact List.mem_cons.2 (.inl (Option.some.inj hs).symm)
    · exact List.mem_cons_of_mem _ (List.mem_singleton.2 (Option.some.inj hs).symm)
  intro c hc hletter d hd
  have hc' := List.all_eq_true.1 (hkeeps s hmem) c hc
  rw [show dottedLetters.isAlphanumeric c = true from hletter, Bool.not_true, Bool.false_or] at hc'
  exact List.all_eq_true.1 hc' d hd

/-- The mark of the lower case is a blank to the second pass. -/
theorem not_normalOnce_dotted :
    normalizeMerchant dottedLetters "İSTANBUL" = "i̇stanbul" ∧
      normalizeMerchant dottedLetters "i̇stanbul" = "i stanbul" ∧
      merchantKey dottedHost (some "İSTANBUL") none = some "i̇stanbul" ∧
      ¬NormalOnce dottedHost (some "İSTANBUL") none := by
  have hfirst : normalizeMerchant dottedLetters "İSTANBUL" = "i̇stanbul" := by decide
  have hsecond : normalizeMerchant dottedLetters "i̇stanbul" = "i stanbul" := by decide
  refine ⟨hfirst, hsecond, by decide, fun hnormal ↦ ?_⟩
  have hsame := hnormal.1 "İSTANBUL" (.inl rfl)
  change normalizeMerchant dottedLetters (normalizeMerchant dottedLetters _) =
    normalizeMerchant dottedLetters _ at hsame
  rw [hfirst, hsecond] at hsame
  exact absurd hsame (by decide)

end Dotted

end SlipScan.Packs.MerchantKeys
