import SlipScan.Payments.Webhooks

namespace SlipScan.Payments.CodeMatching

open Model.Database Model.Payments Webhooks Foundation.Utf8
open String (utf8Len)

variable {h : PayHost} {code text pre rest : List Char} {fuel : ℕ}

theorem isFlanked_eq_false {before after : List Char} : isFlanked h before after = false ↔
    (∀ c ∈ before.getLast?, h.isAlphanumeric c = false) ∧
      ∀ c ∈ after.head?, h.isAlphanumeric c = false := by
  rw [isFlanked, Bool.or_eq_false_iff]
  cases before.getLast? <;> cases after.head? <;> simp

/-- The code stands in the rest of a text, with no letter or digit on either side. -/
def Occurs (h : PayHost) (code pre rest : List Char) : Prop :=
  ∃ a b, rest = a ++ (code ++ b) ∧ isFlanked h (pre ++ a) b = false

theorem containsFrom_iff (hcode : code ≠ []) :
    containsFrom h code pre.getLast? rest ↔ Occurs h code pre rest := by
  induction rest generalizing pre with
  | nil =>
    refine ⟨fun hfound ↦ (Bool.false_ne_true hfound).elim, fun ⟨a, b, hrest, _⟩ ↦ ?_⟩
    exact absurd (List.append_eq_nil_iff.1 (List.append_eq_nil_iff.1 hrest.symm).2).1 hcode
  | cons c rest ih =>
    have hlast : (pre ++ [c]).getLast? = some c := List.getLast?_concat ..
    have hhere : (code.isPrefixOf (c :: rest) && !pre.getLast?.any h.isAlphanumeric &&
        !((c :: rest).drop code.length).head?.any h.isAlphanumeric) ↔
        ∃ b, c :: rest = code ++ b ∧ isFlanked h pre b = false := by
      simp only [Bool.and_eq_true, List.isPrefixOf_iff_prefix, Bool.not_eq_true', isFlanked,
        Bool.or_eq_false_iff]
      constructor
      · rintro ⟨⟨⟨b, hb⟩, hbefore⟩, hafter⟩
        rw [← hb, List.drop_left] at hafter
        exact ⟨b, hb.symm, hbefore, hafter⟩
      · rintro ⟨b, hb, hbefore, hafter⟩
        rw [hb, List.drop_left]
        exact ⟨⟨⟨b, rfl⟩, hbefore⟩, hafter⟩
    rw [containsFrom, Bool.or_eq_true, hhere, ← hlast, ih]
    constructor
    · rintro (⟨b, hb, hfree⟩ | ⟨a, b, hrest, hfree⟩)
      · exact ⟨[], b, hb, by rwa [List.append_nil]⟩
      · refine ⟨c :: a, b, by rw [hrest]; rfl, ?_⟩
        rwa [List.append_assoc] at hfree
    · rintro ⟨a, b, hrest, hfree⟩
      cases a with
      | nil => exact .inl ⟨b, hrest, by rwa [List.append_nil] at hfree⟩
      | cons c' a =>
        rw [List.cons_append, List.cons.injEq] at hrest
        obtain ⟨rfl, hrest⟩ := hrest
        exact .inr ⟨a, b, hrest, by rwa [List.append_assoc]⟩

/-- After a flanked occurrence, with none before it, the search goes on behind its first character. -/
theorem occurs_next {a b tail : List Char} {c : Char} (hcode : code = c :: tail)
    (hfirst : ∀ a' b', a ++ (code ++ b) = a' ++ (code ++ b') → a.length ≤ a'.length)
    (hflanked : isFlanked h (pre ++ a) b = true) :
    Occurs h code (pre ++ a ++ [c]) (tail ++ b) ↔ Occurs h code pre (a ++ (code ++ b)) := by
  constructor
  · rintro ⟨a', b', hrest, hfree⟩
    refine ⟨a ++ c :: a', b', ?_, by simpa using hfree⟩
    rw [List.append_assoc, List.cons_append, ← hrest, hcode, List.cons_append]
  · rintro ⟨a', b', hrest, hfree⟩
    have ha' : a' <+: a ++ (code ++ b) := ⟨code ++ b', hrest.symm⟩
    obtain ⟨x, rfl⟩ : a <+: a' :=
      List.prefix_of_prefix_length_le (List.prefix_append ..) ha' (hfirst a' b' hrest)
    rw [List.append_assoc, List.append_cancel_left_eq] at hrest
    cases x with
    | nil =>
      rw [List.nil_append, List.append_cancel_left_eq] at hrest
      rw [List.append_nil, ← hrest, hflanked] at hfree
      cases hfree
    | cons d x =>
      rw [hcode, List.cons_append, List.cons_append, List.cons.injEq, ← hcode] at hrest
      obtain ⟨rfl, hrest⟩ := hrest
      exact ⟨x, b', hrest, by simpa using hfree⟩

/-- A search that starts between two characters ends, cuts no character, and finds what there is. -/
theorem searchFrom_eq (hcode : code ≠ []) (htext : text = pre ++ rest)
    (hfuel : rest.length < fuel) :
    searchFrom h code text fuel (utf8Len pre) = some (containsFrom h code pre.getLast? rest) := by
  induction fuel generalizing pre rest with
  | zero => omega
  | succ fuel ih =>
    have hcut : cutAt (utf8Len pre) text = some (pre, rest) := by
      rw [htext, cutAt_append]
    simp only [searchFrom, hcut, Option.bind_eq_bind, Option.bind_some]
    cases hfind : find code rest with
    | none =>
      have hnone : ¬Occurs h code pre rest := fun ⟨a, b, hrest, _⟩ ↦
        find_eq_none hfind ⟨a, b, by rw [hrest, List.append_assoc]⟩
      rw [← containsFrom_iff hcode, Bool.not_eq_true] at hnone
      rw [hnone]
      rfl
    | some offset =>
      obtain ⟨a, b, rfl, rfl, hfirst⟩ := find_eq_some hfind
      have hstart : cutAt (utf8Len pre + utf8Len a) text = some (pre ++ a, code ++ b) := by
        rw [htext, ← String.utf8Len_append, ← List.append_assoc, cutAt_append]
      have hstop : cutAt (utf8Len pre + utf8Len a + utf8Len code) text =
          some (pre ++ a ++ code, b) := by
        rw [htext, ← String.utf8Len_append, ← String.utf8Len_append, ← List.append_assoc,
          ← List.append_assoc, cutAt_append]
      simp only [hstart, hstop, Option.bind_some]
      cases hflanked : isFlanked h (pre ++ a) b with
      | false =>
        have hfound : containsFrom h code pre.getLast? (a ++ (code ++ b)) :=
          (containsFrom_iff hcode).2 ⟨a, b, rfl, hflanked⟩
        rw [hfound]
        rfl
      | true =>
        obtain ⟨c, tail, htail⟩ := List.exists_cons_of_ne_nil hcode
        have hnext : utf8Len pre + utf8Len a +
            ((code ++ b).head?.map Char.utf8Size).getD 1 = utf8Len (pre ++ a ++ [c]) := by
          simp [htail, Nat.add_assoc]
        have hrest : text = (pre ++ a ++ [c]) ++ (tail ++ b) := by
          simp [htext, htail]
        have hshort : (tail ++ b).length < fuel := by
          simp only [htail, List.length_append, List.length_cons] at hfuel ⊢
          omega
        simp only [hnext, Bool.not_true, Bool.false_eq_true, if_false]
        rw [ih hrest hshort, Option.some.injEq, Bool.eq_iff_iff, containsFrom_iff hcode,
          containsFrom_iff hcode, occurs_next htail hfirst hflanked]

theorem textContainsCode_iff (h : PayHost) (hupper : ∀ s, h.toUppercase s = "" ↔ s = "")
    (text code : String) :
    (∀ fuel, (h.toUppercase text).length < fuel →
      searchCode h text code fuel = some (textContainsCode h text code)) ∧
    (textContainsCode h text code ↔ trim code ≠ "" ∧ ∃ before after : List Char,
      (h.toUppercase text).toList = before ++ ((h.toUppercase (trim code)).toList ++ after) ∧
      (∀ c ∈ before.getLast?, h.isAlphanumeric c = false) ∧
      ∀ c ∈ after.head?, h.isAlphanumeric c = false) := by
  by_cases hcode : trim code = ""
  · have hempty : h.toUppercase (trim code) = "" := (hupper _).2 hcode
    simp only [searchCode, textContainsCode, hempty]
    simp [hcode]
  · have hne : (h.toUppercase (trim code)).toList ≠ [] := by
      rwa [ne_eq, String.toList_eq_nil_iff, hupper]
    have hnonempty : (h.toUppercase (trim code)).toList.isEmpty = false := by
      rwa [List.isEmpty_eq_false_iff]
    simp only [searchCode, textContainsCode, hnonempty, Bool.false_eq_true, if_false, Bool.not_false,
      Bool.true_and]
    have htext : (h.toUppercase text).toList = [] ++ (h.toUppercase text).toList := rfl
    refine ⟨fun fuel hfuel ↦ searchFrom_eq hne htext hfuel, ?_⟩
    have hiff : containsFrom h _ ([] : List Char).getLast? _ ↔
        Occurs h _ [] (h.toUppercase text).toList := containsFrom_iff hne
    rw [List.getLast?_nil] at hiff
    simp only [hiff, Occurs, isFlanked_eq_false, List.nil_append, ne_eq, hcode, not_false_eq_true,
      true_and]

def capitalsHost : PayHost :=
  { plainPayHost with toUppercase := fun s ↦ String.ofList (s.toList.map Char.toUpper) }

theorem capitalsHost_eq_empty (s : String) : capitalsHost.toUppercase s = "" ↔ s = "" := by
  rw [← String.toList_inj, capitalsHost, String.toList_ofList]
  simp

/-- The first occurrence is part of a longer word. -/
theorem textContainsCode_second_occurrence :
    searchCode capitalsHost "xinv1 inv1." " inv1" 12 = some true := by
  rw [(textContainsCode_iff capitalsHost capitalsHost_eq_empty _ _).1 12 (by decide)]
  decide

end SlipScan.Payments.CodeMatching
