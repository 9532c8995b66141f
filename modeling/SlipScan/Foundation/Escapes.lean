import Mathlib.Data.List.Basic

namespace SlipScan.Foundation.Escapes

section Replacing

def replaceAfter (pattern replacement : List Char) : ℕ → List Char → List Char
  | _, [] => []
  | skip + 1, _ :: text => replaceAfter pattern replacement skip text
  | 0, c :: text =>
    if pattern.isPrefixOf (c :: text) then
      replacement ++ replaceAfter pattern replacement (pattern.length - 1) text
    else c :: replaceAfter pattern replacement 0 text

variable {pattern replacement text rest : List Char} {c mark : Char}

theorem replaceAfter_append (pattern replacement text rest : List Char) :
    replaceAfter pattern replacement text.length (text ++ rest) =
      replaceAfter pattern replacement 0 rest := by
  induction text with
  | nil => rfl
  | cons c text ih => exact ih

theorem replaceAfter_pattern (hpattern : pattern ≠ []) :
    replaceAfter pattern replacement 0 (pattern ++ rest) =
      replacement ++ replaceAfter pattern replacement 0 rest := by
  cases pattern with
  | nil => exact absurd rfl hpattern
  | cons c pattern =>
    have hstart : (c :: pattern).isPrefixOf (c :: (pattern ++ rest)) = true :=
      List.isPrefixOf_iff_prefix.2 ⟨rest, rfl⟩
    rw [List.cons_append, replaceAfter, if_pos hstart, List.length_cons, Nat.add_sub_cancel,
      replaceAfter_append]

theorem replaceAfter_of_not_prefix (hstart : ¬pattern <+: c :: text) :
    replaceAfter pattern replacement 0 (c :: text) =
      c :: replaceAfter pattern replacement 0 text := by
  rw [replaceAfter, if_neg (mt List.isPrefixOf_iff_prefix.1 hstart)]

/-- What does not hold the first character of the pattern is kept. -/
theorem replaceAfter_of_notMem (hpattern : pattern.head? = some mark) (htext : mark ∉ text)
    (rest : List Char) : replaceAfter pattern replacement 0 (text ++ rest) =
      text ++ replaceAfter pattern replacement 0 rest := by
  induction text with
  | nil => rfl
  | cons c text ih =>
    rw [List.mem_cons, not_or] at htext
    rw [List.cons_append, replaceAfter_of_not_prefix, ih htext.2, List.cons_append]
    intro hstart
    cases pattern with
    | nil => cases hpattern
    | cons d pattern =>
      obtain rfl := Option.some.inj hpattern
      exact htext.1 (List.cons_prefix_cons.1 hstart).1

theorem length_replaceAfter_le (hlength : replacement.length ≤ pattern.length) (skip : ℕ)
    (text : List Char) :
    (replaceAfter pattern replacement skip text).length ≤ text.length - skip := by
  induction text generalizing skip with
  | nil => cases skip <;> simp [replaceAfter]
  | cons c text ih =>
    cases skip with
    | zero =>
      rw [replaceAfter]
      split
      · rename_i hstart
        have hle := (List.isPrefixOf_iff_prefix.1 hstart).length_le
        have hrest := ih (pattern.length - 1)
        rw [List.length_cons] at hle
        rw [List.length_append, List.length_cons]
        omega
      · have hrest := ih 0
        rw [List.length_cons, List.length_cons]
        omega
    | succ skip =>
      have hrest := ih skip
      rw [replaceAfter, List.length_cons]
      omega

end Replacing

section Codes

abbrev Codes := List (Char × List Char)

def escapeChar (codes : Codes) (c : Char) : List Char :=
  (codes.lookup c).getD [c]

def escapeBy (codes : Codes) (text : List Char) : List Char :=
  text.flatMap (escapeChar codes)

/-- Codes that start with the mark and hold no other one. The mark has a code of its own, and no code
starts with another. -/
structure Coding (mark : Char) (codes : Codes) : Prop where
  marked : ∀ p ∈ codes, p.2.head? = some mark ∧ mark ∉ p.2.tail
  mark_mem : mark ∈ codes.map Prod.fst
  nodup : (codes.map Prod.fst).Nodup
  apart : codes.Pairwise fun p q ↦ ¬p.2 <+: q.2 ∧ ¬q.2 <+: p.2

variable {mark c : Char} {code : List Char} {codes : Codes}

theorem escapeBy_cons (codes : Codes) (c : Char) (text : List Char) :
    escapeBy codes (c :: text) = escapeChar codes c ++ escapeBy codes text :=
  rfl

theorem escapeBy_append (codes : Codes) (text text' : List Char) :
    escapeBy codes (text ++ text') = escapeBy codes text ++ escapeBy codes text' :=
  List.flatMap_append

theorem escapeBy_nil (text : List Char) : escapeBy [] text = text :=
  List.flatMap_singleton' text

theorem mem_of_lookup (hlookup : codes.lookup c = some code) : (c, code) ∈ codes := by
  obtain ⟨before, after, rfl, -⟩ := List.lookup_eq_some_iff.1 hlookup
  simp

theorem lookup_of_notMem (hc : c ∉ codes.map Prod.fst) : codes.lookup c = none := by
  rw [List.lookup_eq_none_iff]
  refine fun p hp ↦ bne_iff_ne.2 fun heq ↦ hc ?_
  rw [heq]
  exact List.mem_map_of_mem hp

theorem replaceAfter_code {code' rest : List Char} (hcode : code.head? = some mark)
    (hcode' : code'.head? = some mark ∧ mark ∉ code'.tail)
    (hapart : ¬code <+: code' ∧ ¬code' <+: code) :
    replaceAfter code [c] 0 (code' ++ rest) = code' ++ replaceAfter code [c] 0 rest := by
  cases code' with
  | nil => cases hcode'.1
  | cons d tail =>
    have hstart : ¬code <+: d :: (tail ++ rest) := fun hin ↦
      (List.prefix_or_prefix_of_prefix hin (List.prefix_append (d :: tail) rest)).elim hapart.1
        hapart.2
    have htail : mark ∉ tail := hcode'.2
    rw [List.cons_append, replaceAfter_of_not_prefix hstart, replaceAfter_of_notMem hcode htail,
      List.cons_append]

/-- A code is decoded, and the other ones are kept. -/
theorem replaceAfter_escapeBy (hcoding : Coding mark ((c, code) :: codes)) (text : List Char) :
    replaceAfter code [c] 0 (escapeBy ((c, code) :: codes) text) = escapeBy codes text := by
  have hmarked := hcoding.marked
  have hnodup := hcoding.nodup
  have hapart := hcoding.apart
  rw [List.forall_mem_cons] at hmarked
  rw [List.map_cons, List.nodup_cons] at hnodup
  rw [List.pairwise_cons] at hapart
  induction text with
  | nil => rfl
  | cons x text ih =>
    rw [escapeBy_cons, escapeBy_cons, ← ih]
    by_cases hx : x = c
    · subst hx
      have hne : code ≠ [] := by
        rintro rfl
        cases hmarked.1.1
      have hself : escapeChar ((x, code) :: codes) x = code := by
        rw [escapeChar, List.lookup_cons_self, Option.getD_some]
      rw [hself, replaceAfter_pattern hne, escapeChar, lookup_of_notMem hnodup.1, Option.getD_none]
    · have hsame : escapeChar ((c, code) :: codes) x = escapeChar codes x := by
        rw [escapeChar, List.lookup_cons, beq_false_of_ne hx, escapeChar]
      rw [hsame, escapeChar]
      cases hlookup : codes.lookup x with
      | none =>
        refine replaceAfter_of_notMem hmarked.1.1 ?_ _
        rw [Option.getD_none, List.mem_singleton]
        rintro rfl
        rcases List.mem_cons.1 hcoding.mark_mem with hmark | hmark
        · exact hx hmark
        · obtain ⟨p, hp, hfst⟩ := List.mem_map.1 hmark
          have hnone := List.lookup_eq_none_iff.1 hlookup p hp
          rw [hfst] at hnone
          simp at hnone
      | some code' =>
        have hmem := mem_of_lookup hlookup
        exact replaceAfter_code hmarked.1.1 (hmarked.2 _ hmem) (hapart.1 _ hmem)

theorem escapeChar_cases (codes : Codes) (c : Char) :
    (c ∉ codes.map Prod.fst ∧ escapeChar codes c = [c]) ∨ (c, escapeChar codes c) ∈ codes := by
  rw [escapeChar]
  cases hlookup : codes.lookup c with
  | some code => exact .inr (mem_of_lookup hlookup)
  | none =>
    refine .inl ⟨fun hc ↦ ?_, rfl⟩
    obtain ⟨p, hp, rfl⟩ := List.mem_map.1 hc
    simpa using List.lookup_eq_none_iff.1 hlookup p hp

/-- A character with a code is not written. -/
theorem notMem_escapeBy (hc : c ∈ codes.map Prod.fst) (hcodes : ∀ p ∈ codes, c ∉ p.2)
    (text : List Char) : c ∉ escapeBy codes text := by
  rw [escapeBy, List.mem_flatMap]
  rintro ⟨x, -, hmem⟩
  rcases escapeChar_cases codes x with ⟨hx, hplain⟩ | hcode
  · rw [hplain, List.mem_singleton] at hmem
    exact hx (hmem ▸ hc)
  · exact hcodes _ hcode hmem

end Codes

end SlipScan.Foundation.Escapes
