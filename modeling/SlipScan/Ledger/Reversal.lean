import SlipScan.Ledger.Consistency
import SlipScan.Model.PlainHost
import SlipScan.Model.Reports
import Mathlib.Algebra.Ring.Parity

namespace SlipScan.Ledger.Reversal

open Model.Domain Model.Database Model.Ledger Model.Reports Model.Slip Model.Service
  Model.PlainHost Foundation.Transaction Foundation.Table Foundation.Chain Foundation.Grouping
  Posting Steps Runs Lines Consistency Relation

variable {h : Host} {parseSlip : String → Except Fault SlipPayload} {s s' : Db} {book : Book}
  {new : NewJournal} {reversalOf : Option String} {lines : List NewJournalLine} {id : String}

section Effects

def journalEffect (s : Db) (id : String) (account : String × String) : ℤ :=
  groupSum (fun l : JournalLine ↦ (l.coaId, l.currency)) (fun l ↦ l.debitMinor - l.creditMinor)
    (linesForJournal s id) account

/-- The reversal of a journal, the reversal of that, and so on. -/
def reversals (s : Db) (id : String) : List String :=
  walk (findReversal s) s.journals.length id

def netEffect (s : Db) (id : String) : String × String → ℤ :=
  journalEffect s id + ((reversals s id).map (journalEffect s)).sum

theorem lines_of_reversal (hs : Consistent s) {original : PostedJournal}
    {date narrative : Option String} (horiginal : journalWithLines s id = .ok original)
    (hposts : Posts h s book (reversalOfJournal book original date narrative) (some id) lines) :
    lines = (linesForJournal s id).map swapLine := by
  have hlines := (journalWithLines_eq_ok.1 horiginal).2
  rw [hlines]
  refine normalized_eq (fun line hline ↦ ?_) hposts.accepted.normalized
  obtain ⟨l, hl, rfl⟩ := List.mem_map.1 hline
  rw [← hlines, mem_linesForJournal] at hl
  exact hs.canonical l hl.1

/-- Every reversal has the lines of the journal that it reverses, with their sides swapped. -/
def Swapped (s : Db) : Prop :=
  ∀ k r, findReversal s k = some r →
    (linesForJournal s r).map content = (linesForJournal s k).map swapLine

def Undone (s : Db) : Prop :=
  ∀ k r, findReversal s k = some r → journalEffect s r = -journalEffect s k

theorem mem_of_findReversal {k r : String} (hs : Consistent s) (hr : findReversal s k = some r) :
    (∃ j ∈ s.journals, j.id = k) ∧ ∃ j ∈ s.journals, j.id = r := by
  obtain ⟨j, hj, hlink, hid⟩ := successor_eq_some hr
  exact ⟨hs.linked.exists_of_link j hj k hlink, j, hj, hid⟩

theorem swapped_of_journals (hswapped : Swapped s) (hs : s'.journals = s.journals)
    (hlines : s'.journalLines = s.journalLines) : Swapped s' := by
  intro k r hr
  rw [findReversal, hs] at hr
  simp only [linesForJournal, hlines]
  exact hswapped k r hr

theorem swapped_step {c : Call} {held : List Held} (hs : Consistent s) (hswapped : Swapped s)
    (hstep : LedgerStep h c held s s') : Swapped s' := by
  have hold : ∀ {book new reversalOf lines k r}, Posts h s book new reversalOf lines →
      findReversal s k = some r →
      (linesForJournal (withPosted s (postedJournal h s book new reversalOf lines)) r).map
          content =
        (linesForJournal (withPosted s (postedJournal h s book new reversalOf lines)) k).map
          swapLine := by
    intro book new reversalOf lines k r hposts hr
    obtain ⟨⟨j, hj, rfl⟩, j', hj', rfl⟩ := mem_of_findReversal hs hr
    rw [linesForJournal_withPosted_of_ne (hposts.fresh j hj),
      linesForJournal_withPosted_of_ne (hposts.fresh j' hj'), hswapped _ _ hr]
  cases hstep with
  | @post book new lines _ hposts =>
    intro k r hr
    refine hold hposts ?_
    rwa [findReversal, withPosted, successor_snoc_of_ne (by simp [postedJournal])] at hr
  | @reverse book id date narrative original lines _ _ horiginal hnone hposts =>
    intro k r hr
    by_cases hk : k = id
    · subst hk
      have hself : findReversal (withPosted s (postedJournal h s book
          (reversalOfJournal book original date narrative) (some k) lines)) k =
            some (h.newId s.minted) :=
        successor_snoc_of_eq rfl (hposts.unreversed k rfl)
      obtain rfl := Option.some.inj (hself.symm.trans hr)
      obtain ⟨j, hj, rfl⟩ := isSome_lookup.1 (hposts.original k rfl)
      rw [linesForJournal_withPosted_self (hs.fresh hposts),
        linesForJournal_withPosted_of_ne (hposts.fresh j hj), postedJournal,
        map_content_storedLines, lines_of_reversal hs horiginal hposts]
    · refine hold hposts ?_
      rwa [findReversal, withPosted,
        successor_snoc_of_ne (by simpa [postedJournal] using Ne.symm hk)] at hr
  | other hother => exact swapped_of_journals hswapped hother.journals hother.journalLines

theorem swapped_change {D : Call → Prop} (hs : Consistent s) (hswapped : Swapped s)
    (hchange : Change h D s s') : Swapped s' := by
  cases hchange with
  | ledger _ _ hstep => exact swapped_step hs hswapped hstep
  | other hother => exact swapped_of_journals hswapped hother.journals hother.journalLines
  | lock => exact hswapped
  | rate => exact hswapped

theorem swapped_of_reachable {C : Call → Db → Prop} (hs : Reachable h parseSlip C s) :
    Swapped s := by
  refine (invariant_of_changes (I := fun t ↦ Swapped t ∧ Consistent t)
    ⟨fun k r hr ↦ by simp [findReversal, successor] at hr, consistent_empty⟩
    (fun t t' ht hchange ↦ ?_) hs).1
  exact ⟨swapped_change ht.2 ht.1 hchange, ht.2.change hchange⟩

/-- Whatever lines are grouped by that swapping keeps, a reversal cancels group by group. -/
theorem Swapped.cancels {κ : Type} [DecidableEq κ] (hswapped : Swapped s) {k r : String}
    (hr : findReversal s k = some r) {key : JournalLine → κ} (key' : NewJournalLine → κ)
    (hcontent : ∀ l, key' (content l) = key l) (hswap : ∀ l, key' (swapLine l) = key l) (g : κ) :
    groupSum key (fun l ↦ l.debitMinor - l.creditMinor) (linesForJournal s r) g =
      -groupSum key (fun l ↦ l.debitMinor - l.creditMinor) (linesForJournal s k) g := by
  have hlines := congrArg
    (fun l ↦ groupSum key' (fun l ↦ l.debitMinor - l.creditMinor) l g)
    (hswapped k r hr)
  simp only [groupSum_map, hcontent, hswap] at hlines
  refine hlines.trans ?_
  rw [groupSum_sub, groupSum_sub, neg_sub]
  rfl

theorem Swapped.undone (hswapped : Swapped s) : Undone s := by
  intro k r hr
  funext account
  exact hswapped.cancels hr (fun l ↦ (l.coaId, l.currency)) (fun _ ↦ rfl) (fun _ ↦ rfl) account

theorem undone_of_reachable {C : Call → Db → Prop} (hs : Reachable h parseSlip C s) : Undone s :=
  (swapped_of_reachable hs).undone

end Effects

section Parity

/-- The chain of a journal is finite, and `reversals` is all of it. -/
theorem follows_reversals (hs : Consistent s) (id : String) :
    Follows (findReversal s) id (reversals s id) := by
  have hfollows := hs.linked.follows id
  rwa [← hs.linked.walk_eq le_rfl] at hfollows

theorem reversals_eq_chain (hs : Consistent s) (id : String) :
    reversals s id = chain Journal.id Journal.reversalOf s.journals id :=
  hs.linked.walk_eq le_rfl id

theorem length_reversals_le (hs : Consistent s) (id : String) :
    (reversals s id).length ≤ s.journals.length := by
  rw [reversals_eq_chain hs]
  exact length_chain_le

theorem netReversedWalk_eq {l : List String} (hl : Follows (findReversal s) id l) {n : ℕ}
    (hn : l.length < n) (cancelled : Bool) :
    netReversedWalk s n cancelled id = some (cancelled ^^ decide (Odd l.length)) := by
  induction hl generalizing n cancelled with
  | nil hk =>
    obtain ⟨n, rfl⟩ := Nat.exists_eq_succ_of_ne_zero (by omega : n ≠ 0)
    simp [netReversedWalk, hk]
  | @cons k k' l hk _ ih =>
    obtain ⟨n, rfl⟩ := Nat.exists_eq_succ_of_ne_zero (by omega : n ≠ 0)
    have hwalk : netReversedWalk s (n + 1) cancelled k = netReversedWalk s n (!cancelled) k' := by
      rw [netReversedWalk, hk]
    rw [hwalk, ih (by simpa using hn)]
    by_cases ho : Odd l.length
    · cases cancelled <;> simp [ho, Nat.odd_add_one]
    · cases cancelled <;> simp [ho, Nat.odd_add_one]

/-- The walk decides the parity of the chain. -/
theorem isNetReversed_eq (hs : Consistent s) (id : String) :
    isNetReversed s id = .ok (decide (Odd (reversals s id).length)) := by
  have hlt := Nat.lt_succ_of_le (length_reversals_le hs id)
  simp only [isNetReversed, netReversedWalk_eq (follows_reversals hs id) hlt, Bool.false_xor]

theorem netReversedWalk_congr (hfind : ∀ k, findReversal s' k = findReversal s k) (n : ℕ)
    (cancelled : Bool) (k : String) :
    netReversedWalk s' n cancelled k = netReversedWalk s n cancelled k := by
  induction n generalizing cancelled k with
  | zero => rfl
  | succ n ih => simp only [netReversedWalk, hfind, ih]

theorem isNetReversed_congr (hs : s'.journals = s.journals) (id : String) :
    isNetReversed s' id = isNetReversed s id := by
  have hfind : ∀ k, findReversal s' k = findReversal s k := fun k ↦ by
    rw [findReversal, findReversal, hs]
  simp only [isNetReversed, netReversedWalk_congr hfind, hs]

theorem netReversedWalk_succ {n : ℕ} {cancelled b : Bool} {k : String}
    (hwalk : netReversedWalk s n cancelled k = some b) :
    netReversedWalk s (n + 1) cancelled k = some b := by
  induction n generalizing cancelled k with
  | zero => cases hwalk
  | succ n ih =>
    rw [netReversedWalk] at hwalk ⊢
    cases hr : findReversal s k with
    | none => simpa [hr] using hwalk
    | some r =>
      rw [hr] at hwalk
      exact ih hwalk

theorem isNetReversed_eq_ok {cancelled : Bool} : isNetReversed s id = .ok cancelled ↔
    netReversedWalk s (s.journals.length + 1) false id = some cancelled := by
  rw [isNetReversed]
  cases netReversedWalk s (s.journals.length + 1) false id <;> simp

theorem isNetReversed_withPosted {p : PostedJournal} (hp : p.journal.reversalOf = none)
    {cancelled : Bool} (hid : isNetReversed s id = .ok cancelled) :
    isNetReversed (withPosted s p) id = .ok cancelled := by
  have hfind : ∀ k, findReversal (withPosted s p) k = findReversal s k := fun k ↦
    successor_snoc_of_ne (by simp [hp])
  have hlength : (withPosted s p).journals.length = s.journals.length + 1 := by
    simp [withPosted]
  rw [isNetReversed_eq_ok] at hid ⊢
  rw [hlength, netReversedWalk_congr hfind]
  exact netReversedWalk_succ hid

theorem netEffect_eq (hs : Consistent s) (hundone : Undone s) (id : String) :
    netEffect s id = if Odd (reversals s id).length then 0 else journalEffect s id := by
  rw [netEffect, (follows_reversals hs id).sum_map hundone]
  simp only [← Nat.not_odd_iff_even, ite_not]

end Parity

section Query

def rowsFrom (s : Db) (row : String × String) : ℕ :=
  (reversals s row.2).length + 1

def rowsFor (s : Db) (root : String) (rows : List (String × String)) : ℕ :=
  ((rows.filter fun row ↦ row.1 = root).map (rowsFrom s)).sum

theorem nextLevel_eq (hs : Consistent s) (rows : List (String × String)) :
    nextLevel s rows = rows.flatMap fun row ↦ (findReversal s row.2).toList.map (row.1, ·) := by
  refine List.flatMap_congr fun row _ ↦ ?_
  rw [findReversal, ← hs.linked.filter_link, List.map_map]
  rfl

theorem length_reversals_of_none (hs : Consistent s) (hid : findReversal s id = none) :
    (reversals s id).length = 0 := by
  rw [reversals_eq_chain hs]
  exact hs.linked.length_chain_of_none hid

theorem length_reversals_of_some (hs : Consistent s) {r : String}
    (hid : findReversal s id = some r) :
    (reversals s id).length = (reversals s r).length + 1 := by
  rw [reversals_eq_chain hs, reversals_eq_chain hs]
  exact hs.linked.length_chain_of_some hid

theorem rowsFor_nextLevel (hs : Consistent s) (root : String) (rows : List (String × String)) :
    rows.countP (fun row ↦ row.1 = root) + rowsFor s root (nextLevel s rows) =
      rowsFor s root rows := by
  rw [nextLevel_eq hs]
  induction rows with
  | nil => rfl
  | cons row rows ih =>
    rw [rowsFor, rowsFor] at ih ⊢
    rw [List.flatMap_cons, List.filter_append, List.map_append, List.sum_append]
    by_cases hroot : row.1 = root
    · rw [List.countP_cons_of_pos (by simpa using hroot),
        List.filter_cons_of_pos (by simpa using hroot), List.map_cons, List.sum_cons, ← ih]
      cases hr : findReversal s row.2 with
      | none => simp [rowsFrom, length_reversals_of_none hs hr]; omega
      | some r => simp [rowsFrom, length_reversals_of_some hs hr, hroot]; omega
    · rw [List.countP_cons_of_neg (by simpa using hroot),
        List.filter_cons_of_neg (by simpa using hroot), ← ih]
      cases hr : findReversal s row.2 with
      | none => simp
      | some r => simp [hroot]

/-- The query ends, and finds for each root all that its rows lead to. -/
theorem chainRows_eq_ok (hs : Consistent s) {levels : ℕ} {rows : List (String × String)}
    (hrows : ∀ row ∈ rows, (reversals s row.2).length < levels) :
    ∃ out, chainRows s levels rows = .ok out ∧
      ∀ root, out.countP (fun row ↦ row.1 = root) = rowsFor s root rows := by
  induction levels generalizing rows with
  | zero =>
    cases rows with
    | nil => exact ⟨[], by simp [chainRows], fun _ ↦ rfl⟩
    | cons row rows => exact absurd (hrows row (by simp)) (Nat.not_lt_zero _)
  | succ levels ih =>
    cases rows with
    | nil => exact ⟨[], by simp [chainRows], fun _ ↦ rfl⟩
    | cons row rows =>
      have hnext : ∀ next ∈ nextLevel s (row :: rows), (reversals s next.2).length < levels := by
        intro next hnext
        rw [nextLevel_eq hs] at hnext
        obtain ⟨row', hrow', hnext⟩ := List.mem_flatMap.1 hnext
        obtain ⟨r, hr, rfl⟩ := List.mem_map.1 hnext
        have hlength := length_reversals_of_some hs (Option.mem_toList.1 hr)
        have hlt := hrows row' hrow'
        dsimp only
        omega
      obtain ⟨out, hout, hcount⟩ := ih hnext
      refine ⟨row :: rows ++ out, by simp [chainRows, hout], fun root ↦ ?_⟩
      rw [List.countP_append, hcount, rowsFor_nextLevel hs]

theorem reversalChain_eq_ok (hs : Consistent s) (bookId : String) :
    ∃ chain, reversalChain s bookId = .ok chain ∧ ∀ root ∈ s.journals, root.bookId = bookId →
      root.reversalOf = none →
        chain.countP (fun row ↦ row.1 = root.id) = (reversals s root.id).length + 1 := by
  have hlevels : ∀ row ∈ (s.journals.filter fun j ↦ j.bookId = bookId ∧ j.reversalOf = none).map
      fun j ↦ (j.id, j.id), (reversals s row.2).length < s.journals.length + 1 := fun row _ ↦
    Nat.lt_succ_of_le (length_reversals_le hs _)
  obtain ⟨chain, hchain, hcount⟩ := chainRows_eq_ok hs hlevels
  refine ⟨chain, hchain, fun root hroot hbook hnone ↦ ?_⟩
  have hself : (s.journals.filter fun j ↦ j.bookId = bookId ∧ j.reversalOf = none).filter
      (fun j ↦ j.id = root.id) = [root] :=
    filter_key_eq (hs.linked.nodup.sublist (List.filter_sublist.map _))
      (List.mem_filter.2 ⟨hroot, by simp [hbook, hnone]⟩)
  rw [hcount, rowsFor, List.filter_map, List.map_map]
  simp only [Function.comp_def, hself, List.map_cons, List.map_nil, List.sum_singleton, rowsFrom]

/-- What the query leaves out is what the walk calls cancelled. -/
theorem netCancelled_eq (hs : Consistent s) {bookId : String} {chain : List (String × String)}
    (hchain : reversalChain s bookId = .ok chain) {root : Journal} (hroot : root ∈ s.journals)
    (hbook : root.bookId = bookId) (hnone : root.reversalOf = none) :
    isNetReversed s root.id = .ok (netCancelled chain root.id) := by
  obtain ⟨chain', hchain', hcount⟩ := reversalChain_eq_ok hs bookId
  obtain rfl := Except.ok.inj (hchain'.symm.trans hchain)
  rw [isNetReversed_eq hs, netCancelled, hcount root hroot hbook hnone]
  simp [Nat.odd_iff]

theorem bankSideJournalLines_eq_ok (hs : Consistent s) (bookId : String) :
    bankSideJournalLines s bookId = .ok ((s.journals.filter fun j ↦ j.bookId = bookId ∧
      j.sourceType = .manual ∧ j.reversalOf = none ∧ isNetReversed s j.id = .ok false).flatMap
        (bankSideLinesOf s)) := by
  obtain ⟨chain, hchain, -⟩ := reversalChain_eq_ok hs bookId
  simp only [bankSideJournalLines, hchain]
  refine congrArg (fun l ↦ Except.ok (List.flatMap (bankSideLinesOf s) l))
    (List.filter_congr fun j hj ↦ ?_)
  by_cases hroot : j.bookId = bookId ∧ j.reversalOf = none
  · simp [netCancelled_eq hs hchain hj hroot.1 hroot.2]
  · rw [not_and] at hroot
    by_cases hbook : j.bookId = bookId
    · simp [hroot hbook]
    · simp [hbook]

end Query

/-- Both readers of a reversal chain, the walk and the recursive query, decide its parity, and the
parity says what the chain leaves of the effect of its root. -/
theorem reversal_parity (hs : Reachable h parseSlip anyCall s) :
    (∀ root ∈ s.journals, root.reversalOf = none →
      Follows (findReversal s) root.id (reversals s root.id) ∧
      (root.id :: reversals s root.id).Nodup ∧
      isNetReversed s root.id = .ok (decide (Odd (reversals s root.id).length)) ∧
      netEffect s root.id =
        if Odd (reversals s root.id).length then 0 else journalEffect s root.id) ∧
    (∀ j ∈ s.journals, ∀ j' ∈ s.journals, ∀ k, j.reversalOf = some k → j'.reversalOf = some k →
      j = j') ∧
    ∀ bookId, ∃ chain, reversalChain s bookId = .ok chain ∧
      (∀ root ∈ s.journals, root.bookId = bookId → root.reversalOf = none →
        isNetReversed s root.id = .ok (netCancelled chain root.id)) ∧
      bankSideJournalLines s bookId = .ok ((s.journals.filter fun j ↦ j.bookId = bookId ∧
        j.sourceType = .manual ∧ j.reversalOf = none ∧ isNetReversed s j.id = .ok false).flatMap
          (bankSideLinesOf s)) := by
  have hcons := consistent_of_reachable hs
  have hundone := undone_of_reachable hs
  refine ⟨fun root hroot _ ↦ ⟨follows_reversals hcons _, ?_, isNetReversed_eq hcons _,
    netEffect_eq hcons hundone _⟩, hcons.linked.eq_of_link, fun bookId ↦ ?_⟩
  · rw [reversals_eq_chain hcons]
    exact hcons.linked.nodup_chain root hroot
  · obtain ⟨chain, hchain, -⟩ := reversalChain_eq_ok hcons bookId
    exact ⟨chain, hchain, fun root hroot hbook hnone ↦
      netCancelled_eq hcons hchain hroot hbook hnone, bankSideJournalLines_eq_ok hcons bookId⟩

theorem reversal_parity_of_sale :
    (runs setup (bankAndIncome ++ [sale "2025-01-31" 100 100,
      .journalReverse "xxx" none none])).journals.length = 2 ∧
    netEffect (runs setup (bankAndIncome ++ [sale "2025-01-31" 100 100,
      .journalReverse "xxx" none none])) "xxx" = 0 := by
  let root : Journal :=
    { id := "xxx"
      bookId := "book"
      postedDate := "2025-01-31"
      narrative := none
      reference := none
      sourceType := .manual
      sourceId := none
      reversalOf := none
      createdAt := "2025-06-15T00:00:00Z" }
  have hparity := (reversal_parity (reachable_runs reachable_setup (bankAndIncome ++
    [sale "2025-01-31" 100 100, .journalReverse "xxx" none none]))).1 root (by decide +kernel) rfl
  refine ⟨by decide +kernel, ?_⟩
  rw [hparity.2.2.2, if_pos (by decide +kernel)]

end SlipScan.Ledger.Reversal
