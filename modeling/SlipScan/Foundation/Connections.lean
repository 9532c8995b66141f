import SlipScan.Foundation.Interleaving
import Mathlib.Logic.Function.Basic

namespace SlipScan.Foundation.Interleaving

open Relation Transaction Process

variable {σ ρ ε α β ι : Type}

def AnyChange (_ _ : σ) : Prop :=
  True

instance : IsPreorder σ AnyChange where
  refl _ := trivial
  trans _ _ _ _ _ := trivial

/-- A store shared by the programs of several connections. -/
structure Config (ι σ ρ ε α : Type) where
  store : σ
  threads : ι → Process σ ρ ε α

section Config

variable [DecidableEq ι] {R : List ρ → σ → σ → Prop}

def Config.advance (c : Config ι σ ρ ε α) (i : ι) : Config ι σ ρ ε α :=
  match c.threads i with
  | .done _ | .fail _ => c
  | .read g next => { c with threads := Function.update c.threads i (next (g c.store)) }
  | .transact _ body next =>
    { store := (commit body c.store).2
      threads := Function.update c.threads i (next (commit body c.store).1) }

def Config.held (c : Config ι σ ρ ε α) (i : ι) : List ρ :=
  match c.threads i with
  | .transact held _ _ => held
  | _ => []

def Config.play (c : Config ι σ ρ ε α) (is : List ι) : Config ι σ ρ ε α :=
  is.foldl Config.advance c

theorem Config.play_append (c : Config ι σ ρ ε α) (is js : List ι) :
    c.play (is ++ js) = (c.play is).play js :=
  List.foldl_append

/-- Every connection meets the guarantee from a store that others have since changed along `E`. -/
def Config.Supported (E : σ → σ → Prop) (R : List ρ → σ → σ → Prop) (c : Config ι σ ρ ε α) :
    Prop :=
  ∀ i, ∃ s, E s c.store ∧ (c.threads i).Meets E R s fun _ _ ↦ True

variable {E : σ → σ → Prop}

omit [DecidableEq ι] in
theorem supported_of_since [IsPreorder σ E] {s : σ} {threads : ι → Process σ ρ ε α}
    (h : ∀ i, (threads i).Since E R s) : (Config.mk s threads).Supported E R :=
  fun i ↦ ⟨s, refl_of E s, (h i).guarantees⟩

/-- Every connection meets a guarantee of its own, and relies on its own part of what the others
do. -/
def Config.SupportedEach (E : ι → σ → σ → Prop) (R : ι → List ρ → σ → σ → Prop)
    (c : Config ι σ ρ ε α) : Prop :=
  ∀ i, ∃ s, E i s c.store ∧ (c.threads i).Meets (E i) (R i) s fun _ _ ↦ True

/-- One turn of one connection changes the store along its guarantee, or not at all. -/
theorem Config.SupportedEach.advance {E : ι → σ → σ → Prop} [∀ i, IsPreorder σ (E i)]
    {R : ι → List ρ → σ → σ → Prop} {c : Config ι σ ρ ε α} (h : c.SupportedEach E R)
    (hE : ∀ i j, j ≠ i → ∀ held s s', R i held s s' → E j s s') (i : ι) :
    (c.advance i).SupportedEach E R ∧
      ((c.advance i).store = c.store ∨ R i (c.held i) c.store (c.advance i).store) := by
  obtain ⟨s, hs, hi⟩ := h i
  have hothers : ∀ {c'}, (∀ j, j ≠ i → E j c.store (Config.store c')) →
      (∀ j, j ≠ i → c'.threads j = c.threads j) →
      (∃ t, E i t c'.store ∧ (c'.threads i).Meets (E i) (R i) t fun _ _ ↦ True) →
        c'.SupportedEach E R := by
    intro c' hc' hsame hthread j
    rcases eq_or_ne j i with rfl | hj
    · exact hthread
    · obtain ⟨t, ht, hmeets⟩ := h j
      exact ⟨t, trans_of (E j) ht (hc' j hj), hsame j hj ▸ hmeets⟩
  cases hp : c.threads i with
  | done a =>
    have hsame : c.advance i = c := by simp only [Config.advance, hp]
    exact hsame.symm ▸ ⟨h, .inl rfl⟩
  | fail e =>
    have hsame : c.advance i = c := by simp only [Config.advance, hp]
    exact hsame.symm ▸ ⟨h, .inl rfl⟩
  | read g next =>
    rw [hp, meets_read] at hi
    have hadv : c.advance i =
        { c with threads := Function.update c.threads i (next (g c.store)) } := by
      simp only [Config.advance, hp]
    rw [hadv]
    refine ⟨hothers (fun j _ ↦ refl_of (E j) _) (fun j hj ↦ by simp [hj])
      ⟨c.store, refl_of (E i) _, ?_⟩, .inl rfl⟩
    simpa using hi c.store hs
  | transact held body next =>
    rw [hp, meets_transact] at hi
    obtain ⟨hR, hnext⟩ := hi c.store hs
    have hadv : c.advance i = ⟨(commit body c.store).2,
        Function.update c.threads i (next (commit body c.store).1)⟩ := by
      simp only [Config.advance, hp]
    have hheld : c.held i = held := by simp only [Config.held, hp]
    have hstep : (commit body c.store).2 = c.store ∨ R i held c.store (commit body c.store).2 := by
      cases hb : body c.store with
      | ok r => exact .inr (by simpa only [commit_of_ok hb] using hR r.1 r.2 hb)
      | error e => exact .inl (by rw [commit_of_error hb])
    have hrely : ∀ j, j ≠ i → E j c.store (commit body c.store).2 := by
      intro j hj
      rcases hstep with heq | hR'
      · rw [heq]
        exact refl_of (E j) _
      · exact hE i j hj _ _ _ hR'
    rw [hadv, hheld]
    refine ⟨hothers hrely (fun j hj ↦ by simp [hj]) ⟨_, refl_of (E i) _, ?_⟩, hstep⟩
    simpa using hnext

theorem Config.Supported.advance [IsPreorder σ E] {c : Config ι σ ρ ε α} (h : c.Supported E R)
    (hE : ∀ held s s', R held s s' → E s s') (i : ι) :
    (c.advance i).Supported E R ∧
      ((c.advance i).store = c.store ∨ R (c.held i) c.store (c.advance i).store) :=
  Config.SupportedEach.advance h (fun _ _ _ ↦ hE) i

theorem Config.SupportedEach.play {E : ι → σ → σ → Prop} [∀ i, IsPreorder σ (E i)]
    {R : ι → List ρ → σ → σ → Prop} {c : Config ι σ ρ ε α} (h : c.SupportedEach E R)
    (hE : ∀ i j, j ≠ i → ∀ held s s', R i held s s' → E j s s') (is : List ι) :
    (c.play is).SupportedEach E R ∧
      ReflTransGen (fun s s' ↦ ∃ i held, R i held s s') c.store (c.play is).store := by
  induction is generalizing c with
  | nil => exact ⟨h, .refl⟩
  | cons i is ih =>
    obtain ⟨hsupp, hstep⟩ := h.advance hE i
    obtain ⟨hlast, htail⟩ := ih hsupp
    refine ⟨hlast, ?_⟩
    rcases hstep with heq | hR
    · exact heq ▸ htail
    · exact .head ⟨i, _, hR⟩ htail

def Config.Turns (C : List ρ → σ → Prop) (c : Config ι σ ρ ε α) : List ι → Prop
  | [] => True
  | i :: is => C (c.held i) c.store ∧ (c.advance i).Turns C is

theorem turns_true (c : Config ι σ ρ ε α) (is : List ι) : c.Turns (fun _ _ ↦ True) is := by
  induction is generalizing c with
  | nil => trivial
  | cons i is ih => exact ⟨trivial, ih _⟩

theorem Config.Turns.mono {C C' : List ρ → σ → Prop} {c : Config ι σ ρ ε α} {is : List ι}
    (h : c.Turns C is) (hC : ∀ held s, C held s → C' held s) : c.Turns C' is := by
  induction is generalizing c with
  | nil => trivial
  | cons i is ih => exact ⟨hC _ _ h.1, ih h.2⟩

theorem turns_append {C : List ρ → σ → Prop} {c : Config ι σ ρ ε α} {is js : List ι} :
    c.Turns C (is ++ js) ↔ c.Turns C is ∧ (c.play is).Turns C js := by
  induction is generalizing c with
  | nil => exact ⟨fun hjs ↦ ⟨trivial, hjs⟩, And.right⟩
  | cons i is ih =>
    rw [List.cons_append, Config.Turns, Config.Turns, ih, and_assoc]
    exact Iff.rfl

instance Config.decidableTurns {C : List ρ → σ → Prop} [∀ held s, Decidable (C held s)] :
    ∀ (c : Config ι σ ρ ε α) (is : List ι), Decidable (c.Turns C is)
  | _, [] => isTrue trivial
  | c, i :: is =>
    have : Decidable ((c.advance i).Turns C is) := decidableTurns (c.advance i) is
    inferInstanceAs (Decidable (C (c.held i) c.store ∧ (c.advance i).Turns C is))

/-- What the connections do to the store in any interleaving. -/
theorem Config.Supported.play [IsPreorder σ E] {C : List ρ → σ → Prop} {c : Config ι σ ρ ε α}
    (h : c.Supported E R) (hE : ∀ held s s', R held s s' → E s s') {is : List ι}
    (hC : c.Turns C is) :
    ReflTransGen (fun s s' ↦ ∃ held, C held s ∧ R held s s') c.store (c.play is).store := by
  induction is generalizing c with
  | nil => exact .refl
  | cons i is ih =>
    obtain ⟨hsupp, hstep⟩ := h.advance hE i
    have htail : ReflTransGen (fun s s' ↦ ∃ held, C held s ∧ R held s s') (c.advance i).store
        (c.play (i :: is)).store := ih hsupp hC.2
    rcases hstep with heq | hR
    · exact heq ▸ htail
    · exact .head ⟨_, hC.1, hR⟩ htail

theorem Config.Supported.play_supported [IsPreorder σ E] {c : Config ι σ ρ ε α}
    (h : c.Supported E R) (hE : ∀ held s s', R held s s' → E s s') (is : List ι) :
    (c.play is).Supported E R := by
  induction is generalizing c with
  | nil => exact h
  | cons i is ih => exact ih (h.advance hE i).1

theorem Config.Supported.play_succ [IsPreorder σ E] {c : Config ι σ ρ ε α}
    (h : c.Supported E R) (hE : ∀ held s s', R held s s' → E s s') (is : List ι) (turns : ℕ) :
    (c.play (is.take (turns + 1))).store = (c.play (is.take turns)).store ∨
      ∃ held, R held (c.play (is.take turns)).store (c.play (is.take (turns + 1))).store := by
  induction is generalizing c turns with
  | nil => exact .inl (by simp)
  | cons i is ih =>
    cases turns with
    | zero => exact (h.advance hE i).2.imp_right fun hR ↦ ⟨_, by simpa [Config.play] using hR⟩
    | succ turns => exact ih (h.advance hE i).1 turns

theorem Config.play_take_succ (c : Config ι σ ρ ε α) {is : List ι} {n : ℕ} (hn : n < is.length) :
    c.play (is.take (n + 1)) = (c.play (is.take n)).advance is[n] := by
  rw [← List.take_append_getElem hn, play_append]
  rfl

/-- The rows that the turns hold were seen in the store since the first of them. -/
def Config.ReadSince (seen : ρ → σ → Prop) (c : Config ι σ ρ ε α) (is : List ι) : Prop :=
  ∀ n, ∀ hn : n < is.length, ∀ r ∈ (c.play (is.take n)).held is[n],
    ∃ k ≤ n, seen r (c.play (is.take k)).store

/-- An invariant lasts if every step keeps it whose rows were seen in stores that have it. -/
theorem Config.Supported.invariant_of_readSince [IsPreorder σ E] {I : σ → Prop}
    {seen : ρ → σ → Prop} {c : Config ι σ ρ ε α} (h : c.Supported E R)
    (hE : ∀ held s s', R held s s' → E s s') {is : List ι} (hread : c.ReadSince seen is)
    (hstart : I c.store)
    (hstep : ∀ held s s', I s → (∀ r ∈ held, ∃ t, I t ∧ seen r t) → R held s s' → I s') :
    I (c.play is).store := by
  have hall : ∀ n, ∀ k ≤ n, I (c.play (is.take k)).store := by
    intro n
    induction n with
    | zero =>
      intro k hk
      obtain rfl := Nat.le_zero.1 hk
      simpa [Config.play] using hstart
    | succ n ih =>
      intro k hk
      rcases Nat.lt_or_eq_of_le hk with hlt | rfl
      · exact ih k (Nat.lt_succ_iff.1 hlt)
      · rcases Nat.lt_or_ge n is.length with hn | hn
        · rw [c.play_take_succ hn]
          rcases ((h.play_supported hE (is.take n)).advance hE is[n]).2 with heq | hR
          · rw [heq]
            exact ih n (Nat.le_refl _)
          · refine hstep _ _ _ (ih n (Nat.le_refl _)) (fun r hr ↦ ?_) hR
            obtain ⟨k, hk, hseen⟩ := hread n hn r hr
            exact ⟨_, ih k hk, hseen⟩
        · have hlast := ih n (Nat.le_refl _)
          rw [List.take_of_length_le hn] at hlast
          rwa [List.take_of_length_le (Nat.le_succ_of_le hn)]
  simpa using hall is.length is.length (Nat.le_refl _)

/-- One turn of one connection changes the store as its own program may, or not at all. -/
theorem Config.within_advance {R : ι → List ρ → σ → σ → Prop} {c : Config ι σ ρ ε α}
    (h : ∀ i, (c.threads i).Within (R i)) (i : ι) :
    (∀ j, ((c.advance i).threads j).Within (R j)) ∧
      ((c.advance i).store = c.store ∨ R i (c.held i) c.store (c.advance i).store) := by
  have hothers : ∀ p : Process σ ρ ε α, p.Within (R i) →
      ∀ j, (Function.update c.threads i p j).Within (R j) := by
    intro p hp j
    rcases eq_or_ne j i with rfl | hj
    · rwa [Function.update_self]
    · rw [Function.update_of_ne hj]
      exact h j
  have hi := h i
  cases hp : c.threads i with
  | done a =>
    have hsame : c.advance i = c := by simp only [Config.advance, hp]
    exact hsame.symm ▸ ⟨h, .inl rfl⟩
  | fail e =>
    have hsame : c.advance i = c := by simp only [Config.advance, hp]
    exact hsame.symm ▸ ⟨h, .inl rfl⟩
  | read g next =>
    rw [hp, within_read] at hi
    simp only [Config.advance, hp]
    exact ⟨hothers _ (hi _), .inl trivial⟩
  | transact held body next =>
    rw [hp, within_transact] at hi
    simp only [Config.advance, Config.held, hp]
    refine ⟨hothers _ (hi.2 _), ?_⟩
    cases hb : body c.store with
    | ok r => exact .inr (by simpa only [commit_of_ok hb] using hi.1 c.store r.1 r.2 hb)
    | error e => exact .inl (by rw [commit_of_error hb])

theorem Config.within_play {R : ι → List ρ → σ → σ → Prop} {c : Config ι σ ρ ε α}
    (h : ∀ i, (c.threads i).Within (R i)) (is : List ι) :
    ∀ i, ((c.play is).threads i).Within (R i) := by
  induction is generalizing c with
  | nil => exact h
  | cons i is ih => exact ih (within_advance h i).1

end Config

section Once

/-- A program that has not ended well and that commits at most once, as its last act. -/
def Process.Pending : Process σ ρ ε α → Prop
  | done _ => False
  | fail _ => True
  | read _ next => ∀ b, (next b).Pending
  | transact _ _ next => (∀ e, ∃ e', next (.error e) = fail e') ∧ ∀ b, ∃ a, next (.ok b) = done a

def Process.Succeeded (p : Process σ ρ ε α) : Prop :=
  ∃ a, p = done a

instance (p : Process σ ρ ε α) : Decidable p.Succeeded :=
  match p with
  | .done a => isTrue ⟨a, rfl⟩
  | .fail _ => isFalse nofun
  | .read _ _ => isFalse nofun
  | .transact _ _ _ => isFalse nofun

theorem Process.Pending.not_succeeded {p : Process σ ρ ε α} (hp : p.Pending) : ¬p.Succeeded := by
  rintro ⟨a, rfl⟩
  exact hp

@[simp]
theorem pending_query_bind (g : σ → β) (f : β → Process σ ρ ε α) :
    (query g >>= f).Pending ↔ ∀ b, (f b).Pending :=
  Iff.rfl

@[simp]
theorem pending_ofExcept_bind (r : Except ε β) (f : β → Process σ ρ ε α) :
    (ofExcept r >>= f).Pending ↔ ∀ b, r = .ok b → (f b).Pending := by
  cases r with
  | ok b =>
    change (f b).Pending ↔ _
    simp
  | error e => exact iff_of_true trivial (by simp)

@[simp]
theorem pending_atomically (held : List ρ) (body : Tx σ ε α) :
    (atomically held body).Pending ↔ True :=
  iff_true_intro ⟨fun e ↦ ⟨e, rfl⟩, fun b ↦ ⟨b, rfl⟩⟩

@[simp]
theorem pending_atomically_bind (held : List ρ) (body : Tx σ ε β) (f : β → α) :
    (atomically held body >>= fun b ↦ pure (f b)).Pending ↔ True :=
  iff_true_intro ⟨fun e ↦ ⟨e, rfl⟩, fun b ↦ ⟨f b, rfl⟩⟩

variable [DecidableEq ι] {E : σ → σ → Prop} {R : List ρ → σ → σ → Prop} {c c' : Config ι σ ρ ε α}

/-- Nobody has committed anything yet. What a connection has read is what is still stored. -/
structure Config.Unfired (c c' : Config ι σ ρ ε α) : Prop where
  store : c'.store = c.store
  pending : ∀ i, (c'.threads i).Pending
  run : ∀ i, (c'.threads i).run c.store = (c.threads i).run c.store

/-- One connection has ended as it would have alone, and the others have not ended well. -/
structure Config.FiredOnce (c c' : Config ι σ ρ ε α) (i : ι) : Prop where
  ended : ∃ a, (c.threads i).run c.store = (.ok a, c'.store) ∧ c'.threads i = done a
  pending : ∀ j, j ≠ i → (c'.threads j).Pending

theorem Config.threads_advance_of_ne {i j : ι} (hne : j ≠ i) :
    (c.advance i).threads j = c.threads j := by
  rw [Config.advance]
  split <;> simp [hne]

/-- The turn of a connection that has not committed: nothing is committed and its run goes on, or
its run ends. -/
theorem Config.advance_pending {i : ι} (hi : (c.threads i).Pending) :
    ((c.advance i).store = c.store ∧ ((c.advance i).threads i).Pending ∧
        ((c.advance i).threads i).run c.store = (c.threads i).run c.store) ∨
      ∃ a, (c.threads i).run c.store = (.ok a, (c.advance i).store) ∧
        (c.advance i).threads i = done a := by
  cases hp : c.threads i with
  | done a =>
    rw [hp] at hi
    exact hi.elim
  | fail e => exact .inl (by simp [Config.advance, hp, Process.Pending])
  | read g next =>
    rw [hp] at hi
    exact .inl (by simpa [Config.advance, hp, Process.run] using hi _)
  | transact held body next =>
    rw [hp] at hi
    cases hb : body c.store with
    | ok r =>
      obtain ⟨a, ha⟩ := hi.2 r.1
      exact .inr ⟨a, by simp [Config.advance, hp, Process.run, commit_of_ok hb, ha]⟩
    | error e =>
      obtain ⟨e', he⟩ := hi.1 e
      exact .inl (by simp [Config.advance, hp, Process.run, commit_of_error hb, he, Process.Pending])

/-- A connection that commits nothing at its turn stays as it was, if it has not ended well. -/
theorem Config.Supported.advance_blocked (h : c.Supported E R) {i : ι} (hi : (c.threads i).Pending)
    (hblocked : ∀ s', ¬R (c.held i) c.store s') :
    (c.advance i).store = c.store ∧ ((c.advance i).threads i).Pending := by
  obtain ⟨s, hs, hmeets⟩ := h i
  cases hp : c.threads i with
  | done a =>
    rw [hp] at hi
    exact hi.elim
  | fail e => simp [Config.advance, hp, Process.Pending]
  | read g next =>
    rw [hp] at hi
    simpa [Config.advance, hp] using hi _
  | transact held body next =>
    rw [hp] at hi hmeets
    have hheld : c.held i = held := by simp [Config.held, hp]
    cases hb : body c.store with
    | ok r =>
      have hR := ((meets_transact _ _ _).1 hmeets c.store hs).1 r.1 r.2 hb
      exact absurd hR (hheld ▸ hblocked r.2)
    | error e =>
      obtain ⟨e', he⟩ := hi.1 e
      simp [Config.advance, hp, commit_of_error hb, he, Process.Pending]

/-- Several programs that each commit once commit once altogether, as one of them does alone, when
that commit blocks the others. -/
theorem Config.Supported.fires_once [IsPreorder σ E] {C : List ρ → σ → Prop} (Fired : σ → Prop)
    (h : c.Supported E R) (hE : ∀ held s s', R held s s' → E s s')
    (hpending : ∀ i, (c.threads i).Pending)
    (hfire : ∀ i a s', (c.threads i).run c.store = (.ok a, s') → Fired s')
    (hblock : ∀ held s s', C held s → Fired s → ¬R held s s') {is : List ι}
    (hC : c.Turns C is) : c.Unfired (c.play is) ∨ ∃ i, c.FiredOnce (c.play is) i := by
  have hfired : ∀ c', c'.Supported E R → (∃ i, c.FiredOnce c' i) → ∀ is, c'.Turns C is →
      ∃ i, c.FiredOnce (c'.play is) i := by
    intro c' h' hone is
    induction is generalizing c' with
    | nil => exact fun _ ↦ hone
    | cons j is ih =>
      intro hturns
      obtain ⟨i, hi⟩ := hone
      obtain ⟨a, hrun, hdone⟩ := hi.ended
      refine ih _ (h'.advance hE j).1 ⟨i, ?_⟩ hturns.2
      rcases eq_or_ne j i with rfl | hne
      · have hsame : c'.advance j = c' := by simp [Config.advance, hdone]
        rwa [hsame]
      · have hF := hfire i a _ hrun
        obtain ⟨hstore, hp⟩ := h'.advance_blocked (hi.pending j hne)
          fun s' ↦ hblock _ _ s' hturns.1 hF
        refine ⟨⟨a, hstore ▸ hrun, ?_⟩, fun k hk ↦ ?_⟩
        · rw [Config.threads_advance_of_ne hne.symm]
          exact hdone
        · rcases eq_or_ne k j with rfl | hkj
          · exact hp
          · rw [Config.threads_advance_of_ne hkj]
            exact hi.pending k hk
  have hquiet : ∀ c', c'.Supported E R → c.Unfired c' → ∀ is, c'.Turns C is →
      c.Unfired (c'.play is) ∨ ∃ i, c.FiredOnce (c'.play is) i := by
    intro c' h' hunfired is
    induction is generalizing c' with
    | nil => exact fun _ ↦ .inl hunfired
    | cons j is ih =>
      intro hturns
      have hsupp := (h'.advance hE j).1
      rcases Config.advance_pending (hunfired.pending j) with ⟨hstore, hp, hrun⟩ | ⟨a, hrun, hdone⟩
      · rw [hunfired.store] at hrun
        refine ih _ hsupp ⟨hstore.trans hunfired.store, fun k ↦ ?_, fun k ↦ ?_⟩ hturns.2
        · rcases eq_or_ne k j with rfl | hkj
          · exact hp
          · rw [Config.threads_advance_of_ne hkj]
            exact hunfired.pending k
        · rcases eq_or_ne k j with rfl | hkj
          · exact hrun.trans (hunfired.run k)
          · rw [Config.threads_advance_of_ne hkj]
            exact hunfired.run k
      · rw [hunfired.store, hunfired.run j] at hrun
        refine .inr (hfired _ hsupp ⟨j, ⟨a, hrun, hdone⟩, fun k hk ↦ ?_⟩ is hturns.2)
        rw [Config.threads_advance_of_ne hk]
        exact hunfired.pending k
  exact hquiet c h ⟨rfl, hpending, fun _ ↦ rfl⟩ is hC

theorem Config.unique_of_fired (h : c.Unfired c' ∨ ∃ i, c.FiredOnce c' i) {i j : ι}
    (hi : (c'.threads i).Succeeded) (hj : (c'.threads j).Succeeded) : i = j := by
  rcases h with hunfired | ⟨k, hk⟩
  · exact absurd hi (hunfired.pending i).not_succeeded
  · have heq : ∀ l, (c'.threads l).Succeeded → l = k := by
      intro l hl
      by_contra hne
      exact (hk.pending l hne).not_succeeded hl
    exact (heq i hi).trans (heq j hj).symm

end Once

attribute [irreducible] Process.Pending

end SlipScan.Foundation.Interleaving
