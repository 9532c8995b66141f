import SlipScan.Foundation.Transaction

namespace SlipScan.Foundation.Interleaving

open Relation Transaction

/-- A program against a shared store. Between two accesses other programs may change the store:
a `read` sees the latest commit, and a `transact` runs a transaction body atomically. The list
`held` names the rows that the program read earlier and that the body still uses. -/
inductive Process (σ ρ ε α : Type) : Type 1
  | done (a : α)
  | fail (e : ε)
  | read {β : Type} (f : σ → β) (next : β → Process σ ρ ε α)
  | transact {β : Type} (held : List ρ) (body : Tx σ ε β)
      (next : Except ε β → Process σ ρ ε α)

variable {σ ρ ε α β ι : Type}

namespace Process

def bind (f : α → Process σ ρ ε β) : Process σ ρ ε α → Process σ ρ ε β
  | done a => f a
  | fail e => fail e
  | read g next => read g fun b ↦ (next b).bind f
  | transact held body next => transact held body fun r ↦ (next r).bind f

instance : Monad (Process σ ρ ε) where
  pure := done
  bind p f := p.bind f

/-- The program that goes on with the outcome of `p`, also after a failure. -/
def attempt : Process σ ρ ε α → Process σ ρ ε (Except ε α)
  | done a => done (.ok a)
  | fail e => done (.error e)
  | read g next => read g fun b ↦ (next b).attempt
  | transact held body next => transact held body fun r ↦ (next r).attempt

def inTurn : List (Process σ ρ ε α) → Process σ ρ ε Unit
  | [] => done ()
  | p :: ps => p.attempt >>= fun _ ↦ inTurn ps

def query (f : σ → β) : Process σ ρ ε β :=
  read f done

def ofExcept : Except ε α → Process σ ρ ε α
  | .ok a => done a
  | .error e => fail e

def atomically (held : List ρ) (body : Tx σ ε β) : Process σ ρ ε β :=
  transact held body ofExcept

def run : Process σ ρ ε α → σ → Except ε α × σ
  | done a, s => (.ok a, s)
  | fail e, s => (.error e, s)
  | read g next, s => (next (g s)).run s
  | transact _ body next, s => (next (commit body s).1).run (commit body s).2

/-- Every transaction of `p` meets the guarantee `R`, and `p` ends with `Q`, when `p` last saw
the store `s` and before each access others may change the store along `E`. -/
def Meets (E : σ → σ → Prop) (R : List ρ → σ → σ → Prop) :
    Process σ ρ ε α → σ → (Except ε α → σ → Prop) → Prop
  | done a, s, Q => Q (.ok a) s
  | fail e, s, Q => Q (.error e) s
  | read g next, s, Q => ∀ t, E s t → (next (g t)).Meets E R t Q
  | transact held body next, s, Q => ∀ t, E s t →
      Ensures body t (fun _ t' ↦ R held t t') ∧
        (next (commit body t).1).Meets E R (commit body t).2 Q

end Process

open Process

section Meets

variable {E : σ → σ → Prop} {R R' : List ρ → σ → σ → Prop}
  {Q Q' : Except ε α → σ → Prop} {p : Process σ ρ ε α} {s : σ}

theorem Process.Meets.mono (h : p.Meets E R s Q) (hR : ∀ held s s', R held s s' → R' held s s')
    (hQ : ∀ r s, Q r s → Q' r s) : p.Meets E R' s Q' := by
  induction p generalizing s with
  | done a => exact hQ _ _ h
  | fail e => exact hQ _ _ h
  | read g next ih => exact fun t ht ↦ ih _ (h t ht)
  | transact held body next ih =>
    exact fun t ht ↦ ⟨(h t ht).1.mono fun _ _ ↦ hR _ _ _, ih _ (h t ht).2⟩

@[simp]
theorem meets_pure (a : α) : Meets E R (pure a : Process σ ρ ε α) s Q ↔ Q (.ok a) s :=
  Iff.rfl

@[simp]
theorem meets_done (a : α) : Meets E R (done a : Process σ ρ ε α) s Q ↔ Q (.ok a) s :=
  Iff.rfl

@[simp]
theorem meets_fail (e : ε) : Meets E R (fail e : Process σ ρ ε α) s Q ↔ Q (.error e) s :=
  Iff.rfl

theorem meets_read (g : σ → β) (next : β → Process σ ρ ε α) :
    Meets E R (read g next) s Q ↔ ∀ t, E s t → (next (g t)).Meets E R t Q :=
  Iff.rfl

theorem meets_transact (held : List ρ) (body : Tx σ ε β)
    (next : Except ε β → Process σ ρ ε α) :
    Meets E R (transact held body next) s Q ↔ ∀ t, E s t →
      Ensures body t (fun _ t' ↦ R held t t') ∧
        (next (commit body t).1).Meets E R (commit body t).2 Q :=
  Iff.rfl

def Continues (Q : Except ε β → σ → Prop) (next : α → σ → Prop) : Except ε α → σ → Prop
  | .ok a, s => next a s
  | .error e, s => Q (.error e) s

@[simp]
theorem continues_ok {Q : Except ε β → σ → Prop} {next : α → σ → Prop} {a : α} :
    Continues Q next (.ok a) s ↔ next a s :=
  Iff.rfl

@[simp]
theorem continues_error {Q : Except ε β → σ → Prop} {next : α → σ → Prop} {e : ε} :
    Continues Q next (.error e) s ↔ Q (.error e) s :=
  Iff.rfl

@[simp]
theorem meets_bind (f : α → Process σ ρ ε β) {Q : Except ε β → σ → Prop} :
    Meets E R (p >>= f) s Q ↔ p.Meets E R s (Continues Q fun a s' ↦ (f a).Meets E R s' Q) := by
  change Meets E R (p.bind f) s Q ↔ _
  induction p generalizing s with
  | done a => exact Iff.rfl
  | fail e => exact Iff.rfl
  | read g next ih => exact forall₂_congr fun t _ ↦ ih _
  | transact held body next ih => exact forall₂_congr fun t _ ↦ and_congr Iff.rfl (ih _)

@[simp]
theorem meets_attempt {Q : Except ε (Except ε α) → σ → Prop} :
    Meets E R p.attempt s Q ↔ p.Meets E R s fun r s' ↦ Q (.ok r) s' := by
  induction p generalizing s with
  | done a => exact Iff.rfl
  | fail e => exact Iff.rfl
  | read g next ih => exact forall₂_congr fun t _ ↦ ih _
  | transact held body next ih => exact forall₂_congr fun t _ ↦ and_congr Iff.rfl (ih _)

@[simp]
theorem meets_query {Q : Except ε β → σ → Prop} (f : σ → β) :
    Meets E R (query f : Process σ ρ ε β) s Q ↔ ∀ t, E s t → Q (.ok (f t)) t :=
  Iff.rfl

@[simp]
theorem meets_ofExcept (r : Except ε α) :
    Meets E R (ofExcept r : Process σ ρ ε α) s Q ↔ Q r s := by
  cases r <;> exact Iff.rfl

@[simp]
theorem meets_atomically {Q : Except ε β → σ → Prop} (held : List ρ) (body : Tx σ ε β) :
    Meets E R (atomically held body) s Q ↔
      ∀ t, E s t → Ensures body t (fun _ t' ↦ R held t t') ∧
        Q (commit body t).1 (commit body t).2 :=
  forall₂_congr fun _ _ ↦ and_congr Iff.rfl (meets_ofExcept _)

@[simp]
theorem meets_ite (c : Prop) [Decidable c] (p' : Process σ ρ ε α) :
    Meets E R (if c then p else p') s Q ↔ (c → p.Meets E R s Q) ∧ (¬c → p'.Meets E R s Q) := by
  by_cases hc : c <;> simp [hc]

abbrev Process.Guarantees (E : σ → σ → Prop) (R : List ρ → σ → σ → Prop) (p : Process σ ρ ε α)
    (s : σ) : Prop :=
  p.Meets E R s fun _ _ ↦ True

@[simp]
theorem continues_true {next : α → σ → Prop} {r : Except ε α} :
    Continues (fun (_ : Except ε β) _ ↦ True) next r s ↔ ∀ a, r = .ok a → next a s := by
  cases r with
  | ok a => simp
  | error e => simp

def OnSuccess (Q : α → σ → Prop) : Except ε α → σ → Prop
  | .ok a, s => Q a s
  | .error _, _ => True

@[simp]
theorem onSuccess_ok {Q : α → σ → Prop} {a : α} : OnSuccess Q (.ok a : Except ε α) s ↔ Q a s :=
  Iff.rfl

@[simp]
theorem onSuccess_error {Q : α → σ → Prop} {e : ε} :
    OnSuccess Q (.error e : Except ε α) s ↔ True :=
  Iff.rfl

@[simp]
theorem continues_onSuccess {Q : β → σ → Prop} {next : α → σ → Prop} {r : Except ε α} :
    Continues (OnSuccess Q : Except ε β → σ → Prop) next r s ↔ ∀ a, r = .ok a → next a s := by
  cases r with
  | ok a => simp
  | error e => simp

theorem onSuccess_commit {body : Tx σ ε α} {Q : α → σ → Prop} (h : Ensures body s Q) :
    OnSuccess Q (commit body s).1 (commit body s).2 := by
  cases hb : body s with
  | ok r =>
    rw [commit_of_ok hb]
    exact h r.1 r.2 hb
  | error e =>
    rw [commit_of_error hb]
    trivial

def Process.Reading : Process σ ρ ε α → Prop
  | done _ => True
  | fail _ => True
  | read _ next => ∀ b, (next b).Reading
  | transact .. => False

@[simp]
theorem reading_pure (a : α) : (pure a : Process σ ρ ε α).Reading ↔ True :=
  Iff.rfl

@[simp]
theorem reading_fail (e : ε) : (fail e : Process σ ρ ε α).Reading ↔ True :=
  Iff.rfl

@[simp]
theorem reading_query (f : σ → β) : (query f : Process σ ρ ε β).Reading ↔ True :=
  iff_true_intro fun _ ↦ trivial

@[simp]
theorem reading_ofExcept (r : Except ε α) : (ofExcept r : Process σ ρ ε α).Reading ↔ True := by
  cases r <;> exact Iff.rfl

theorem Process.Reading.bind {f : α → Process σ ρ ε β} (hp : p.Reading)
    (hf : ∀ a, (f a).Reading) : (p >>= f).Reading := by
  change (p.bind f).Reading
  induction p with
  | done a => exact hf a
  | fail e => trivial
  | read g next ih => exact fun b ↦ ih b (hp b)
  | transact held body next => exact hp.elim

theorem Process.Reading.ite {c : Prop} [Decidable c] {p' : Process σ ρ ε α}
    (hp : c → p.Reading) (hp' : ¬c → p'.Reading) : (if c then p else p').Reading := by
  split
  · exact hp ‹_›
  · exact hp' ‹_›

theorem Process.Reading.run_store (hp : p.Reading) (s : σ) : (p.run s).2 = s := by
  induction p with
  | done a => rfl
  | fail e => rfl
  | read g next ih => exact ih _ (hp _)
  | transact held body next => exact hp.elim

/-- All that a reader ends with is a store that others made of the one it started with. -/
theorem Process.Reading.meets [IsPreorder σ E] (hp : p.Reading)
    (hQ : ∀ r t, E s t → Q r t) : p.Meets E R s Q := by
  induction p generalizing s with
  | done a => exact hQ _ _ (refl_of E s)
  | fail e => exact hQ _ _ (refl_of E s)
  | read g next ih => exact fun t ht ↦ ih _ (hp _) fun r t' ht' ↦ hQ r t' (trans_of E ht ht')
  | transact held body next => exact hp.elim

/-- From whatever others make of the store `s`, the program meets the guarantee `R`. -/
def Process.Since (E : σ → σ → Prop) (R : List ρ → σ → σ → Prop) (s : σ)
    (p : Process σ ρ ε α) : Prop :=
  ∀ t, E s t → p.Guarantees E R t

theorem Process.Since.mono (h : p.Since E R s) (hR : ∀ held s s', R held s s' → R' held s s') :
    p.Since E R' s :=
  fun t ht ↦ (h t ht).mono hR fun _ _ hQ ↦ hQ

section Since

variable [IsPreorder σ E] {f : α → Process σ ρ ε β}

theorem Process.Since.guarantees (h : p.Since E R s) : p.Guarantees E R s :=
  h s (refl_of E s)

theorem Process.Reading.since (hp : p.Reading) : p.Since E R s := fun _ _ ↦
  hp.meets fun _ _ _ ↦ trivial

theorem Process.Since.bind (hp : p.Since E R s)
    (hf : ∀ a t, (f a).Since E R t) : (p >>= f).Since E R s := by
  intro t ht
  rw [Guarantees, meets_bind]
  exact (hp t ht).mono (fun _ _ _ hR ↦ hR) fun r u _ ↦
    continues_true.2 fun a _ ↦ (hf a u).guarantees

/-- What is known about the store when a reader starts is known when it ends. -/
theorem Process.Reading.bind_since (hp : p.Reading) (hf : ∀ a, (f a).Since E R s) :
    (p >>= f).Since E R s := by
  intro t ht
  rw [Guarantees, meets_bind]
  exact hp.meets fun r u hu ↦ continues_true.2 fun a _ ↦ hf a u (trans_of E ht hu)

theorem Process.Since.bind_reading (hp : p.Since E R s) (hf : ∀ a, (f a).Reading) :
    (p >>= f).Since E R s :=
  hp.bind fun a _ ↦ (hf a).since

theorem Process.Since.query_bind (g : σ → α) (hf : ∀ t, E s t → (f (g t)).Since E R t) :
    (query g >>= f).Since E R s := by
  intro t ht
  rw [Guarantees, meets_bind, meets_query]
  exact fun u hu ↦ (hf u (trans_of E ht hu)).guarantees

omit [IsPreorder σ E] in
theorem Process.Since.ofExcept_bind (r : Except ε α) (hf : ∀ a, r = .ok a → (f a).Since E R s) :
    (ofExcept r >>= f).Since E R s := by
  intro t ht
  rw [Guarantees, meets_bind, meets_ofExcept]
  exact continues_true.2 fun a ha ↦ hf a ha t ht

omit [IsPreorder σ E] in
theorem Process.Since.attempt (hp : p.Since E R s) : p.attempt.Since E R s := fun t ht ↦
  meets_attempt.2 (hp t ht)

omit [IsPreorder σ E] in
theorem Process.Since.ite {c : Prop} [Decidable c] {p' : Process σ ρ ε α}
    (hp : c → p.Since E R s) (hp' : ¬c → p'.Since E R s) :
    (if c then p else p').Since E R s := by
  split
  · exact hp ‹_›
  · exact hp' ‹_›

theorem Process.Since.atomically {held : List ρ} {body : Tx σ ε α}
    (hbody : ∀ t, E s t → Ensures body t fun _ t' ↦ R held t t') :
    (Process.atomically held body).Since E R s := by
  intro t ht
  rw [Guarantees, meets_atomically]
  exact fun u hu ↦ ⟨hbody u (trans_of E ht hu), trivial⟩

/-- What a transaction ensures is known to what comes after it. -/
theorem Process.Since.atomically_bind {held : List ρ} {body : Tx σ ε α}
    (hbody : ∀ t, E s t → Ensures body t fun a t' ↦ R held t t' ∧ (f a).Guarantees E R t') :
    (Process.atomically held body >>= f).Since E R s := by
  intro t ht
  rw [Guarantees, meets_bind, meets_atomically]
  intro u hu
  have hu' := hbody u (trans_of E ht hu)
  refine ⟨hu'.mono fun _ _ ↦ And.left, continues_true.2 fun a ha ↦ ?_⟩
  have hcommit : commit body u = (.ok a, (commit body u).2) := Prod.ext ha rfl
  exact (hu' a _ (commit_ok hcommit)).2

theorem since_inTurn {ps : List (Process σ ρ ε α)} (hps : ∀ p ∈ ps, ∀ s, p.Since E R s) :
    (inTurn ps).Since E R s := by
  induction ps generalizing s with
  | nil => exact Reading.since ((reading_pure _).2 trivial)
  | cons p ps ih =>
    rw [List.forall_mem_cons] at hps
    exact (hps.1 s).attempt.bind fun _ _ ↦ ih hps.2

/-- A program that changes the store along `E` leaves it where others may bring it. -/
theorem Process.Meets.reaches (hp : p.Meets E R s Q) (hE : ∀ held t t', R held t t' → E t t') :
    p.Meets E R s fun r t ↦ Q r t ∧ E s t := by
  induction p generalizing s with
  | done a => exact ⟨hp, refl_of E s⟩
  | fail e => exact ⟨hp, refl_of E s⟩
  | read g next ih =>
    intro t ht
    exact (ih _ (hp t ht)).mono (fun _ _ _ hR ↦ hR) fun r u hu ↦ ⟨hu.1, trans_of E ht hu.2⟩
  | transact held body next ih =>
    intro t ht
    obtain ⟨hbody, hnext⟩ := hp t ht
    have hcommit : E t (commit body t).2 := by
      cases hb : body t with
      | ok r => exact commit_of_ok hb ▸ hE held t r.2 (hbody r.1 r.2 hb)
      | error e => exact commit_of_error hb ▸ refl_of E t
    refine ⟨hbody, (ih _ hnext).mono (fun _ _ _ hR ↦ hR) fun r u hu ↦ ⟨hu.1, ?_⟩⟩
    exact trans_of E ht (trans_of E hcommit hu.2)

theorem since_inTurn_of {ps : List (Process σ ρ ε α)} (hE : ∀ held t t', R held t t' → E t t')
    (hps : ∀ p ∈ ps, ∀ t, E s t → p.Since E R t) : (inTurn ps).Since E R s := by
  induction ps generalizing s with
  | nil => exact Reading.since ((reading_pure _).2 trivial)
  | cons p ps ih =>
    rw [List.forall_mem_cons] at hps
    obtain ⟨hfirst, hrest⟩ := hps
    intro t ht
    rw [inTurn, Guarantees, meets_bind]
    refine ((hfirst t ht).attempt.guarantees.reaches hE).mono (fun _ _ _ hR ↦ hR) fun r u hu ↦ ?_
    refine continues_true.2 fun _ _ ↦ Since.guarantees (ih fun q hq v hv ↦ hrest q hq v ?_)
    exact trans_of E (trans_of E ht hu.2) hv

end Since

/-- An invariant that others keep, and that the guarantee keeps, holds when the program ends. -/
theorem Process.Meets.keeps {I : σ → Prop} (hp : p.Meets E R s Q) (hs : I s)
    (hE : ∀ t u, I t → E t u → I u) (hR : ∀ held t u, I t → R held t u → I u) :
    p.Meets E R s fun r t ↦ Q r t ∧ I t := by
  induction p generalizing s with
  | done a => exact ⟨hp, hs⟩
  | fail e => exact ⟨hp, hs⟩
  | read g next ih => exact fun t ht ↦ ih _ (hp t ht) (hE s t hs ht)
  | transact held body next ih =>
    intro t ht
    obtain ⟨hbody, hnext⟩ := hp t ht
    have hcommit : I (commit body t).2 := by
      cases hb : body t with
      | ok r => exact commit_of_ok hb ▸ hR held t r.2 (hE s t hs ht) (hbody r.1 r.2 hb)
      | error e => exact commit_of_error hb ▸ hE s t hs ht
    exact ⟨hbody, ih _ hnext hcommit⟩

theorem guarantees_inTurn {I : σ → Prop} {ps : List (Process σ ρ ε α)} (hs : I s)
    (hE : ∀ t u, I t → E t u → I u) (hR : ∀ held t u, I t → R held t u → I u)
    (hps : ∀ p ∈ ps, ∀ t, I t → p.Guarantees E R t) : (inTurn ps).Guarantees E R s := by
  induction ps generalizing s with
  | nil => exact trivial
  | cons p ps ih =>
    rw [List.forall_mem_cons] at hps
    obtain ⟨hfirst, hrest⟩ := hps
    rw [inTurn, Guarantees, meets_bind, meets_attempt]
    refine ((hfirst s hs).keeps hs hE hR).mono (fun _ _ _ hR ↦ hR) fun r t ht ↦ ?_
    exact continues_true.2 fun _ _ ↦ ih ht.2 hrest

end Meets

section Settled

/-- A program whose failure undoes everything: it does not go on to fail once one of its
transactions has gone through. -/
def Process.Settled : Process σ ρ ε α → Prop
  | done _ => True
  | fail _ => True
  | read _ next => ∀ b, (next b).Settled
  | transact _ _ next => (∀ e, ∃ e', next (.error e) = fail e') ∧ ∀ b, ∃ a, next (.ok b) = done a

theorem Process.Settled.run_error {p : Process σ ρ ε α} {s : σ} {e : ε} (h : p.Settled)
    (he : (p.run s).1 = .error e) : (p.run s).2 = s := by
  induction p generalizing s with
  | done a => cases he
  | fail e' => rfl
  | read g next ih => exact ih _ (h _) he
  | transact held body next =>
    rw [run] at he ⊢
    cases hb : body s with
    | error e' =>
      obtain ⟨e'', hnext⟩ := h.1 e'
      rw [commit_of_error hb, hnext]
      rfl
    | ok r =>
      obtain ⟨a, hnext⟩ := h.2 r.1
      rw [commit_of_ok hb, hnext] at he
      cases he

/-- A settled program commits at most once. -/
theorem Process.Settled.run_step {E : σ → σ → Prop} [IsPreorder σ E]
    {R : List ρ → σ → σ → Prop} {p : Process σ ρ ε α} {s : σ} (h : p.Settled)
    (hp : p.Guarantees E R s) : (p.run s).2 = s ∨ ∃ held, R held s (p.run s).2 := by
  induction p generalizing s with
  | done a => exact .inl rfl
  | fail e => exact .inl rfl
  | read g next ih => exact ih _ (h _) (hp s (refl_of E s))
  | transact held body next =>
    rw [run]
    cases hb : body s with
    | error e =>
      obtain ⟨e', hnext⟩ := h.1 e
      rw [commit_of_error hb, hnext]
      exact .inl rfl
    | ok r =>
      obtain ⟨a, hnext⟩ := h.2 r.1
      rw [commit_of_ok hb, hnext]
      exact .inr ⟨held, (hp s (refl_of E s)).1 r.1 r.2 hb⟩

variable {p : Process σ ρ ε α}

instance : LawfulMonad (Process σ ρ ε) :=
  .mk' _
    (fun p ↦ by
      change p.bind _ = p
      induction p with
      | done a => rfl
      | fail e => rfl
      | read g next ih => exact congrArg (read g) (funext ih)
      | transact held body next ih => exact congrArg (transact held body) (funext ih))
    (fun _ _ ↦ rfl)
    (fun p f g ↦ by
      change (p.bind f).bind g = p.bind fun a ↦ (f a).bind g
      induction p with
      | done a => rfl
      | fail e => rfl
      | read g' next ih => exact congrArg (read g') (funext ih)
      | transact held body next ih => exact congrArg (transact held body) (funext ih))

@[simp]
theorem settled_pure (a : α) : (pure a : Process σ ρ ε α).Settled ↔ True :=
  Iff.rfl

@[simp]
theorem settled_query_bind (g : σ → β) (f : β → Process σ ρ ε α) :
    (query g >>= f).Settled ↔ ∀ b, (f b).Settled :=
  Iff.rfl

@[simp]
theorem settled_ofExcept_bind (r : Except ε β) (f : β → Process σ ρ ε α) :
    (ofExcept r >>= f).Settled ↔ ∀ b, r = .ok b → (f b).Settled := by
  cases r with
  | ok b =>
    change (f b).Settled ↔ _
    simp
  | error e => exact iff_of_true trivial (by simp)

@[simp]
theorem settled_atomically (held : List ρ) (body : Tx σ ε α) :
    (atomically held body).Settled ↔ True :=
  iff_true_intro ⟨fun e ↦ ⟨e, rfl⟩, fun b ↦ ⟨b, rfl⟩⟩

@[simp]
theorem settled_atomically_bind (held : List ρ) (body : Tx σ ε β) (f : β → α) :
    (atomically held body >>= fun b ↦ pure (f b)).Settled ↔ True :=
  iff_true_intro ⟨fun e ↦ ⟨e, rfl⟩, fun b ↦ ⟨f b, rfl⟩⟩

theorem Process.Settled.ite {c : Prop} [Decidable c] {p' : Process σ ρ ε α}
    (hp : c → p.Settled) (hp' : ¬c → p'.Settled) : (if c then p else p').Settled := by
  split
  · exact hp ‹_›
  · exact hp' ‹_›

theorem Process.Settled.map {f : α → β} (hp : p.Settled) :
    (p >>= fun a ↦ pure (f a)).Settled := by
  change (p.bind fun a ↦ done (f a)).Settled
  induction p with
  | done a => trivial
  | fail e => trivial
  | read g next ih => exact fun b ↦ ih b (hp b)
  | transact held body next =>
    refine ⟨fun e ↦ ?_, fun b ↦ ?_⟩
    · obtain ⟨e', he⟩ := hp.1 e
      exact ⟨e', congrArg (Process.bind _) he⟩
    · obtain ⟨a, ha⟩ := hp.2 b
      exact ⟨f a, congrArg (Process.bind _) ha⟩

theorem Process.Reading.bind_settled {f : α → Process σ ρ ε β} (hp : p.Reading)
    (hf : ∀ a, (f a).Settled) : (p >>= f).Settled := by
  change (p.bind f).Settled
  induction p with
  | done a => exact hf a
  | fail e => trivial
  | read g next ih => exact fun b ↦ ih b (hp b)
  | transact held body next => exact hp.elim

theorem Process.Reading.settled (hp : p.Reading) : p.Settled := by
  induction p with
  | done a => trivial
  | fail e => trivial
  | read g next ih => exact fun b ↦ ih b (hp b)
  | transact held body next => exact hp.elim

end Settled

section Once

/-- From whatever others make of the store `s`, the program commits at most once, at its end and
along `R`. -/
structure Process.Once (E : σ → σ → Prop) (R : List ρ → σ → σ → Prop) (s : σ)
    (p : Process σ ρ ε α) : Prop where
  since : p.Since E R s
  settled : p.Settled

variable {E : σ → σ → Prop} {R R' : List ρ → σ → σ → Prop} {s : σ} {p : Process σ ρ ε α}
  {f : α → Process σ ρ ε β}

theorem Process.Once.ofExcept_bind (r : Except ε α) (hf : ∀ a, r = .ok a → (f a).Once E R s) :
    (ofExcept r >>= f).Once E R s :=
  ⟨.ofExcept_bind r fun a ha ↦ (hf a ha).since,
    (settled_ofExcept_bind r f).2 fun a ha ↦ (hf a ha).settled⟩

theorem Process.Once.ite {c : Prop} [Decidable c] {p' : Process σ ρ ε α} (hp : c → p.Once E R s)
    (hp' : ¬c → p'.Once E R s) : (if c then p else p').Once E R s :=
  ⟨.ite (fun hc ↦ (hp hc).since) fun hc ↦ (hp' hc).since,
    .ite (fun hc ↦ (hp hc).settled) fun hc ↦ (hp' hc).settled⟩

variable [IsPreorder σ E]

theorem Process.Reading.once (hp : p.Reading) : p.Once E R s :=
  ⟨hp.since, hp.settled⟩

theorem Process.Reading.bind_once (hp : p.Reading) (hf : ∀ a, (f a).Once E R s) :
    (p >>= f).Once E R s :=
  ⟨hp.bind_since fun a ↦ (hf a).since, hp.bind_settled fun a ↦ (hf a).settled⟩

theorem Process.Once.atomically {held : List ρ} {body : Tx σ ε α}
    (hbody : ∀ t, E s t → Ensures body t fun _ t' ↦ R held t t') :
    (Process.atomically held body).Once E R s :=
  ⟨.atomically hbody, (settled_atomically held body).2 trivial⟩

theorem Process.Once.map {g : α → β} (hp : p.Once E R s) :
    (p >>= fun a ↦ pure (g a)).Once E R s :=
  ⟨hp.since.bind_reading fun _ ↦ (reading_pure _).2 trivial, hp.settled.map⟩

end Once

section Within

/-- Whatever the reads return, every transaction of the program moves the store along `R`. -/
def Process.Within (R : List ρ → σ → σ → Prop) : Process σ ρ ε α → Prop
  | done _ => True
  | fail _ => True
  | read _ next => ∀ b, (next b).Within R
  | transact held body next => Moves (R held) body ∧ ∀ r, (next r).Within R

variable {R R' : List ρ → σ → σ → Prop} {p : Process σ ρ ε α} {f : α → Process σ ρ ε β}

theorem Process.Within.mono (hp : p.Within R) (hR : ∀ held s s', R held s s' → R' held s s') :
    p.Within R' := by
  induction p with
  | done a => trivial
  | fail e => trivial
  | read g next ih => exact fun b ↦ ih b (hp b)
  | transact held body next ih => exact ⟨hp.1.mono fun _ _ ↦ hR _ _ _, fun r ↦ ih r (hp.2 r)⟩

@[simp]
theorem within_pure (a : α) : (pure a : Process σ ρ ε α).Within R ↔ True :=
  Iff.rfl

@[simp]
theorem within_fail (e : ε) : (fail e : Process σ ρ ε α).Within R ↔ True :=
  Iff.rfl

theorem within_read (g : σ → β) (next : β → Process σ ρ ε α) :
    (read g next).Within R ↔ ∀ b, (next b).Within R :=
  Iff.rfl

theorem within_transact (held : List ρ) (body : Tx σ ε β) (next : Except ε β → Process σ ρ ε α) :
    (transact held body next).Within R ↔ Moves (R held) body ∧ ∀ r, (next r).Within R :=
  Iff.rfl

@[simp]
theorem within_query (g : σ → α) : (query g : Process σ ρ ε α).Within R ↔ True :=
  iff_true_intro fun _ ↦ trivial

@[simp]
theorem within_query_bind (g : σ → α) : (query g >>= f).Within R ↔ ∀ a, (f a).Within R :=
  Iff.rfl

@[simp]
theorem within_ofExcept (r : Except ε α) : (ofExcept r : Process σ ρ ε α).Within R ↔ True := by
  cases r <;> exact Iff.rfl

@[simp]
theorem within_ofExcept_bind (r : Except ε α) :
    (ofExcept r >>= f).Within R ↔ ∀ a, r = .ok a → (f a).Within R := by
  cases r with
  | ok a =>
    change (f a).Within R ↔ _
    simp
  | error e => exact iff_of_true trivial (by simp)

@[simp]
theorem within_atomically (held : List ρ) (body : Tx σ ε α) :
    (atomically held body).Within R ↔ Moves (R held) body :=
  ⟨fun hp ↦ hp.1, fun hp ↦ ⟨hp, fun r ↦ (within_ofExcept r).2 trivial⟩⟩

theorem Process.Within.bind (hp : p.Within R) (hf : ∀ a, (f a).Within R) :
    (p >>= f).Within R := by
  change (p.bind f).Within R
  induction p with
  | done a => exact hf a
  | fail e => trivial
  | read g next ih => exact fun b ↦ ih b (hp b)
  | transact held body next ih => exact ⟨hp.1, fun r ↦ ih r (hp.2 r)⟩

theorem Process.Within.attempt (hp : p.Within R) : p.attempt.Within R := by
  induction p with
  | done a => trivial
  | fail e => trivial
  | read g next ih => exact fun b ↦ ih b (hp b)
  | transact held body next ih => exact ⟨hp.1, fun r ↦ ih r (hp.2 r)⟩

theorem Process.Within.ite {c : Prop} [Decidable c] {p' : Process σ ρ ε α}
    (hp : c → p.Within R) (hp' : ¬c → p'.Within R) : (if c then p else p').Within R := by
  split
  · exact hp ‹_›
  · exact hp' ‹_›

theorem Process.Reading.within (hp : p.Reading) : p.Within R := by
  induction p with
  | done a => trivial
  | fail e => trivial
  | read g next ih => exact fun b ↦ ih b (hp b)
  | transact held body next => exact hp.elim

theorem Process.Within.meets {E : σ → σ → Prop} {s : σ} (hp : p.Within R) :
    p.Guarantees E R s := by
  induction p generalizing s with
  | done a => trivial
  | fail e => trivial
  | read g next ih => exact fun t _ ↦ ih _ (hp _)
  | transact held body next ih => exact fun t _ ↦ ⟨hp.1 t, ih _ (hp.2 _)⟩

theorem Process.Within.since {E : σ → σ → Prop} {s : σ} (hp : p.Within R) : p.Since E R s :=
  fun _ _ ↦ hp.meets

end Within

/-- What a program alone on the store does: its transactions follow one another along `R`. -/
theorem run_of_meets {R : List ρ → σ → σ → Prop} {Q : Except ε α → σ → Prop}
    {p : Process σ ρ ε α} {s : σ} (h : p.Meets Eq R s Q) :
    Q (p.run s).1 (p.run s).2 ∧ ReflTransGen (fun s s' ↦ ∃ held, R held s s') s (p.run s).2 := by
  induction p generalizing s with
  | done a => exact ⟨h, .refl⟩
  | fail e => exact ⟨h, .refl⟩
  | read g next ih => exact ih _ (h s rfl)
  | transact held body next ih =>
    obtain ⟨hR, hnext⟩ := h s rfl
    refine ⟨(ih _ hnext).1, .trans ?_ (ih _ hnext).2⟩
    cases hb : body s with
    | ok r => simpa only [commit_of_ok hb] using .single ⟨held, hR r.1 r.2 hb⟩
    | error e => simpa only [commit_of_error hb] using .refl

theorem run_of_guarantees {E : σ → σ → Prop} [IsPreorder σ E] {p : Process σ ρ ε α} {s : σ}
    (h : p.Guarantees Eq (fun _ ↦ E) s) : E s (p.run s).2 := by
  have hsteps := (run_of_meets h).2
  generalize (p.run s).2 = t at hsteps
  induction hsteps with
  | refl => exact refl_of E s
  | tail _ hstep ih =>
    obtain ⟨_, hstep⟩ := hstep
    exact trans_of E ih hstep

theorem Process.Within.run_store {E : σ → σ → Prop} [IsPreorder σ E] {p : Process σ ρ ε α}
    (hp : p.Within fun _ ↦ E) (s : σ) : E s (p.run s).2 :=
  run_of_guarantees hp.meets

theorem run_map (f : α → β) (p : Process σ ρ ε α) (s : σ) :
    (f <$> p).run s = ((p.run s).1.map f, (p.run s).2) := by
  change (p.bind fun a ↦ done (f a)).run s = _
  induction p generalizing s with
  | done a => rfl
  | fail e => rfl
  | read g next ih => exact ih _ s
  | transact held body next ih => exact ih _ _

theorem run_bind (p : Process σ ρ ε α) (f : α → Process σ ρ ε β) (s : σ) :
    (p >>= f).run s = match (p.run s).1 with
      | .ok a => (f a).run (p.run s).2
      | .error e => (.error e, (p.run s).2) := by
  change (p.bind f).run s = _
  induction p generalizing s with
  | done a => rfl
  | fail e => rfl
  | read g next ih => exact ih _ s
  | transact held body next ih => exact ih _ _

theorem run_bind_of_ok {p : Process σ ρ ε α} {f : α → Process σ ρ ε β} {s t : σ} {a : α}
    (hp : p.run s = (.ok a, t)) : (p >>= f).run s = (f a).run t := by
  rw [run_bind, hp]

theorem run_bind_eq_ok {p : Process σ ρ ε α} {f : α → Process σ ρ ε β} {s t : σ} {b : β} :
    (p >>= f).run s = (.ok b, t) ↔ ∃ a s', p.run s = (.ok a, s') ∧ (f a).run s' = (.ok b, t) := by
  rw [run_bind]
  obtain ⟨r, s'⟩ := p.run s
  cases r with
  | ok a => simp
  | error e => simp

theorem run_attempt (p : Process σ ρ ε α) (s : σ) :
    p.attempt.run s = (.ok (p.run s).1, (p.run s).2) := by
  induction p generalizing s with
  | done a => rfl
  | fail e => rfl
  | read g next ih => exact ih _ s
  | transact held body next ih => exact ih _ _

theorem run_ofExcept (r : Except ε α) (s : σ) : (ofExcept r : Process σ ρ ε α).run s = (r, s) := by
  cases r <;> rfl

theorem run_query_bind (g : σ → α) (f : α → Process σ ρ ε β) (s : σ) :
    (query g >>= f).run s = (f (g s)).run s :=
  rfl

theorem run_ofExcept_bind_eq_ok {r : Except ε α} {f : α → Process σ ρ ε β} {s t : σ} {b : β} :
    (ofExcept r >>= f).run s = (.ok b, t) ↔ ∃ a, r = .ok a ∧ (f a).run s = (.ok b, t) := by
  rw [run_bind, run_ofExcept]
  cases r with
  | ok a => simp
  | error e => simp

theorem run_atomically (held : List ρ) (body : Tx σ ε α) (s : σ) :
    (atomically held body).run s = commit body s :=
  run_ofExcept _ _

theorem run_atomically_bind_eq_ok {held : List ρ} {body : Tx σ ε α} {f : α → Process σ ρ ε β}
    {s t : σ} {b : β} :
    (atomically held body >>= f).run s = (.ok b, t) ↔
      ∃ a s', body s = .ok (a, s') ∧ (f a).run s' = (.ok b, t) := by
  rw [run_bind, run_atomically]
  cases hb : body s with
  | ok r =>
    obtain ⟨a, s'⟩ := r
    rw [commit_of_ok hb]
    simp
  | error e =>
    rw [commit_of_error hb]
    simp

-- The rules above take a program apart. Unfolding it would evaluate the checks of its parts.
attribute [irreducible] Process.Reading Process.Meets Process.Settled Process.Within

end SlipScan.Foundation.Interleaving
