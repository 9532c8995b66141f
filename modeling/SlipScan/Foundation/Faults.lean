import SlipScan.Foundation.Interleaving

namespace SlipScan.Foundation.Interleaving

open Transaction

/-- What a write meets: it goes through, it is refused with an error, or the process stops before
it. -/
inductive Fate (ε : Type)
  | commits
  | refused (e : ε)
  | stops

abbrev Fates (ε : Type) := ℕ → Fate ε

def Fates.next {ε : Type} (fates : Fates ε) : Fates ε := fun n ↦ fates (n + 1)

variable {σ ρ ε α β : Type}

namespace Process

/-- The run of a program alone on the store when its writes meet the given fates: its outcome,
none if it stopped, the store it leaves and the fates that it did not meet. -/
def exec : Process σ ρ ε α → Fates ε → σ → Option (Except ε α) × σ × Fates ε
  | .done a, fates, s => (some (.ok a), s, fates)
  | .fail e, fates, s => (some (.error e), s, fates)
  | .read g next, fates, s => (next (g s)).exec fates s
  | .transact _ body next, fates, s =>
    match fates 0 with
    | .commits => (next (commit body s).1).exec fates.next (commit body s).2
    | .refused e => (next (.error e)).exec fates.next s
    | .stops => (none, s, fates.next)

/-- Whatever its writes meet, the program stops in `I` or ends in `Q`. -/
def Survives : Process σ ρ ε α → σ → (σ → Prop) → (Except ε α → σ → Prop) → Prop
  | .done a, s, _, Q => Q (.ok a) s
  | .fail e, s, _, Q => Q (.error e) s
  | .read g next, s, I, Q => (next (g s)).Survives s I Q
  | .transact _ body next, s, I, Q =>
    I s ∧ (∀ e, (next (.error e)).Survives s I Q) ∧
      (next (commit body s).1).Survives (commit body s).2 I Q

end Process

open Process

section Exec

variable {fates : Fates ε} {s : σ}

@[simp]
theorem exec_pure (a : α) :
    (pure a : Process σ ρ ε α).exec fates s = (some (.ok a), s, fates) :=
  rfl

@[simp]
theorem exec_ofExcept (r : Except ε α) :
    (ofExcept r : Process σ ρ ε α).exec fates s = (some r, s, fates) := by
  cases r <;> rfl

theorem exec_bind (p : Process σ ρ ε α) (f : α → Process σ ρ ε β) :
    (p >>= f).exec fates s = match p.exec fates s with
      | (some (.ok a), t, fates') => (f a).exec fates' t
      | (some (.error e), t, fates') => (some (.error e), t, fates')
      | (none, t, fates') => (none, t, fates') := by
  change (p.bind f).exec fates s = _
  induction p generalizing fates s with
  | done a => rfl
  | fail e => rfl
  | read g next ih => exact ih _
  | transact held body next ih =>
    simp only [Process.bind, exec]
    split
    · exact ih _
    · exact ih _
    · rfl

@[simp]
theorem exec_query_bind (g : σ → β) (f : β → Process σ ρ ε α) :
    (query g >>= f).exec fates s = (f (g s)).exec fates s :=
  rfl

theorem exec_ofExcept_bind_ok {r : Except ε β} {b : β} (hr : r = .ok b)
    (f : β → Process σ ρ ε α) : (ofExcept r >>= f).exec fates s = (f b).exec fates s := by
  rw [hr]
  rfl

theorem exec_ofExcept_bind_error {r : Except ε β} {e : ε} (hr : r = .error e)
    (f : β → Process σ ρ ε α) :
    (ofExcept r >>= f).exec fates s = (some (.error e), s, fates) := by
  rw [hr]
  rfl

theorem exec_atomically_bind_commits {held : List ρ} {body : Tx σ ε β} {b : β} {t : σ}
    (hfate : fates 0 = .commits) (hbody : body s = .ok (b, t)) (f : β → Process σ ρ ε α) :
    (atomically held body >>= f).exec fates s = (f b).exec fates.next t := by
  change (transact held body fun r ↦ (ofExcept r).bind f).exec fates s = _
  rw [exec, hfate, commit_of_ok hbody]
  rfl

theorem exec_atomically_bind_error {held : List ρ} {body : Tx σ ε β} {e : ε}
    (hfate : fates 0 = .commits) (hbody : body s = .error e) (f : β → Process σ ρ ε α) :
    (atomically held body >>= f).exec fates s = (some (.error e), s, fates.next) := by
  change (transact held body fun r ↦ (ofExcept r).bind f).exec fates s = _
  rw [exec, hfate, commit_of_error hbody]
  rfl

theorem exec_atomically_bind_fails {held : List ρ} {body : Tx σ ε β}
    (hfate : fates 0 ≠ .commits) (f : β → Process σ ρ ε α) :
    ((atomically held body >>= f).exec fates s).2.1 = s := by
  change ((transact held body fun r ↦ (ofExcept r).bind f).exec fates s).2.1 = s
  rw [exec]
  split
  · contradiction
  · rfl
  · rfl

theorem exec_of_commits (p : Process σ ρ ε α) (s : σ) :
    p.exec (fun _ ↦ .commits) s = (some (p.run s).1, (p.run s).2, fun _ ↦ .commits) := by
  induction p generalizing s with
  | done a => rfl
  | fail e => rfl
  | read g next ih => exact ih _ s
  | transact held body next ih => exact ih _ _

end Exec

section Survives

variable {I : σ → Prop} {Q Q' : Except ε α → σ → Prop} {p : Process σ ρ ε α} {s : σ}

theorem Process.Survives.mono {I' : σ → Prop} (h : p.Survives s I Q) (hI : ∀ s, I s → I' s)
    (hQ : ∀ r s, Q r s → Q' r s) : p.Survives s I' Q' := by
  induction p generalizing s with
  | done a => exact hQ _ _ h
  | fail e => exact hQ _ _ h
  | read g next ih => exact ih _ h
  | transact held body next ih =>
    exact ⟨hI _ h.1, fun e ↦ ih _ (h.2.1 e), ih _ h.2.2⟩

/-- What a program survives holds of each of its runs. -/
theorem exec_of_survives (h : p.Survives s I Q) (fates : Fates ε) :
    match p.exec fates s with
      | (some r, t, _) => Q r t
      | (none, t, _) => I t := by
  induction p generalizing s fates with
  | done a => exact h
  | fail e => exact h
  | read g next ih => exact ih _ h fates
  | transact held body next ih =>
    rw [exec]
    cases fates 0 with
    | commits => exact ih _ h.2.2 _
    | refused e => exact ih _ (h.2.1 e) _
    | stops => exact h.1

/-- What holds at every stop and at every end of a program holds of the store it leaves. -/
theorem exec_store_of_survives (h : p.Survives s I fun _ ↦ I) (fates : Fates ε) :
    I (p.exec fates s).2.1 := by
  have hexec := exec_of_survives h fates
  generalize p.exec fates s = out at hexec ⊢
  obtain ⟨_ | r, t, fates'⟩ := out
  · exact hexec
  · exact hexec

@[simp]
theorem survives_pure (a : α) : (pure a : Process σ ρ ε α).Survives s I Q ↔ Q (.ok a) s :=
  Iff.rfl

@[simp]
theorem survives_fail (e : ε) : (fail e : Process σ ρ ε α).Survives s I Q ↔ Q (.error e) s :=
  Iff.rfl

@[simp]
theorem survives_bind {R : Except ε β → σ → Prop} (f : α → Process σ ρ ε β) :
    (p >>= f).Survives s I R ↔ p.Survives s I (Continues R fun a t ↦ (f a).Survives t I R) := by
  change (p.bind f).Survives s I R ↔ _
  induction p generalizing s with
  | done a => exact Iff.rfl
  | fail e => exact Iff.rfl
  | read g next ih => exact ih _
  | transact held body next ih =>
    exact and_congr Iff.rfl (and_congr (forall_congr' fun e ↦ ih _) (ih _))

@[simp]
theorem survives_query {R : Except ε β → σ → Prop} (g : σ → β) :
    (query g : Process σ ρ ε β).Survives s I R ↔ R (.ok (g s)) s :=
  Iff.rfl

@[simp]
theorem survives_ofExcept (r : Except ε α) :
    (ofExcept r : Process σ ρ ε α).Survives s I Q ↔ Q r s := by
  cases r <;> exact Iff.rfl

@[simp]
theorem survives_attempt {R : Except ε (Except ε α) → σ → Prop} :
    p.attempt.Survives s I R ↔ p.Survives s I fun r t ↦ R (.ok r) t := by
  induction p generalizing s with
  | done a => exact Iff.rfl
  | fail e => exact Iff.rfl
  | read g next ih => exact ih _
  | transact held body next ih =>
    exact and_congr Iff.rfl (and_congr (forall_congr' fun e ↦ ih _) (ih _))

@[simp]
theorem survives_ite (c : Prop) [Decidable c] (p' : Process σ ρ ε α) :
    (if c then p else p').Survives s I Q ↔ (c → p.Survives s I Q) ∧ (¬c → p'.Survives s I Q) := by
  by_cases hc : c <;> simp [hc]

theorem Process.Survives.ite {c : Prop} [Decidable c] {p' : Process σ ρ ε α}
    (hp : c → p.Survives s I Q) (hp' : ¬c → p'.Survives s I Q) :
    (if c then p else p').Survives s I Q :=
  (survives_ite c p').2 ⟨hp, hp'⟩

theorem survives_query_bind (g : σ → β) {f : β → Process σ ρ ε α}
    (hf : (f (g s)).Survives s I Q) : (query g >>= f).Survives s I Q :=
  hf

theorem survives_ofExcept_bind {r : Except ε β} {f : β → Process σ ρ ε α}
    (herror : ∀ e, Q (.error e) s) (hok : ∀ b, r = .ok b → (f b).Survives s I Q) :
    (ofExcept r >>= f).Survives s I Q := by
  rw [survives_bind, survives_ofExcept]
  cases r with
  | error e => exact herror e
  | ok b => exact hok b rfl

/-- A write goes through, or it leaves the store as it was. -/
theorem survives_atomically {held : List ρ} {body : Tx σ ε α} (hI : I s)
    (herror : ∀ e, Q (.error e) s) (hok : Ensures body s fun a t ↦ Q (.ok a) t) :
    (atomically held body : Process σ ρ ε α).Survives s I Q := by
  refine ⟨hI, fun e ↦ (survives_ofExcept _).2 (herror e), (survives_ofExcept _).2 ?_⟩
  cases hbody : body s with
  | error e =>
    rw [commit_of_error hbody]
    exact herror e
  | ok r =>
    rw [commit_of_ok hbody]
    exact hok r.1 r.2 hbody

theorem survives_atomically_bind {held : List ρ} {body : Tx σ ε β} {f : β → Process σ ρ ε α}
    (hI : I s) (herror : ∀ e, Q (.error e) s)
    (hok : Ensures body s fun b t ↦ (f b).Survives t I Q) :
    (atomically held body >>= f).Survives s I Q := by
  rw [survives_bind]
  exact survives_atomically hI herror hok

end Survives

section Keeps

def Process.Keeps (R : σ → σ → Prop) (p : Process σ ρ ε α) : Prop :=
  ∀ s, p.Survives s (R s) fun _ ↦ R s

variable {R : σ → σ → Prop} {p : Process σ ρ ε α} {f : α → Process σ ρ ε β}

theorem Process.Keeps.exec (h : p.Keeps R) (fates : Fates ε) (s : σ) :
    R s (p.exec fates s).2.1 :=
  exec_store_of_survives (h s) fates

theorem Process.Keeps.mono {R' : σ → σ → Prop} (h : p.Keeps R) (hR : ∀ s t, R s t → R' s t) :
    p.Keeps R' :=
  fun s ↦ (h s).mono (hR s) fun _ ↦ hR s

theorem Process.Keeps.survives {I : σ → Prop} {s : σ} (h : p.Keeps R) (hI : ∀ t, R s t → I t) :
    p.Survives s I fun _ ↦ I :=
  (h s).mono hI fun _ ↦ hI

variable [IsPreorder σ R]

theorem keeps_pure (a : α) : (pure a : Process σ ρ ε α).Keeps R :=
  refl_of R

theorem keeps_fail (e : ε) : (fail e : Process σ ρ ε α).Keeps R :=
  refl_of R

theorem keeps_ofExcept (r : Except ε α) : (ofExcept r : Process σ ρ ε α).Keeps R :=
  fun s ↦ (survives_ofExcept r).2 (refl_of R s)

theorem keeps_query (g : σ → β) : (query g : Process σ ρ ε β).Keeps R :=
  refl_of R

theorem Process.Keeps.bind (hp : p.Keeps R) (hf : ∀ a, (f a).Keeps R) : (p >>= f).Keeps R := by
  intro s
  rw [survives_bind]
  refine (hp s).mono (fun _ ht ↦ ht) fun r t ht ↦ ?_
  cases r with
  | error e => exact ht
  | ok a => exact (hf a t).mono (fun _ hu ↦ trans_of R ht hu) fun _ _ hu ↦ trans_of R ht hu

omit [IsPreorder σ R] in
theorem Process.Keeps.ite {c : Prop} [Decidable c] {p' : Process σ ρ ε α} (hp : c → p.Keeps R)
    (hp' : ¬c → p'.Keeps R) : (if c then p else p').Keeps R := by
  split
  · exact hp ‹_›
  · exact hp' ‹_›

omit [IsPreorder σ R] in
theorem Process.Keeps.attempt (hp : p.Keeps R) : p.attempt.Keeps R :=
  fun s ↦ survives_attempt.2 (hp s)

theorem keeps_atomically {held : List ρ} {body : Tx σ ε α}
    (hbody : ∀ s, Ensures body s fun _ ↦ R s) :
    (atomically held body : Process σ ρ ε α).Keeps R :=
  fun s ↦ survives_atomically (refl_of R s) (fun _ ↦ refl_of R s) (hbody s)

end Keeps

end SlipScan.Foundation.Interleaving
