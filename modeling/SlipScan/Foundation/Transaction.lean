import Mathlib.Data.List.Forall2
import Mathlib.Logic.Relation
import Mathlib.Order.Defs.Unbundled

namespace SlipScan.Foundation.Transaction

variable {σ ε α β τ : Type}

section Except

theorem except_ok_bind (a : α) (f : α → Except ε β) : ((.ok a : Except ε α) >>= f) = f a :=
  rfl

@[simp]
theorem except_bind_eq_ok {x : Except ε α} {f : α → Except ε β} {b : β} :
    (x >>= f) = .ok b ↔ ∃ a, x = .ok a ∧ f a = .ok b := by
  cases x with
  | error e => simp [bind, Except.bind]
  | ok a => simp [bind, Except.bind]

@[simp]
theorem exists_unit {p : Unit → Prop} : (∃ u, p u) ↔ p () :=
  ⟨fun ⟨_, hp⟩ ↦ hp, fun hp ↦ ⟨(), hp⟩⟩

@[simp]
theorem except_pure_eq_ok {a b : α} : (pure a : Except ε α) = .ok b ↔ a = b := by
  simp [pure, Except.pure]

theorem except_ite_error_eq_ok {c : Prop} [Decidable c] {e : ε} {x : Except ε α} {a : α} :
    (if c then .error e else x) = .ok a ↔ ¬c ∧ x = .ok a := by
  by_cases hc : c <;> simp [hc]

/-- A check of a `do` block. -/
theorem except_guard_eq_ok {c : Prop} [Decidable c] {e : ε} {f : β → Except ε α} {x : Except ε α}
    {a : α} : (if c then throw e >>= f else x) = .ok a ↔ ¬c ∧ x = .ok a :=
  except_ite_error_eq_ok

theorem except_forM_eq_ok {f : α → Except ε Unit} {l : List α} :
    l.forM f = .ok () ↔ ∀ x ∈ l, f x = .ok () := by
  induction l with
  | nil => simp [pure, Except.pure]
  | cons a l ih =>
    simp only [List.forM_eq_forM] at ih
    simp only [List.forM_eq_forM, List.forM_cons, except_bind_eq_ok, exists_unit, ih,
      List.forall_mem_cons]

theorem except_map_eq_ok {f : α → β} {x : Except ε α} {b : β} :
    x.map f = .ok b ↔ ∃ a, x = .ok a ∧ f a = b := by
  cases x <;> simp [Except.map]

theorem except_mapError_eq_ok {f : ε → β} {x : Except ε α} {a : α} :
    x.mapError f = .ok a ↔ x = .ok a := by
  cases x <;> simp [Except.mapError]

theorem mem_of_forall₂_left {R : α → β → Prop} {l : List α} {l' : List β}
    (hl : List.Forall₂ R l l') {a : α} (ha : a ∈ l) : ∃ b ∈ l', R a b := by
  induction hl with
  | nil => cases ha
  | cons hab _ ih =>
    rcases List.mem_cons.1 ha with rfl | ha
    · exact ⟨_, by simp, hab⟩
    · obtain ⟨b, hb, hR⟩ := ih ha
      exact ⟨b, by simp [hb], hR⟩

theorem except_mapM_eq_ok {f : α → Except ε β} {l : List α} {l' : List β} :
    l.mapM f = .ok l' ↔ List.Forall₂ (fun a b ↦ f a = .ok b) l l' := by
  induction l generalizing l' with
  | nil => simp [pure, Except.pure, eq_comm]
  | cons a l ih =>
    simp only [List.mapM_cons, except_bind_eq_ok, except_pure_eq_ok, ih, List.forall₂_cons_left_iff]
    constructor
    · rintro ⟨b, hb, bs, hbs, rfl⟩
      exact ⟨b, bs, hb, hbs, rfl⟩
    · rintro ⟨b, bs, hb, hbs, rfl⟩
      exact ⟨b, hb, bs, hbs, rfl⟩

theorem except_mapM_eq_map {f : α → Except ε β} {g : α → β} {l : List α} {l' : List β}
    (hfg : ∀ a b, f a = .ok b → b = g a) (hl : l.mapM f = .ok l') : l' = l.map g := by
  rw [except_mapM_eq_ok] at hl
  induction hl with
  | nil => rfl
  | cons hab _ ih => rw [ih, hfg _ _ hab, List.map_cons]

theorem except_mapM_isOk_iff {f : α → Except ε β} {l : List α} :
    (∃ l', l.mapM f = .ok l') ↔ ∀ a ∈ l, ∃ b, f a = .ok b := by
  simp only [except_mapM_eq_ok]
  constructor
  · rintro ⟨l', hl'⟩ a ha
    obtain ⟨i, hi, rfl⟩ := List.getElem_of_mem ha
    exact ⟨_, hl'.get hi (hl'.length_eq ▸ hi)⟩
  · intro hl
    induction l with
    | nil => exact ⟨[], .nil⟩
    | cons a l ih =>
      rw [List.forall_mem_cons] at hl
      obtain ⟨⟨b, hb⟩, hrest⟩ := hl
      obtain ⟨l', hl'⟩ := ih hrest
      exact ⟨b :: l', .cons hb hl'⟩

end Except

/-- The body of a transaction over a store `σ`. A body that fails drops the store it was
working on. -/
abbrev Tx (σ ε α : Type) := StateT σ (Except ε) α

def check (r : Except ε α) : Tx σ ε α := fun s ↦ r.map fun a ↦ (a, s)

section Steps

variable {m : Tx σ ε α} {s s' : σ} {a : α} {e : ε}

theorem bind_of_ok (h : m s = .ok (a, s')) (f : α → Tx σ ε β) : (m >>= f) s = f a s' := by
  change ((m s).bind fun r ↦ f r.1 r.2) = _
  rw [h]
  rfl

theorem bind_of_error (h : m s = .error e) (f : α → Tx σ ε β) : (m >>= f) s = .error e := by
  change ((m s).bind fun r ↦ f r.1 r.2) = _
  rw [h]
  rfl

theorem check_of_ok {r : Except ε α} (h : r = .ok a) : check r s = .ok (a, s) := by
  rw [check, h]
  rfl

theorem check_of_error {r : Except ε α} (h : r = .error e) : check r s = .error e := by
  rw [check, h]
  rfl

end Steps

def commit (m : Tx σ ε α) (s : σ) : Except ε α × σ :=
  match m s with
  | .ok (a, s') => (.ok a, s')
  | .error e => (.error e, s)

theorem commit_of_ok {m : Tx σ ε α} {s s' : σ} {a : α} (h : m s = .ok (a, s')) :
    commit m s = (.ok a, s') := by
  simp only [commit, h]

theorem commit_of_error {m : Tx σ ε α} {s : σ} {e : ε} (h : m s = .error e) :
    commit m s = (.error e, s) := by
  simp only [commit, h]

theorem commit_ok {m : Tx σ ε α} {s s' : σ} {a : α} (h : commit m s = (.ok a, s')) :
    m s = .ok (a, s') := by
  cases hm : m s with
  | ok r =>
    simp only [commit, hm, Prod.mk.injEq, Except.ok.injEq] at h
    rw [← h.1, ← h.2]
  | error e' => simp [commit, hm] at h

/-- Whenever `m` succeeds from `s`, its value and the store it leaves satisfy `Q`. -/
def Ensures (m : Tx σ ε α) (s : σ) (Q : α → σ → Prop) : Prop :=
  ∀ a s', m s = .ok (a, s') → Q a s'

section Ensures

variable {m : Tx σ ε α} {s : σ} {Q Q' : α → σ → Prop}

theorem Ensures.mono (h : Ensures m s Q) (hQ : ∀ a s', Q a s' → Q' a s') : Ensures m s Q' :=
  fun a s' hm ↦ hQ a s' (h a s' hm)

theorem Ensures.and (h : Ensures m s Q) (h' : Ensures m s Q') :
    Ensures m s fun a s' ↦ Q a s' ∧ Q' a s' :=
  fun a s' hm ↦ ⟨h a s' hm, h' a s' hm⟩

@[simp]
theorem ensures_pure (a : α) : Ensures (pure a : Tx σ ε α) s Q ↔ Q a s :=
  ⟨fun h ↦ h a s rfl, fun h _ _ hm ↦ by cases hm; exact h⟩

@[simp]
theorem ensures_bind (f : α → Tx σ ε β) {P : β → σ → Prop} :
    Ensures (m >>= f) s P ↔ Ensures m s fun a s' ↦ Ensures (f a) s' P := by
  have hbind : (m >>= f) s = (m s).bind fun r ↦ f r.1 r.2 := rfl
  constructor
  · intro h a s' hm b t ht
    exact h b t (by rw [hbind, hm]; exact ht)
  · intro h b t ht
    cases hm : m s with
    | error e => rw [hbind, hm] at ht; cases ht
    | ok r =>
      rw [hbind, hm] at ht
      exact h r.1 r.2 hm b t ht

@[simp]
theorem ensures_map (f : α → β) {P : β → σ → Prop} :
    Ensures (f <$> m) s P ↔ Ensures m s fun a s' ↦ P (f a) s' := by
  rw [map_eq_pure_bind, ensures_bind]
  simp only [ensures_pure]

@[simp]
theorem ensures_throw (e : ε) : Ensures (throw e : Tx σ ε α) s Q ↔ True :=
  iff_true_intro fun _ _ hm ↦ by cases hm

@[simp]
theorem ensures_get {Q : σ → σ → Prop} : Ensures (get : Tx σ ε σ) s Q ↔ Q s s :=
  ⟨fun h ↦ h s s rfl, fun h _ _ hm ↦ by cases hm; exact h⟩

@[simp]
theorem ensures_set (s' : σ) {Q : PUnit → σ → Prop} :
    Ensures (set s' : Tx σ ε PUnit) s Q ↔ Q .unit s' :=
  ⟨fun h ↦ h .unit s' rfl, fun h _ _ hm ↦ by cases hm; exact h⟩

@[simp]
theorem ensures_modify (f : σ → σ) {Q : Unit → σ → Prop} :
    Ensures (modify f : Tx σ ε Unit) s Q ↔ Q () (f s) :=
  ⟨fun h ↦ h () (f s) rfl, fun h _ _ hm ↦ by cases hm; exact h⟩

@[simp]
theorem ensures_check (r : Except ε α) :
    Ensures (check r : Tx σ ε α) s Q ↔ ∀ a, r = .ok a → Q a s := by
  cases r with
  | error e =>
    constructor
    · intro _ b hb
      cases hb
    · intro _ b s' hm
      cases hm
  | ok a =>
    constructor
    · intro h b hb
      cases hb
      exact h a s rfl
    · intro h b s' hm
      cases hm
      exact h a rfl

@[simp]
theorem ensures_ite (c : Prop) [Decidable c] (m' : Tx σ ε α) :
    Ensures (if c then m else m') s Q ↔ (c → Ensures m s Q) ∧ (¬c → Ensures m' s Q) := by
  by_cases hc : c <;> simp [hc]

end Ensures

/-- Whenever `m` fails from `s`, its error satisfies `P`. -/
def Refuses (m : Tx σ ε α) (s : σ) (P : ε → Prop) : Prop :=
  ∀ e, m s = .error e → P e

section Refuses

variable {m : Tx σ ε α} {s : σ} {P P' : ε → Prop}

theorem Refuses.mono (h : Refuses m s P) (hP : ∀ e, P e → P' e) : Refuses m s P' :=
  fun e hm ↦ hP e (h e hm)

@[simp]
theorem refuses_pure (a : α) : Refuses (pure a : Tx σ ε α) s P :=
  fun _ hm ↦ by cases hm

@[simp]
theorem refuses_get : Refuses (get : Tx σ ε σ) s P :=
  fun _ hm ↦ by cases hm

@[simp]
theorem refuses_modify (f : σ → σ) : Refuses (modify f : Tx σ ε Unit) s P :=
  fun _ hm ↦ by cases hm

@[simp]
theorem refuses_throw (e : ε) : Refuses (throw e : Tx σ ε α) s P ↔ P e :=
  ⟨fun h ↦ h e rfl, fun h _ hm ↦ by cases hm; exact h⟩

@[simp]
theorem refuses_check (r : Except ε α) :
    Refuses (check r : Tx σ ε α) s P ↔ ∀ e, r = .error e → P e := by
  cases r with
  | error e =>
    refine ⟨fun h e' he ↦ ?_, fun h e' he ↦ ?_⟩
    all_goals
      cases he
      exact h e rfl
  | ok a =>
    refine ⟨fun _ e he ↦ ?_, fun _ e he ↦ ?_⟩
    all_goals cases he

@[simp]
theorem refuses_bind (f : α → Tx σ ε β) :
    Refuses (m >>= f) s P ↔ Refuses m s P ∧ Ensures m s fun a s' ↦ Refuses (f a) s' P := by
  constructor
  · exact fun h ↦ ⟨fun e hm ↦ h e (bind_of_error hm f),
      fun a s' hm e he ↦ h e ((bind_of_ok hm f).trans he)⟩
  · rintro ⟨hfirst, hnext⟩ e he
    cases hm : m s with
    | error e' =>
      rw [bind_of_error hm] at he
      cases he
      exact hfirst e hm
    | ok r => exact hnext r.1 r.2 hm e ((bind_of_ok hm f).symm.trans he)

@[simp]
theorem refuses_ite (c : Prop) [Decidable c] (m' : Tx σ ε α) :
    Refuses (if c then m else m') s P ↔ (c → Refuses m s P) ∧ (¬c → Refuses m' s P) := by
  by_cases hc : c <;> simp [hc]

end Refuses

/-- `m` succeeds from `s`, with a value and a store that satisfy `Q`. -/
def Succeeds (m : Tx σ ε α) (s : σ) (Q : α → σ → Prop) : Prop :=
  ∃ a s', m s = .ok (a, s') ∧ Q a s'

section Succeeds

variable {m : Tx σ ε α} {s : σ} {Q Q' : α → σ → Prop}

theorem Succeeds.mono (h : Succeeds m s Q) (hQ : ∀ a s', Q a s' → Q' a s') :
    Succeeds m s Q' := by
  obtain ⟨a, s', hm, hq⟩ := h
  exact ⟨a, s', hm, hQ a s' hq⟩

theorem Succeeds.and_ensures (h : Succeeds m s Q) (h' : Ensures m s Q') :
    Succeeds m s fun a s' ↦ Q a s' ∧ Q' a s' := by
  obtain ⟨a, s', hm, hq⟩ := h
  exact ⟨a, s', hm, hq, h' a s' hm⟩

@[simp]
theorem succeeds_pure (a : α) : Succeeds (pure a : Tx σ ε α) s Q ↔ Q a s := by
  constructor
  · rintro ⟨b, s', hm, hq⟩
    cases hm
    exact hq
  · exact fun h ↦ ⟨a, s, rfl, h⟩

@[simp]
theorem succeeds_bind (f : α → Tx σ ε β) {P : β → σ → Prop} :
    Succeeds (m >>= f) s P ↔ Succeeds m s fun a s' ↦ Succeeds (f a) s' P := by
  have hbind : (m >>= f) s = (m s).bind fun r ↦ f r.1 r.2 := rfl
  constructor
  · rintro ⟨b, t, ht, hq⟩
    cases hm : m s with
    | error e => rw [hbind, hm] at ht; cases ht
    | ok r =>
      rw [hbind, hm] at ht
      exact ⟨r.1, r.2, hm, b, t, ht, hq⟩
  · rintro ⟨a, s', hm, b, t, ht, hq⟩
    exact ⟨b, t, by rw [hbind, hm]; exact ht, hq⟩

@[simp]
theorem succeeds_get {Q : σ → σ → Prop} : Succeeds (get : Tx σ ε σ) s Q ↔ Q s s := by
  constructor
  · rintro ⟨a, s', hm, hq⟩
    cases hm
    exact hq
  · exact fun h ↦ ⟨s, s, rfl, h⟩

@[simp]
theorem succeeds_modify (f : σ → σ) {Q : Unit → σ → Prop} :
    Succeeds (modify f : Tx σ ε Unit) s Q ↔ Q () (f s) := by
  constructor
  · rintro ⟨a, s', hm, hq⟩
    cases hm
    exact hq
  · exact fun h ↦ ⟨(), f s, rfl, h⟩

@[simp]
theorem succeeds_check (r : Except ε α) :
    Succeeds (check r : Tx σ ε α) s Q ↔ ∃ a, r = .ok a ∧ Q a s := by
  cases r with
  | error e =>
    constructor
    · rintro ⟨a, s', hm, -⟩
      cases hm
    · rintro ⟨a, h, -⟩
      cases h
  | ok a =>
    constructor
    · rintro ⟨b, s', hm, hq⟩
      cases hm
      exact ⟨a, rfl, hq⟩
    · rintro ⟨b, h, hq⟩
      cases h
      exact ⟨a, s, rfl, hq⟩

@[simp]
theorem not_succeeds_throw (e : ε) : ¬Succeeds (throw e : Tx σ ε α) s Q := by
  rintro ⟨a, s', hm, -⟩
  cases hm

end Succeeds

/-- Every successful run of `m` moves the store along `R`. -/
def Moves (R : σ → σ → Prop) (m : Tx σ ε α) : Prop :=
  ∀ s, Ensures m s fun _ s' ↦ R s s'

section Moves

variable {R R' : σ → σ → Prop} {m : Tx σ ε α}

theorem Moves.mono (h : Moves R m) (hR : ∀ s s', R s s' → R' s s') : Moves R' m :=
  fun s ↦ (h s).mono fun _ _ ↦ hR _ _

theorem moves_pure [Std.Refl R] (a : α) : Moves R (pure a : Tx σ ε α) :=
  fun s ↦ (ensures_pure a).2 (refl_of R s)

theorem moves_get [Std.Refl R] : Moves R (get : Tx σ ε σ) :=
  fun s ↦ ensures_get.2 (refl_of R s)

theorem moves_check [Std.Refl R] (r : Except ε α) : Moves R (check r : Tx σ ε α) :=
  fun s ↦ (ensures_check r).2 fun _ _ ↦ refl_of R s

theorem moves_throw (e : ε) : Moves R (throw e : Tx σ ε α) :=
  fun _ ↦ (ensures_throw e).2 trivial

theorem moves_ite {c : Prop} [Decidable c] {m' : Tx σ ε α} (h : c → Moves R m)
    (h' : ¬c → Moves R m') : Moves R (if c then m else m') :=
  fun s ↦ (ensures_ite c m').2 ⟨fun hc ↦ h hc s, fun hc ↦ h' hc s⟩

theorem moves_bind [IsTrans σ R] {f : α → Tx σ ε β} (h : Moves R m) (hf : ∀ a, Moves R (f a)) :
    Moves R (m >>= f) := by
  intro s
  rw [ensures_bind]
  exact (h s).mono fun a s' hs ↦ (hf a s').mono fun _ _ ↦ trans_of R hs

theorem moves_forM [Std.Refl R] [IsTrans σ R] {f : β → Tx σ ε Unit} (l : List β)
    (hf : ∀ x ∈ l, Moves R (f x)) : Moves R (l.forM f) := by
  induction l with
  | nil => exact fun s ↦ (ensures_pure _).2 (refl_of R s)
  | cons x l ih =>
    simp only [List.forM_eq_forM, List.forM_cons]
    exact moves_bind (hf x (by simp)) fun _ ↦ ih fun y hy ↦ hf y (by simp [hy])

end Moves

theorem ensures_forM {f : β → Tx σ ε Unit} {I : σ → Prop} (l : List β) {s : σ} (hs : I s)
    (hf : ∀ x ∈ l, ∀ s, I s → Ensures (f x) s fun _ s' ↦ I s') :
    Ensures (l.forM f) s fun _ s' ↦ I s' := by
  induction l generalizing s with
  | nil => exact (ensures_pure _).2 hs
  | cons x l ih =>
    simp only [List.forM_eq_forM, List.forM_cons, ensures_bind]
    exact (hf x (by simp) s hs).mono fun _ _ hs' ↦ ih hs' fun y hy ↦ hf y (by simp [hy])

theorem ensures_forM_rest {f : β → Tx σ ε Unit} {I : List β → σ → Prop} (l : List β) {s : σ}
    (hs : I l s) (hf : ∀ x l s, I (x :: l) s → Ensures (f x) s fun _ s' ↦ I l s') :
    Ensures (l.forM f) s fun _ s' ↦ I [] s' := by
  induction l generalizing s with
  | nil => exact (ensures_pure _).2 hs
  | cons x l ih =>
    simp only [List.forM_eq_forM, List.forM_cons, ensures_bind]
    exact (hf x l s hs).mono fun _ _ hs' ↦ ih hs'

/-- A loop with an accumulator keeps an invariant of what is left of its list. -/
theorem ensures_foldlM {f : α → β → Tx σ ε α} {I : List β → α → σ → Prop} (l : List β) {a : α}
    {s : σ} (hs : I l a s) (hf : ∀ x l a s, I (x :: l) a s → Ensures (f a x) s (I l)) :
    Ensures (l.foldlM f a) s (I []) := by
  induction l generalizing a s with
  | nil => exact (ensures_pure a).2 hs
  | cons x l ih =>
    rw [List.foldlM_cons, ensures_bind]
    exact (hf x l a s hs).mono fun _ _ hs' ↦ ih hs'

end SlipScan.Foundation.Transaction
