import SlipScan.Foundation.Faults

namespace SlipScan.Foundation.Interleaving

open Relation Transaction Process

variable {σ ρ ε α β : Type}

/-- What programs meet: how others change the store between their accesses, and which fates the
writes with the given labels may have besides going through. -/
structure Surroundings (σ ρ ε : Type) where
  others : σ → σ → Prop
  faults : List ρ → Fate ε → Prop

structure Moment (σ ρ ε α : Type) : Type 1 where
  store : σ
  program : Option (Process σ ρ ε α)

section Steps

variable (W : Surroundings σ ρ ε)

inductive Advances : Process σ ρ ε α × σ → Process σ ρ ε α × σ → Prop
  | others {p : Process σ ρ ε α} {s t : σ} : W.others s t → Advances (p, s) (p, t)
  | reads {β : Type} {g : σ → β} {next : β → Process σ ρ ε α} {s : σ} :
    Advances (.read g next, s) (next (g s), s)
  | commits {β : Type} {held : List ρ} {body : Tx σ ε β} {next : Except ε β → Process σ ρ ε α}
    {s : σ} :
    Advances (.transact held body next, s) (next (commit body s).1, (commit body s).2)
  | refuses {β : Type} {held : List ρ} {body : Tx σ ε β} {next : Except ε β → Process σ ρ ε α}
    {s : σ} {e : ε} : W.faults held (.refused e) →
    Advances (.transact held body next, s) (next (.error e), s)

def Process.MayStop : Process σ ρ ε α → Prop
  | .transact held _ _ => W.faults held .stops
  | _ => True

/-- One of the programs starts, it advances, and it ends or stops, after which one starts again. -/
inductive Moment.Happens (rounds : Process σ ρ ε α → Prop) :
    Moment σ ρ ε α → Moment σ ρ ε α → Prop
  | others {s t : σ} : W.others s t → Happens rounds ⟨s, none⟩ ⟨t, none⟩
  | starts {p : Process σ ρ ε α} {s : σ} : rounds p → Happens rounds ⟨s, none⟩ ⟨s, some p⟩
  | advances {p q : Process σ ρ ε α} {s t : σ} : Advances W (p, s) (q, t) →
    Happens rounds ⟨s, some p⟩ ⟨t, some q⟩
  | done {a : α} {s : σ} : Happens rounds ⟨s, some (.done a)⟩ ⟨s, none⟩
  | fails {e : ε} {s : σ} : Happens rounds ⟨s, some (.fail e)⟩ ⟨s, none⟩
  | stops {p : Process σ ρ ε α} {s : σ} : p.MayStop W → Happens rounds ⟨s, some p⟩ ⟨s, none⟩

end Steps

section Endures

/-- The program ends with `Q`, `I` holds before each of its accesses and `S` wherever it may stop. -/
def Process.Endures (W : Surroundings σ ρ ε) (I S : σ → Prop) :
    Process σ ρ ε α → σ → (Except ε α → σ → Prop) → Prop
  | .done a, s, Q => Q (.ok a) s
  | .fail e, s, Q => Q (.error e) s
  | .read g next, s, Q => ∀ t, W.others s t → I t ∧ S t ∧ (next (g t)).Endures W I S t Q
  | .transact held body next, s, Q => ∀ t, W.others s t →
      (I t ∧ (W.faults held .stops → S t)) ∧
        (∀ e, W.faults held (.refused e) → (next (.error e)).Endures W I S t Q) ∧
          (next (commit body t).1).Endures W I S (commit body t).2 Q

variable {W : Surroundings σ ρ ε} {I S : σ → Prop} {Q Q' : Except ε α → σ → Prop}
  {p : Process σ ρ ε α} {s t : σ}

theorem Process.Endures.mono {I' S' : σ → Prop} (h : p.Endures W I S s Q) (hI : ∀ t, I t → I' t)
    (hS : ∀ t, S t → S' t) (hQ : ∀ r t, Q r t → Q' r t) : p.Endures W I' S' s Q' := by
  induction p generalizing s with
  | done a => exact hQ _ _ h
  | fail e => exact hQ _ _ h
  | read g next ih =>
    exact fun t ht ↦ ⟨hI t (h t ht).1, hS t (h t ht).2.1, ih _ (h t ht).2.2⟩
  | transact held body next ih =>
    intro t ht
    obtain ⟨⟨hhere, hstops⟩, hrefused, hcommits⟩ := h t ht
    exact ⟨⟨hI t hhere, fun hfault ↦ hS t (hstops hfault)⟩, fun e he ↦ ih _ (hrefused e he),
      ih _ hcommits⟩

theorem Process.Endures.post (h : p.Endures W I S s Q) (hQ : ∀ r t, Q r t → Q' r t) :
    p.Endures W I S s Q' :=
  h.mono (fun _ hI ↦ hI) (fun _ hS ↦ hS) hQ

theorem Process.Endures.and {I' S' : σ → Prop} (h : p.Endures W I S s Q)
    (h' : p.Endures W I' S' s Q') :
    p.Endures W (fun t ↦ I t ∧ I' t) (fun t ↦ S t ∧ S' t) s fun r t ↦ Q r t ∧ Q' r t := by
  induction p generalizing s with
  | done a => exact ⟨h, h'⟩
  | fail e => exact ⟨h, h'⟩
  | read g next ih =>
    intro t ht
    obtain ⟨hI, hS, hnext⟩ := h t ht
    obtain ⟨hI', hS', hnext'⟩ := h' t ht
    exact ⟨⟨hI, hI'⟩, ⟨hS, hS'⟩, ih _ hnext hnext'⟩
  | transact held body next ih =>
    intro t ht
    obtain ⟨hhere, hrefused, hcommits⟩ := h t ht
    obtain ⟨hhere', hrefused', hcommits'⟩ := h' t ht
    exact ⟨⟨⟨hhere.1, hhere'.1⟩, fun hstops ↦ ⟨hhere.2 hstops, hhere'.2 hstops⟩⟩,
      fun e he ↦ ih _ (hrefused e he) (hrefused' e he), ih _ hcommits hcommits'⟩

@[simp]
theorem endures_pure (a : α) : (pure a : Process σ ρ ε α).Endures W I S s Q ↔ Q (.ok a) s :=
  Iff.rfl

@[simp]
theorem endures_fail (e : ε) : (fail e : Process σ ρ ε α).Endures W I S s Q ↔ Q (.error e) s :=
  Iff.rfl

@[simp]
theorem endures_bind {R : Except ε β → σ → Prop} (f : α → Process σ ρ ε β) :
    (p >>= f).Endures W I S s R ↔
      p.Endures W I S s (Continues R fun a t ↦ (f a).Endures W I S t R) := by
  change (p.bind f).Endures W I S s R ↔ _
  induction p generalizing s with
  | done a => exact Iff.rfl
  | fail e => exact Iff.rfl
  | read g next ih =>
    exact forall₂_congr fun t _ ↦ and_congr Iff.rfl (and_congr Iff.rfl (ih _))
  | transact held body next ih =>
    exact forall₂_congr fun t _ ↦
      and_congr Iff.rfl (and_congr (forall₂_congr fun e _ ↦ ih _) (ih _))

theorem endures_bind_post {R : Except ε β → σ → Prop} {f : α → Process σ ρ ε β}
    (hp : p.Endures W I S s Q) (herror : ∀ e t, Q (.error e) t → R (.error e) t)
    (hok : ∀ a t, Q (.ok a) t → (f a).Endures W I S t R) : (p >>= f).Endures W I S s R := by
  refine (endures_bind f).2 (hp.post fun r t ht ↦ ?_)
  cases r with
  | error e => exact herror e t ht
  | ok a => exact hok a t ht

/-- Programs that keep what holds wherever they may stop, one after the other. -/
theorem endures_bind_keep {f : α → Process σ ρ ε β} (hp : p.Endures W I S s fun _ ↦ S)
    (hf : ∀ a t, S t → (f a).Endures W I S t fun _ ↦ S) :
    (p >>= f).Endures W I S s fun _ ↦ S :=
  endures_bind_post hp (fun _ _ ht ↦ ht) hf

@[simp]
theorem endures_ofExcept (r : Except ε α) :
    (ofExcept r : Process σ ρ ε α).Endures W I S s Q ↔ Q r s := by
  cases r <;> exact Iff.rfl

@[simp]
theorem endures_attempt {R : Except ε (Except ε α) → σ → Prop} :
    p.attempt.Endures W I S s R ↔ p.Endures W I S s fun r t ↦ R (.ok r) t := by
  induction p generalizing s with
  | done a => exact Iff.rfl
  | fail e => exact Iff.rfl
  | read g next ih =>
    exact forall₂_congr fun t _ ↦ and_congr Iff.rfl (and_congr Iff.rfl (ih _))
  | transact held body next ih =>
    exact forall₂_congr fun t _ ↦
      and_congr Iff.rfl (and_congr (forall₂_congr fun e _ ↦ ih _) (ih _))

theorem endures_attempt_bind {R : Except ε β → σ → Prop} {f : Except ε α → Process σ ρ ε β}
    (hp : p.Endures W I S s Q) (hf : ∀ r t, Q r t → (f r).Endures W I S t R) :
    (p.attempt >>= f).Endures W I S s R :=
  (endures_bind f).2 (endures_attempt.2 (hp.post hf))

theorem Process.Endures.ite {c : Prop} [Decidable c] {p' : Process σ ρ ε α}
    (hp : c → p.Endures W I S s Q) (hp' : ¬c → p'.Endures W I S s Q) :
    (if c then p else p').Endures W I S s Q := by
  split
  · exact hp ‹_›
  · exact hp' ‹_›

theorem endures_query_bind {g : σ → β} {f : β → Process σ ρ ε α}
    (h : ∀ t, W.others s t → I t ∧ S t ∧ (f (g t)).Endures W I S t Q) :
    (query g >>= f).Endures W I S s Q :=
  h

theorem endures_ofExcept_bind {r : Except ε β} {f : β → Process σ ρ ε α}
    (herror : ∀ e, r = .error e → Q (.error e) s)
    (hok : ∀ b, r = .ok b → (f b).Endures W I S s Q) :
    (ofExcept r >>= f).Endures W I S s Q := by
  cases r with
  | error e => exact herror e rfl
  | ok b => exact hok b rfl

/-- A write goes through, or it leaves the store as it was. -/
theorem endures_atomically {held : List ρ} {body : Tx σ ε α}
    (hhere : ∀ t, W.others s t → I t ∧ (W.faults held .stops → S t))
    (hrefused : ∀ t, W.others s t → ∀ e, W.faults held (.refused e) → Q (.error e) t)
    (herror : ∀ t, W.others s t → ∀ e, body t = .error e → Q (.error e) t)
    (hok : ∀ t, W.others s t → Ensures body t fun a u ↦ Q (.ok a) u) :
    (atomically held body : Process σ ρ ε α).Endures W I S s Q := by
  refine fun t ht ↦ ⟨hhere t ht, fun e he ↦ (endures_ofExcept _).2 (hrefused t ht e he),
    (endures_ofExcept _).2 ?_⟩
  cases hbody : body t with
  | error e =>
    rw [commit_of_error hbody]
    exact herror t ht e hbody
  | ok r =>
    rw [commit_of_ok hbody]
    exact hok t ht r.1 r.2 hbody

/-- What others and all writes of the program keep holds at every moment of the program. -/
theorem Process.Within.endures {R : List ρ → σ → σ → Prop} {A : σ → Prop} (hp : p.Within R)
    (hs : A s) (hA : ∀ s, A s → I s ∧ S s) (hothers : ∀ s t, A s → W.others s t → A t)
    (hR : ∀ held s t, A s → R held s t → A t) : p.Endures W I S s fun _ ↦ A := by
  induction p generalizing s with
  | done a => exact hs
  | fail e => exact hs
  | read g next ih =>
    intro t ht
    have hkept := hothers s t hs ht
    exact ⟨(hA t hkept).1, (hA t hkept).2, ih _ ((within_read _ _).1 hp _) hkept⟩
  | transact held body next ih =>
    intro t ht
    rw [within_transact] at hp
    have hkept := hothers s t hs ht
    have hcommit : A (commit body t).2 := by
      cases hb : body t with
      | ok r => exact commit_of_ok hb ▸ hR held t r.2 hkept (hp.1 t r.1 r.2 hb)
      | error e => exact commit_of_error hb ▸ hkept
    exact ⟨⟨(hA t hkept).1, fun _ ↦ (hA t hkept).2⟩, fun e _ ↦ ih _ (hp.2 _) hkept,
      ih _ (hp.2 _) hcommit⟩

theorem endures_trivial {W : Surroundings σ ρ ε} {p : Process σ ρ ε α} {s : σ} :
    p.Endures W (fun _ ↦ True) (fun _ ↦ True) s fun _ _ ↦ True := by
  induction p generalizing s with
  | done a => trivial
  | fail e => trivial
  | read g next ih => exact fun t _ ↦ ⟨trivial, trivial, ih _⟩
  | transact held body next ih => exact fun t _ ↦ ⟨⟨trivial, fun _ ↦ trivial⟩, fun e _ ↦ ih _, ih _⟩

end Endures

section Moments

variable {W : Surroundings σ ρ ε} {I S : σ → Prop} {Q : Except ε α → σ → Prop}
  {rounds : Process σ ρ ε α → Prop} {m m' : Moment σ ρ ε α}

/-- Whatever the program meets, it goes on enduring it. -/
theorem endures_advances [IsPreorder σ W.others] {c c' : Process σ ρ ε α × σ} {s : σ}
    (hs : W.others s c.2) (hp : c.1.Endures W I S s Q) (h : Advances W c c') :
    ∃ t, W.others t c'.2 ∧ c'.1.Endures W I S t Q := by
  cases h with
  | others ht => exact ⟨s, trans_of W.others hs ht, hp⟩
  | reads => exact ⟨_, refl_of W.others _, (hp _ hs).2.2⟩
  | commits => exact ⟨_, refl_of W.others _, (hp _ hs).2.2⟩
  | refuses he => exact ⟨_, refl_of W.others _, (hp _ hs).2.1 _ he⟩

theorem endures_runs [IsPreorder σ W.others] {c c' : Process σ ρ ε α × σ} {s : σ}
    (hs : W.others s c.2) (hp : c.1.Endures W I S s Q) (h : ReflTransGen (Advances W) c c') :
    ∃ t, W.others t c'.2 ∧ c'.1.Endures W I S t Q := by
  induction h with
  | refl => exact ⟨s, hs, hp⟩
  | tail _ hstep ih =>
    obtain ⟨t, ht, hnext⟩ := ih
    exact endures_advances ht hnext hstep

/-- What is known of a moment: of a store on which nothing runs `S`, and a running program endures
what it meets. -/
def Moment.Keeps (W : Surroundings σ ρ ε) (I S : σ → Prop) (m : Moment σ ρ ε α) : Prop :=
  match m.program with
  | none => S m.store
  | some p => ∃ s, W.others s m.store ∧ p.Endures W I S s fun _ ↦ S

structure Invariant (W : Surroundings σ ρ ε) (I S : σ → Prop) : Prop where
  weaker : ∀ s, S s → I s
  others : ∀ s t, S s → W.others s t → S t

theorem Moment.Keeps.store (hinv : Invariant W I S) (hm : m.Keeps W I S) : I m.store := by
  obtain ⟨s, _ | p⟩ := m
  · exact hinv.weaker s hm
  · obtain ⟨t, ht, hp⟩ := hm
    cases p with
    | done a => exact hinv.weaker s (hinv.others t s hp ht)
    | fail e => exact hinv.weaker s (hinv.others t s hp ht)
    | read g next => exact (hp s ht).1
    | transact held body next => exact (hp s ht).1.1

theorem Moment.Keeps.happens [IsPreorder σ W.others] (hinv : Invariant W I S)
    (hrounds : ∀ p, rounds p → ∀ s, S s → p.Endures W I S s fun _ ↦ S) (hm : m.Keeps W I S)
    (h : m.Happens W rounds m') : m'.Keeps W I S := by
  cases h with
  | others ht => exact hinv.others _ _ hm ht
  | starts hp => exact ⟨_, refl_of W.others _, hrounds _ hp _ hm⟩
  | advances hstep =>
    obtain ⟨s, hs, hp⟩ := hm
    exact endures_advances hs hp hstep
  | done =>
    obtain ⟨s, hs, hp⟩ := hm
    exact hinv.others _ _ hp hs
  | fails =>
    obtain ⟨s, hs, hp⟩ := hm
    exact hinv.others _ _ hp hs
  | @stops p t hstops =>
    obtain ⟨s, hs, hp⟩ := hm
    cases p with
    | done a => exact hinv.others _ _ hp hs
    | fail e => exact hinv.others _ _ hp hs
    | read g next => exact (hp t hs).2.1
    | transact held body next => exact (hp t hs).1.2 hstops

theorem keeps_of_happens [IsPreorder σ W.others] (hinv : Invariant W I S)
    (hrounds : ∀ p, rounds p → ∀ s, S s → p.Endures W I S s fun _ ↦ S) (hm : m.Keeps W I S)
    (h : ReflTransGen (Moment.Happens W rounds) m m') : m'.Keeps W I S := by
  induction h with
  | refl => exact hm
  | tail _ hstep ih => exact ih.happens hinv hrounds hstep

def Process.Meetable (W : Surroundings σ ρ ε) : Process σ ρ ε α → Fates ε → σ → Prop
  | .done _, _, _ => True
  | .fail _, _, _ => True
  | .read g next, fates, s => (next (g s)).Meetable W fates s
  | .transact held body next, fates, s =>
    match fates 0 with
    | .commits => (next (commit body s).1).Meetable W fates.next (commit body s).2
    | .refused e => W.faults held (.refused e) ∧ (next (.error e)).Meetable W fates.next s
    | .stops => W.faults held .stops

/-- A program that others leave alone runs to its end, or stops. -/
theorem happens_exec_of_running {p : Process σ ρ ε α} {fates : Fates ε} {s : σ}
    (hfates : p.Meetable W fates s) : ReflTransGen (Moment.Happens W rounds) ⟨s, some p⟩
      ⟨(p.exec fates s).2.1, none⟩ := by
  induction p generalizing fates s with
  | done a => exact .single .done
  | fail e => exact .single .fails
  | read g next ih => exact .head (.advances .reads) (ih _ hfates)
  | transact held body next ih =>
    rw [Process.Meetable] at hfates
    rw [exec]
    cases hfate : fates 0 with
    | commits =>
      rw [hfate] at hfates
      exact .head (.advances .commits) (ih _ hfates)
    | refused e =>
      rw [hfate] at hfates
      exact .head (.advances (.refuses hfates.1)) (ih _ hfates.2)
    | stops =>
      rw [hfate] at hfates
      exact .single (.stops (p := transact held body next) hfates)

theorem happens_exec {p : Process σ ρ ε α} (hp : rounds p) {fates : Fates ε} {s : σ}
    (hfates : p.Meetable W fates s) :
    ReflTransGen (Moment.Happens W rounds) ⟨s, none⟩ ⟨(p.exec fates s).2.1, none⟩ :=
  .head (.starts hp) (happens_exec_of_running hfates)

/-- A program may be stopped wherever every one of its writes may be. -/
theorem meetable_of_stops (hstops : ∀ held, W.faults held .stops) {fates : Fates ε}
    (hfates : ∀ n, fates n = .commits ∨ fates n = .stops) (p : Process σ ρ ε α) (s : σ) :
    p.Meetable W fates s := by
  induction p generalizing fates s with
  | done a => trivial
  | fail e => trivial
  | read g next ih => exact ih _ hfates s
  | transact held body next ih =>
    rw [Process.Meetable]
    rcases hfates 0 with hfate | hfate
    · rw [hfate]
      exact ih _ (fun n ↦ hfates (n + 1)) _
    · rw [hfate]
      exact hstops held

theorem meetable_of_commits (p : Process σ ρ ε α) (s : σ) :
    p.Meetable W (fun _ ↦ .commits) s := by
  induction p generalizing s with
  | done a => trivial
  | fail e => trivial
  | read g next ih => exact ih _ s
  | transact held body next ih => exact ih _ _

/-- A program that meets nothing runs to its end. -/
theorem happens_run {p : Process σ ρ ε α} (hp : rounds p) (s : σ) :
    ReflTransGen (Moment.Happens W rounds) ⟨s, none⟩ ⟨(p.run s).2, none⟩ := by
  have hrun := happens_exec (W := W) hp (meetable_of_commits p s)
  rwa [exec_of_commits] at hrun

theorem advances_run (p : Process σ ρ ε α) (s : σ) :
    ReflTransGen (Advances W) (p, s) (ofExcept (p.run s).1, (p.run s).2) := by
  induction p generalizing s with
  | done a => exact .refl
  | fail e => exact .refl
  | read g next ih => exact .head .reads (ih _ s)
  | transact held body next ih => exact .head .commits (ih _ _)

end Moments

section Movement

variable {W : Surroundings σ ρ ε} {G : σ → σ → Prop} [IsPreorder σ G]
  {rounds : Process σ ρ ε α → Prop} {m m' : Moment σ ρ ε α}

def Moment.Within (G : σ → σ → Prop) (m : Moment σ ρ ε α) : Prop :=
  ∀ p ∈ m.program, p.Within fun _ ↦ G

omit [IsPreorder σ G] in
theorem moves_commit [Std.Refl G] {body : Tx σ ε β} (hbody : Moves G body) (s : σ) :
    G s (commit body s).2 := by
  cases hb : body s with
  | ok r => exact commit_of_ok hb ▸ hbody s r.1 r.2 hb
  | error e => exact commit_of_error hb ▸ refl_of G s

theorem within_happens (hothers : ∀ s t, W.others s t → G s t)
    (hrounds : ∀ p, rounds p → p.Within fun _ ↦ G) (hm : m.Within G)
    (h : m.Happens W rounds m') : m'.Within G ∧ G m.store m'.store := by
  cases h with
  | others ht => exact ⟨hm, hothers _ _ ht⟩
  | starts hp => exact ⟨fun q hq ↦ Option.mem_some_iff.1 hq ▸ hrounds _ hp, refl_of G _⟩
  | done => exact ⟨nofun, refl_of G _⟩
  | fails => exact ⟨nofun, refl_of G _⟩
  | stops => exact ⟨nofun, refl_of G _⟩
  | advances hstep =>
    have hp := hm _ rfl
    cases hstep with
    | others ht => exact ⟨hm, hothers _ _ ht⟩
    | reads =>
      exact ⟨fun q hq ↦ Option.mem_some_iff.1 hq ▸ (within_read _ _).1 hp _, refl_of G _⟩
    | refuses =>
      exact ⟨fun q hq ↦ Option.mem_some_iff.1 hq ▸ ((within_transact _ _ _).1 hp).2 _, refl_of G _⟩
    | commits =>
      rw [within_transact] at hp
      exact ⟨fun q hq ↦ Option.mem_some_iff.1 hq ▸ hp.2 _, moves_commit hp.1 _⟩

/-- Along every run of programs that move the store along a preorder the store moves along it. -/
theorem moves_of_happens (hothers : ∀ s t, W.others s t → G s t)
    (hrounds : ∀ p, rounds p → p.Within fun _ ↦ G) (hm : m.Within G)
    (h : ReflTransGen (Moment.Happens W rounds) m m') : m'.Within G ∧ G m.store m'.store := by
  induction h with
  | refl => exact ⟨hm, refl_of G _⟩
  | tail _ hstep ih =>
    obtain ⟨hmid, hG⟩ := ih
    obtain ⟨hend, hG'⟩ := within_happens hothers hrounds hmid hstep
    exact ⟨hend, trans_of G hG hG'⟩

end Movement

-- The rules above take a program apart. Unfolding it would evaluate the checks of its parts.
attribute [irreducible] Process.Endures

end SlipScan.Foundation.Interleaving
