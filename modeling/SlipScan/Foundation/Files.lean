import SlipScan.Foundation.Faults

namespace SlipScan.Foundation.Interleaving

open Transaction

variable {σ ρ ε α β : Type}

section Survives

open Process

variable {I I' : σ → Prop} {Q Q' : Except ε α → σ → Prop} {p : Process σ ρ ε α} {s : σ}

theorem Process.Survives.and (h : p.Survives s I Q) (h' : p.Survives s I' Q') :
    p.Survives s (fun t ↦ I t ∧ I' t) fun r t ↦ Q r t ∧ Q' r t := by
  induction p generalizing s with
  | done a => exact ⟨h, h'⟩
  | fail e => exact ⟨h, h'⟩
  | read g next ih => exact ih _ h h'
  | transact held body next ih =>
    exact ⟨⟨h.1, h'.1⟩, fun e ↦ ih _ (h.2.1 e) (h'.2.1 e), ih _ h.2.2 h'.2.2⟩

theorem Process.Keeps.of_run {R : σ → σ → Prop} (h : p.Keeps R) {x : Except ε α} {t : σ}
    (hrun : p.run s = (x, t)) : R s t := by
  have hexec := h.exec (fun _ ↦ .commits) s
  rwa [exec_of_commits, hrun] at hexec

/-- A program that succeeds only when none of its writes was refused. -/
def Process.Brittle (p : Process σ ρ ε α) : Prop :=
  ∀ s, p.Survives s (fun _ ↦ True) fun r t ↦ ∀ a, r = .ok a → p.run s = (.ok a, t)

theorem brittle_pure (a : α) : (pure a : Process σ ρ ε α).Brittle :=
  fun _ _ ha ↦ by cases ha; rfl

theorem brittle_fail (e : ε) : (fail e : Process σ ρ ε α).Brittle :=
  fun _ _ ha ↦ by cases ha

theorem brittle_ofExcept (r : Except ε α) : (ofExcept r : Process σ ρ ε α).Brittle := by
  cases r with
  | ok a => exact brittle_pure a
  | error e => exact brittle_fail e

theorem brittle_query (g : σ → β) : (query g : Process σ ρ ε β).Brittle :=
  fun _ _ ha ↦ by cases ha; rfl

theorem brittle_atomically {held : List ρ} {body : Tx σ ε α} :
    (atomically held body : Process σ ρ ε α).Brittle := by
  intro s
  refine ⟨trivial, fun e ↦ (survives_ofExcept _).2 ?_, (survives_ofExcept _).2 ?_⟩
  · rintro a ⟨⟩
  · intro a ha
    rw [run_atomically, ← ha]

theorem Process.Brittle.bind {f : α → Process σ ρ ε β} (hp : p.Brittle) (hf : ∀ a, (f a).Brittle) :
    (p >>= f).Brittle := by
  intro s
  rw [survives_bind]
  refine (hp s).mono (fun _ _ ↦ trivial) fun r t hr ↦ ?_
  cases r with
  | error e => exact fun b hb ↦ by cases hb
  | ok a =>
    refine (hf a t).mono (fun _ _ ↦ trivial) fun r' u hr' b hb ↦ ?_
    rw [run_bind_of_ok (hr a rfl)]
    exact hr' b hb

/-- A program that ends with an error does not succeed. -/
theorem brittle_bind_error {e : ε} :
    (p >>= fun _ ↦ (ofExcept (.error e) : Process σ ρ ε β)).Brittle := by
  intro s
  have hall : ∀ (q : Process σ ρ ε α) (s : σ) {Q : Except ε α → σ → Prop}, (∀ r t, Q r t) →
      q.Survives s (fun _ ↦ True) Q := by
    intro q
    induction q with
    | done a => exact fun s _ hQ ↦ hQ _ s
    | fail e => exact fun s _ hQ ↦ hQ _ s
    | read g next ih => exact fun s _ hQ ↦ ih _ _ hQ
    | transact held body next ih => exact fun s _ hQ ↦ ⟨trivial, fun e ↦ ih _ _ hQ, ih _ _ hQ⟩
  refine (survives_bind _).2 (hall p s fun r t ↦ ?_)
  cases r with
  | error e' => exact fun b hb ↦ by cases hb
  | ok a => exact fun b hb ↦ by cases hb

theorem Process.Brittle.ite {c : Prop} [Decidable c] {p' : Process σ ρ ε α} (hp : c → p.Brittle)
    (hp' : ¬c → p'.Brittle) : (if c then p else p').Brittle := by
  split
  · exact hp ‹_›
  · exact hp' ‹_›

/-- What a brittle program that keeps `R` leaves: it ends as its run does, or it fails or stops
along `R`. -/
theorem Process.Brittle.survives {R : σ → σ → Prop} (hp : p.Brittle) (hR : p.Keeps R) (s : σ)
    {I : σ → Prop} {Q : Except ε α → σ → Prop} (hI : ∀ t, R s t → I t)
    (herror : ∀ e t, R s t → Q (.error e) t)
    (hok : ∀ a t, R s t → p.run s = (.ok a, t) → Q (.ok a) t) : p.Survives s I Q := by
  refine ((hR s).and (hp s)).mono (fun t ht ↦ hI t ht.1) fun r t hrt ↦ ?_
  cases r with
  | error e => exact herror e t hrt.1
  | ok a => exact hok a t hrt.1 (hrt.2 a rfl)

end Survives

section Attains

open Process

variable {I : σ → Prop} {P P' : α → σ → Prop} {Q : β → σ → Prop} {p : Process σ ρ ε α}
  {f : α → Process σ ρ ε β} {s : σ}

/-- Whatever its writes meet, the program keeps `I`, and when it succeeds then with `P`. -/
def Process.Attains (p : Process σ ρ ε α) (s : σ) (I : σ → Prop) (P : α → σ → Prop) : Prop :=
  p.Survives s I fun r t ↦ I t ∧ ∀ a, r = .ok a → P a t

theorem Process.Attains.mono (h : p.Attains s I P) (hP : ∀ a t, I t → P a t → P' a t) :
    p.Attains s I P' :=
  Process.Survives.mono h (fun _ ht ↦ ht) fun _ _ ht ↦ ⟨ht.1, fun a ha ↦ hP a _ ht.1 (ht.2 a ha)⟩

theorem Process.Attains.weaken {I' : σ → Prop} (h : p.Attains s I P) (hI : ∀ t, I t → I' t) :
    p.Attains s I' P :=
  Process.Survives.mono h hI fun _ t ht ↦ ⟨hI t ht.1, ht.2⟩

theorem Process.Attains.and {I' : σ → Prop} (h : p.Attains s I P) (h' : p.Attains s I' P') :
    p.Attains s (fun t ↦ I t ∧ I' t) fun a t ↦ P a t ∧ P' a t :=
  Process.Survives.mono (Process.Survives.and h h') (fun _ ht ↦ ht) fun _ _ ht ↦
    ⟨⟨ht.1.1, ht.2.1⟩, fun a ha ↦ ⟨ht.1.2 a ha, ht.2.2 a ha⟩⟩

theorem Process.Attains.keep (h : p.Attains s I P) : p.Attains s I fun a t ↦ I t ∧ P a t :=
  h.mono fun _ _ hI hP ↦ ⟨hI, hP⟩

theorem Process.Attains.exec_store (h : p.Attains s I P) (fates : Fates ε) :
    I (p.exec fates s).2.1 :=
  exec_store_of_survives (Process.Survives.mono h (fun _ ht ↦ ht) fun _ _ ht ↦ ht.1) fates

theorem Process.Attains.of_run (h : p.Attains s I P) {a : α} {t : σ} (hrun : p.run s = (.ok a, t)) :
    I t ∧ P a t := by
  have hexec := exec_of_survives h fun _ ↦ .commits
  rw [exec_of_commits, hrun] at hexec
  exact ⟨hexec.1, hexec.2 a rfl⟩

theorem attains_pure {a : α} (hI : I s) (hP : P a s) :
    (pure a : Process σ ρ ε α).Attains s I P :=
  ⟨hI, fun _ hb ↦ by cases hb; exact hP⟩

theorem attains_ofExcept {r : Except ε α} (hI : I s) (hP : ∀ a, r = .ok a → P a s) :
    (ofExcept r : Process σ ρ ε α).Attains s I P :=
  (survives_ofExcept r).2 ⟨hI, hP⟩

theorem attains_error {e : ε} (hI : I s) :
    (ofExcept (.error e) : Process σ ρ ε α).Attains s I P :=
  attains_ofExcept hI fun _ ha ↦ by cases ha

theorem Process.Attains.bind (hp : p.Attains s I P)
    (hf : ∀ a t, I t → P a t → (f a).Attains t I Q) : (p >>= f).Attains s I Q := by
  rw [Attains, survives_bind]
  refine Process.Survives.mono hp (fun _ ht ↦ ht) fun r t ht ↦ ?_
  cases r with
  | error e => exact ⟨ht.1, fun b hb ↦ by cases hb⟩
  | ok a => exact hf a t ht.1 (ht.2 a rfl)

/-- What comes before a last part that leaves `I`. -/
theorem Process.Attains.bind_survives {J : σ → Prop} {R : Except ε β → σ → Prop}
    (hp : p.Attains s I P) (hI : ∀ t, I t → J t) (herror : ∀ e t, I t → R (.error e) t)
    (hf : ∀ a t, I t → P a t → (f a).Survives t J R) : (p >>= f).Survives s J R := by
  rw [survives_bind]
  refine Process.Survives.mono hp hI fun r t ht ↦ ?_
  cases r with
  | error e => exact herror e t ht.1
  | ok a => exact hf a t ht.1 (ht.2 a rfl)

theorem attains_query_bind (g : σ → α) (hf : (f (g s)).Attains s I Q) :
    (query g >>= f).Attains s I Q :=
  hf

theorem attains_ofExcept_bind {r : Except ε α} (hI : I s)
    (hf : ∀ a, r = .ok a → (f a).Attains s I Q) : (ofExcept r >>= f).Attains s I Q :=
  (attains_ofExcept hI fun _ ha ↦ ⟨rfl, ha⟩ : (ofExcept r : Process σ ρ ε α).Attains s I
    fun a t ↦ t = s ∧ r = .ok a).bind fun a _ _ ht ↦ ht.1 ▸ hf a ht.2

theorem Process.Attains.ite {c : Prop} [Decidable c] {p' : Process σ ρ ε α}
    (hp : c → p.Attains s I P) (hp' : ¬c → p'.Attains s I P) :
    (if c then p else p').Attains s I P :=
  Process.Survives.ite hp hp'

theorem Process.Attains.attempt {P : Except ε α → σ → Prop}
    (hp : p.Survives s I fun r t ↦ I t ∧ P r t) : p.attempt.Attains s I P :=
  survives_attempt.2 (Process.Survives.mono hp (fun _ ht ↦ ht) fun _ _ ht ↦
    ⟨ht.1, fun _ ha ↦ by cases ha; exact ht.2⟩)

theorem attains_atomically {held : List ρ} {body : Tx σ ε α} (hI : I s)
    (hbody : Ensures body s fun a t ↦ I t ∧ P a t) :
    (atomically held body : Process σ ρ ε α).Attains s I P :=
  survives_atomically hI (fun _ ↦ ⟨hI, fun _ ha ↦ by cases ha⟩) (hbody.mono fun _ _ ht ↦
    ⟨ht.1, fun _ ha ↦ by cases ha; exact ht.2⟩)

theorem Process.Keeps.attains {R : σ → σ → Prop} (hp : p.Keeps R) (hI : ∀ t, R s t → I t) :
    p.Attains s I fun _ t ↦ R s t :=
  (hp s).mono hI fun _ t ht ↦ ⟨hI t ht, fun _ _ ↦ ht⟩

theorem Process.Brittle.attains {R : σ → σ → Prop} (hp : p.Brittle) (hR : p.Keeps R)
    (hI : ∀ t, R s t → I t) :
    p.Attains s I fun a t ↦ R s t ∧ p.run s = (.ok a, t) :=
  hp.survives hR s hI (fun _ t ht ↦ ⟨hI t ht, fun _ ha ↦ by cases ha⟩) fun a t ht hrun ↦
    ⟨hI t ht, fun _ ha ↦ by cases ha; exact ⟨ht, hrun⟩⟩

theorem Process.Brittle.attains_attempt {R : σ → σ → Prop} (hp : p.Brittle) (hR : p.Keeps R)
    (hI : ∀ t, R s t → I t) :
    p.attempt.Attains s I fun r t ↦ R s t ∧ ∀ a, r = .ok a → p.run s = (.ok a, t) :=
  Process.Attains.attempt <| hp.survives hR s hI
    (fun _ t ht ↦ ⟨hI t ht, ht, fun _ ha ↦ by cases ha⟩) fun a t ht hrun ↦
      ⟨hI t ht, ht, fun _ hb ↦ by cases hb; exact hrun⟩

end Attains

section Completes

open Process

variable {P P' : α → σ → Prop} {Q : β → σ → Prop} {p : Process σ ρ ε α} {f : α → Process σ ρ ε β}
  {s : σ}

def Process.Completes (p : Process σ ρ ε α) (s : σ) (P : α → σ → Prop) : Prop :=
  ∃ a t, p.run s = (.ok a, t) ∧ P a t

theorem Process.Completes.mono (h : p.Completes s P) (hP : ∀ a t, P a t → P' a t) :
    p.Completes s P' := by
  obtain ⟨a, t, hrun, ht⟩ := h
  exact ⟨a, t, hrun, hP a t ht⟩

theorem completes_of_run {a : α} {t : σ} (hrun : p.run s = (.ok a, t)) :
    p.Completes s fun b u ↦ b = a ∧ u = t :=
  ⟨a, t, hrun, rfl, rfl⟩

theorem completes_pure {a : α} (hP : P a s) : (pure a : Process σ ρ ε α).Completes s P :=
  ⟨a, s, rfl, hP⟩

theorem Process.Completes.bind (hp : p.Completes s P) (hf : ∀ a t, P a t → (f a).Completes t Q) :
    (p >>= f).Completes s Q := by
  obtain ⟨a, t, hrun, ht⟩ := hp
  obtain ⟨b, u, hrun', hu⟩ := hf a t ht
  exact ⟨b, u, (run_bind_of_ok hrun).trans hrun', hu⟩

theorem completes_query_bind (g : σ → α) (hf : (f (g s)).Completes s Q) :
    (query g >>= f).Completes s Q :=
  hf

theorem completes_ofExcept_bind {r : Except ε α} {a : α} (hr : r = .ok a)
    (hf : (f a).Completes s Q) : (ofExcept r >>= f).Completes s Q := by
  rw [hr]
  exact hf

theorem Process.Completes.attempt_bind {f : Except ε α → Process σ ρ ε β} (hp : p.Completes s P)
    (hf : ∀ a t, P a t → (f (.ok a)).Completes t Q) : (p.attempt >>= f).Completes s Q := by
  obtain ⟨a, t, hrun, ht⟩ := hp
  have hattempt : p.attempt.run s = (.ok (.ok a), t) := by
    rw [run_attempt, hrun]
  obtain ⟨b, u, hrun', hu⟩ := hf a t ht
  exact ⟨b, u, (run_bind_of_ok hattempt).trans hrun', hu⟩

theorem completes_atomically {held : List ρ} {body : Tx σ ε α} (hbody : Succeeds body s P) :
    (atomically held body : Process σ ρ ε α).Completes s P := by
  obtain ⟨a, t, hrun, ht⟩ := hbody
  refine ⟨a, t, ?_, ht⟩
  rw [run_atomically, commit_of_ok hrun]

/-- What a program attains and keeps holds when it completes. -/
theorem Process.Completes.attains {I : σ → Prop} (hp : p.Completes s P) (h : p.Attains s I P') :
    p.Completes s fun a t ↦ P a t ∧ I t ∧ P' a t := by
  obtain ⟨a, t, hrun, ht⟩ := hp
  exact ⟨a, t, hrun, ht, h.of_run hrun⟩

theorem Process.Completes.keeps {R : σ → σ → Prop} (hp : p.Completes s P) (h : p.Keeps R) :
    p.Completes s fun a t ↦ P a t ∧ R s t := by
  obtain ⟨a, t, hrun, ht⟩ := hp
  exact ⟨a, t, hrun, ht, h.of_run hrun⟩

end Completes

end SlipScan.Foundation.Interleaving

namespace SlipScan.Foundation.Files

open Interleaving Transaction

abbrev Bytes := List UInt8

structure Disk (κ : Type) where
  files : List (κ × Bytes) := []

variable {κ : Type} [DecidableEq κ] {ρ ε : Type}

namespace Disk

def read (d : Disk κ) (k : κ) : Option Bytes :=
  (d.files.find? fun f ↦ f.1 = k).map Prod.snd

def write (d : Disk κ) (k : κ) (content : Bytes) : Disk κ :=
  ⟨(k, content) :: d.files.filter fun f ↦ f.1 ≠ k⟩

def remove (d : Disk κ) (k : κ) : Disk κ :=
  ⟨d.files.filter fun f ↦ f.1 ≠ k⟩

def rename (d : Disk κ) (k k' : κ) : Disk κ :=
  match d.read k with
  | none => d
  | some content => (d.remove k).write k' content

def list (d : Disk κ) (p : κ → Bool) : List κ :=
  (d.files.map Prod.fst).filter p

variable {d : Disk κ} {k k' : κ} {content content' : Bytes}

theorem read_remove : (d.remove k).read k' = if k' = k then none else d.read k' := by
  obtain ⟨files⟩ := d
  simp only [read, remove]
  induction files with
  | nil => simp
  | cons f files ih =>
    by_cases hf : f.1 = k
    · rw [List.filter_cons_of_neg (by simpa using hf), ih, List.find?_cons]
      by_cases hk : k' = k
      · rw [if_pos hk, if_pos hk]
      · rw [if_neg hk, if_neg hk]
        have hne : ¬f.1 = k' := fun heq ↦ hk (heq.symm.trans hf)
        simp [hne]
    · rw [List.filter_cons_of_pos (by simpa using hf), List.find?_cons, List.find?_cons]
      by_cases hk' : f.1 = k'
      · have hne : ¬k' = k := fun heq ↦ hf (hk'.trans heq)
        simp [hk', hne]
      · simpa [hk'] using ih

@[simp]
theorem read_remove_self : (d.remove k).read k = none := by
  rw [read_remove, if_pos rfl]

theorem read_remove_of_ne (hk : k' ≠ k) : (d.remove k).read k' = d.read k' := by
  rw [read_remove, if_neg hk]

@[simp]
theorem read_write_self : (d.write k content).read k = some content := by
  simp [read, write]

theorem read_write_of_ne (hk : k' ≠ k) : (d.write k content).read k' = d.read k' := by
  rw [← read_remove_of_ne (d := d) hk, read, write, List.find?_cons_of_neg (by simpa using hk.symm)]
  rfl

theorem remove_of_none (hk : d.read k = none) : d.remove k = d := by
  rw [read, Option.map_eq_none_iff, List.find?_eq_none] at hk
  rw [remove, List.filter_eq_self.2 (by simpa using hk)]

theorem read_foldl_remove {files : List κ} :
    (files.foldl remove d).read k = if k ∈ files then none else d.read k := by
  induction files generalizing d with
  | nil => simp
  | cons f files ih =>
    rw [List.foldl_cons, ih, read_remove]
    by_cases hmem : k ∈ files
    · simp [hmem]
    · simp [hmem]

theorem write_write : (d.write k content).write k content' = d.write k content' := by
  simp [write, List.filter_filter]

theorem read_rename_of_ne {old : κ} (hk : k' ≠ k) (hold : k' ≠ old) :
    (d.rename old k).read k' = d.read k' := by
  unfold rename
  split
  · rfl
  · rw [read_write_of_ne hk, read_remove_of_ne hold]

theorem read_rename_self {old : κ} (hcontent : d.read old = some content) :
    (d.rename old k).read k = some content := by
  rw [rename, hcontent, read_write_self]

theorem mem_list {p : κ → Bool} : k ∈ d.list p ↔ (d.read k).isSome ∧ p k := by
  rw [list, List.mem_filter, read, Option.isSome_map, List.find?_isSome]
  simp

end Disk

def Spares (P : κ → Prop) (d d' : Disk κ) : Prop :=
  ∀ k, P k → d'.read k = d.read k

instance isPreorder_spares (P : κ → Prop) : IsPreorder (Disk κ) (Spares P) where
  refl _ _ _ := rfl
  trans _ _ _ h h' k hk := (h' k hk).trans (h k hk)

section Programs

open Process

variable {P : κ → Prop} {k k' : κ} {content : Bytes} {d : Disk κ}

/-- Writes the bytes one after the other, so that it can stop at any of them. -/
def append (k : κ) : Bytes → Process (Disk κ) ρ ε Unit
  | [] => pure ()
  | b :: rest => do
    Process.atomically [] (modify fun d ↦ d.write k ((d.read k).getD [] ++ [b]))
    append k rest

def writeFile (k : κ) (content : Bytes) : Process (Disk κ) ρ ε Unit := do
  Process.atomically [] (modify fun d ↦ d.write k [])
  append k content

def removeFile (k : κ) : Process (Disk κ) ρ ε Unit :=
  Process.atomically [] (modify fun d ↦ d.remove k)

def renameFile (k k' : κ) : Process (Disk κ) ρ ε Unit :=
  Process.atomically [] (modify fun d ↦ d.rename k k')

def touch : Process (Disk κ) ρ ε Unit :=
  Process.atomically [] (pure ())

theorem spares_write (hk : ¬P k) (d : Disk κ) (content : Bytes) : Spares P d (d.write k content) :=
  fun _ hP ↦ Disk.read_write_of_ne fun heq ↦ hk (heq ▸ hP)

theorem spares_remove (hk : ¬P k) (d : Disk κ) : Spares P d (d.remove k) :=
  fun _ hP ↦ Disk.read_remove_of_ne fun heq ↦ hk (heq ▸ hP)

theorem spares_rename (hk : ¬P k) (hk' : ¬P k') (d : Disk κ) : Spares P d (d.rename k k') :=
  fun _ hP ↦ Disk.read_rename_of_ne (fun heq ↦ hk' (heq ▸ hP)) fun heq ↦ hk (heq ▸ hP)

omit [DecidableEq κ] in
theorem keeps_modify {R : Disk κ → Disk κ → Prop} [IsPreorder (Disk κ) R] {f : Disk κ → Disk κ}
    (hf : ∀ d, R d (f d)) : (Process.atomically [] (modify f) : Process (Disk κ) ρ ε Unit).Keeps R :=
  keeps_atomically fun d ↦ (ensures_modify f).2 (hf d)

theorem keeps_append (hk : ¬P k) (content : Bytes) :
    (append k content : Process (Disk κ) ρ ε Unit).Keeps (Spares P) := by
  induction content with
  | nil => exact keeps_pure ()
  | cons b rest ih => exact (keeps_modify fun d ↦ spares_write hk d _).bind fun _ ↦ ih

theorem keeps_writeFile (hk : ¬P k) (content : Bytes) :
    (writeFile k content : Process (Disk κ) ρ ε Unit).Keeps (Spares P) :=
  (keeps_modify fun d ↦ spares_write hk d _).bind fun _ ↦ keeps_append hk content

theorem keeps_removeFile (hk : ¬P k) :
    (removeFile k : Process (Disk κ) ρ ε Unit).Keeps (Spares P) :=
  keeps_modify fun d ↦ spares_remove hk d

theorem keeps_renameFile (hk : ¬P k) (hk' : ¬P k') :
    (renameFile k k' : Process (Disk κ) ρ ε Unit).Keeps (Spares P) :=
  keeps_modify fun d ↦ spares_rename hk hk' d

omit [DecidableEq κ] in
theorem keeps_touch {R : Disk κ → Disk κ → Prop} [IsPreorder (Disk κ) R] :
    (touch : Process (Disk κ) ρ ε Unit).Keeps R :=
  keeps_atomically fun d ↦ (ensures_pure ()).2 (refl_of R d)

theorem brittle_append (content : Bytes) :
    (append k content : Process (Disk κ) ρ ε Unit).Brittle := by
  induction content with
  | nil => exact brittle_pure ()
  | cons b rest ih => exact brittle_atomically.bind fun _ ↦ ih

theorem brittle_writeFile (content : Bytes) :
    (writeFile k content : Process (Disk κ) ρ ε Unit).Brittle :=
  brittle_atomically.bind fun _ ↦ brittle_append content

theorem run_append (rest : Bytes) (d : Disk κ) (content : Bytes) :
    (append k rest : Process (Disk κ) ρ ε Unit).run (d.write k content) =
      (.ok (), d.write k (content ++ rest)) := by
  induction rest generalizing content with
  | nil =>
    rw [List.append_nil]
    rfl
  | cons b rest ih =>
    have hstep : (Process.atomically [] (modify fun d : Disk κ ↦
        d.write k ((d.read k).getD [] ++ [b])) : Process (Disk κ) ρ ε Unit).run
          (d.write k content) = (.ok (), d.write k (content ++ [b])) := by
      change (Except.ok (), (d.write k content).write k
        (((d.write k content).read k).getD [] ++ [b])) = _
      rw [Disk.write_write, Disk.read_write_self]
      rfl
    rw [append, run_bind_of_ok hstep, ih, List.append_assoc]
    rfl

theorem run_writeFile (d : Disk κ) (content : Bytes) :
    (writeFile k content : Process (Disk κ) ρ ε Unit).run d = (.ok (), d.write k content) :=
  run_append content d []

theorem run_removeFile (d : Disk κ) :
    (removeFile k : Process (Disk κ) ρ ε Unit).run d = (.ok (), d.remove k) :=
  rfl

theorem run_renameFile (d : Disk κ) :
    (renameFile k k' : Process (Disk κ) ρ ε Unit).run d = (.ok (), d.rename k k') :=
  rfl

omit [DecidableEq κ] in
theorem run_touch (d : Disk κ) : (touch : Process (Disk κ) ρ ε Unit).run d = (.ok (), d) :=
  rfl

end Programs

end SlipScan.Foundation.Files
