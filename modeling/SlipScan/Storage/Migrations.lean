import SlipScan.Foundation.Connections
import SlipScan.Model.Migrations

namespace SlipScan.Storage.Migrations

open Model.Migrations Foundation.Transaction Foundation.Interleaving Process

variable {S ι : Type} {ms pre rest : List (Migration S)} {m : Migration S} {App : S → S → Prop}
  {k k₀ : ℕ} {s₀ : S} {s t : SchemaDb S} {nowIso : String} {v latest : ℤ}

section History

/-- How a schema came about from that of an older file: each script that was still to run has run
once and in its turn, and no program wrote before the last of them. -/
inductive Built (ms : List (Migration S)) (App : S → S → Prop) (k₀ : ℕ) (s₀ : S) : ℕ → S → Prop
  | start : Built ms App k₀ s₀ k₀ s₀
  | script {k s s' m} (hbuilt : Built ms App k₀ s₀ k s) (hm : ms[k]? = some m)
      (hscript : m.script s = .ok s') : Built ms App k₀ s₀ (k + 1) s'
  | write {s s'} (hbuilt : Built ms App k₀ s₀ ms.length s) (hwrite : App s s') :
      Built ms App k₀ s₀ ms.length s'

def versions (s : SchemaDb S) : List ℤ :=
  (s.schemaMigrations.getD []).map AppliedRow.version

def Migrated (ms : List (Migration S)) (App : S → S → Prop) (k₀ : ℕ) (s₀ : S) (s : SchemaDb S) :
    Prop :=
  ∃ k, k ≤ ms.length ∧ versions s = (ms.take k).map Migration.version ∧
    Built ms App k₀ s₀ k s.schema

structure Numbered (ms : List (Migration S)) : Prop where
  ascending : (ms.map Migration.version).Pairwise (· < ·)
  positive : ∀ m ∈ ms, 0 < m.version

theorem numbered_migrations (script : String → S → Except String S) :
    Numbered (migrations script) := by
  refine ⟨List.pairwise_iff_getElem.2 fun i j hi hj hij ↦ ?_, ?_⟩
  · simp only [migrations, List.getElem_map, List.getElem_mapIdx]
    omega
  · intro m hm
    obtain ⟨i, hi, rfl⟩ := List.mem_mapIdx.1 hm
    dsimp only
    omega

end History

section Order

theorem Numbered.nodup (hms : Numbered ms) : (ms.map Migration.version).Nodup :=
  hms.ascending.imp fun hlt ↦ hlt.ne

theorem length_le_of_subset_take {l : List ℤ} (l' : List ℤ) (hl : l.Nodup)
    (hsub : ∀ a ∈ l, a ∈ l'.take k) :
    l.length ≤ k :=
  (List.subperm_of_subset hl hsub).length_le.trans (List.length_take_le k l')

/-- The migration of which all earlier ones have run is the next. -/
theorem next_of_pre {l l' : List ℤ} (hd : (l ++ v :: l').Nodup)
    (hpre : ∀ a ∈ l, a ∈ (l ++ v :: l').take k) (hv : v ∉ (l ++ v :: l').take k) :
    k = l.length := by
  refine le_antisymm ?_ (length_le_of_subset_take _ hd.of_append_left hpre)
  by_contra hlt
  refine hv ?_
  obtain ⟨n, hn⟩ : ∃ n, k - l.length = n + 1 := ⟨k - l.length - 1, by omega⟩
  rw [List.take_append, hn, List.take_succ_cons]
  simp

/-- What was applied before the latest number is all that is not past it. -/
theorem mem_take_of_le_latest (hms : Numbered ms) (hm : m ∈ ms)
    (hle : m.version ≤ ((ms.map Migration.version).take k).getLast?.getD 0) :
    m.version ∈ (ms.map Migration.version).take k := by
  have hversion : m.version ∈ ms.map Migration.version := List.mem_map_of_mem hm
  rw [← List.take_append_drop k (ms.map Migration.version), List.mem_append] at hversion
  obtain hin | hout := hversion
  · exact hin
  · exfalso
    cases hlast : ((ms.map Migration.version).take k).getLast? with
    | none =>
      rw [hlast, Option.getD_none] at hle
      exact absurd (hms.positive m hm) (not_lt.2 hle)
    | some last =>
      rw [hlast, Option.getD_some] at hle
      have hasc := hms.ascending
      rw [← List.take_append_drop k (ms.map Migration.version), List.pairwise_append] at hasc
      exact absurd (hasc.2.2 last (List.mem_of_getLast? hlast) _ hout) (not_lt.2 hle)

theorem le_latest {l : List ℤ} (hl : l.Pairwise (· < ·)) (hv : v ∈ l) :
    v ≤ l.getLast?.getD 0 := by
  obtain ⟨init, last, rfl⟩ := (List.eq_nil_or_concat' l).resolve_left (List.ne_nil_of_mem hv)
  rw [List.getLast?_concat, Option.getD_some]
  obtain hin | hlast := List.mem_append.1 hv
  · exact ((List.pairwise_append.1 hl).2.2 v hin last List.mem_cons_self).le
  · exact (List.mem_singleton.1 hlast).le

end Order

section Turns

/-- What other processes do to the file while one is at work. -/
def Shares (ms : List (Migration S)) (App : S → S → Prop) (k₀ : ℕ) (s₀ : S) (s t : SchemaDb S) :
    Prop :=
  (Migrated ms App k₀ s₀ s → Migrated ms App k₀ s₀ t) ∧ ∀ v ∈ versions s, v ∈ versions t

instance isPreorder_shares : IsPreorder (SchemaDb S) (Shares ms App k₀ s₀) where
  refl _ := ⟨id, fun _ hv ↦ hv⟩
  trans _ _ _ hst htu := ⟨fun hs ↦ htu.1 (hst.1 hs), fun v hv ↦ htu.2 v (hst.2 v hv)⟩

theorem shares_commit {α : Type} {body : Tx (SchemaDb S) MigrationFault α}
    (hbody : Ensures body s fun _ t ↦ Shares ms App k₀ s₀ s t) :
    Shares ms App k₀ s₀ s (commit body s).2 := by
  cases hb : body s with
  | ok r =>
    rw [commit_of_ok hb]
    exact hbody r.1 r.2 hb
  | error e =>
    rw [commit_of_error hb]
    exact refl_of (Shares ms App k₀ s₀) s

theorem ensures_create : Ensures createSchemaMigrations s fun _ t ↦ Shares ms App k₀ s₀ s t := by
  refine (ensures_modify _).2 ?_
  have hversions : versions (⟨some (s.schemaMigrations.getD []), s.schema⟩ : SchemaDb S) =
      versions s := rfl
  refine ⟨fun hs ↦ ?_, fun v hv ↦ hversions ▸ hv⟩
  obtain ⟨k, hk, hversions', hbuilt⟩ := hs
  exact ⟨k, hk, hversions.trans hversions', hbuilt⟩

theorem ensures_applyMigration (hms : Numbered ms) (hsplit : ms = pre ++ m :: rest)
    (hpre : ∀ p ∈ pre, p.version ∈ versions s) :
    Ensures (applyMigration nowIso m) s fun _ t ↦
      Shares ms App k₀ s₀ s t ∧ m.version ∈ versions t := by
  subst hsplit
  rw [applyMigration, ensures_bind, ensures_get]
  cases hscript : m.script s.schema with
  | error message => exact (ensures_throw _).2 trivial
  | ok schema =>
    rw [ensures_bind, ensures_modify, insertApplied, ensures_bind, ensures_get]
    dsimp only
    cases hrows : s.schemaMigrations with
    | none => exact (ensures_throw _).2 trivial
    | some rows =>
      refine (ensures_ite _ _).2 ⟨fun _ ↦ (ensures_throw _).2 trivial, fun hnew ↦ ?_⟩
      rw [ensures_modify]
      have hs : versions s = rows.map AppliedRow.version := by
        rw [versions, hrows, Option.getD_some]
      have ht : versions (⟨some (rows ++ [⟨m.version, m.name, nowIso⟩]), schema⟩ : SchemaDb S) =
          versions s ++ [m.version] := by
        rw [hs, versions, Option.getD_some, List.map_append]
        rfl
      refine ⟨⟨fun hmigrated ↦ ?_, fun v hv ↦ ?_⟩, ?_⟩
      · obtain ⟨k, hk, hversions, hbuilt⟩ := hmigrated
        rw [List.map_take] at hversions
        have hk' : k = pre.length := by
          have hd := hms.nodup
          rw [List.map_append, List.map_cons] at hd hversions
          refine (next_of_pre hd (fun v hv ↦ ?_) ?_).trans (List.length_map _)
          · obtain ⟨p, hp, rfl⟩ := List.mem_map.1 hv
            exact hversions ▸ hpre p hp
          · rw [← hversions, hs]
            exact hnew
        subst hk'
        refine ⟨pre.length + 1, by simp, ?_, hbuilt.script (by simp) hscript⟩
        rw [ht, hversions, ← List.map_take, List.take_left, List.take_length_add_append]
        simp
      · rw [ht]
        exact List.mem_append_left _ hv
      · rw [ht]
        simp

def Complete (ms : List (Migration S)) (s : SchemaDb S) : Prop :=
  ∀ m ∈ ms, m.version ∈ versions s

theorem meets_applyPending (hms : Numbered ms) (hsplit : ms = pre ++ rest)
    (hpre : ∀ p ∈ pre, p.version ∈ versions s)
    (hlatest : ∀ m ∈ ms, m.version ≤ latest → m.version ∈ versions s) :
    (applyPending nowIso latest rest).Meets (Shares ms App k₀ s₀)
      (fun _ ↦ Shares ms App k₀ s₀) s (OnSuccess fun _ t ↦ Complete ms t) := by
  induction rest generalizing pre s with
  | nil =>
    rw [List.append_nil] at hsplit
    rw [applyPending, meets_pure, onSuccess_ok]
    exact fun m hm ↦ hpre m (hsplit ▸ hm)
  | cons m rest ih =>
    have hsplit' : ms = (pre ++ [m]) ++ rest := by
      rw [hsplit, List.append_assoc, List.singleton_append]
    rw [applyPending]
    refine (meets_ite _ _).2 ⟨fun hle ↦ ?_, fun _ ↦ ?_⟩
    · refine ih hsplit' (fun p hp ↦ ?_) hlatest
      obtain hp | hp := List.mem_append.1 hp
      · exact hpre p hp
      · obtain rfl := List.mem_singleton.1 hp
        exact hlatest p (hsplit ▸ by simp) hle
    · rw [meets_bind, meets_atomically]
      intro t ht
      have hwrite : Ensures (applyMigration nowIso m) t fun _ u ↦
          Shares ms App k₀ s₀ t u ∧ m.version ∈ versions u :=
        ensures_applyMigration hms hsplit fun p hp ↦ ht.2 _ (hpre p hp)
      have hu := onSuccess_commit hwrite
      refine ⟨hwrite.mono fun _ u hu ↦ hu.1, continues_onSuccess.2 fun _ hok ↦ ?_⟩
      rw [hok, onSuccess_ok] at hu
      refine ih hsplit' (fun p hp ↦ ?_) fun p hp hle ↦ ?_
      · obtain hp | hp := List.mem_append.1 hp
        · exact hu.1.2 _ (ht.2 _ (hpre p hp))
        · obtain rfl := List.mem_singleton.1 hp
          exact hu.2
      · exact hu.1.2 _ (ht.2 _ (hlatest p hp hle))

theorem appliedVersions_eq_ok (hms : Numbered ms)
    (hs : versions s = (ms.take k).map Migration.version) {l : List ℤ}
    (hl : appliedVersions s = .ok l) : l = (ms.map Migration.version).take k := by
  rw [List.map_take] at hs
  have hsorted : ((ms.map Migration.version).take k).Pairwise (· ≤ ·) :=
    (hms.ascending.imp fun hlt ↦ hlt.le).sublist (List.take_sublist _ _)
  rw [appliedVersions] at hl
  cases hrows : s.schemaMigrations with
  | none => rw [hrows] at hl; cases hl
  | some rows =>
    rw [versions, hrows, Option.getD_some] at hs
    rw [hrows] at hl
    cases hl
    rw [hs]
    exact hsorted.insertionSort_eq

theorem meets_migrate (hms : Numbered ms) (hs : Migrated ms App k₀ s₀ s) :
    (migrate nowIso ms).Meets (Shares ms App k₀ s₀) (fun _ ↦ Shares ms App k₀ s₀) s
      (OnSuccess fun _ t ↦ Complete ms t) := by
  rw [migrate, meets_bind, meets_atomically]
  intro t ht
  have hcreate : Ensures createSchemaMigrations t fun _ u ↦ Shares ms App k₀ s₀ t u :=
    ensures_create
  have hu := onSuccess_commit hcreate
  refine ⟨hcreate, continues_onSuccess.2 fun _ hok ↦ ?_⟩
  rw [hok, onSuccess_ok] at hu
  rw [meets_bind, meets_query]
  intro w hw
  rw [continues_ok, meets_bind, meets_ofExcept, continues_onSuccess]
  intro applied happlied
  obtain ⟨k, -, hversions, -⟩ := hw.1 (hu.1 (ht.1 hs))
  obtain rfl := appliedVersions_eq_ok hms hversions happlied
  refine meets_applyPending hms rfl (fun _ hp ↦ absurd hp List.not_mem_nil) fun m hm hle ↦ ?_
  rw [hversions, List.map_take]
  exact mem_take_of_le_latest hms hm hle

end Turns

section Connections

def Writes (App : S → S → Prop) (_ : List Unit) (s t : SchemaDb S) : Prop :=
  t.schemaMigrations = s.schemaMigrations ∧ App s.schema t.schema

/-- On a complete schema a program may write. -/
theorem shares_of_writes (hms : Numbered ms) (hcomplete : Complete ms s) {held : List Unit}
    (hwrites : Writes App held s t) : Shares ms App k₀ s₀ s t := by
  have hversions : versions t = versions s := by
    rw [versions, versions, hwrites.1]
  refine ⟨fun hs ↦ ?_, fun v hv ↦ hversions ▸ hv⟩
  obtain ⟨k, hk, hs, hbuilt⟩ := hs
  have hlength : ms.length ≤ k := by
    rw [← List.length_map (f := Migration.version)]
    refine length_le_of_subset_take (ms.map Migration.version) hms.nodup fun v hv ↦ ?_
    obtain ⟨m, hm, rfl⟩ := List.mem_map.1 hv
    rw [← List.map_take, ← hs]
    exact hcomplete m hm
  obtain rfl : k = ms.length := le_antisymm hk hlength
  exact ⟨ms.length, le_rfl, hversions.trans hs, hbuilt.write hwrites.2⟩

theorem Complete.of_shares (hcomplete : Complete ms s) (hshares : Shares ms App k₀ s₀ s t) :
    Complete ms t := fun m hm ↦
  hshares.2 m.version (hcomplete m hm)

theorem meets_work (hms : Numbered ms) {α : Type} {p : MigrationCall S α}
    (hp : p.Within (Writes App)) (hcomplete : Complete ms s) :
    p.Guarantees (Shares ms App k₀ s₀) (fun _ ↦ Shares ms App k₀ s₀) s := by
  induction p generalizing s with
  | done a => exact (meets_done a).2 trivial
  | fail e => exact (meets_fail e).2 trivial
  | read g next ih =>
    refine (meets_read g next).2 fun t ht ↦ ?_
    exact ih _ ((within_read g next).1 hp _) (hcomplete.of_shares ht)
  | transact held body next ih =>
    obtain ⟨hbody, hnext⟩ := (within_transact held body next).1 hp
    refine (meets_transact held body next).2 fun t ht ↦ ?_
    have ht' : Complete ms t := hcomplete.of_shares ht
    have hbody' : Ensures body t fun _ u ↦ Shares ms App k₀ s₀ t u :=
      (hbody t).mono fun _ _ hwrites ↦ shares_of_writes hms ht' hwrites
    exact ⟨hbody', ih _ (hnext _) (ht'.of_shares (shares_commit hbody'))⟩

def connection {α : Type} (nowIso : String) (ms : List (Migration S)) (work : MigrationCall S α) :
    MigrationCall S α := do
  migrate nowIso ms
  work

theorem meets_connection (hms : Numbered ms) {α : Type} {work : MigrationCall S α}
    (hwork : work.Within (Writes App)) (hs : Migrated ms App k₀ s₀ s) :
    (connection nowIso ms work).Guarantees (Shares ms App k₀ s₀)
      (fun _ ↦ Shares ms App k₀ s₀) s := by
  rw [connection, Process.Guarantees, meets_bind]
  refine (meets_migrate hms hs).mono (fun _ _ _ h ↦ h) fun r t hr ↦ ?_
  rw [continues_true]
  rintro _ rfl
  exact meets_work hms hwork hr

def openings {α : Type} (ms : List (Migration S)) (s : SchemaDb S) (nowIso : ι → String)
    (work : ι → MigrationCall S α) : Config ι (SchemaDb S) Unit MigrationFault α :=
  .mk s fun i ↦ connection (nowIso i) ms (work i)

theorem shares_of_play [DecidableEq ι] {α : Type} (hms : Numbered ms) (nowIso : ι → String)
    {work : ι → MigrationCall S α} (hwork : ∀ i, (work i).Within (Writes App))
    (hs : Migrated ms App k₀ s₀ s) (is : List ι) :
    Shares ms App k₀ s₀ s ((openings ms s nowIso work).play is).store := by
  have hsupported : (openings ms s nowIso work).Supported (Shares ms App k₀ s₀)
      fun _ ↦ Shares ms App k₀ s₀ := fun i ↦
    ⟨s, refl_of _ s, meets_connection hms (hwork i) hs⟩
  have hsteps := hsupported.play (fun _ _ _ hstep ↦ hstep) (turns_true _ is)
  refine hsteps.rec (refl_of (Shares ms App k₀ s₀) s) fun _ hstep ih ↦ ?_
  obtain ⟨held, -, hstep⟩ := hstep
  exact trans_of (Shares ms App k₀ s₀) ih hstep

/-- Whichever programs open a file of an older version, however their turns interleave and
wherever they break off: each script runs once and in its turn, and no program writes before the
last of them. -/
theorem migrated_of_play [DecidableEq ι] {α : Type} (script : String → S → Except String S)
    (nowIso : ι → String) {work : ι → MigrationCall S α}
    (hwork : ∀ i, (work i).Within (Writes App)) (hk : k ≤ (migrations script).length)
    (hs : versions s = ((migrations script).take k).map Migration.version) (is : List ι) :
    Migrated (migrations script) App k s.schema
      ((openings (migrations script) s nowIso work).play is).store :=
  (shares_of_play (numbered_migrations script) nowIso hwork ⟨k, hk, hs, .start⟩ is).1
    ⟨k, hk, hs, .start⟩

def noting (name : String) (ran : List String) : Except String (List String) :=
  .ok (ran ++ [name])

def writing : MigrationCall (List String) Unit :=
  atomically [] (modify fun db ↦ { db with schema := db.schema ++ ["row"] })

theorem within_writing : writing.Within (Writes fun s t ↦ t = s ++ ["row"]) :=
  (within_atomically _ _).2 fun _ ↦ (ensures_modify _).2 ⟨rfl, rfl⟩

theorem migrated_of_play_two :
    Migrated (migrations noting) (fun s t ↦ t = s ++ ["row"]) 0 []
      ((openings (migrations noting) ⟨none, []⟩ (fun _ : Bool ↦ "2026-01-05T08:00:00Z")
        fun _ ↦ writing).play [false, true, false, true, false, false, true]).store :=
  migrated_of_play noting (fun _ ↦ "2026-01-05T08:00:00Z") (fun _ ↦ within_writing)
    (Nat.zero_le _) rfl [false, true, false, true, false, false, true]

end Connections

section Rerun

/-- Where a run of the migrations may end: past the last, or at one whose script fails. -/
def Ends (ms : List (Migration S)) (j : ℕ) (s : S) : Except MigrationFault Unit → Prop
  | .ok () => j = ms.length
  | .error fault => ∃ m message, ms[j]? = some m ∧ m.script s = .error message ∧
      fault = .migration m.version message

/-- The migrations run from the `k`-th on the schema `s`. -/
def RunFrom (ms : List (Migration S)) (k : ℕ) (s : S) (r : Except MigrationFault Unit)
    (t : SchemaDb S) : Prop :=
  ∃ j, k ≤ j ∧ versions t = (ms.take j).map Migration.version ∧
    ((ms.take j).drop k).foldlM (fun schema m ↦ m.script schema) s = .ok t.schema ∧
      Ends ms j t.schema r

theorem applyPending_skip (nowIso : String) (rest : List (Migration S)) {l : List (Migration S)}
    (hl : ∀ m ∈ l, m.version ≤ latest) :
    applyPending nowIso latest (l ++ rest) = applyPending nowIso latest rest := by
  induction l with
  | nil => rfl
  | cons m l ih =>
    rw [List.cons_append, applyPending, if_pos (hl m List.mem_cons_self),
      ih fun m' hm' ↦ hl m' (List.mem_cons_of_mem m hm')]

theorem applyMigration_of_ok {rows : List AppliedRow} {schema : S}
    (hrows : s.schemaMigrations = some rows) (hnew : m.version ∉ versions s)
    (hscript : m.script s.schema = .ok schema) :
    applyMigration nowIso m s =
      .ok ((), ⟨some (rows ++ [⟨m.version, m.name, nowIso⟩]), schema⟩) := by
  rw [versions, hrows, Option.getD_some] at hnew
  rw [applyMigration, bind_of_ok (s := s) (a := s) rfl, hscript]
  have hmodify : (modify fun db ↦ { db with schema } : Tx (SchemaDb S) MigrationFault Unit) s =
      .ok ((), ⟨s.schemaMigrations, schema⟩) := rfl
  have hget : (get : Tx (SchemaDb S) MigrationFault (SchemaDb S)) ⟨s.schemaMigrations, schema⟩ =
      .ok (⟨s.schemaMigrations, schema⟩, ⟨s.schemaMigrations, schema⟩) := rfl
  refine (bind_of_ok hmodify _).trans ?_
  rw [insertApplied, bind_of_ok hget]
  dsimp only
  rw [hrows]
  dsimp only
  rw [if_neg hnew]
  rfl

theorem applyMigration_of_error {message : String} (hscript : m.script s.schema = .error message) :
    applyMigration nowIso m s = .error (.migration m.version message) := by
  rw [applyMigration, bind_of_ok (s := s) (a := s) rfl, hscript]
  rfl

theorem applyPending_run (hms : Numbered ms) (hk : k ≤ ms.length)
    (hlatest : ∀ m ∈ ms.drop k, latest < m.version) {rows : List AppliedRow}
    (hrows : s.schemaMigrations = some rows)
    (hs : versions s = (ms.take k).map Migration.version) :
    RunFrom ms k s.schema ((applyPending nowIso latest (ms.drop k)).run s).1
      ((applyPending nowIso latest (ms.drop k)).run s).2 := by
  obtain ⟨rest, hrest⟩ : ∃ rest, ms.drop k = rest := ⟨_, rfl⟩
  rw [hrest] at hlatest ⊢
  induction rest generalizing k s rows with
  | nil =>
    have hlength : k = ms.length := le_antisymm hk (List.drop_eq_nil_iff.1 hrest)
    refine ⟨k, le_rfl, hs, ?_, hlength⟩
    rw [List.drop_take_self]
    rfl
  | cons m rest ih =>
    have hm : ms[k]? = some m := by
      rw [← List.head?_drop, hrest, List.head?_cons]
    have hrest' : ms.drop (k + 1) = rest := by
      rw [← List.drop_drop, hrest, List.drop_one, List.tail_cons]
    have htake : ms.take (k + 1) = ms.take k ++ [m] := by
      rw [List.take_add_one, hm, Option.toList_some]
    have hlt : k < ms.length := by
      by_contra hle
      rw [List.getElem?_eq_none (not_lt.1 hle)] at hm
      cases hm
    have hnew : m.version ∉ versions s := by
      have hd := hms.nodup
      rw [← List.take_append_drop k ms, hrest, List.map_append, List.map_cons,
        List.nodup_append] at hd
      rw [hs]
      exact fun hin ↦ hd.2.2 _ hin _ List.mem_cons_self rfl
    rw [applyPending, if_neg (not_le.2 (hlatest m List.mem_cons_self)), run_bind, run_atomically]
    cases hscript : m.script s.schema with
    | error message =>
      rw [commit_of_error (applyMigration_of_error hscript)]
      refine ⟨k, le_rfl, hs, ?_, m, message, hm, hscript, rfl⟩
      rw [List.drop_take_self]
      rfl
    | ok schema =>
      rw [commit_of_ok (applyMigration_of_ok hrows hnew hscript)]
      dsimp only
      have hversions : versions ⟨some (rows ++ [⟨m.version, m.name, nowIso⟩]), schema⟩ =
          (ms.take (k + 1)).map Migration.version := by
        rw [versions, hrows, Option.getD_some] at hs
        rw [htake, List.map_append, ← hs, versions, Option.getD_some, List.map_append]
        rfl
      obtain ⟨j, hj, hversions', hscripts, hends⟩ := ih hlt rfl hversions
        (fun m' hm' ↦ hlatest m' (List.mem_cons_of_mem m hm')) hrest'
      refine ⟨j, by omega, hversions', ?_, hends⟩
      have hcons : (ms.take j).drop k = m :: (ms.take j).drop (k + 1) := by
        have hj' : (ms.take j)[k]? = some m := by
          rw [List.getElem?_take_of_lt (by omega), hm]
        obtain ⟨hlt', hget⟩ := List.getElem?_eq_some_iff.1 hj'
        rw [List.drop_eq_getElem_cons hlt', hget]
      rw [hcons, List.foldlM_cons, hscript]
      exact hscripts

theorem appliedVersions_of_versions (hms : Numbered ms) {rows : List AppliedRow}
    (hrows : s.schemaMigrations = some rows)
    (hs : versions s = (ms.take k).map Migration.version) :
    appliedVersions s = .ok ((ms.map Migration.version).take k) := by
  cases hl : appliedVersions s with
  | ok l => rw [appliedVersions_eq_ok hms hs hl]
  | error e =>
    rw [appliedVersions, hrows] at hl
    cases hl

/-- A run alone picks up after the last recorded migration, whatever kept the others from
running, and it ends at the first script that fails or with all of them. -/
theorem runFrom_migrate (hms : Numbered ms) (hk : k ≤ ms.length)
    (hs : versions s = (ms.take k).map Migration.version) :
    RunFrom ms k s.schema ((migrate nowIso ms).run s).1 ((migrate nowIso ms).run s).2 := by
  have hcreate : commit createSchemaMigrations s =
      (.ok (), ⟨some (s.schemaMigrations.getD []), s.schema⟩) := rfl
  have hs' : versions (⟨some (s.schemaMigrations.getD []), s.schema⟩ : SchemaDb S) =
      (ms.take k).map Migration.version := hs
  rw [migrate, run_bind_of_ok (hcreate ▸ run_atomically _ _ _), run_query_bind,
    appliedVersions_of_versions hms rfl hs', run_bind, run_ofExcept]
  dsimp only
  have hlast : ∀ m ∈ ms.take k, m.version ≤
      ((ms.map Migration.version).take k).getLast?.getD 0 := by
    intro m hm
    exact le_latest (hms.ascending.sublist (List.take_sublist k _))
      (List.map_take ▸ List.mem_map_of_mem hm)
  have hafter : ∀ m ∈ ms.drop k,
      ((ms.map Migration.version).take k).getLast?.getD 0 < m.version := by
    intro m hm
    by_contra hle
    have hin := mem_take_of_le_latest hms (List.mem_of_mem_drop hm) (not_lt.1 hle)
    have hd := hms.nodup
    rw [← List.take_append_drop k (ms.map Migration.version), List.nodup_append] at hd
    exact hd.2.2 _ hin _ (List.map_drop ▸ List.mem_map_of_mem hm) rfl
  have hskip := applyPending_skip nowIso (ms.drop k) hlast
  rw [List.take_append_drop] at hskip
  rw [hskip]
  exact applyPending_run hms hk hafter rfl hs'

/-- However the programs that opened a file broke off, the next to open it goes on with the
script after the last that is recorded. -/
theorem migrate_of_play [DecidableEq ι] {α : Type} (script : String → S → Except String S)
    (nowIso : ι → String) (now : String) {work : ι → MigrationCall S α}
    (hwork : ∀ i, (work i).Within (Writes App)) (hk : k ≤ (migrations script).length)
    (hs : versions s = ((migrations script).take k).map Migration.version) (is : List ι) :
    ∃ n t, ((openings (migrations script) s nowIso work).play is).store = t ∧
      versions t = ((migrations script).take n).map Migration.version ∧
        Built (migrations script) App k s.schema n t.schema ∧
          RunFrom (migrations script) n t.schema ((migrate now (migrations script)).run t).1
            ((migrate now (migrations script)).run t).2 := by
  have hms : Numbered (migrations script) := numbered_migrations script
  obtain ⟨n, hn, hversions, hbuilt⟩ := (shares_of_play hms nowIso hwork
    ⟨k, hk, hs, .start⟩ is).1 ⟨k, hk, hs, .start⟩
  exact ⟨n, _, rfl, hversions, hbuilt, runFrom_migrate hms hn hversions⟩

theorem migrate_of_play_two :
    ∃ n t, ((openings (migrations noting) ⟨none, []⟩ (fun _ : Bool ↦ "2026-01-05T08:00:00Z")
        fun _ ↦ writing).play [false, true, false, true, false]).store = t ∧
      versions t = ((migrations noting).take n).map Migration.version ∧
        Built (migrations noting) (fun s t ↦ t = s ++ ["row"]) 0 [] n t.schema ∧
          RunFrom (migrations noting) n t.schema
            ((migrate "2026-01-06T08:00:00Z" (migrations noting)).run t).1
            ((migrate "2026-01-06T08:00:00Z" (migrations noting)).run t).2 :=
  migrate_of_play noting (fun _ ↦ "2026-01-05T08:00:00Z") "2026-01-06T08:00:00Z"
    (fun _ ↦ within_writing) (Nat.zero_le _) rfl [false, true, false, true, false]

end Rerun

end SlipScan.Storage.Migrations
