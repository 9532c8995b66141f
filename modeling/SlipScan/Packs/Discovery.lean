import SlipScan.Foundation.Transaction
import SlipScan.Model.PackTransport

namespace SlipScan.Packs.Discovery

open Model.PackTransport Foundation.Transaction Foundation.WorkLists

section Entries

variable {dir path : String} {signer : Option String} {d d' d'' : Discovery} {entry : IndexEntry}
  {entries : List IndexEntry} {name : String}

def Distinct (d : Discovery) : Prop :=
  d.entries.map (·.document) = d.seenDocs ∧ d.seenDocs.Nodup

structure Extends (d d' : Discovery) : Prop where
  pending : d'.pending = d.pending
  loaded : d'.loaded = d.loaded
  seenDocs : d.seenDocs ⊆ d'.seenDocs
  distinct : Distinct d → Distinct d'

theorem Extends.refl (d : Discovery) : Extends d d :=
  ⟨rfl, rfl, List.Subset.refl _, id⟩

theorem Extends.trans (h : Extends d d') (h' : Extends d' d'') : Extends d d'' where
  pending := h'.pending.trans h.pending
  loaded := h'.loaded.trans h.loaded
  seenDocs := List.Subset.trans h.seenDocs h'.seenDocs
  distinct hd := h'.distinct (h.distinct hd)

theorem extends_add {document : String} {listed : CatalogEntry}
    (hlisted : listed.document = document) (hnew : document ∉ d.seenDocs) :
    Extends d
      { d with seenDocs := d.seenDocs ++ [document], entries := d.entries ++ [listed] } where
  pending := rfl
  loaded := rfl
  seenDocs := List.subset_append_left _ _
  distinct hd := by
    refine ⟨?_, ?_⟩
    · rw [List.map_append, hd.1, ← hlisted]
      rfl
    · rw [← List.concat_eq_append]
      exact hd.2.concat hnew

theorem addEntry_spec (hrun : addEntry dir signer d entry = .ok d') :
    Extends d d' ∧ ∃ document, locate dir entry.document = .ok document ∧
      document ∈ d'.seenDocs := by
  simp only [addEntry, except_bind_eq_ok] at hrun
  obtain ⟨document, hdocument, signature, -, hrun⟩ := hrun
  split_ifs at hrun with hseen
  · obtain rfl := Except.ok.inj hrun
    exact ⟨.refl d, document, hdocument, hseen⟩
  · obtain rfl := Except.ok.inj hrun
    refine ⟨extends_add rfl hseen, document, hdocument, ?_⟩
    exact List.mem_append_right _ (List.mem_singleton_self _)

theorem addEntries_spec (hrun : entries.foldlM (addEntry dir signer) d = .ok d') :
    Extends d d' ∧ ∀ entry ∈ entries, ∃ document, locate dir entry.document = .ok document ∧
      document ∈ d'.seenDocs := by
  induction entries generalizing d with
  | nil =>
    obtain rfl := Except.ok.inj hrun
    exact ⟨.refl d, nofun⟩
  | cons entry entries ih =>
    rw [List.foldlM_cons, except_bind_eq_ok] at hrun
    obtain ⟨next, hfirst, hrun⟩ := hrun
    obtain ⟨hextends, document, hdocument, hseen⟩ := addEntry_spec hfirst
    obtain ⟨hextends', hrest⟩ := ih hrun
    refine ⟨hextends.trans hextends', List.forall_mem_cons.2 ⟨?_, hrest⟩⟩
    exact ⟨document, hdocument, hextends'.seenDocs hseen⟩

end Entries

section Steps

variable {parseIndex : List UInt8 → Except String PackIndex} {store : BlobStore}
  {names : Option (List String)} {path : String} {depth : ℕ} {index : PackIndex}
  {pending : List (String × ℕ)} {d d' : Discovery}

def worklist (d : Discovery) : WorkList String :=
  ⟨d.pending, d.loaded⟩

theorem filterMap_of_mapM {α β ε : Type} {f : α → Except ε β} {l : List α} {l' : List β}
    (hl : l.mapM f = .ok l') : l.filterMap (fun a ↦ (f a).toOption) = l' := by
  induction l generalizing l' with
  | nil =>
    obtain rfl := Except.ok.inj hl
    rfl
  | cons a l ih =>
    simp only [List.mapM_cons, except_bind_eq_ok, except_pure_eq_ok] at hl
    obtain ⟨b, hb, rest, hrest, rfl⟩ := hl
    rw [List.filterMap_cons, hb, ih hrest]
    rfl

theorem followIncludes_spec (hindex : loadIndex parseIndex store names path = .ok (some index))
    (hrun : followIncludes (dirOf path) depth index d = .ok d') :
    d' = ⟨links (includesOf parseIndex store names) maxListDepth path depth ++ d.pending, d.loaded,
      d.seenDocs, d.entries⟩ := by
  rw [followIncludes] at hrun
  rw [links]
  split_ifs at hrun ⊢
  · simp only [except_bind_eq_ok, except_pure_eq_ok] at hrun
    obtain ⟨found, hfound, rfl⟩ := hrun
    have hincludes : includesOf parseIndex store names path = found := by
      rw [includesOf, hindex]
      exact filterMap_of_mapM hfound
    rw [hincludes]
  · obtain rfl := Except.ok.inj hrun
    rfl

/-- The documents of the indexes that were loaded have been seen, and each is listed once. -/
structure Sound (parseIndex : List UInt8 → Except String PackIndex) (store : BlobStore)
    (names : Option (List String)) (d : Discovery) : Prop where
  distinct : Distinct d
  listed : ∀ path ∈ d.loaded, ∀ index, loadIndex parseIndex store names path = .ok (some index) →
    ∀ entry ∈ index.entries, ∃ document, locate (dirOf path) entry.document = .ok document ∧
      document ∈ d.seenDocs

/-- An index that is taken from the pile is one step through the includes. -/
theorem takeIndex_spec (hd : Sound parseIndex store names d)
    (hpending : d.pending = (path, depth) :: pending)
    (hrun : takeIndex parseIndex store names path depth { d with pending } = .ok d') :
    worklist d' = step (includesOf parseIndex store names) maxListDepth (worklist d) ∧
      Sound parseIndex store names d' := by
  have hstep : step (includesOf parseIndex store names) maxListDepth (worklist d) =
      if path ∈ d.loaded then ⟨pending, d.loaded⟩
      else ⟨links (includesOf parseIndex store names) maxListDepth path depth ++ pending,
        d.loaded ++ [path]⟩ := by
    rw [step, worklist, hpending]
  rw [hstep]
  rw [takeIndex] at hrun
  dsimp only at hrun
  split_ifs at hrun with hloaded
  · obtain rfl := Except.ok.inj hrun
    rw [if_pos hloaded]
    exact ⟨rfl, hd.distinct, hd.listed⟩
  · rw [if_neg hloaded]
    rw [except_bind_eq_ok] at hrun
    obtain ⟨found, hfound, hrun⟩ := hrun
    have hkept : ∀ x ∈ d.loaded ++ [path], x ≠ path → x ∈ d.loaded := by
      intro x hx hne
      rcases List.mem_append.1 hx with hx | hx
      · exact hx
      · exact absurd (List.mem_singleton.1 hx) hne
    cases found with
    | none =>
      obtain rfl := Except.ok.inj hrun
      have hincludes : includesOf parseIndex store names path = [] := by rw [includesOf, hfound]
      refine ⟨by simp [worklist, links, hincludes], hd.distinct, fun x hx index hindex ↦ ?_⟩
      have hne : x ≠ path := by
        rintro rfl
        rw [hfound] at hindex
        cases hindex
      exact hd.listed x (hkept x hx hne) index hindex
    | some index =>
      rw [except_bind_eq_ok] at hrun
      obtain ⟨next, hnext, hrun⟩ := hrun
      rw [followIncludes_spec hfound hnext] at hrun
      obtain ⟨hextends, hlisted⟩ := addEntries_spec hrun
      refine ⟨?_, hextends.distinct hd.distinct, fun x hx index' hindex ↦ ?_⟩
      · rw [worklist, hextends.pending, hextends.loaded]
      · rw [hextends.loaded] at hx
        by_cases hx' : x = path
        · rw [hx', hfound] at hindex
          obtain rfl := Option.some.inj (Except.ok.inj hindex)
          rw [hx']
          exact hlisted
        · intro entry hentry
          obtain ⟨document, hdocument, hseen⟩ :=
            hd.listed x (hkept x hx hx') index' hindex entry hentry
          exact ⟨document, hdocument, hextends.seenDocs hseen⟩

end Steps

section Runs

variable {parseIndex : List UInt8 → Except String PackIndex} {store : BlobStore}
  {names : Option (List String)} {path : String} {d d' : Discovery} {n : ℕ}

theorem drain_of_pending (hpending : d.pending = []) (n : ℕ) :
    drain parseIndex store names n d = .ok d := by
  cases n with
  | zero => rfl
  | succ n => rw [drain, hpending]; rfl

theorem drain_add (m n : ℕ) (d : Discovery) : drain parseIndex store names (m + n) d =
    drain parseIndex store names m d >>= drain parseIndex store names n := by
  induction m generalizing d with
  | zero => rw [Nat.zero_add]; rfl
  | succ m ih =>
    rw [Nat.succ_add, drain, drain]
    cases hpending : d.pending with
    | nil => exact (drain_of_pending hpending n).symm
    | cons item pending =>
      dsimp only
      rw [bind_assoc]
      exact congrArg _ (funext fun next ↦ ih next)

/-- The loop takes the steps through the includes. -/
theorem drain_spec (hd : Sound parseIndex store names d)
    (hrun : drain parseIndex store names n d = .ok d') :
    worklist d' = (step (includesOf parseIndex store names) maxListDepth)^[n] (worklist d) ∧
      Sound parseIndex store names d' := by
  induction n generalizing d with
  | zero =>
    obtain rfl := Except.ok.inj hrun
    exact ⟨rfl, hd⟩
  | succ n ih =>
    cases hpending : d.pending with
    | nil =>
      rw [drain_of_pending hpending] at hrun
      obtain rfl := Except.ok.inj hrun
      refine ⟨?_, hd⟩
      rw [Function.iterate_fixed]
      rw [step, worklist, hpending]
    | cons item pending =>
      rw [drain, hpending, except_bind_eq_ok] at hrun
      obtain ⟨next, hnext, hrun⟩ := hrun
      obtain ⟨hstep, hsound⟩ := takeIndex_spec hd hpending hnext
      obtain ⟨hsteps, hsound'⟩ := ih hsound hrun
      rw [Function.iterate_succ_apply, ← hstep]
      exact ⟨hsteps, hsound'⟩

theorem sound_startDiscovery : Sound parseIndex store names (startDiscovery names) :=
  ⟨⟨rfl, List.nodup_nil⟩, nofun⟩

theorem worklist_startDiscovery : worklist (startDiscovery names) = start (indexPaths names) :=
  rfl

/-- The routes through the includes that begin where a discovery begins. -/
def allRoutes (parseIndex : List UInt8 → Except String PackIndex) (store : BlobStore)
    (names : Option (List String)) : ℕ :=
  openRoutes (includesOf parseIndex store names) maxListDepth (startDiscovery names).pending

/-- The loop comes to its end: nothing is left to do after as many turns as there are routes. -/
theorem drain_eq_crawl (hn : allRoutes parseIndex store names ≤ n) :
    drain parseIndex store names n (startDiscovery names) = crawl parseIndex store names := by
  obtain ⟨k, rfl⟩ := Nat.exists_eq_add_of_le hn
  rw [drain_add]
  change (crawl parseIndex store names >>= drain parseIndex store names k) = _
  cases hcrawl : crawl parseIndex store names with
  | error e => rfl
  | ok d =>
    have hsteps := (drain_spec sound_startDiscovery hcrawl).1
    have hpending : d.pending = [] := by
      change (worklist d).pending = []
      rw [hsteps]
      exact pending_iterate _ _ le_rfl
    exact drain_of_pending hpending k

/-- An index that has not been read is never taken so deep that something falls behind the limit
that is within it on another way to the index. -/
def Prompt (parseIndex : List UInt8 → Except String PackIndex) (store : BlobStore)
    (names : Option (List String)) : Prop :=
  ∀ n d, drain parseIndex store names n (startDiscovery names) = .ok d →
    Timely (includesOf parseIndex store names) maxListDepth (indexPaths names) (worklist d)

theorem timely_of_prompt (hprompt : Prompt parseIndex store names)
    (hcrawl : crawl parseIndex store names = .ok d) (n : ℕ) :
    Timely (includesOf parseIndex store names) maxListDepth (indexPaths names)
      ((step (includesOf parseIndex store names) maxListDepth)^[n] (start (indexPaths names))) := by
  rcases Nat.lt_or_ge n (allRoutes parseIndex store names) with hn | hn
  · obtain ⟨k, hk⟩ := Nat.exists_eq_add_of_le hn.le
    have hrun : drain parseIndex store names (allRoutes parseIndex store names)
      (startDiscovery names) = .ok d := hcrawl
    rw [hk, drain_add, except_bind_eq_ok] at hrun
    obtain ⟨next, hnext, -⟩ := hrun
    rw [← worklist_startDiscovery, ← (drain_spec sound_startDiscovery hnext).1]
    exact hprompt n next hnext
  · intro path depth hhead
    rw [pending_iterate n (start (indexPaths names)) hn] at hhead
    cases hhead

/-- What a crawl has loaded and listed when it comes to its end. -/
theorem crawl_spec (hcrawl : crawl parseIndex store names = .ok d) :
    d.pending = [] ∧ d.loaded.Nodup ∧ Sound parseIndex store names d ∧
      (Prompt parseIndex store names → ∀ root ∈ indexPaths names, ∀ n path,
        Reach (includesOf parseIndex store names) n root path → n ≤ maxListDepth →
        path ∈ d.loaded) := by
  obtain ⟨hsteps, hsound⟩ := drain_spec sound_startDiscovery hcrawl
  have hpending : (worklist d).pending = [] := by
    rw [hsteps]
    exact pending_iterate _ _ le_rfl
  have hnodup : (worklist d).visited.Nodup := by
    rw [hsteps]
    exact nodup_iterate _
  refine ⟨hpending, hnodup, hsound, fun hprompt root hroot n path hreach hle ↦ ?_⟩
  change path ∈ (worklist d).visited
  rw [hsteps]
  exact visited_iterate (timely_of_prompt hprompt hcrawl) le_rfl hroot hreach hle

end Runs

section Discover

variable {parseIndex : List UInt8 → Except String PackIndex} {store : BlobStore}
  {names : Option (List String)} {d : Discovery} {entries : List CatalogEntry}

theorem addLoose_extends (d : Discovery) (name : String) : Extends d (addLoose d name) := by
  rw [addLoose]
  split_ifs with hname
  · exact .refl d
  · exact extends_add rfl (not_or.1 hname).2

theorem addLooses_extends (d : Discovery) (names : List String) :
    Extends d (names.foldl addLoose d) := by
  induction names generalizing d with
  | nil => exact .refl d
  | cons name names ih => exact (addLoose_extends d name).trans (ih _)

theorem discover_eq_ok (hnames : listed store = .ok names)
    (hrun : discover parseIndex store = .ok entries) :
    ∃ d, crawl parseIndex store names = .ok d ∧ (entries.map (·.document)).Nodup ∧
      d.seenDocs ⊆ entries.map (·.document) := by
  rw [discover, hnames] at hrun
  simp only [except_ok_bind, except_bind_eq_ok, except_pure_eq_ok] at hrun
  obtain ⟨d, hcrawl, rfl⟩ := hrun
  have hextends := addLooses_extends d (names.getD [])
  have hdistinct := hextends.distinct (crawl_spec hcrawl).2.2.1.distinct
  have hperm : ((((names.getD []).foldl addLoose d).entries.insertionSort fun a b ↦
      a.document ≤ b.document).map (·.document)).Perm
      ((names.getD []).foldl addLoose d).seenDocs := by
    rw [← hdistinct.1]
    exact (List.perm_insertionSort _ _).map _
  refine ⟨d, hcrawl, hperm.nodup_iff.2 hdistinct.2, fun document hdocument ↦ ?_⟩
  exact hperm.mem_iff.2 (hextends.seenDocs hdocument)

/-- A discovery comes to its end, it reads each index once and lists each document once, and where
every index is taken in time it lists the packs of all the indexes within the limit. -/
theorem discover_spec (hnames : listed store = .ok names) :
    (∀ n, allRoutes parseIndex store names ≤ n →
      drain parseIndex store names n (startDiscovery names) = crawl parseIndex store names) ∧
    (∀ d, crawl parseIndex store names = .ok d → d.pending = [] ∧ d.loaded.Nodup) ∧
    ∀ entries, discover parseIndex store = .ok entries →
      (entries.map (·.document)).Nodup ∧
      (Prompt parseIndex store names → ∀ root ∈ indexPaths names, ∀ n path,
        Reach (includesOf parseIndex store names) n root path → n ≤ maxListDepth →
        ∀ index, loadIndex parseIndex store names path = .ok (some index) →
        ∀ entry ∈ index.entries, ∃ document,
          locate (dirOf path) entry.document = .ok document ∧
            document ∈ entries.map (·.document)) := by
  refine ⟨fun n hn ↦ drain_eq_crawl hn, fun d hcrawl ↦ ?_, fun entries hrun ↦ ?_⟩
  · obtain ⟨hpending, hnodup, -⟩ := crawl_spec hcrawl
    exact ⟨hpending, hnodup⟩
  · obtain ⟨d, hcrawl, hdocuments, hseen⟩ := discover_eq_ok hnames hrun
    obtain ⟨-, -, hsound, hloaded⟩ := crawl_spec hcrawl
    refine ⟨hdocuments, fun hprompt root hroot n path hreach hle index hindex entry hentry ↦ ?_⟩
    obtain ⟨document, hdocument, hmem⟩ := hsound.listed path
      (hloaded hprompt root hroot n path hreach hle) index hindex entry hentry
    exact ⟨document, hdocument, hseen hmem⟩

def catalogStore (indexes : List (String × PackIndex)) : BlobStore where
  read path :=
    match indexes.findIdx? fun index ↦ index.1 = path with
    | some i => .ok [UInt8.ofNat i]
    | none => .error (.io true "not found")
  list := .error (.sourceUnlistable "https://host")
  describe := "https://host"

def parseCatalog (indexes : List (String × PackIndex)) (bytes : List UInt8) :
    Except String PackIndex :=
  match bytes with
  | [i] => ((indexes[i.toNat]?).map fun index ↦ .ok index.2).getD (.error "no index")
  | _ => .error "no index"

def publisherIndexes : List (String × PackIndex) :=
  [("index.json", { includes := ["ab12/index.json"] }),
    ("ab12/index.json",
      { entries := [{ id := "shops", version := "1.0.0", document := "shops.pack.json" }] })]

theorem prompt_publisher :
    Prompt (parseCatalog publisherIndexes) (catalogStore publisherIndexes) none := by
  have hroot : includesOf (parseCatalog publisherIndexes) (catalogStore publisherIndexes) none
      "index.json" = ["ab12/index.json"] := by
    decide +kernel
  have hleaf : includesOf (parseCatalog publisherIndexes) (catalogStore publisherIndexes) none
      "ab12/index.json" = [] := by
    decide +kernel
  have hreach : ∀ n path, Reach (includesOf (parseCatalog publisherIndexes)
      (catalogStore publisherIndexes) none) n "index.json" path →
      n = if path = "index.json" then 0 else 1 := by
    intro n path hreach
    cases hreach with
    | refl => rfl
    | head hb hc =>
      rw [hroot, List.mem_singleton] at hb
      rw [hb] at hc
      cases hc with
      | refl => rfl
      | head hb hc =>
        rw [hleaf] at hb
        cases hb
  intro n d hrun
  rw [(drain_spec sound_startDiscovery hrun).1]
  apply timely_of_layered
  intro root hroot' root' hroot'' n m path hn hm
  obtain rfl := List.mem_singleton.1 hroot'
  obtain rfl := List.mem_singleton.1 hroot''
  rw [hreach n path hn, hreach m path hm]

theorem discover_publisher : ∃ entries,
    discover (parseCatalog publisherIndexes) (catalogStore publisherIndexes) = .ok entries ∧
      "ab12/shops.pack.json" ∈ entries.map (·.document) := by
  have hok : (discover (parseCatalog publisherIndexes)
      (catalogStore publisherIndexes)).isOk = true := by
    decide +kernel
  cases hrun : discover (parseCatalog publisherIndexes) (catalogStore publisherIndexes) with
  | error e =>
    rw [hrun] at hok
    cases hok
  | ok entries =>
    have hnames : listed (catalogStore publisherIndexes) = .ok none := rfl
    have hreach : Reach (includesOf (parseCatalog publisherIndexes) (catalogStore publisherIndexes)
        none) 1 "index.json" "ab12/index.json" :=
      .head (by decide +kernel) (.refl _)
    obtain ⟨document, hdocument, hmem⟩ :=
      ((discover_spec hnames).2.2 entries hrun).2 prompt_publisher "index.json"
        (List.mem_singleton_self _) 1 _ hreach (by decide) _ rfl _ (List.mem_singleton_self _)
    have hlocate : locate (dirOf "ab12/index.json") "shops.pack.json" =
        .ok "ab12/shops.pack.json" := by
      decide +kernel
    rw [Except.ok.inj (hlocate.symm.trans hdocument)]
    exact ⟨entries, rfl, hmem⟩

def hidingIndexes : List (String × PackIndex) :=
  [("index.json", { includes := ["x/index.json", "a.json"] }),
    ("a.json", { includes := ["b.json"] }),
    ("b.json", { includes := ["x/index.json"] }),
    ("x/index.json", { includes := ["y/index.json"] }),
    ("x/y/index.json",
      { entries := [{ id := "shops", version := "1.0.0", document := "shops.pack.json" }] })]

/-- Two includes lead to the index of the pack, but nothing is found. -/
theorem discover_hiding :
    discover (parseCatalog hidingIndexes) (catalogStore hidingIndexes) = .ok [] ∧
      Reach (includesOf (parseCatalog hidingIndexes) (catalogStore hidingIndexes) none) 2
        "index.json" "x/y/index.json" ∧
      loadIndex (parseCatalog hidingIndexes) (catalogStore hidingIndexes) none "x/y/index.json" =
        .ok (some { entries :=
          [{ id := "shops", version := "1.0.0", document := "shops.pack.json" }] }) := by
  refine ⟨by decide +kernel, .head (b := "x/index.json") (by decide +kernel)
    (.head (by decide +kernel) (.refl _)), by decide +kernel⟩

end Discover

end SlipScan.Packs.Discovery
