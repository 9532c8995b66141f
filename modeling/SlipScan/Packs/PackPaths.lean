import SlipScan.Foundation.Urls
import SlipScan.Model.PackTransport

namespace SlipScan.Packs.PackPaths

open Model.Database Model.PackTransport Foundation.DotSegments Foundation.Urls

section Names

variable {name rel : String}

def parts (rel : String) : List (List Char) :=
  rel.toList.splitOn '/'

theorem safeRelative_eq_ok (hsafe : safeRelative name = .ok rel) :
    rel = trim name ∧ ¬['/'] <+: rel.toList ∧
      ∀ part ∈ parts rel, part ≠ [] ∧ part ≠ ['.'] ∧ part ≠ ['.', '.'] := by
  rw [safeRelative] at hsafe
  split_ifs at hsafe with hbad
  obtain rfl := Except.ok.inj hsafe
  simp only [not_or] at hbad
  obtain ⟨-, hroot, -, -, -, hparts, -⟩ := hbad
  refine ⟨rfl, hroot, fun part hpart ↦ ?_⟩
  rw [List.any_eq_true] at hparts
  have hnot : ¬(decide (part = ['.', '.']) || decide (part = ['.']) || decide (part = [])) = true :=
    fun hpart' ↦ hparts ⟨part, hpart, hpart'⟩
  simp only [Bool.or_eq_true, decide_eq_true_eq, not_or] at hnot
  exact ⟨hnot.2, hnot.1.2, hnot.1.1⟩

end Names

section Folders

variable {root name rel path : String} {l r : List Char}

def leading (l : List Char) : List (List Char) :=
  if ['/'] <+: l then [['/']] else if (l.splitOn '/').head? = some ['.'] then [['.']] else []

/-- The components of a path. A dot that is not at its beginning is none. -/
def components (path : String) : List (List Char) :=
  leading path.toList ++ (path.toList.splitOn '/').filter fun part ↦ part ≠ [] ∧ part ≠ ['.']

theorem leading_append (r l : List Char) : leading (r ++ '/' :: l) = leading (r ++ ['/']) := by
  have hprefix : ['/'] <+: r ++ '/' :: l ↔ ['/'] <+: r ++ ['/'] := by
    cases r with
    | nil => simp
    | cons c r => simp [List.cons_prefix_cons]
  have hhead : ((r ++ '/' :: l).splitOn '/').head? = ((r ++ ['/']).splitOn '/').head? := by
    rw [List.splitOn_append_cons_self, List.splitOn_append_cons_self]
    rw [List.head?_append_of_ne_nil _ (List.splitOn_ne_nil _ _),
      List.head?_append_of_ne_nil _ (List.splitOn_ne_nil _ _)]
  simp only [leading, hprefix, hhead]

theorem leading_concat (hr : r ≠ []) : leading (r ++ ['/']) = leading r := by
  have hprefix : ['/'] <+: r ++ ['/'] ↔ ['/'] <+: r := by
    cases r with
    | nil => exact absurd rfl hr
    | cons c r => simp [List.cons_prefix_cons]
  have hhead : ((r ++ ['/']).splitOn '/').head? = (r.splitOn '/').head? := by
    rw [List.splitOn_append_cons_self,
      List.head?_append_of_ne_nil _ (List.splitOn_ne_nil _ _)]
  simp only [leading, hprefix, hhead]

theorem leading_rel (hroot : ¬['/'] <+: rel.toList) (hrel : ∀ part ∈ parts rel, part ≠ ['.']) :
    leading rel.toList = [] := by
  have hhead : (rel.toList.splitOn '/').head? ≠ some ['.'] :=
    fun hhead ↦ hrel _ (List.mem_of_mem_head? hhead) rfl
  rw [leading, if_neg hroot, if_neg hhead]

/-- A relative path without dots adds its parts to the components of a directory. -/
theorem components_joinPath (hroot : ¬['/'] <+: rel.toList)
    (hrel : ∀ part ∈ parts rel, part ≠ [] ∧ part ≠ ['.']) :
    components (joinPath root rel) = components root ++ parts rel := by
  have hkept : (rel.toList.splitOn '/').filter (fun part ↦ part ≠ [] ∧ part ≠ ['.']) = parts rel :=
    List.filter_eq_self.2 fun part hpart ↦ decide_eq_true (hrel part hpart)
  have hbelow : ∀ r : List Char, leading (r ++ '/' :: rel.toList) ++
      ((r ++ '/' :: rel.toList).splitOn '/').filter (fun part ↦ part ≠ [] ∧ part ≠ ['.']) =
      leading (r ++ ['/']) ++ (r.splitOn '/').filter (fun part ↦ part ≠ [] ∧ part ≠ ['.']) ++
        parts rel := by
    intro r
    rw [leading_append, List.splitOn_append_cons_self, List.filter_append, hkept,
      List.append_assoc]
  rw [joinPath, if_neg hroot]
  by_cases hempty : root = ""
  · rw [if_pos (.inl hempty), hempty, String.empty_append, components,
      leading_rel hroot fun part hpart ↦ (hrel part hpart).2, hkept]
    rfl
  · have hempty' : root.toList ≠ [] := by
      rwa [ne_eq, String.toList_eq_nil_iff]
    by_cases hslash : ['/'] <:+ root.toList
    · obtain ⟨r, hr⟩ := hslash
      rw [if_pos (.inr ⟨r, hr⟩), components, components, String.toList_append, ← hr,
        List.append_assoc, List.singleton_append, hbelow, List.splitOn_append_cons_self,
        List.filter_append]
      simp
    · rw [if_neg (by simp [hempty, hslash]), components, components, String.toList_append,
        String.toList_append, List.append_assoc]
      change leading (root.toList ++ '/' :: rel.toList) ++ _ = _
      rw [← leading_concat hempty']
      exact hbelow root.toList

end Folders

section Urls

variable {parse : String → List (List Char)} {base name rel : String} {l : List Char}

/-- A parser gives the URLs below a directory the paths of the URL standard. -/
def FollowsStandard (parse : String → List (List Char)) : Prop :=
  ∀ base rel : String, IsDirectory base.toList →
    parse s!"{base}/{rel}" = httpsPath s!"{base}/{rel}".toList

/-- Whatever the root of its source is, a name is read from a place strictly below it. -/
structure Confined (parse : String → List (List Char)) (name : String) : Prop where
  folder : ∀ root path, LocalDir.resolve root name = .ok path →
    ∃ below, components path = components root ++ below ∧ below ≠ [] ∧ ['.', '.'] ∉ below
  https : ∀ base url, IsDirectory (HttpsDir.new base).toList →
    HttpsDir.url (HttpsDir.new base) name = .ok url →
    ∃ below, parse url = (parse s!"{HttpsDir.new base}/").dropLast ++ below ∧
      ∃ seg ∈ below, seg ≠ []

theorem exists_folder (hsafe : safeRelative name = .ok rel) (root : String) :
    ∃ below, components (joinPath root rel) = components root ++ below ∧ below ≠ [] ∧
      ['.', '.'] ∉ below := by
  obtain ⟨-, hroot, hparts⟩ := safeRelative_eq_ok hsafe
  refine ⟨parts rel, ?_, List.splitOn_ne_nil _ _, fun hdots ↦ (hparts _ hdots).2.2 rfl⟩
  exact components_joinPath hroot fun part hpart ↦ ⟨(hparts part hpart).1, (hparts part hpart).2.1⟩

theorem toList_url (base rel : String) :
    s!"{base}/{rel}".toList = base.toList ++ '/' :: rel.toList := by
  simp [toString]

theorem parse_base (hparse : FollowsStandard parse) (hbase : IsDirectory base.toList) :
    (parse s!"{base}/").dropLast = directoryPath base.toList := by
  have hempty := hparse base "" hbase
  rw [toList_url] at hempty
  have hslash : s!"{base}/" = s!"{base}/" ++ "" := String.append_empty.symm
  rw [hslash]
  exact congrArg List.dropLast hempty

/-- What the URL of a name resolves to, from the path of its base. -/
theorem parse_url (hparse : FollowsStandard parse) (hbase : IsDirectory base.toList)
    (rel : String) : parse s!"{base}/{rel}" =
      resolve segmentKind [] (parse s!"{base}/").dropLast (relativeSegments rel.toList) := by
  rw [hparse base rel hbase, toList_url, httpsPath_join hbase, parse_base hparse hbase]

theorem segmentKind_cons_x (l : List Char) : segmentKind ('x' :: l) = .name := by
  have hne : ∀ s : String, s.toList.head? ≠ some 'x' →
      String.ofList (('x' :: l).map Char.toLower) ≠ s := by
    intro s hs heq
    rw [← heq] at hs
    exact hs (by rw [String.toList_ofList]; rfl)
  simp only [segmentKind, hne ".." (by decide), hne ".%2e" (by decide), hne "%2e." (by decide),
    hne "%2e%2e" (by decide), hne "." (by decide), hne "%2e" (by decide), decide_false,
    Bool.or_self, Bool.false_eq_true, if_false]

/-- Some directory is not among the segments of a name. -/
theorem exists_fresh (segs : List (List Char)) : ∃ k, List.replicate (k + 1) 'x' ∉ segs := by
  refine ⟨(segs.map List.length).sum, fun hmem ↦ ?_⟩
  have hle : (List.replicate ((segs.map List.length).sum + 1) 'x').length ≤
      (segs.map List.length).sum := List.le_sum_of_mem (List.mem_map_of_mem hmem)
  rw [List.length_replicate] at hle
  omega

def topBase (top : List Char) : String :=
  String.ofList ("https://host".toList ++ '/' :: top)

theorem isDirectory_host : IsDirectory "https://host".toList :=
  ⟨"host".toList, [], rfl, by decide, by decide, rfl, .inl rfl⟩

theorem directoryPath_host : directoryPath "https://host".toList = [] := by
  decide

theorem toList_topBase (top : List Char) :
    (topBase top).toList = "https://host".toList ++ '/' :: top :=
  String.toList_ofList

theorem isDirectory_topBase {top : List Char} (htop : top.all (!endsPath ·)) :
    IsDirectory (topBase top).toList := by
  rw [toList_topBase]
  refine ⟨"host".toList, '/' :: top, ?_, by decide, by decide, ?_, .inr ⟨top, rfl⟩⟩
  · rw [← List.append_assoc]
    exact congrArg (· ++ '/' :: top) (by decide)
  · rw [List.all_cons, htop]
    decide

theorem relativeSegments_concat {top : List Char}
    (htop : ∀ c ∈ top, isTabOrNewline c = false ∧ endsPath c = false ∧ isDelimiter c = false) :
    relativeSegments (top ++ ['/']) = [top, []] := by
  have hkept : ∀ c ∈ top ++ ['/'], (!isTabOrNewline c) = true := by
    intro c hc
    rcases List.mem_append.1 hc with hc | hc
    · rw [(htop c hc).1]
      rfl
    · rw [List.mem_singleton.1 hc]
      decide
  have hpath : top.all (!endsPath ·) := by
    rw [List.all_eq_true]
    intro c hc
    rw [(htop c hc).2.1]
    rfl
  rw [relativeSegments, List.rdropWhile_concat_neg _ _ _ (by decide), List.filter_eq_self.2 hkept,
    segmentsOf_join hpath, List.splitOnP_eq_singleton fun c hc ↦ (htop c hc).2.2]
  rfl

theorem directoryPath_topBase {top : List Char} (hname : segmentKind top = .name)
    (hsegs : relativeSegments (top ++ ['/']) = [top, []]) :
    directoryPath (topBase top).toList = [top] := by
  have hempty : segmentKind [] = .name := by decide
  have hresolve : resolve segmentKind [] [] [top, []] = [top, []] := by
    simp [resolve, walk, push, hname, hempty]
  have hpath : httpsPath ("https://host".toList ++ '/' :: (top ++ ['/'])) = [top, []] := by
    rw [httpsPath_join isDirectory_host, directoryPath_host, hsegs, hresolve]
  rw [directoryPath, toList_topBase, List.append_assoc, List.cons_append, hpath]
  rfl

theorem new_topBase {top : List Char} {c : Char} (hc : c ≠ '/') :
    HttpsDir.new (topBase (top ++ [c])) = topBase (top ++ [c]) := by
  have hconcat : (topBase (top ++ [c])).toList = ("https://host".toList ++ '/' :: top) ++ [c] := by
    rw [toList_topBase, List.append_assoc]
    rfl
  rw [HttpsDir.new, hconcat, List.rdropWhile_concat_neg _ _ _ (by simpa using hc), ← hconcat,
    String.ofList_toList]

/-- A directory that shows whether a name leads out of it. -/
theorem exists_top (segs : List (List Char)) : ∃ top, top ∉ segs ∧ top ≠ [] ∧
    IsDirectory (topBase top).toList ∧ HttpsDir.new (topBase top) = topBase top ∧
    directoryPath (topBase top).toList = [top] := by
  obtain ⟨k, hfresh⟩ := exists_fresh segs
  have hx : ∀ c ∈ List.replicate (k + 1) 'x', c = 'x' := fun c hc ↦ List.eq_of_mem_replicate hc
  refine ⟨List.replicate (k + 1) 'x', hfresh, List.cons_ne_nil _ _, isDirectory_topBase ?_, ?_,
    directoryPath_topBase (segmentKind_cons_x _) (relativeSegments_concat ?_)⟩
  · rw [List.all_eq_true]
    intro c hc
    rw [hx c hc]
    decide
  · rw [List.replicate_succ']
    exact new_topBase (by decide)
  · intro c hc
    rw [hx c hc]
    decide

/-- A name is confined if and only if its URL does not lead out through dots. -/
theorem confined_iff (hparse : FollowsStandard parse) : Confined parse name ↔
    ∀ rel, safeRelative name = .ok rel →
      Reaches segmentKind [] (relativeSegments rel.toList) := by
  constructor
  · intro hconfined rel hsafe
    obtain ⟨top, hfresh, hne, hbase, hnew, hpath⟩ := exists_top (relativeSegments rel.toList)
    have hurl : HttpsDir.url (HttpsDir.new (topBase top)) name = .ok s!"{topBase top}/{rel}" := by
      rw [hnew, HttpsDir.url, hsafe]
      rfl
    have hunder := hconfined.https (topBase top) _ (by rwa [hnew]) hurl
    rw [hnew, parse_url hparse hbase, parse_base hparse hbase, hpath] at hunder
    exact reaches_of_resolve hfresh hne hunder
  · intro hreach
    refine ⟨fun root path hpath ↦ ?_, fun base url hbase hurl ↦ ?_⟩
    · cases hsafe : safeRelative name with
      | error e =>
        rw [LocalDir.resolve, hsafe] at hpath
        cases hpath
      | ok rel =>
        rw [LocalDir.resolve, hsafe] at hpath
        obtain rfl := Except.ok.inj hpath
        exact exists_folder hsafe root
    · cases hsafe : safeRelative name with
      | error e =>
        rw [HttpsDir.url, hsafe] at hurl
        cases hurl
      | ok rel =>
        rw [HttpsDir.url, hsafe] at hurl
        obtain rfl := Except.ok.inj hurl
        rw [parse_url hparse hbase]
        exact (hreach rel hsafe).exists_resolve _

theorem confined_document :
    Confined (fun url ↦ httpsPath url.toList) "ab12/shops-1.2.0.pack.json" := by
  apply (confined_iff fun _ _ _ ↦ rfl).2
  intro rel hsafe
  have hrel : safeRelative "ab12/shops-1.2.0.pack.json" = .ok "ab12/shops-1.2.0.pack.json" := by
    decide +kernel
  obtain rfl := Except.ok.inj (hrel.symm.trans hsafe)
  refine ⟨[], "ab12".toList, ["shops-1.2.0.pack.json".toList], ?_, ?_, ?_, level_nil, ?_⟩
  · decide +kernel
  · decide +kernel
  · decide
  · apply level_of_forall
    intro seg hseg
    rw [List.mem_singleton.1 hseg]
    decide +kernel

/-- A parent segment whose dots are percent-encoded is accepted. -/
theorem not_confined_encoded :
    safeRelative "%2e%2e/shops.pack.json" = .ok "%2e%2e/shops.pack.json" ∧
      httpsPath "https://host/packs/%2e%2e/shops.pack.json".toList = ["shops.pack.json".toList] ∧
      ¬Confined (fun url ↦ httpsPath url.toList) "%2e%2e/shops.pack.json" := by
  have hsafe : safeRelative "%2e%2e/shops.pack.json" = .ok "%2e%2e/shops.pack.json" := by
    decide +kernel
  have hpath : httpsPath "https://host/packs/%2e%2e/shops.pack.json".toList =
      ["shops.pack.json".toList] := by
    decide +kernel
  refine ⟨hsafe, hpath, fun hconfined ↦ ?_⟩
  have hnew : HttpsDir.new "https://host/packs" = "https://host/packs" := by decide
  have hbase : IsDirectory (HttpsDir.new "https://host/packs").toList :=
    ⟨"host".toList, "/packs".toList, by decide, by decide, by decide, by decide, .inr ⟨_, rfl⟩⟩
  have hurl : HttpsDir.url (HttpsDir.new "https://host/packs") "%2e%2e/shops.pack.json" =
      .ok "https://host/packs/%2e%2e/shops.pack.json" := by
    rw [HttpsDir.url, hsafe, hnew]
    rfl
  obtain ⟨below, hbelow, -⟩ := hconfined.https "https://host/packs" _ hbase hurl
  have hroot : (httpsPath
      (toString (HttpsDir.new "https://host/packs") ++ toString "/").toList).dropLast =
      ["packs".toList] := by
    decide +kernel
  rw [hpath, hroot] at hbelow
  exact absurd (List.cons.inj hbelow).1 (by decide)

end Urls

end SlipScan.Packs.PackPaths
