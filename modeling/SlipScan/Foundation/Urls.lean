import SlipScan.Foundation.DotSegments
import Mathlib.Data.List.DropRight
import Mathlib.Data.List.TakeWhile

namespace SlipScan.Foundation.Urls

open DotSegments

section Parsing

def isControlOrSpace (c : Char) : Bool :=
  c.toNat ≤ 0x20

def isTabOrNewline (c : Char) : Bool :=
  c = '\t' || c = '\n' || c = '\r'

def isDelimiter (c : Char) : Bool :=
  c = '/' || c = '\\'

def endsPath (c : Char) : Bool :=
  c = '?' || c = '#'

def segmentKind (seg : List Char) : Kind :=
  let lower := String.ofList (seg.map Char.toLower)
  if lower = ".." || lower = ".%2e" || lower = "%2e." || lower = "%2e%2e" then .parent
  else if lower = "." || lower = "%2e" then .current
  else .name

/-- The characters of a URL that count. -/
def inputOf (url : List Char) : List Char :=
  ((url.dropWhile isControlOrSpace).rdropWhile isControlOrSpace).filter (!isTabOrNewline ·)

def segmentsOf (rest : List Char) : List (List Char) :=
  (rest.takeWhile (!endsPath ·)).splitOnP isDelimiter

/-- The path of an https URL by segments, under the rules of the URL standard. A character that has
to be percent-encoded stands for itself. -/
def httpsPath (url : List Char) : List (List Char) :=
  let rest := ((inputOf url).drop "https://".length).dropWhile fun c ↦
    !isDelimiter c && !endsPath c
  match segmentsOf rest with
  | _ :: seg :: segs => resolve segmentKind [] [] (seg :: segs)
  | _ => [[]]

/-- A URL of a directory, with a host and without a query or a fragment. The slash at its end is
left out. -/
def IsDirectory (base : List Char) : Prop :=
  ∃ host dir : List Char, base = "https://".toList ++ (host ++ dir) ∧
    host ≠ [] ∧ host.all (fun c ↦ !isDelimiter c && !endsPath c && !isTabOrNewline c) ∧
    dir.all (!endsPath ·) ∧ (dir = [] ∨ ∃ names, dir = '/' :: names)

def directoryPath (base : List Char) : List (List Char) :=
  (httpsPath (base ++ ['/'])).dropLast

def relativeSegments (rel : List Char) : List (List Char) :=
  segmentsOf ((rel.rdropWhile isControlOrSpace).filter (!isTabOrNewline ·))

end Parsing

section Joining

variable {base rel l : List Char}

theorem segmentsOf_ne_nil (rest : List Char) : segmentsOf rest ≠ [] :=
  List.splitOnP_ne_nil _ _

theorem rdropWhile_append_slash (l rel : List Char) :
    (l ++ '/' :: rel).rdropWhile isControlOrSpace =
      l ++ '/' :: rel.rdropWhile isControlOrSpace := by
  induction rel using List.reverseRecOn with
  | nil => exact List.rdropWhile_concat_neg _ _ _ (by decide)
  | append_singleton rel c ih =>
    rw [← List.cons_append, ← List.append_assoc]
    by_cases hc : isControlOrSpace c
    · rw [List.rdropWhile_concat_pos _ _ _ hc, List.rdropWhile_concat_pos _ _ _ hc, ih]
    · rw [List.rdropWhile_concat_neg _ _ _ hc, List.rdropWhile_concat_neg _ _ _ hc,
        List.append_assoc]
      rfl

theorem inputOf_join (rest rel : List Char) :
    inputOf ("https://".toList ++ rest ++ '/' :: rel) =
      "https://".toList ++ rest.filter (!isTabOrNewline ·) ++
        '/' :: (rel.rdropWhile isControlOrSpace).filter (!isTabOrNewline ·) := by
  have hstart : ("https://".toList ++ rest ++ '/' :: rel).dropWhile isControlOrSpace =
      "https://".toList ++ rest ++ '/' :: rel := rfl
  rw [inputOf, hstart, rdropWhile_append_slash, List.filter_append, List.filter_append]
  rfl

/-- The segments of a path after the first slash, where only what begins a query ends it. -/
theorem segmentsOf_join (hl : l.all (!endsPath ·)) :
    segmentsOf (l ++ '/' :: rel) = l.splitOnP isDelimiter ++ segmentsOf rel := by
  rw [segmentsOf, List.takeWhile_append_of_pos (fun c hc ↦ List.all_eq_true.1 hl c hc),
    List.takeWhile_cons_of_pos (by decide), List.splitOnP_append_cons _ _ (by decide)]
  rfl

/-- Some segments of the base lead to a directory, and those of a relative URL go on from there. -/
theorem exists_httpsPath_join (hbase : IsDirectory base) :
    ∃ dir, ∀ rel, httpsPath (base ++ '/' :: rel) =
      resolve segmentKind [] dir (relativeSegments rel) := by
  obtain ⟨host, dir, rfl, -, hhost, hdir, hstart⟩ := hbase
  have hhost' : ∀ c ∈ host, (!isDelimiter c && !endsPath c) = true ∧ (!isTabOrNewline c) = true :=
    fun c hc ↦ Bool.and_eq_true_iff.1 (List.all_eq_true.1 hhost c hc)
  have hdir' : (dir.filter (!isTabOrNewline ·)).all (!endsPath ·) :=
    List.all_eq_true.2 fun c hc ↦ List.all_eq_true.1 hdir c (List.mem_of_mem_filter hc)
  -- what is left after the host begins with a slash
  obtain ⟨names, hnames⟩ : ∃ names : List (List Char),
      (dir.filter (!isTabOrNewline ·)).splitOnP isDelimiter = [] :: names := by
    rcases hstart with rfl | ⟨names, rfl⟩
    · exact ⟨[], rfl⟩
    · rw [List.filter_cons_of_pos (by decide)]
      exact ⟨_, List.splitOnP_append_cons [] _ (by decide)⟩
  refine ⟨walk segmentKind [] names, fun rel ↦ ?_⟩
  have hrest : ((inputOf ("https://".toList ++ (host ++ dir) ++ '/' :: rel)).drop
      "https://".length).dropWhile (fun c ↦ !isDelimiter c && !endsPath c) =
      dir.filter (!isTabOrNewline ·) ++
        '/' :: (rel.rdropWhile isControlOrSpace).filter (!isTabOrNewline ·) := by
    rw [inputOf_join, List.filter_append, List.append_assoc, List.append_assoc]
    change List.dropWhile _ (host.filter _ ++ _) = _
    rw [List.filter_eq_self.2 fun c hc ↦ (hhost' c hc).2,
      List.dropWhile_append_of_pos fun c hc ↦ (hhost' c hc).1]
    rcases hstart with rfl | ⟨names, rfl⟩
    · rfl
    · rfl
  obtain ⟨seg, segs, hsegs⟩ := List.exists_cons_of_ne_nil
    (segmentsOf_ne_nil ((rel.rdropWhile isControlOrSpace).filter (!isTabOrNewline ·)))
  rw [httpsPath, hrest, segmentsOf_join hdir', hnames, relativeSegments,
    ← resolve_append (segmentsOf_ne_nil _), hsegs]
  cases names with
  | nil => rfl
  | cons name names => rfl

theorem httpsPath_join (hbase : IsDirectory base) (rel : List Char) :
    httpsPath (base ++ '/' :: rel) =
      resolve segmentKind [] (directoryPath base) (relativeSegments rel) := by
  obtain ⟨dir, hdir⟩ := exists_httpsPath_join hbase
  have hdirectory : directoryPath base = dir := by
    rw [directoryPath, hdir []]
    exact List.dropLast_concat
  rw [hdirectory, hdir]

end Joining

end SlipScan.Foundation.Urls
