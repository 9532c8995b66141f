import SlipScan.Model.Packs

namespace SlipScan.Packs.Places

open Model.Packs Foundation.Table

variable {s t : PackDb} {bookId : String} {keyToId : KeyMap}

/-- A place in the tree of the categories: the names from a category up to its root. -/
abbrev Place := List String

/-- The category at a place of a book. The empty place is above the roots. -/
def idAt (s : PackDb) (bookId : String) : Place → Option (Option String)
  | [] => some none
  | name :: above =>
    (idAt s bookId above).bind fun parentId ↦
      (siblingNamed s bookId parentId name).map fun c ↦ some c.id

def placeOf (places : String → Option Place) (spec : PackCategory) : Place :=
  spec.name :: (spec.parentKey.bind places).getD []

/-- The places that the keys of a pack get. A key that has one keeps it. -/
def placed : List PackCategory → (String → Option Place) → String → Option Place
  | [], places => places
  | spec :: specs, places =>
    placed specs (if (places spec.key).isSome then places
      else Function.update places spec.key (some (placeOf places spec)))

section Trees

variable {place place' : Place} {x : Option String} {id name : String} {c : TreeCategory}

theorem idAt_cons {above : Place} : idAt s bookId (name :: above) = some x ↔
    ∃ parentId c, idAt s bookId above = some parentId ∧
      siblingNamed s bookId parentId name = some c ∧ some c.id = x := by
  simp only [idAt, Option.bind_eq_some_iff, Option.map_eq_some_iff, exists_and_left]

theorem siblingNamed_spec {parentId : Option String} (hc : siblingNamed s bookId parentId name = some c) :
    c ∈ s.categories.rows ∧ c.bookId = bookId ∧ c.parentId = parentId ∧ c.name = name := by
  have hspec := List.find?_some hc
  simp only [decide_eq_true_eq] at hspec
  exact ⟨List.mem_of_find?_eq_some hc, hspec⟩

/-- What is at a place stays there when categories are added. -/
theorem idAt_mono (hrows : s.categories.rows <+: t.categories.rows) :
    ∀ {place x}, idAt s bookId place = some x → idAt t bookId place = some x := by
  intro place
  induction place with
  | nil => exact fun hx ↦ hx
  | cons name above ih =>
    intro x hx
    obtain ⟨parentId, c, habove, hc, rfl⟩ := idAt_cons.1 hx
    exact idAt_cons.2 ⟨parentId, c, ih habove, hrows.find?_eq_some hc, rfl⟩

theorem eq_of_id {d : TreeCategory} (hc : c ∈ s.categories.rows) (hd : d ∈ s.categories.rows)
    (hid : c.id = d.id) : c = d := by
  have hfind : s.categories.find c.id = some c := Keyed.find_eq_some.2 ⟨hc, rfl⟩
  rw [hid, Keyed.find_eq_some.2 ⟨hd, rfl⟩] at hfind
  exact (Option.some.inj hfind).symm

/-- A category has one place. -/
theorem place_unique : ∀ {place place' x}, idAt s bookId place = some x →
    idAt s bookId place' = some x → place = place' := by
  intro place
  induction place with
  | nil =>
    intro place' x hx hx'
    obtain rfl := Option.some.inj hx
    cases place' with
    | nil => rfl
    | cons name above =>
      obtain ⟨_, _, -, -, hnone⟩ := idAt_cons.1 hx'
      cases hnone
  | cons name above ih =>
    intro place' x hx hx'
    obtain ⟨parentId, c, habove, hc, rfl⟩ := idAt_cons.1 hx
    cases place' with
    | nil => cases hx'
    | cons name' above' =>
      obtain ⟨parentId', c', habove', hc', hid⟩ := idAt_cons.1 hx'
      obtain ⟨hmem, -, hparent, hname⟩ := siblingNamed_spec hc
      obtain ⟨hmem', -, hparent', hname'⟩ := siblingNamed_spec hc'
      obtain rfl := eq_of_id hmem' hmem (Option.some.inj hid)
      rw [← hparent] at habove
      rw [← hparent'] at habove'
      rw [← hname, ← hname', ih habove habove']

def Rooted (s : PackDb) : Prop :=
  ∀ c ∈ s.categories.rows, ∀ parentId ∈ c.parentId, (s.categories.find parentId).isSome

/-- A category that was there before has the place that it had. -/
theorem idAt_before (hrooted : Rooted s) (hrows : s.categories.rows <+: t.categories.rows) :
    ∀ {place id}, idAt t bookId place = some (some id) → (s.categories.find id).isSome →
      idAt s bookId place = some (some id) := by
  intro place
  induction place with
  | nil =>
    intro id hx
    cases hx
  | cons name above ih =>
    intro id hx hold
    obtain ⟨parentId, c, habove, hc, hid⟩ := idAt_cons.1 hx
    obtain rfl := Option.some.inj hid
    obtain ⟨hmem, hbook, hparent, hname⟩ := siblingNamed_spec hc
    obtain ⟨d, hd⟩ := Option.isSome_iff_exists.1 hold
    obtain ⟨hdmem, hdid⟩ := Keyed.find_eq_some.1 hd
    obtain rfl := eq_of_id (hrows.subset hdmem) hmem hdid
    have hsibling : siblingNamed s bookId parentId name = some d := by
      obtain ⟨e, he⟩ : ∃ e, siblingNamed s bookId parentId name = some e := by
        rw [← Option.isSome_iff_exists, siblingNamed, List.find?_isSome]
        exact ⟨d, hdmem, by simp [hbook, hparent, hname]⟩
      have hlater : siblingNamed t bookId parentId name = some e := hrows.find?_eq_some he
      rw [he, ← hlater, hc]
    refine idAt_cons.2 ⟨parentId, d, ?_, hsibling, rfl⟩
    cases parentId with
    | none =>
      have hroot : idAt t bookId [] = some none := rfl
      rw [place_unique habove hroot]
      rfl
    | some parentId => exact ih habove (hrooted d hdmem parentId hparent)

end Trees

section Keys

variable {places : String → Option Place} {key id : String} {place : Place}

/-- The keys of a pack stand for the categories at their places. -/
def Located (s : PackDb) (bookId : String) (keyToId : KeyMap) (places : String → Option Place) :
    Prop :=
  ∀ key, Option.Rel (fun id place ↦ idAt s bookId place = some (some id)) (keyToId key) (places key)

theorem Located.mono (hlocated : Located s bookId keyToId places)
    (hrows : s.categories.rows <+: t.categories.rows) : Located t bookId keyToId places := by
  intro key
  have hkey := hlocated key
  generalize keyToId key = id at hkey ⊢
  generalize places key = place at hkey ⊢
  cases hkey with
  | none => exact .none
  | some hid => exact .some (idAt_mono hrows hid)

theorem Located.update (hlocated : Located s bookId keyToId places)
    (hid : idAt s bookId place = some (some id)) :
    Located s bookId (Function.update keyToId key (some id))
      (Function.update places key (some place)) := by
  intro key'
  by_cases hkey : key' = key
  · subst hkey
    rw [Function.update_self, Function.update_self]
    exact .some hid
  · rw [Function.update_of_ne hkey, Function.update_of_ne hkey]
    exact hlocated key'

theorem Located.exists_place (hlocated : Located s bookId keyToId places) (hid : keyToId key = some id) :
    ∃ place, places key = some place ∧ idAt s bookId place = some (some id) := by
  have hkey := hlocated key
  rw [hid] at hkey
  generalize places key = place at hkey ⊢
  cases hkey with
  | some hplace => exact ⟨_, rfl, hplace⟩

/-- Keys stand for the same category exactly if they have the same place. -/
theorem Located.eq_iff (hlocated : Located s bookId keyToId places) {key' id' : String}
    (hid : keyToId key = some id) (hid' : keyToId key' = some id') :
    id = id' ↔ places key = places key' := by
  obtain ⟨place, hplace, hat⟩ := hlocated.exists_place hid
  obtain ⟨place', hplace', hat'⟩ := hlocated.exists_place hid'
  rw [hplace, hplace', Option.some.injEq]
  constructor
  · rintro rfl
    exact place_unique hat hat'
  · rintro rfl
    rw [hat] at hat'
    exact Option.some.inj (Option.some.inj hat')

theorem Located.parentOf {packId : String} {spec : PackCategory} {parentId : Option String}
    (hlocated : Located s bookId keyToId places)
    (hparent : parentOf packId keyToId spec = .ok parentId) :
    idAt s bookId ((spec.parentKey.bind places).getD []) = some parentId := by
  rw [Model.Packs.parentOf] at hparent
  cases hkey : spec.parentKey with
  | none =>
    rw [hkey] at hparent
    obtain rfl := Except.ok.inj hparent
    rfl
  | some parentKey =>
    rw [hkey] at hparent
    dsimp only at hparent
    cases hid : keyToId parentKey with
    | none =>
      rw [hid] at hparent
      cases hparent
    | some id =>
      rw [hid] at hparent
      obtain rfl := Except.ok.inj hparent
      obtain ⟨place, hplace, hat⟩ := hlocated.exists_place hid
      rw [Option.bind_some, hplace, Option.getD_some]
      exact hat

end Keys

end SlipScan.Packs.Places
