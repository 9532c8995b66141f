import SlipScan.Model.Packs

namespace SlipScan.Model.PackCompat

open Model.Packs

section Categories

/-- What one round of `parents_first` keeps: the declared keys, the categories placed in it, and the
ones that are left for the next round. -/
structure Round where
  declared : List String
  placed : List PackCategory := []
  next : List PackCategory := []

def Round.take (round : Round) (category : PackCategory) : Round :=
  match category.parentKey with
  | some parent =>
    if parent ∉ round.declared then { round with next := round.next ++ [category] }
    else { round with
      declared := category.key :: round.declared, placed := round.placed ++ [category] }
  | none => { round with
      declared := category.key :: round.declared, placed := round.placed ++ [category] }

def runRound (declared : List String) (pending : List PackCategory) : Round :=
  pending.foldl Round.take { declared }

theorem Round.length_take (round : Round) (category : PackCategory) :
    (round.take category).next.length + (round.take category).placed.length =
      round.next.length + round.placed.length + 1 := by
  rw [Round.take.eq_def]
  split
  · split <;> simp <;> omega
  · simp
    omega

theorem length_next_le (declared : List String) (pending : List PackCategory) :
    (runRound declared pending).next.length ≤ pending.length := by
  have hlength : ∀ round : Round, (pending.foldl Round.take round).next.length +
      (pending.foldl Round.take round).placed.length =
        round.next.length + round.placed.length + pending.length := by
    induction pending with
    | nil => simp
    | cons category pending ih =>
      intro round
      rw [List.foldl_cons, ih, round.length_take, List.length_cons]
      omega
  have htotal := hlength { declared }
  rw [runRound]
  simp only [List.length_nil, Nat.zero_add] at htotal
  omega

/-- The rounds, while a category is pending. A round that places nothing fails. -/
def parentsFirstFrom (declared : List String) (ordered pending : List PackCategory) :
    Except PackError (List PackCategory) :=
  if pending = [] then .ok ordered
  else
    let round := runRound declared pending
    if hsame : round.next.length = pending.length then
      let keys := round.next.map (·.key)
      .error (.validation ("pack has unresolved or cyclic parent keys: " ++ ", ".intercalate keys))
    else
      have : round.next.length < pending.length :=
        lt_of_le_of_ne (length_next_le declared pending) hsame
      parentsFirstFrom round.declared (ordered ++ round.placed) round.next
termination_by pending.length

def parentsFirst (categories : List PackCategory) : Except PackError (List PackCategory) :=
  parentsFirstFrom [] [] categories

end Categories

end SlipScan.Model.PackCompat
