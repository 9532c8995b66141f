import SlipScan.Model.Domain

namespace SlipScan.Model.CategoryTree

open Model.Domain

structure NestedCategory extends Category where
  parentId : Option String
  deriving DecidableEq, Repr

inductive CategoryNode
  | mk (category : NestedCategory) (children : List CategoryNode)
  deriving Repr

def CategoryNode.category : CategoryNode → NestedCategory
  | mk category _ => category

def CategoryNode.children : CategoryNode → List CategoryNode
  | mk _ children => children

/-- The nodes of some categories, one after the other. Each takes its children out of what remains. -/
def attachEach (attach : Option String → List NestedCategory →
    List CategoryNode × List NestedCategory) :
    List NestedCategory → List NestedCategory → List CategoryNode × List NestedCategory
  | [], remaining => ([], remaining)
  | category :: categories, remaining =>
    let (children, remaining) := attach (some category.id) remaining
    let (nodes, remaining) := attachEach attach categories remaining
    (.mk category children :: nodes, remaining)

/-- The nodes under a parent, and what remains then. Every level below takes a category out. -/
def attachWith : ℕ → Option String → List NestedCategory → List CategoryNode × List NestedCategory
  | 0, _, remaining => ([], remaining)
  | fuel + 1, parentId, remaining =>
    attachEach (attachWith fuel) (remaining.filter (·.parentId = parentId))
      (remaining.filter (·.parentId ≠ parentId))

def attach (parentId : Option String) (remaining : List NestedCategory) :
    List CategoryNode × List NestedCategory :=
  attachWith (remaining.length + 1) parentId remaining

def buildTree (flat : List NestedCategory) : List CategoryNode :=
  (attach none flat).1

end SlipScan.Model.CategoryTree
