import Chronicle.Timeline.Item

/-!
# Selection and tally

* `isShown`, `select`: turns, and the actions of chosen categories.
* `tally`: how many actions each category has.
-/

namespace Chronicle

/-- Whether an item is shown when these categories are chosen. Turns always are, and all actions are
when none is chosen. -/
def isShown (chosen : List Category) : TimelineItem → Bool
  | .turn _ => true
  | .action a => chosen.isEmpty || chosen.contains a.category

def select (chosen : List Category) (items : List TimelineItem) : List TimelineItem :=
  items.filter (isShown chosen)

def isOf (category : Category) (item : TimelineItem) : Bool :=
  item.action?.any (·.category == category)

def countOf (items : List TimelineItem) (category : Category) : Nat :=
  items.countP (isOf category)

/-- Every category with its number of actions. -/
def tally (items : List TimelineItem) : List (Category × Nat) :=
  Category.all.map fun category => (category, countOf items category)

end Chronicle
