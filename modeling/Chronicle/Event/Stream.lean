import Chronicle.Event.Basic

/-!
# Merged streams

`mergeBy` takes from two lists in turn whichever head has the earlier key, the left one on ties.
Lists that are in order give a list in order; others are taken as they come.
-/

namespace Chronicle

/-- Whether one key may stand before another: it is not later, and missing keys are latest. -/
def notAfter (a b : Timestamp) : Bool := (a.compare b).isLE

/-- Two lists as one, always taking the head with the earlier key. -/
def mergeBy (key : α → Timestamp) (left right : List α) : List α :=
  left.merge right fun a b => notAfter (key a) (key b)

/-- Two streams of events as one. -/
def mergeStreams (primary hooks : List Event) : List Event :=
  mergeBy Event.orderKey primary hooks

end Chronicle
