/-!
# Display limits
-/

namespace Chronicle

/-- How many characters of what is shown. -/
structure Limits where
  /-- Of a turn. -/
  turn : Nat := 200
  /-- Of a label that no other limit is for. -/
  label : Nat := 80
  /-- Of a command. -/
  shell : Nat := 60
  /-- Of a task's description. -/
  task : Nat := 50
  /-- Of a summary; longer ones are not shown. -/
  summary : Nat := 80
deriving DecidableEq, Repr

end Chronicle
