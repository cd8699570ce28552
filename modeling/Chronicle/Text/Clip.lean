/-!
# Clipping

`clip text limit` shows at most `limit` characters. A text that does not fit ends in an ellipsis of
three points, unless the limit is too small to hold one.
-/

namespace Chronicle.Text

/-- The three points that stand for what was cut. -/
def ellipsis : List Char := ['.', '.', '.']

/-- At most `limit` characters of a list, the last three of them points if any was cut. -/
def clipChars (cs : List Char) (limit : Nat) : List Char :=
  if cs.length ≤ limit then cs
  else if limit < 3 then cs.take limit
  else cs.take (limit - 3) ++ ellipsis

def clip (text : String) (limit : Nat) : String :=
  String.ofList (clipChars text.toList limit)

theorem clip_toList (text : String) (limit : Nat) :
    (clip text limit).toList = clipChars text.toList limit := by
  simp [clip]

end Chronicle.Text
