import KWayMerge.Count

/-!
# Places in a text

A character takes one to four bytes, and a place in a text is the number of bytes before it. A
text can be cut at the places between its characters only.
-/

namespace KWayMerge.Text

/-- The number of bytes of a text. -/
def byteLength (text : List Char) : Nat :=
  sumCounts (text.map Char.utf8Size)

/-- The text behind a place, unless that is inside a character or behind the end. -/
def dropBytes? : Nat → List Char → Option (List Char)
  | 0, text => some text
  | _ + 1, [] => none
  | n + 1, c :: rest =>
      if c.utf8Size ≤ n + 1 then dropBytes? (n + 1 - c.utf8Size) rest else none

/-- The text before a place, unless that is inside a character or behind the end. -/
def takeBytes? : Nat → List Char → Option (List Char)
  | 0, _ => some []
  | _ + 1, [] => none
  | n + 1, c :: rest =>
      if c.utf8Size ≤ n + 1 then (takeBytes? (n + 1 - c.utf8Size) rest).map (c :: ·) else none

def cut? (first last : Nat) (text : List Char) : Option (List Char) :=
  (dropBytes? first text).bind (takeBytes? (last - first))

end KWayMerge.Text
