import OpenApi.Text.Ranges

/-!
# Blanks, lines and pieces

Blank characters, line ends, and what is done with them: a text is stripped of the blanks around it,
cut into lines, or folded into a single line.  A text may also be cut at every occurrence of another
character.
-/

namespace OpenApi.Text

/-- The code points of the blank characters: controls that move the position, information
separators and the spaces of all scripts. -/
def blanks : Ranges :=
  [(0x9, 0xd), (0x1c, 0x20), (0x85, 0x85), (0xa0, 0xa0), (0x1680, 0x1680), (0x2000, 0x200a),
   (0x2028, 0x2029), (0x202f, 0x202f), (0x205f, 0x205f), (0x3000, 0x3000)]

/-- The code points of the characters that end a line. -/
def lineEnds : Ranges :=
  [(0xa, 0xd), (0x1c, 0x1e), (0x85, 0x85), (0x2028, 0x2029)]

def isBlank (c : Char) : Bool := blanks.covers c.toNat

/-- Whether a character ends a line. -/
def isLineEnd (c : Char) : Bool := lineEnds.covers c.toNat

/-- Leave out the blanks at the end. -/
def stripRight (cs : List Char) : List Char := (cs.reverse.dropWhile isBlank).reverse

/-- Leave out the blanks at both ends. -/
def strip (cs : List Char) : List Char := stripRight (cs.dropWhile isBlank)

/-- The lines of a text whose first line has begun with the given characters, last one first.  A
line feed after a carriage return belongs to the same line end, and a line end at the very end opens
no further line. -/
def linesAfter (begun : List Char) : List Char → List (List Char)
  | [] => if begun.isEmpty then [] else [begun.reverse]
  | '\r' :: '\n' :: rest => begun.reverse :: linesAfter [] rest
  | c :: rest =>
    if isLineEnd c then begun.reverse :: linesAfter [] rest else linesAfter (c :: begun) rest

/-- The lines of a text, without their ends. -/
def lines (cs : List Char) : List (List Char) := linesAfter [] cs

/-- The text without the blanks around it. -/
def stripped (s : String) : String := String.ofList (strip s.toList)

/-- The text without the blanks at its end. -/
def strippedRight (s : String) : String := String.ofList (stripRight s.toList)

/-- The lines of a text, without their ends. -/
def linesOf (s : String) : List String := (lines s.toList).map String.ofList

/-- The text in one line: its lines without the blanks around them, empty ones left out, with single
spaces between. -/
def singleLine (s : String) : String :=
  " ".intercalate (((linesOf s).map stripped).filter (· ≠ ""))

/-- The text with every line end turned into a line feed.  Texts kept in files may end their lines by a
carriage return, by a line feed or by both. -/
def lineFeeds : List Char → List Char
  | [] => []
  | '\r' :: '\n' :: rest => '\n' :: lineFeeds rest
  | '\r' :: rest => '\n' :: lineFeeds rest
  | c :: rest => c :: lineFeeds rest

/-- A text with every line end turned into a line feed. -/
def withLineFeeds (s : String) : String := String.ofList (lineFeeds s.toList)

/-- The pieces between the occurrences of a mark; there is one more piece than there are marks. -/
def pieces (mark : Char) : List Char → List (List Char)
  | [] => [[]]
  | c :: rest =>
    if c = mark then [] :: pieces mark rest
    else
      match pieces mark rest with
      | [] => [[c]]
      | piece :: others => (c :: piece) :: others

/-- The members of a list written with commas: stripped, and empty ones left out. -/
def commaList (s : String) : List String :=
  ((pieces ',' s.toList).map fun piece => String.ofList (strip piece)).filter (· ≠ "")

/-- There is always a piece. -/
theorem pieces_ne_nil (mark : Char) (cs : List Char) : pieces mark cs ≠ [] := by
  cases cs with
  | nil => simp [pieces]
  | cons c rest =>
    simp only [pieces]
    split
    · simp
    · split <;> simp

end OpenApi.Text
