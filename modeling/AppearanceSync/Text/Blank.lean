/-!
# Blank characters

The characters that separate words of a command and may surround the pieces of a flag list: every
character with the Unicode property White_Space.
-/

namespace AppearanceSync.Text

/-- The ranges of the White_Space property, ends included. -/
def blankRanges : List (Nat × Nat) :=
  [(0x09, 0x0d), (0x20, 0x20), (0x85, 0x85), (0xa0, 0xa0), (0x1680, 0x1680), (0x2000, 0x200a),
   (0x2028, 0x2029), (0x202f, 0x202f), (0x205f, 0x205f), (0x3000, 0x3000)]

/-- Whether a character separates words. -/
def isBlank (c : Char) : Bool := blankRanges.any fun r => r.1 ≤ c.toNat && c.toNat ≤ r.2

/-- Text without the blanks around it. -/
def trim (cs : List Char) : List Char :=
  ((cs.dropWhile isBlank).reverse.dropWhile isBlank).reverse

/-- The pieces of a text between single separators; there is always at least one piece. -/
def pieces (separator : Char) : List Char → List (List Char)
  | [] => [[]]
  | c :: cs =>
    if c = separator then [] :: pieces separator cs
    else
      match pieces separator cs with
      | [] => [[c]]
      | piece :: rest => (c :: piece) :: rest

/-- The non-empty runs of characters that are not blank. -/
def words (cs : List Char) : List (List Char) := go [] cs
where
  /-- Collects the current word backwards. -/
  go (current : List Char) : List Char → List (List Char)
    | [] => if current.isEmpty then [] else [current.reverse]
    | c :: cs =>
      if isBlank c then
        if current.isEmpty then go [] cs else current.reverse :: go [] cs
      else go (c :: current) cs

end AppearanceSync.Text
