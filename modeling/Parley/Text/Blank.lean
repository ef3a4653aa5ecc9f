set_option autoImplicit false

/-!
# Blank characters, words and lines

Blank characters are those of the `White_Space` property, not the blanks of one alphabet.  Words are
the maximal runs between blanks; lines end at a line feed, before which one carriage return belongs
to the line end too.
-/

namespace Parley.Text

/-- Whether a character has the `White_Space` property. -/
def isBlank (c : Char) : Bool :=
  let n := c.toNat
  (9 ≤ n && n ≤ 13) || n == 32 || n == 0x85 || n == 0xa0 || n == 0x1680 ||
    (0x2000 ≤ n && n ≤ 0x200a) || n == 0x2028 || n == 0x2029 || n == 0x202f || n == 0x205f ||
    n == 0x3000

/-- `cs` without its trailing characters that satisfy `p`. -/
def dropEndWhile (p : Char → Bool) (cs : List Char) : List Char :=
  (cs.reverse.dropWhile p).reverse

/-- `cs` without leading and trailing blanks. -/
def trim (cs : List Char) : List Char :=
  dropEndWhile isBlank (cs.dropWhile isBlank)

/-- The words of `cs`, in order. -/
def words (cs : List Char) : List (List Char) :=
  (cs.splitOnP isBlank).filter fun word => !word.isEmpty

/-- The line without the carriage return of its line end. -/
def withoutReturn (line : List Char) : List Char :=
  match line.getLast? with
  | some '\r' => line.dropLast
  | _ => line

/-- The lines of `cs`: the pieces between line feeds, without the empty piece behind a last line
feed.  A last line that no line feed ends keeps its carriage return. -/
def lines (cs : List Char) : List (List Char) :=
  let pieces := cs.splitOn '\n'
  let ended := pieces.dropLast.map withoutReturn
  match pieces.getLast? with
  | some (c :: rest) => ended ++ [c :: rest]
  | _ => ended

/-- What stands before and behind the first occurrence of `mark`. -/
def splitOnce? (mark : List Char) : List Char → Option (List Char × List Char)
  | [] => if mark.isEmpty then some ([], []) else none
  | c :: cs =>
    if mark.isPrefixOf (c :: cs) then some ([], (c :: cs).drop mark.length)
    else (splitOnce? mark cs).map fun (before, behind) => (c :: before, behind)

/-- `cs` without `mark`, if `cs` begins with it. -/
def withoutFront? (mark cs : List Char) : Option (List Char) :=
  if mark.isPrefixOf cs then some (cs.drop mark.length) else none

theorem withoutFront?_eq_some {mark cs rest : List Char} :
    withoutFront? mark cs = some rest ↔ cs = mark ++ rest := by
  unfold withoutFront?
  constructor
  · intro h
    split at h
    · rename_i hmark
      obtain ⟨behind, rfl⟩ := List.isPrefixOf_iff_prefix.1 hmark
      simpa using h
    · cases h
  · rintro rfl
    simp

end Parley.Text
