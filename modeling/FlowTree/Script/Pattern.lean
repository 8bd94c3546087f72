import FlowTree.Text.Blank
import FlowTree.Text.Word

/-!
# Text patterns

A pattern is a sequence of pieces: words, runs of blanks, and tests of the place between two
characters. `find?` looks for the first place of a text at which a pattern matches.
-/

namespace FlowTree.Script

inductive Piece
  /-- The first of the words after which the rest of the pattern matches. -/
  | oneOf (words : List String)
  /-- A run of blanks as long as possible, maybe empty. -/
  | gap
  | blank
  /-- A place between a word character and another one or an end of the text. -/
  | edge
  /-- The start of the text or of a line. -/
  | lineStart
  deriving DecidableEq, Repr

abbrev Pattern := List Piece

namespace Pattern

def word (w : String) : Piece :=
  .oneOf [w]

/-- Whether an edge lies between the character before and the text behind. -/
def atEdge (before : Option Char) (s : List Char) : Bool :=
  before.any Text.isWord != s.head?.any Text.isWord

/-- What the pattern matches at the front of a text, given the character before it. -/
def match? : Pattern → Option Char → List Char → Option (List Char)
  | [], _, _ => some []
  | .oneOf words :: ps, before, s =>
    words.findSome? fun w =>
      if w.toList.isPrefixOf s then
        (match? ps (w.toList.getLast?.or before) (s.drop w.toList.length)).map (w.toList ++ ·)
      else none
  | .gap :: ps, before, s =>
    let blanks := s.takeWhile Text.isBlank
    (match? ps (blanks.getLast?.or before) (s.dropWhile Text.isBlank)).map (blanks ++ ·)
  | .blank :: ps, _, s =>
    match s with
    | c :: s => if Text.isBlank c then (match? ps (some c) s).map (c :: ·) else none
    | [] => none
  | .edge :: ps, before, s => if atEdge before s then match? ps before s else none
  | .lineStart :: ps, before, s =>
    if before.all (· = '\n') then match? ps before s else none

/-- The first match in a text that follows the given character. -/
def findFrom? (p : Pattern) (before : Option Char) (s : List Char) : Option (List Char) :=
  match p.match? before s with
  | some m => some m
  | none => match s with
    | [] => none
    | c :: s => findFrom? p (some c) s

def find? (p : Pattern) (s : List Char) : Option (List Char) :=
  p.findFrom? none s

end Pattern

end FlowTree.Script
