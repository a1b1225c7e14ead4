import DocStore.Like.Engine
import DocStore.Text.Folding

/-!
# LIKE patterns

In a pattern `%` stands for any run of characters, `_` for any one character, and every other character for the
characters of the same letter in either case. A text matches when it is, as a whole, one piece after the other. The engine
decides which texts are taken as patterns.

`tails` works backwards through the pattern and keeps, for every tail of the text, whether the pieces so far match it.
The work is the product of both lengths, whatever the pattern.
-/

namespace DocStore

namespace Like

/-- A piece of a pattern. -/
inductive Piece where
  /-- Any run of characters, the empty one included. -/
  | run
  /-- Any one character. -/
  | one
  /-- One character with this folding. -/
  | letter (folded : Char)
  deriving DecidableEq

/-- The piece that a character of a pattern stands for. -/
def Piece.ofChar (c : Char) : Piece :=
  if c = '%' then run else if c = '_' then one else letter (Text.foldCase c)

/-- For every tail of a list, whether it holds a true value. -/
def anyTails : List Bool → List Bool
  | [] => []
  | b :: bs =>
    match anyTails bs with
    | [] => [b]
    | c :: cs => (b || c) :: c :: cs

/-- The tails that a piece and what follows it match, from the tails that what follows matches. -/
def Piece.before (cs : List Char) (later : List Bool) : Piece → List Bool
  | run => anyTails later
  | one => later.tail ++ [false]
  | letter f => cs.zipWith (fun c b => c == f && b) later.tail ++ [false]

/-- For every tail of a text, longest first, whether some pieces match it. -/
def tails (cs : List Char) : List Piece → List Bool
  | [] => cs.map (fun _ => false) ++ [true]
  | p :: ps => p.before cs (tails cs ps)

end Like

/-- A pattern with its pieces. -/
structure LikePattern where
  source : String
  pieces : List Like.Piece

namespace LikePattern

/-- The pattern that a text spells, unless it is refused. -/
def ofString [Like.Engine] (source : String) : Except StoreError LikePattern :=
  match Like.Engine.refusal source with
  | some e => .error (.badPattern e)
  | none => .ok ⟨source, source.toList.map Like.Piece.ofChar⟩

/-- Whether a text as a whole matches a pattern. -/
def accepts (p : LikePattern) (text : String) : Bool :=
  (Like.tails (text.toList.map Text.foldCase) p.pieces).headD false

end LikePattern
end DocStore
