import Xsched.HbSplit.Rewrite

/-!
# The entries of a PTX text

`CollectEntryNames` reads the names of the entries from left to right: behind
an `.entry ` that no name and no dot goes before, up to the next space or
parenthesis.
-/
namespace Xsched.HbSplit

/-- `CollectEntryNames` does not take an `.entry ` that follows such a character. -/
def isEntryPrefix (c : Char) : Bool := c.isAlphanum || c = '_' || c = '.'

/-- What a name consists of, to `CollectEntryNames`. -/
def isNameChar (c : Char) : Bool := !isSpaceChar c && c ≠ '('

def entryNeedle : Text := ".entry ".toList

/-- The loop of `CollectEntryNames`. `prev` is the character in front, `skip`
how many characters were passed already. -/
def collectGo : Option Char → Nat → Text → List Text
  | _, _, [] => []
  | _, skip + 1, c :: t => collectGo (some c) skip t
  | prev, 0, c :: t =>
    match strip entryNeedle (c :: t) with
    | none => collectGo (some c) 0 t
    | some rest =>
      if prev.any isEntryPrefix then collectGo (some c) 6 t
      else
        let ws := rest.takeWhile isSpaceChar
        let name := (rest.dropWhile isSpaceChar).takeWhile isNameChar
        (if name = [] then [] else [name]) ++ collectGo (some c) (6 + ws.length + name.length) t

/-- mirrors platforms/cuda/hal/src/hb_split/backend.cpp:452-471 -/
def collectEntryNames (ptx : Text) : List Text := collectGo none 0 ptx

end Xsched.HbSplit
