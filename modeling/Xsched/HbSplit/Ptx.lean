import Mathlib.Data.List.Basic
import Xsched.HbSplit.Decompose

/-!
# The PTX transform

`TransformKernelPtx` gives one entry of a PTX text three parameters
`__hb_off_x`, `__hb_off_y` and `__hb_off_z`, loads them into registers at the
top of the body, and behind every read of the block index that it recognises
adds the register of the axis. Everything is done on the text: the entry is
found by its name, the parameter list and the body by counting brackets, and
the reads by a regular expression for each axis.

The expression is
`(^|\n)([\t ]*)mov\.u32\s+(%[A-Za-z0-9_]+)\s*,\s*%ctaid\.a\s*;`. What each of
its repetitions accepts cannot begin what follows it, so a greedy matcher that
never gives a character back (`matchLine`) finds the matches of the backtracking
one. `^` holds at the start of the text only.
-/
namespace Xsched.HbSplit

abbrev Text := List Char

/-! ## Searching -/

def findAux (needle : Text) : Text → Nat → Option Nat
  | [], i => if needle = [] then some i else none
  | c :: t, i => if needle.isPrefixOf (c :: t) then some i else findAux needle t (i + 1)

/-- `s.find(needle, pos)` -/
def find (needle s : Text) (pos : Nat) : Option Nat := findAux needle (s.drop pos) pos

def contains (needle s : Text) : Bool := (find needle s 0).isSome

/-- The index of the bracket that closes the one the scan began at. -/
def findClose (op cl : Char) : Text → Nat → Int → Option Nat
  | [], _, _ => none
  | c :: t, i, depth =>
    if c = op then findClose op cl t (i + 1) (depth + 1)
    else if c = cl then
      if depth - 1 = 0 then some i else findClose op cl t (i + 1) (depth - 1)
    else findClose op cl t (i + 1) depth

/-- mirrors platforms/cuda/hal/src/hb_split/backend.cpp:239-242 -/
def isSpaceChar (c : Char) : Bool := c = ' ' || c = '\t' || c = '\r' || c = '\n'

/-- mirrors platforms/cuda/hal/src/hb_split/backend.cpp:261-272 -/
def findEntryName (s kernelName : Text) : Option Nat :=
  match find (".visible .entry ".toList ++ kernelName) s 0 with
  | some pos => some (pos + (".visible .entry ".toList ++ kernelName).length)
  | none =>
    match find (".entry ".toList ++ kernelName) s 0 with
    | some pos => some (pos + (".entry ".toList ++ kernelName).length)
    | none => none

/-- mirrors platforms/cuda/hal/src/hb_split/backend.cpp:274-295, the two brackets
as a pair -/
def findEntryParamClose (s kernelName : Text) : Option (Nat × Nat) := do
  let entryEnd ← findEntryName s kernelName
  let pos ← find ['('] s entryEnd
  let close ← findClose '(' ')' (s.drop pos) pos 0
  pure (pos, close)

/-- `s.substr(first, last - first)` -/
def slice (s : Text) (first last : Nat) : Text := (s.drop first).take (last - first)

/-- mirrors platforms/cuda/hal/src/hb_split/backend.cpp:297-303 -/
def paramListNonEmpty (s : Text) (openParen closeParen : Nat) : Bool :=
  (slice s (openParen + 1) closeParen).any fun c => !isSpaceChar c

/-- mirrors platforms/cuda/hal/src/hb_split/backend.cpp:305-311 -/
def paramListHasOffsets (s : Text) (openParen closeParen : Nat) : Bool :=
  let params := slice s (openParen + 1) closeParen
  contains "__hb_off_x".toList params && contains "__hb_off_y".toList params &&
    contains "__hb_off_z".toList params

/-- mirrors platforms/cuda/hal/src/hb_split/backend.cpp:313-325 -/
def findClosingBrace (s : Text) (openBrace : Nat) : Option Nat :=
  findClose '{' '}' (s.drop openBrace) openBrace 0

/-- mirrors platforms/cuda/hal/src/hb_split/backend.cpp:327-338 -/
def injectOffsetParams (s : Text) (openParen closeParen : Nat) : Text :=
  s.take closeParen ++ (if paramListNonEmpty s openParen closeParen then ", " else " ").toList ++
    ".param .u32 __hb_off_x, .param .u32 __hb_off_y, .param .u32 __hb_off_z".toList ++
    s.drop closeParen

/-- mirrors platforms/cuda/hal/src/hb_split/backend.cpp:340-345 -/
def containsCrossBlockSync (body : Text) : Bool :=
  contains "grid.sync".toList body || contains "griddepcontrol".toList body ||
    contains "barrier.cluster".toList body

/-! ## Rewriting one axis -/

/-- `[\t ]` -/
def isBlank (c : Char) : Bool := c = '\t' || c = ' '

/-- `\s` -/
def isSpace (c : Char) : Bool :=
  c = ' ' || c = '\t' || c = '\n' || c = '\r' || c = '\x0b' || c = '\x0c'

/-- `[A-Za-z0-9_]` -/
def isWord (c : Char) : Bool := c.isAlphanum || c = '_'

def Axis.char : Axis → Char
  | .x => 'x'
  | .y => 'y'
  | .z => 'z'

/-- The special register of an axis, as a kernel spells it. -/
def ctaid (a : Axis) : Text := "%ctaid.".toList ++ [a.char]

/-- The register that holds the offset of an axis. -/
def offsetReg (a : Axis) : Text := "%__hb_r".toList ++ [a.char]

/-- A match of the expression: its three groups and the space between them. -/
structure Mov where
  nl : Text
  ind : Text
  ws₁ : Text
  reg : Text
  ws₂ : Text
  ws₃ : Text
  ws₄ : Text
deriving DecidableEq

namespace Mov

/-- The part of the match before the special register. -/
def before (m : Mov) : Text :=
  m.nl ++ m.ind ++ "mov.u32".toList ++ m.ws₁ ++ m.reg ++ m.ws₂ ++ [','] ++ m.ws₃

def text (m : Mov) (a : Axis) : Text := m.before ++ ctaid a ++ m.ws₄ ++ [';']

/-- What replaces the match, backend.cpp:358-373. -/
def out (m : Mov) (a : Axis) : Text :=
  m.nl ++ m.ind ++ "mov.u32 ".toList ++ m.reg ++ ", ".toList ++ ctaid a ++ ";\n".toList ++ m.ind ++
    "add.s32 ".toList ++ m.reg ++ ", ".toList ++ m.reg ++ ", ".toList ++ offsetReg a ++ [';']

end Mov

def strip (lit t : Text) : Option Text :=
  if lit.isPrefixOf t then some (t.drop lit.length) else none

/-- The expression behind its first group. -/
def matchLine (a : Axis) (nl t₀ : Text) : Option Mov := do
  let ind := t₀.takeWhile isBlank
  let t₁ ← strip "mov.u32".toList (t₀.dropWhile isBlank)
  let ws₁ := t₁.takeWhile isSpace
  guard (ws₁ ≠ [])
  let t₂ ← strip ['%'] (t₁.dropWhile isSpace)
  let name := t₂.takeWhile isWord
  guard (name ≠ [])
  let t₃ := t₂.dropWhile isWord
  let ws₂ := t₃.takeWhile isSpace
  let t₄ ← strip [','] (t₃.dropWhile isSpace)
  let ws₃ := t₄.takeWhile isSpace
  let t₅ ← strip (ctaid a) (t₄.dropWhile isSpace)
  let ws₄ := t₅.takeWhile isSpace
  let _ ← strip [';'] (t₅.dropWhile isSpace)
  pure { nl, ind, ws₁, reg := '%' :: name, ws₂, ws₃, ws₄ }

/-- A match that begins here. `start` says that here is the start of the text. -/
def matchAt (a : Axis) (start : Bool) (t : Text) : Option Mov :=
  match (if start then matchLine a [] t else none), t with
  | some m, _ => some m
  | none, '\n' :: t' => matchLine a ['\n'] t'
  | none, _ => none

/-- The loop over the matches: text between two of them is copied (`skip = 0`),
the text of one is skipped. -/
def rewriteGo (a : Axis) : Bool → Nat → Text → Text
  | _, _, [] => []
  | _, skip + 1, _ :: t => rewriteGo a false skip t
  | start, 0, c :: t =>
    match matchAt a start (c :: t) with
    | some m => m.out a ++ rewriteGo a false ((m.text a).length - 1) t
    | none => c :: rewriteGo a false 0 t

/-- `modified`: whether there is a match. -/
def anyMatch (a : Axis) : Bool → Text → Bool
  | _, [] => false
  | start, c :: t => (matchAt a start (c :: t)).isSome || anyMatch a false t

/-- mirrors platforms/cuda/hal/src/hb_split/backend.cpp:347-381 (`RewriteAxisMov`) -/
def rewriteAxisMov (a : Axis) (input : Text) : Text × Bool :=
  (rewriteGo a true 0 input, anyMatch a true input)

/-! ## The transform -/

/-- mirrors platforms/cuda/hal/src/hb_split/backend.cpp:62-71 -/
structure PtxTransformResult where
  ptxText : Text
  modified : Bool := false
  supportsOffsetX : Bool := false
  supportsOffsetY : Bool := false
  supportsOffsetZ : Bool := false
  crossBlockSync : Bool := false
  diagnostic : String := ""
deriving DecidableEq

def PtxTransformResult.supportsOffset (r : PtxTransformResult) : Axis → Bool
  | .x => r.supportsOffsetX
  | .y => r.supportsOffsetY
  | .z => r.supportsOffsetZ

def offsetHeader : Text :=
  ("\n\t.reg .b32 %__hb_rx;\n\t.reg .b32 %__hb_ry;\n\t.reg .b32 %__hb_rz;\n\t" ++
    "ld.param.u32 %__hb_rx, [__hb_off_x];\n\t" ++
    "ld.param.u32 %__hb_ry, [__hb_off_y];\n\t" ++
    "ld.param.u32 %__hb_rz, [__hb_off_z];\n").toList

/-- mirrors platforms/cuda/hal/src/hb_split/backend.cpp:383-450 (`TransformKernelPtx`) -/
def transformKernelPtx (ptx kernelName : Text) : PtxTransformResult :=
  match findEntryParamClose ptx kernelName with
  | none => { ptxText := ptx, diagnostic := "ENTRY_NOT_FOUND" }
  | some (openParen, closeParen) =>
    if paramListHasOffsets ptx openParen closeParen then
      { ptxText := ptx, diagnostic := "ALREADY_TRANSFORMED" }
    else
      let withParams := injectOffsetParams ptx openParen closeParen
      match findEntryParamClose withParams kernelName with
      | none => { ptxText := ptx, diagnostic := "INTERNAL_ENTRY_LOST" }
      | some (_, close₂) =>
        match find ['{'] withParams close₂ with
        | none => { ptxText := ptx, diagnostic := "BODY_NOT_FOUND" }
        | some bodyOpen =>
          match findClosingBrace withParams bodyOpen with
          | none => { ptxText := ptx, diagnostic := "UNBALANCED_BRACES" }
          | some bodyClose =>
            let body := slice withParams (bodyOpen + 1) bodyClose
            if containsCrossBlockSync body then
              { ptxText := ptx, crossBlockSync := true, diagnostic := "CROSS_BLOCK_SYNC" }
            else
              let (body, x) := rewriteAxisMov .x body
              let (body, y) := rewriteAxisMov .y body
              let (body, z) := rewriteAxisMov .z body
              { ptxText := withParams.take (bodyOpen + 1) ++ offsetHeader ++ body ++
                  withParams.drop bodyClose
                modified := true
                supportsOffsetX := x
                supportsOffsetY := y
                supportsOffsetZ := z
                diagnostic := "OK" }

end Xsched.HbSplit
