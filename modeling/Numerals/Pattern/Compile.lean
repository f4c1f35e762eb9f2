import Numerals.Pattern.Layout

/-!
# Compiling patterns

A pattern text is a positive sub-pattern, or a positive and a negative one with a semicolon between
them. Errors are looked for in the tokens of both sub-patterns, then in their number, and then in
the number body of the positive and of the negative one.
-/

namespace Numerals

namespace Lexeme

def isMarker (l : Lexeme) : Bool := l.token.isMarker

/-- The affix parts among some tokens. -/
def parts (lexemes : List Lexeme) : List AffixPart :=
  lexemes.filterMap fun l =>
    match l.token with
    | .part p => some p
    | .marker _ => none

/-- Cuts tokens after their last marker. -/
def cutAfterMarkers : List Lexeme → List Lexeme × List Lexeme
  | [] => ([], [])
  | l :: ls =>
    match cutAfterMarkers ls with
    | ([], back) => if l.isMarker then ([l], back) else ([], l :: back)
    | (body, back) => (l :: body, back)

end Lexeme

/-- What surrounds the number body of a sub-pattern, and the layout of the body. Without markers
everything stands in front. -/
def SubPattern.ofLexemes (lexemes : List Lexeme) : Except SyntaxError (SubPattern × Layout) := do
  let front := lexemes.takeWhile (!·.isMarker)
  let (body, back) := Lexeme.cutAfterMarkers (lexemes.dropWhile (!·.isMarker))
  let layout ← Layout.ofBody body
  return ({ front := .ofParts (Lexeme.parts front), back := .ofParts (Lexeme.parts back) }, layout)

/-- The sub-pattern of some tokens, if there are any; its layout does not count. -/
def SubPattern.ofLexemes? : List Lexeme → Except SyntaxError (Option SubPattern)
  | [] => .ok none
  | lexemes => do
    let (sub, _) ← SubPattern.ofLexemes lexemes
    return some sub

namespace Pattern

/-- The tokens of one sub-pattern. -/
def lexSubPattern (position : Nat) (text : List Char) : Except SyntaxError Lexed :=
  let lexed := lex position text
  if lexed.rest.head? = some '\'' then .error ⟨lexed.stop, .unterminatedQuote⟩ else .ok lexed

/-- The pattern of a text, or its first error. A negative sub-pattern without any text counts as
absent. -/
def compileChars (text : List Char) : Except SyntaxError Pattern := do
  let positiveText ← lexSubPattern 0 text
  let negativeText ← lexSubPattern (positiveText.stop + 1) (positiveText.rest.drop 1)
  if negativeText.rest ≠ [] then .error ⟨negativeText.stop, .tooManySubPatterns⟩
  let (positive, layout) ← SubPattern.ofLexemes positiveText.lexemes
  let negative ← SubPattern.ofLexemes? negativeText.lexemes
  return { layout with
    positive
    negative
    hasCurrency := positive.hasCurrency || negative.any (·.hasCurrency) }

def compile (text : String) : Except SyntaxError Pattern :=
  compileChars text.toList

/-- The characters before the first decimal separator outside quotes; each quote opens or closes. -/
def beforePoint (quoted : Bool) : List Char → List Char
  | [] => []
  | c :: cs =>
    if c = '\'' then c :: beforePoint (!quoted) cs
    else if c = '.' && !quoted then []
    else c :: beforePoint quoted cs

/-- A pattern text cut for whole numbers, before its first decimal separator. -/
def integerOnly (text : String) : String :=
  String.ofList (beforePoint false text.toList)

end Pattern

end Numerals
