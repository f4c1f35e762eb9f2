import Numerals.Pattern.Basic

/-!
# Pattern tokens

A pattern text is a row of tokens: markers, which lay out the digits, and parts of affixes. A quote
makes a literal of the text up to the next quote, and two quotes in a row stand for one, inside a
quoted text and outside.

`lex` reads tokens until none starts: at the end of the text, at a semicolon, or at a quote that is
never closed (`rest_lex`). It reads them with their positions, counted in characters.
-/

namespace Numerals

/-- The characters that lay out the digits of a number. -/
inductive Marker where
  /-- `0`, a digit that is always shown. -/
  | required
  /-- `#`, a digit that is shown if the number has it. -/
  | optional
  /-- `.`, the decimal separator. -/
  | point
  /-- `,`, the grouping separator. -/
  | group
  deriving DecidableEq

inductive Token where
  | marker (m : Marker)
  | part (p : AffixPart)
  deriving DecidableEq

namespace Token

def isMarker : Token → Bool
  | marker _ => true
  | part _ => false

/-- The token of one character; a character without a meaning of its own is a literal. -/
def ofChar : Char → Token
  | '0' => marker .required
  | '#' => marker .optional
  | '.' => marker .point
  | ',' => marker .group
  | '%' => part .percent
  | '‰' => part .perMille
  | '-' => part .minus
  | '+' => part .plus
  | c => part (.literal (String.singleton c))

/-- The text up to the closing quote, two quotes read as one, and what follows it; `none` where no
quote closes. -/
def quoted : List Char → Option (List Char × List Char)
  | [] => none
  | '\'' :: '\'' :: rest => (quoted rest).map fun (text, rest) => ('\'' :: text, rest)
  | '\'' :: rest => some ([], rest)
  | c :: rest => (quoted rest).map fun (text, rest) => (c :: text, rest)

/-- The token at the front of a text and what follows it. A row of currency signs is one token. -/
def next? : List Char → Option (Token × List Char)
  | [] => none
  | ';' :: _ => none
  | '¤' :: '¤' :: rest => some (part (.currency .isoCode), rest.dropWhile (· = '¤'))
  | '¤' :: rest => some (part (.currency .symbol), rest)
  | '\'' :: '\'' :: rest => some (part (.literal "'"), rest)
  | '\'' :: rest =>
    (quoted rest).map fun (text, rest) => (part (.literal (String.ofList text)), rest)
  | c :: rest => some (ofChar c, rest)

theorem length_le_of_quoted {cs text rest : List Char} (h : quoted cs = some (text, rest)) :
    rest.length < cs.length := by
  fun_induction quoted cs generalizing text with
  | case1 => cases h
  | case2 cs ih =>
    obtain ⟨⟨t, r⟩, hq, he⟩ := Option.map_eq_some_iff.1 h
    cases he
    have := ih hq
    simp only [List.length_cons]
    omega
  | case3 cs => cases h; simp
  | case4 c cs _ _ ih =>
    obtain ⟨⟨t, r⟩, hq, he⟩ := Option.map_eq_some_iff.1 h
    cases he
    have := ih hq
    simp only [List.length_cons]
    omega

theorem length_lt_of_next? {cs rest : List Char} {t : Token} (h : next? cs = some (t, rest)) :
    rest.length < cs.length := by
  unfold next? at h
  split at h
  · cases h
  · cases h
  · cases h
    have := (List.dropWhile_sublist (· = '¤') (l := ‹List Char›)).length_le
    simp only [List.length_cons]
    omega
  · cases h; simp
  · cases h
    simp only [List.length_cons]
    omega
  · obtain ⟨⟨t, r⟩, hq, he⟩ := Option.map_eq_some_iff.1 h
    cases he
    have := length_le_of_quoted hq
    simp only [List.length_cons]
    omega
  · cases h; simp

end Token

/-- A token and the index of its first character. -/
structure Lexeme where
  position : Nat
  token : Token
  deriving DecidableEq

/-- The tokens at the front of a text, where they end, and the text left there. -/
structure Lexed where
  lexemes : List Lexeme
  stop : Nat
  rest : List Char
  deriving DecidableEq

/-- Reads tokens from a text whose first character stands at `position`. -/
def lex (position : Nat) (text : List Char) : Lexed :=
  match _h : Token.next? text with
  | none => ⟨[], position, text⟩
  | some (token, rest) =>
    let tail := lex (position + (text.length - rest.length)) rest
    { tail with lexemes := ⟨position, token⟩ :: tail.lexemes }
termination_by text.length
decreasing_by exact Token.length_lt_of_next? _h

theorem lex_of_next?_eq_none {cs : List Char} (h : Token.next? cs = none) (position : Nat) :
    lex position cs = ⟨[], position, cs⟩ := by
  rw [lex]
  split
  · rfl
  · next h' => cases h.symm.trans h'

theorem lex_of_next?_eq_some {cs rest : List Char} {t : Token}
    (h : Token.next? cs = some (t, rest)) (position : Nat) :
    lex position cs =
      { lex (position + (cs.length - rest.length)) rest with
        lexemes :=
          ⟨position, t⟩ :: (lex (position + (cs.length - rest.length)) rest).lexemes } := by
  rw [lex]
  split
  · next h' => cases h.symm.trans h'
  · next h' =>
    cases h.symm.trans h'
    rfl

theorem next?_rest_lex (position : Nat) (text : List Char) :
    Token.next? (lex position text).rest = none := by
  fun_induction lex position text with
  | case1 position text h => exact h
  | case2 position text token rest h tail ih => exact ih

/-- Reading ends at the end of the text, at a semicolon or at a quote that is never closed. -/
theorem rest_lex (position : Nat) (text : List Char) :
    (lex position text).rest = [] ∨ (∃ rest, (lex position text).rest = ';' :: rest) ∨
      ∃ rest, (lex position text).rest = '\'' :: rest ∧ Token.quoted rest = none := by
  have h := next?_rest_lex position text
  generalize (lex position text).rest = rest at h
  unfold Token.next? at h
  split at h
  · exact .inl rfl
  · exact .inr (.inl ⟨_, rfl⟩)
  · cases h
  · cases h
  · cases h
  · exact .inr (.inr ⟨_, rfl, Option.map_eq_none_iff.1 h⟩)
  · cases h

/-- Where no quote is left open, reading ends at the end of the text or at a semicolon. -/
theorem rest_lex_of_head? {position : Nat} {cs : List Char}
    (h : (lex position cs).rest.head? ≠ some '\'') :
    (lex position cs).rest = [] ∨ ∃ rest, (lex position cs).rest = ';' :: rest := by
  rcases rest_lex position cs with hr | hr | ⟨rest, hr, -⟩
  · exact .inl hr
  · exact .inr hr
  · simp [hr] at h

end Numerals
