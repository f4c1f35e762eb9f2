import Mathlib.Data.List.DropRight
import Numerals.Pattern.Compile

/-!
# Pattern texts by characters

What a pattern text means can be told character by character, without tokens: outside quotes some
characters are markers, one separates the sub-patterns, and the rest is text (`glyphs`). `Spans`
relates tokens to the characters they were read from; `lex_spec` says that `lex` reads exactly the
text up to its end, to the first semicolon outside quotes, or to a quote that is never closed.
-/

namespace Numerals

/-- What a character of a pattern text stands for. -/
inductive Glyph where
  | marker (m : Marker)
  /-- The semicolon between the sub-patterns. -/
  | semicolon
  /-- A character of an affix, a quoted one, or a quote. -/
  | other
  deriving DecidableEq

namespace Glyph

/-- What a character outside quotes stands for. -/
def ofChar : Char → Glyph
  | '0' => marker .required
  | '#' => marker .optional
  | '.' => marker .point
  | ',' => marker .group
  | ';' => semicolon
  | _ => other

def isMarker : Glyph → Bool
  | marker _ => true
  | _ => false

/-- Everything from the first to the last marker. -/
def body (gs : List Glyph) : List Glyph :=
  (gs.dropWhile (!·.isMarker)).rdropWhile (!·.isMarker)

end Glyph

/-- What the characters of a text stand for, read from outside or inside quotes. Two quotes in a
row stand for a quote. -/
def glyphs (quoted : Bool) : List Char → List Glyph
  | [] => []
  | '\'' :: '\'' :: cs => .other :: .other :: glyphs quoted cs
  | '\'' :: cs => .other :: glyphs (!quoted) cs
  | c :: cs => (if quoted then .other else .ofChar c) :: glyphs quoted cs

/-- Whether a quote is open after a text, read from outside or inside quotes. -/
def quoteOpen (quoted : Bool) : List Char → Bool
  | [] => quoted
  | '\'' :: '\'' :: cs => quoteOpen quoted cs
  | '\'' :: cs => quoteOpen (!quoted) cs
  | _ :: cs => quoteOpen quoted cs

example : glyphs false ['\'', '#', '\'', '\'', '\'', '#', ';'] =
    [.other, .other, .other, .other, .other, .marker .optional, .semicolon] := by decide

/-! ## Reading on -/

theorem glyphs_cons_of_ne {c : Char} (h : c ≠ '\'') (q : Bool) (cs : List Char) :
    glyphs q (c :: cs) = (if q then .other else .ofChar c) :: glyphs q cs := by
  rw [glyphs]
  · rintro _ rfl
    exact absurd rfl h
  · exact h

theorem quoteOpen_cons_of_ne {c : Char} (h : c ≠ '\'') (q : Bool) (cs : List Char) :
    quoteOpen q (c :: cs) = quoteOpen q cs := by
  rw [quoteOpen]
  · rintro _ rfl
    exact absurd rfl h
  · exact h

/-- Every quote opens or closes, also each of two in a row. -/
theorem glyphs_quote (q : Bool) (cs : List Char) :
    glyphs q ('\'' :: cs) = .other :: glyphs (!q) cs := by
  induction cs generalizing q with
  | nil => rfl
  | cons c cs ih =>
    by_cases h : c = '\''
    · subst h
      rw [ih, Bool.not_not]
      rfl
    · rw [glyphs]
      rintro _ ⟨⟩
      exact h rfl

theorem quoteOpen_quote (q : Bool) (cs : List Char) :
    quoteOpen q ('\'' :: cs) = quoteOpen (!q) cs := by
  induction cs generalizing q with
  | nil => rfl
  | cons c cs ih =>
    by_cases h : c = '\''
    · subst h
      rw [ih, Bool.not_not]
      rfl
    · rw [quoteOpen]
      rintro _ ⟨⟩
      exact h rfl

theorem length_glyphs (q : Bool) (cs : List Char) : (glyphs q cs).length = cs.length := by
  induction cs generalizing q with
  | nil => rfl
  | cons c cs ih =>
    by_cases h : c = '\''
    · subst h
      rw [glyphs_quote, List.length_cons, List.length_cons, ih]
    · rw [glyphs_cons_of_ne h, List.length_cons, List.length_cons, ih]

theorem quoteOpen_append (q : Bool) (a b : List Char) :
    quoteOpen q (a ++ b) = quoteOpen (quoteOpen q a) b := by
  induction a generalizing q with
  | nil => rfl
  | cons c a ih =>
    by_cases h : c = '\''
    · subst h
      rw [List.cons_append, quoteOpen_quote, quoteOpen_quote, ih]
    · rw [List.cons_append, quoteOpen_cons_of_ne h, quoteOpen_cons_of_ne h, ih]

theorem glyphs_append (q : Bool) (a b : List Char) :
    glyphs q (a ++ b) = glyphs q a ++ glyphs (quoteOpen q a) b := by
  induction a generalizing q with
  | nil => rfl
  | cons c a ih =>
    by_cases h : c = '\''
    · subst h
      rw [List.cons_append, glyphs_quote, glyphs_quote, quoteOpen_quote, ih, List.cons_append]
    · rw [List.cons_append, glyphs_cons_of_ne h, glyphs_cons_of_ne h, quoteOpen_cons_of_ne h, ih,
        List.cons_append]

theorem glyphs_of_forall_ne {cs : List Char} (h : ∀ c ∈ cs, c ≠ '\'') :
    glyphs false cs = cs.map .ofChar := by
  induction cs with
  | nil => rfl
  | cons c cs ih =>
    rw [glyphs_cons_of_ne (h c List.mem_cons_self), ih fun d hd => h d (List.mem_cons_of_mem _ hd)]
    rfl

theorem quoteOpen_of_forall_ne {cs : List Char} (h : ∀ c ∈ cs, c ≠ '\'') (q : Bool) :
    quoteOpen q cs = q := by
  induction cs with
  | nil => rfl
  | cons c cs ih =>
    rw [quoteOpen_cons_of_ne (h c List.mem_cons_self)]
    exact ih fun d hd => h d (List.mem_cons_of_mem _ hd)

/-! ## Tokens -/

namespace Token

/-- A quoted text is one up to its closing quote, without any marker or semicolon. -/
theorem quoted_eq_some {cs text rest : List Char} (h : quoted cs = some (text, rest)) :
    ∃ block, cs = block ++ rest ∧ quoteOpen true block = false ∧
      ∀ g ∈ glyphs true block, g = .other := by
  fun_induction quoted cs generalizing text with
  | case1 => cases h
  | case2 cs ih =>
    obtain ⟨⟨t, r⟩, hq, he⟩ := Option.map_eq_some_iff.1 h
    cases he
    obtain ⟨block, rfl, hopen, hother⟩ := ih hq
    refine ⟨'\'' :: '\'' :: block, rfl, ?_, ?_⟩
    · rwa [quoteOpen]
    · simpa [glyphs] using hother
  | case3 cs =>
    cases h
    exact ⟨['\''], rfl, rfl, by simp [glyphs]⟩
  | case4 c cs _ hc ih =>
    obtain ⟨⟨t, r⟩, hq, he⟩ := Option.map_eq_some_iff.1 h
    cases he
    obtain ⟨block, rfl, hopen, hother⟩ := ih hq
    have hne : c ≠ '\'' := hc
    refine ⟨c :: block, rfl, ?_, ?_⟩
    · rwa [quoteOpen_cons_of_ne hne]
    · simpa [glyphs_cons_of_ne hne] using hother

theorem quoteOpen_of_quoted_eq_none {cs : List Char} (h : quoted cs = none) :
    quoteOpen true cs = true := by
  fun_induction quoted cs with
  | case1 => rfl
  | case2 cs ih =>
    rw [quoteOpen]
    exact ih (Option.map_eq_none_iff.1 h)
  | case3 cs => cases h
  | case4 c cs _ hc ih =>
    have hne : c ≠ '\'' := hc
    rw [quoteOpen_cons_of_ne hne]
    exact ih (Option.map_eq_none_iff.1 h)

/-- Whether a token was read from characters that stand for `gs`. -/
def Covers : Token → List Glyph → Prop
  | marker m, gs => gs = [.marker m]
  | part _, gs => gs ≠ [] ∧ ∀ g ∈ gs, g = .other

theorem covers_ofChar {c : Char} (h : c ≠ ';') : (ofChar c).Covers [Glyph.ofChar c] := by
  unfold ofChar
  split
  case h_9 =>
    have : Glyph.ofChar c = .other := by
      unfold Glyph.ofChar
      split <;> first | rfl | contradiction
    exact ⟨List.cons_ne_nil _ _, by simpa using this⟩
  all_goals first
    | rfl
    | exact ⟨List.cons_ne_nil _ _, by simp [Glyph.ofChar]⟩

theorem next?_eq_some {cs rest : List Char} {t : Token} (h : next? cs = some (t, rest)) :
    ∃ block, cs = block ++ rest ∧ quoteOpen false block = false ∧
      t.Covers (glyphs false block) := by
  unfold next? at h
  split at h
  · cases h
  · cases h
  · next cs =>
    cases h
    have hsign : ∀ c ∈ '¤' :: '¤' :: cs.takeWhile (· = '¤'), c = '¤' := by
      simpa using fun c hc => by simpa using List.mem_takeWhile_imp hc
    have hne : ∀ c ∈ '¤' :: '¤' :: cs.takeWhile (· = '¤'), c ≠ '\'' := by
      intro c hc
      simp [hsign c hc]
    refine ⟨_, by simp, quoteOpen_of_forall_ne hne false, ?_, ?_⟩
    · simp [glyphs_of_forall_ne hne]
    · rw [glyphs_of_forall_ne hne]
      intro g hg
      obtain ⟨c, hc, rfl⟩ := List.mem_map.1 hg
      rw [hsign c hc]
      rfl
  · cases h
    exact ⟨['¤'], rfl, rfl, by simp [glyphs], by simp [glyphs, Glyph.ofChar]⟩
  · cases h
    exact ⟨['\'', '\''], rfl, rfl, by simp [glyphs], by simp [glyphs]⟩
  · obtain ⟨⟨text, r⟩, hq, he⟩ := Option.map_eq_some_iff.1 h
    cases he
    obtain ⟨block, rfl, hopen, hother⟩ := quoted_eq_some hq
    refine ⟨'\'' :: block, rfl, ?_, ?_, ?_⟩
    · rwa [quoteOpen_quote]
    · simp [glyphs_quote]
    · simpa [glyphs_quote] using hother
  · next c cs hsemi _ _ _ hquote =>
    cases h
    have hne : c ≠ '\'' := hquote
    refine ⟨[c], rfl, by rw [quoteOpen_cons_of_ne hne]; rfl, ?_⟩
    rw [glyphs_cons_of_ne hne]
    exact covers_ofChar hsemi

end Token

/-- Tokens read one after another, the first at `position`, from characters that stand for the
glyphs. -/
inductive Spans : Nat → List Lexeme → List Glyph → Prop where
  | nil (position : Nat) : Spans position [] []
  | cons {position : Nat} {token : Token} {block : List Glyph} {lexemes : List Lexeme}
      {gs : List Glyph} : token.Covers block → Spans (position + block.length) lexemes gs →
      Spans position (⟨position, token⟩ :: lexemes) (block ++ gs)

/-- **What `lex` reads.** A front of the text that leaves no quote open, token by token. -/
theorem lex_spec (position : Nat) (cs : List Char) :
    ∃ front, cs = front ++ (lex position cs).rest ∧
      (lex position cs).stop = position + front.length ∧ quoteOpen false front = false ∧
      Spans position (lex position cs).lexemes (glyphs false front) := by
  fun_induction lex position cs with
  | case1 position cs h => exact ⟨[], rfl, rfl, rfl, .nil position⟩
  | case2 position cs token rest h tail ih =>
    obtain ⟨block, rfl, hopen, hcovers⟩ := Token.next?_eq_some h
    obtain ⟨front, hfront, hstop, hfopen, hspans⟩ := ih
    have hlen : (block ++ rest).length - rest.length = (glyphs false block).length := by
      rw [List.length_append, Nat.add_sub_cancel, length_glyphs]
    refine ⟨block ++ front, ?_, ?_, ?_, ?_⟩
    · rw [List.append_assoc]
      exact congrArg (block ++ ·) hfront
    · rw [hlen, length_glyphs] at hstop
      rw [List.length_append, ← Nat.add_assoc]
      simpa [tail] using hstop
    · rw [quoteOpen_append, hopen, hfopen]
    · rw [glyphs_append, hopen]
      apply Spans.cons hcovers
      rw [← hlen]
      exact hspans

/-! ## Bodies -/

theorem rdropWhile_append {α : Type} (p : α → Bool) (a b : List α) :
    (a ++ b).rdropWhile p =
      if b.rdropWhile p = [] then a.rdropWhile p else a ++ b.rdropWhile p := by
  rw [List.rdropWhile, List.reverse_append, List.dropWhile_append, List.rdropWhile,
    List.rdropWhile]
  by_cases h : b.reverse.dropWhile p = [] <;> simp [h]

/-- What ends in a row of one kind of elements falls apart in one way only. -/
theorem rdropWhile_rtakeWhile_append {α : Type} {p : α → Bool} {a b : List α}
    (ha : ∀ c ∈ a.getLast?, p c = false) (hb : ∀ c ∈ b, p c = true) :
    (a ++ b).rdropWhile p = a ∧ (a ++ b).rtakeWhile p = b := by
  have hdrop : (a ++ b).rdropWhile p = a := by
    rw [rdropWhile_append, if_pos (List.rdropWhile_eq_nil_iff.2 hb), List.rdropWhile_eq_self_iff]
    intro hne
    simp [ha _ (List.getLast?_eq_some_getLast hne)]
  refine ⟨hdrop, ?_⟩
  have happend : (a ++ b).rdropWhile p ++ (a ++ b).rtakeWhile p = a ++ b :=
    List.rdropWhile_append_rtakeWhile
  rw [hdrop] at happend
  exact List.append_cancel_left happend

namespace Lexeme

theorem cutAfterMarkers_fst (ls : List Lexeme) :
    (cutAfterMarkers ls).1 = ls.rdropWhile (!·.isMarker) := by
  induction ls with
  | nil => rfl
  | cons l ls ih =>
    rw [← List.singleton_append, rdropWhile_append, List.rdropWhile_singleton, ← ih,
      List.singleton_append, cutAfterMarkers]
    rcases cutAfterMarkers ls with ⟨_ | ⟨b, body⟩, back⟩
    · cases l.isMarker <;> rfl
    · rfl

end Lexeme

namespace Spans

variable {position : Nat} {ls : List Lexeme} {gs : List Glyph}

theorem ne_semicolon (h : Spans position ls gs) : ∀ g ∈ gs, g ≠ .semicolon := by
  induction h with
  | nil => simp
  | @cons position token block ls gs hcovers _ ih =>
    intro g hg
    rcases List.mem_append.1 hg with hg | hg
    · cases token with
      | marker m => simp [show block = _ from hcovers] at hg; simp [hg]
      | part p => simp [hcovers.2 g hg]
    · exact ih g hg

theorem dropWhile (h : Spans position ls gs) :
    ∃ position', Spans position' (ls.dropWhile (!·.isMarker)) (gs.dropWhile (!·.isMarker)) := by
  induction h with
  | nil position => exact ⟨position, .nil position⟩
  | @cons position token block ls gs hcovers hspans ih =>
    cases token with
    | marker m =>
      cases (show block = [.marker m] from hcovers)
      exact ⟨position, .cons hcovers hspans⟩
    | part p =>
      have hblock : ∀ g ∈ block, (!g.isMarker) = true := by
        intro g hg
        simp [hcovers.2 g hg, Glyph.isMarker]
      rw [List.dropWhile_append_of_pos hblock]
      exact ih

theorem eq_nil_iff (h : Spans position ls gs) : ls = [] ↔ gs = [] := by
  cases h with
  | nil => simp
  | @cons _ token block _ _ hcovers _ =>
    have : block ≠ [] := by
      cases token with
      | marker m => simp [show block = [.marker m] from hcovers]
      | part p => exact hcovers.1
    simp [this]

theorem rdropWhile (h : Spans position ls gs) :
    Spans position (ls.rdropWhile (!·.isMarker)) (gs.rdropWhile (!·.isMarker)) := by
  induction h with
  | nil position => exact .nil position
  | @cons position token block ls gs hcovers hspans ih =>
    rw [← List.singleton_append, rdropWhile_append, rdropWhile_append]
    by_cases hnil : ls.rdropWhile (!·.isMarker) = []
    · rw [if_pos hnil, if_pos (ih.eq_nil_iff.1 hnil), List.rdropWhile_singleton]
      cases token with
      | marker m =>
        cases (show block = [.marker m] from hcovers)
        exact .cons hcovers (.nil _)
      | part p =>
        have hblock : block.rdropWhile (!·.isMarker) = [] :=
          List.rdropWhile_eq_nil_iff.2 fun g hg => by simp [hcovers.2 g hg, Glyph.isMarker]
        rw [hblock]
        exact .nil _
    · rw [if_neg hnil, if_neg (mt ih.eq_nil_iff.2 hnil)]
      exact .cons hcovers ih

theorem body (h : Spans position ls gs) :
    ∃ position', Spans position' (Lexeme.cutAfterMarkers (ls.dropWhile (!·.isMarker))).1
      (Glyph.body gs) := by
  obtain ⟨position', h'⟩ := h.dropWhile
  rw [Lexeme.cutAfterMarkers_fst]
  exact ⟨position', h'.rdropWhile⟩

theorem eq_map_marker_iff (h : Spans position ls gs) {ms : List Marker} :
    gs = ms.map .marker ↔ ls.map (·.token) = ms.map .marker := by
  induction h generalizing ms with
  | nil => cases ms <;> simp
  | @cons position token block ls gs hcovers _ ih =>
    cases token with
    | marker m =>
      cases (show block = [.marker m] from hcovers)
      cases ms with
      | nil => simp
      | cons m' ms => simp [ih]
    | part p =>
      obtain ⟨hne, hother⟩ := hcovers
      cases block with
      | nil => exact absurd rfl hne
      | cons g block =>
        cases hother g List.mem_cons_self
        cases ms <;> simp

end Spans

end Numerals
