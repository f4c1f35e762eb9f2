import Numerals.Proofs.Pattern.Glyphs
import Numerals.Proofs.Pattern.NumberForm

/-!
# The grammar of patterns

A pattern text is in the grammar if its quotes are closed, at most one semicolon stands outside
them, and the markers of each sub-pattern are those of a number body (`Pattern.Grammar`).
`Pattern.compile_grammar` says that just these texts compile, and what layout they get.
-/

namespace Numerals

/-- The body of a sub-pattern is nothing but markers, of the form `n`. -/
structure Glyph.HasForm (gs : List Glyph) (n : NumberForm) : Prop where
  valid : n.Valid
  body : Glyph.body gs = n.markers.map .marker

theorem Glyph.hasForm_nil : Glyph.HasForm [] {} :=
  ⟨NumberForm.valid_empty, rfl⟩

namespace Pattern

/-- What stands before the first semicolon outside quotes. -/
def positiveGlyphs (gs : List Glyph) : List Glyph :=
  gs.takeWhile (· ≠ .semicolon)

/-- What stands after the first semicolon outside quotes. -/
def negativeGlyphs (gs : List Glyph) : List Glyph :=
  (gs.dropWhile (· ≠ .semicolon)).tail

/-- The pattern texts whose sub-patterns have bodies of the forms `positive` and `negative`. -/
structure Grammar (text : List Char) (positive negative : NumberForm) : Prop where
  closed : quoteOpen false text = false
  separated : (glyphs false text).count .semicolon ≤ 1
  positive : Glyph.HasForm (positiveGlyphs (glyphs false text)) positive
  negative : Glyph.HasForm (negativeGlyphs (glyphs false text)) negative

theorem count_semicolon_le_one_iff (gs : List Glyph) :
    gs.count .semicolon ≤ 1 ↔ .semicolon ∉ negativeGlyphs gs := by
  induction gs with
  | nil => simp [negativeGlyphs]
  | cons g gs ih =>
    by_cases h : g = .semicolon
    · subst h
      simp [negativeGlyphs, List.count_eq_zero]
    · rw [List.count_cons_of_ne h, ih]
      simp [negativeGlyphs, h]

theorem positiveGlyphs_eq_self {gs : List Glyph} (h : .semicolon ∉ gs) : positiveGlyphs gs = gs :=
  List.takeWhile_eq_self_iff.2 fun _ hg => decide_eq_true fun he => h (he ▸ hg)

/-! ## Sub-patterns -/

theorem quoteOpen_of_head?_rest {position : Nat} {text : List Char}
    (h : (lex position text).rest.head? = some '\'') : quoteOpen false text = true := by
  obtain ⟨front, hfront, -, hopen, -⟩ := lex_spec position text
  rcases rest_lex position text with hr | ⟨rest, hr⟩ | ⟨rest, hr, hq⟩
  · simp [hr] at h
  · simp [hr] at h
  · rw [hfront, hr, quoteOpen_append, hopen, quoteOpen_quote]
    exact Token.quoteOpen_of_quoted_eq_none hq

/-- Unless a quote stays open, tokens are read from all before the first semicolon, and all after it
is left. -/
theorem lex_glyphs {position : Nat} {text : List Char}
    (h : (lex position text).rest.head? ≠ some '\'') :
    Spans position (lex position text).lexemes (positiveGlyphs (glyphs false text)) ∧
      glyphs false ((lex position text).rest.drop 1) = negativeGlyphs (glyphs false text) ∧
      quoteOpen false ((lex position text).rest.drop 1) = quoteOpen false text ∧
      ((lex position text).rest = [] ↔ .semicolon ∉ glyphs false text) := by
  obtain ⟨front, hfront, -, hopen, hspans⟩ := lex_spec position text
  have hne : ∀ g ∈ glyphs false front, decide (g ≠ .semicolon) = true := fun g hg =>
    decide_eq_true (hspans.ne_semicolon g hg)
  have hgs : glyphs false text = glyphs false front ++ glyphs false (lex position text).rest := by
    conv_lhs => rw [hfront]
    rw [glyphs_append, hopen]
  have hq : quoteOpen false text = quoteOpen false (lex position text).rest := by
    conv_lhs => rw [hfront]
    rw [quoteOpen_append, hopen]
  rw [hgs, hq, positiveGlyphs, negativeGlyphs, List.takeWhile_append_of_pos hne,
    List.dropWhile_append_of_pos hne]
  rcases rest_lex_of_head? h with hr | ⟨rest, hr⟩
  · rw [hr]
    simpa [glyphs] using ⟨hspans, fun hg => hspans.ne_semicolon _ hg rfl⟩
  · have hcons : glyphs false (';' :: rest) = .semicolon :: glyphs false rest :=
      glyphs_cons_of_ne (by decide) false rest
    rw [hr, hcons, quoteOpen_cons_of_ne (by decide)]
    simpa using hspans

/-- A sub-pattern compiles just where its body has a form, and gets the layout of that form. -/
theorem ofLexemes_eq_ok_iff {position : Nat} {ls : List Lexeme} {gs : List Glyph}
    (h : Spans position ls gs) {layout : Layout} :
    (∃ sub, SubPattern.ofLexemes ls = .ok (sub, layout)) ↔
      ∃ n, Glyph.HasForm gs n ∧ layout = n.layout := by
  obtain ⟨position', hbody⟩ := h.body
  constructor
  · intro hexists
    obtain ⟨sub, hsub⟩ := hexists
    obtain ⟨layout', hl, he⟩ := bind_eq_ok_iff.1 hsub
    cases he
    obtain ⟨n, hn, htokens, rfl⟩ := Layout.ofBody_eq_ok_iff.1 hl
    exact ⟨n, ⟨hn, hbody.eq_map_marker_iff.2 htokens⟩, rfl⟩
  · intro hexists
    obtain ⟨n, ⟨hn, hgs⟩, rfl⟩ := hexists
    have hl := Layout.ofBody_of_valid hn (hbody.eq_map_marker_iff.1 hgs)
    exact ⟨_, bind_eq_ok_iff.2 ⟨n.layout, hl, rfl⟩⟩

theorem exists_ofLexemes?_iff {position : Nat} {ls : List Lexeme} {gs : List Glyph}
    (h : Spans position ls gs) :
    (∃ sub, SubPattern.ofLexemes? ls = .ok sub) ↔ ∃ n, Glyph.HasForm gs n := by
  cases ls with
  | nil =>
    cases h
    exact ⟨fun _ => ⟨{}, Glyph.hasForm_nil⟩, fun _ => ⟨none, rfl⟩⟩
  | cons l ls =>
    constructor
    · intro hexists
      obtain ⟨sub, hsub⟩ := hexists
      obtain ⟨⟨sub', layout⟩, hl, -⟩ := bind_eq_ok_iff.1 hsub
      obtain ⟨n, hn, -⟩ := (ofLexemes_eq_ok_iff h).1 ⟨sub', hl⟩
      exact ⟨n, hn⟩
    · intro hexists
      obtain ⟨n, hn⟩ := hexists
      obtain ⟨sub, hl⟩ := (ofLexemes_eq_ok_iff h).2 ⟨n, hn, rfl⟩
      exact ⟨some sub, bind_eq_ok_iff.2 ⟨(sub, n.layout), hl, rfl⟩⟩

theorem ofLexemes?_eq_none_iff {position : Nat} {ls : List Lexeme} {gs : List Glyph}
    (h : Spans position ls gs) {sub : Option SubPattern}
    (hsub : SubPattern.ofLexemes? ls = .ok sub) : sub = none ↔ gs = [] := by
  rw [← h.eq_nil_iff]
  cases ls with
  | nil =>
    cases hsub
    simp
  | cons l ls =>
    obtain ⟨_, -, he⟩ := bind_eq_ok_iff.1 hsub
    cases he
    simp

/-! ## Patterns -/

theorem lexSubPattern_eq_ok_iff {position : Nat} {text : List Char} {lexed : Lexed} :
    lexSubPattern position text = .ok lexed ↔
      (lex position text).rest.head? ≠ some '\'' ∧ lexed = lex position text := by
  by_cases h : (lex position text).rest.head? = some '\''
  · simp [lexSubPattern, h]
  · simp [lexSubPattern, h, eq_comm]

/-- What is read after the first semicolon. -/
def negativeLexed (text : List Char) : Lexed :=
  lex ((lex 0 text).stop + 1) ((lex 0 text).rest.drop 1)

/-- Both sub-patterns are read, and nothing is left, just where quotes are closed and at most one
semicolon stands outside them. -/
theorem lexSubPatterns_iff {text : List Char} {first second : Lexed} :
    (lexSubPattern 0 text = .ok first ∧
      lexSubPattern (first.stop + 1) (first.rest.drop 1) = .ok second ∧ second.rest = []) ↔
    (quoteOpen false text = false ∧ (glyphs false text).count .semicolon ≤ 1) ∧
      first = lex 0 text ∧ second = negativeLexed text := by
  simp only [lexSubPattern_eq_ok_iff, count_semicolon_le_one_iff]
  constructor
  · intro hread
    obtain ⟨⟨hhead, rfl⟩, ⟨hhead', rfl⟩, hrest⟩ := hread
    obtain ⟨-, htail, hopen, -⟩ := lex_glyphs hhead
    obtain ⟨-, -, hopen', hnil⟩ := lex_glyphs hhead'
    refine ⟨⟨?_, htail ▸ hnil.1 hrest⟩, rfl, rfl⟩
    rw [← hopen, ← hopen', hrest]
    rfl
  · intro hread
    obtain ⟨⟨hclosed, hsemi⟩, rfl, rfl⟩ := hread
    have hhead : (lex 0 text).rest.head? ≠ some '\'' := by
      intro h
      rw [quoteOpen_of_head?_rest h] at hclosed
      cases hclosed
    obtain ⟨-, htail, hopen, -⟩ := lex_glyphs hhead
    have hhead' : (negativeLexed text).rest.head? ≠ some '\'' := by
      intro h
      rw [← hopen, quoteOpen_of_head?_rest h] at hclosed
      cases hclosed
    obtain ⟨-, -, -, hnil⟩ := lex_glyphs hhead'
    exact ⟨⟨hhead, rfl⟩, ⟨hhead', rfl⟩, hnil.2 (htail ▸ hsemi)⟩

/-- There the tokens of each sub-pattern were read from its glyphs. -/
theorem spans_subPatterns {text : List Char} (hclosed : quoteOpen false text = false)
    (hseparated : (glyphs false text).count .semicolon ≤ 1) :
    Spans 0 (lex 0 text).lexemes (positiveGlyphs (glyphs false text)) ∧
      Spans ((lex 0 text).stop + 1) (negativeLexed text).lexemes
        (negativeGlyphs (glyphs false text)) := by
  obtain ⟨hfirst, hsecond, -⟩ := lexSubPatterns_iff.2 ⟨⟨hclosed, hseparated⟩, rfl, rfl⟩
  obtain ⟨hspans, htail, -, -⟩ := lex_glyphs (lexSubPattern_eq_ok_iff.1 hfirst).1
  obtain ⟨hspans', -, -, -⟩ := lex_glyphs (lexSubPattern_eq_ok_iff.1 hsecond).1
  rw [htail, positiveGlyphs_eq_self ((count_semicolon_le_one_iff _).1 hseparated)] at hspans'
  exact ⟨hspans, hspans'⟩

/-- The steps of a compilation that succeeds. -/
theorem compileChars_eq_ok_iff {text : List Char} {p : Pattern} :
    compileChars text = .ok p ↔
      (quoteOpen false text = false ∧ (glyphs false text).count .semicolon ≤ 1) ∧
      ∃ positive layout negative,
        SubPattern.ofLexemes (lex 0 text).lexemes = .ok (positive, layout) ∧
        SubPattern.ofLexemes? (negativeLexed text).lexemes = .ok negative ∧
        p = { layout with
          positive, negative
          hasCurrency := positive.hasCurrency || negative.any (·.hasCurrency) } := by
  simp only [compileChars, bind_eq_ok_iff]
  constructor
  · intro hexists
    obtain ⟨first, hfirst, second, hsecond, h⟩ := hexists
    by_cases hrest : second.rest = []
    · rw [if_neg (by simp [hrest])] at h
      obtain ⟨⟨positive, layout⟩, hpositive, h⟩ := bind_eq_ok_iff.1 h
      obtain ⟨negative, hnegative, h⟩ := bind_eq_ok_iff.1 h
      cases h
      obtain ⟨hread, rfl, rfl⟩ := lexSubPatterns_iff.1 ⟨hfirst, hsecond, hrest⟩
      exact ⟨hread, positive, layout, negative, hpositive, hnegative, rfl⟩
    · rw [if_pos hrest] at h
      obtain ⟨_, h, -⟩ := bind_eq_ok_iff.1 h
      cases h
  · intro hexists
    obtain ⟨hread, positive, layout, negative, hpositive, hnegative, rfl⟩ := hexists
    obtain ⟨hfirst, hsecond, hrest⟩ := lexSubPatterns_iff.2 ⟨hread, rfl, rfl⟩
    refine ⟨_, hfirst, _, hsecond, ?_⟩
    rw [if_neg (by simp [hrest])]
    exact bind_eq_ok_iff.2 ⟨_, hpositive, bind_eq_ok_iff.2 ⟨_, hnegative, rfl⟩⟩

theorem exists_compileChars_iff {text : List Char} :
    (∃ p, compileChars text = .ok p) ↔ ∃ positive negative, Grammar text positive negative := by
  simp only [compileChars_eq_ok_iff]
  constructor
  · intro hexists
    obtain ⟨-, ⟨hclosed, hseparated⟩, positive, layout, negative, hpositive, hnegative, -⟩ :=
      hexists
    obtain ⟨hspans, hspans'⟩ := spans_subPatterns hclosed hseparated
    obtain ⟨n, hn, -⟩ := (ofLexemes_eq_ok_iff hspans).1 ⟨positive, hpositive⟩
    obtain ⟨m, hm⟩ := (exists_ofLexemes?_iff hspans').1 ⟨negative, hnegative⟩
    exact ⟨n, m, hclosed, hseparated, hn, hm⟩
  · intro hexists
    obtain ⟨n, m, hclosed, hseparated, hn, hm⟩ := hexists
    obtain ⟨hspans, hspans'⟩ := spans_subPatterns hclosed hseparated
    obtain ⟨positive, hpositive⟩ := (ofLexemes_eq_ok_iff hspans).2 ⟨n, hn, rfl⟩
    obtain ⟨negative, hnegative⟩ := (exists_ofLexemes?_iff hspans').2 ⟨m, hm⟩
    exact ⟨_, ⟨hclosed, hseparated⟩, positive, n.layout, negative, hpositive, hnegative, rfl⟩

/-- The layout is that of the positive form, and the negative sub-pattern counts only if it has a
text. -/
theorem layout_of_compileChars {text : List Char} {p : Pattern} {n m : NumberForm}
    (hp : compileChars text = .ok p) (hg : Grammar text n m) :
    p.toLayout = n.layout ∧ (p.negative = none ↔ negativeGlyphs (glyphs false text) = []) := by
  obtain ⟨-, positive, layout, negative, hpositive, hnegative, rfl⟩ := compileChars_eq_ok_iff.1 hp
  obtain ⟨hspans, hspans'⟩ := spans_subPatterns hg.closed hg.separated
  constructor
  · obtain ⟨sub, hsub⟩ := (ofLexemes_eq_ok_iff hspans).2 ⟨n, hg.positive, rfl⟩
    cases hpositive.symm.trans hsub
    rfl
  · exact ofLexemes?_eq_none_iff hspans' hnegative

/-- **The grammar of patterns.** Just the texts of the grammar compile. The layout is that of the
positive sub-pattern, and a negative sub-pattern without text counts as absent. -/
theorem compile_grammar (text : String) :
    ((∃ p, compile text = .ok p) ↔
      ∃ positive negative, Grammar text.toList positive negative) ∧
    ∀ p positive negative, compile text = .ok p → Grammar text.toList positive negative →
      p.toLayout = positive.layout ∧
        (p.negative = none ↔ negativeGlyphs (glyphs false text.toList) = []) :=
  ⟨exists_compileChars_iff, fun _ _ _ hp hg => layout_of_compileChars hp hg⟩

theorem compile_grammar_bracketed :
    ∃ p positive negative, compile "#,##0.00;(#)" = .ok p ∧
      Grammar "#,##0.00;(#)".toList positive negative ∧ p.toLayout = positive.layout := by
  have hp : compile "#,##0.00;(#)" = .ok
      { groupingSize := 3
        limits := { minFraction := 2, maxFraction := 2 }
        negative := some { front := [.literal "("], back := [.literal ")"] } } := by
    decide +kernel
  obtain ⟨hiff, hlayout⟩ := compile_grammar "#,##0.00;(#)"
  obtain ⟨positive, negative, hg⟩ := hiff.1 ⟨_, hp⟩
  exact ⟨_, positive, negative, hp, hg, (hlayout _ positive negative hp hg).1⟩

end Pattern

end Numerals
