import Numerals.Proofs.Pattern.Flaws

/-!
# Which of several errors is reported

A text `a` of one sub-pattern keeps its tokens when a semicolon and a text `b` follow
(`lex_append_semicolon`), so its own errors stay errors. But they are looked for in its number body,
and only when both texts have been read: `OneSubPattern.fails_append` lists the errors in the order
in which they are found. By `Pattern.compile_append_semicolon` the error of `a` is reported unless
`b` leaves a quote open or holds a semicolon; then the error of `b`, which stands later in the text,
hides it (`Pattern.compile_error_hidden`). If `a` compiles, every error is one behind the semicolon.
-/

namespace Numerals

/-! ## Reading on -/

theorem append_semicolon_ne_cons {c : Char} {cs : List Char} (hc : c ≠ ';')
    (hcs : ∀ tail, cs ≠ c :: tail) (b tail : List Char) : cs ++ ';' :: b ≠ c :: tail := by
  intro he
  cases cs with
  | nil =>
    cases he
    exact hc rfl
  | cons d cs =>
    cases he
    exact hcs cs rfl

namespace Token

variable (b : List Char)

theorem quoted_append_semicolon {cs text rest : List Char} (h : quoted cs = some (text, rest)) :
    quoted (cs ++ ';' :: b) = some (text, rest ++ ';' :: b) := by
  fun_induction quoted cs generalizing text with
  | case1 => cases h
  | case2 cs ih =>
    obtain ⟨⟨t, r⟩, hq, he⟩ := Option.map_eq_some_iff.1 h
    cases he
    rw [List.cons_append, List.cons_append, quoted, ih hq]
    rfl
  | case3 cs hquote =>
    cases h
    rw [List.cons_append, quoted]
    exact append_semicolon_ne_cons (by decide) hquote b
  | case4 c cs _ hc ih =>
    obtain ⟨⟨t, r⟩, hq, he⟩ := Option.map_eq_some_iff.1 h
    cases he
    have hne : c ≠ '\'' := hc
    rw [List.cons_append, quoted, ih hq]
    · rfl
    · intro _ he
      exact absurd he hne
    · exact hne

/-- A token ends before the semicolon. -/
theorem next?_append_semicolon {cs rest : List Char} {t : Token} (h : next? cs = some (t, rest)) :
    next? (cs ++ ';' :: b) = some (t, rest ++ ';' :: b) := by
  unfold next? at h
  split at h
  · cases h
  · cases h
  · next cs =>
    cases h
    have hdrop : (cs ++ ';' :: b).dropWhile (· = '¤') = cs.dropWhile (· = '¤') ++ ';' :: b := by
      rw [List.dropWhile_append]
      split
      · next hnil => rw [List.isEmpty_iff.1 hnil]; rfl
      · rfl
    rw [← hdrop]
    rfl
  · next cs hsign =>
    cases h
    rw [List.cons_append, next?]
    exact append_semicolon_ne_cons (by decide) hsign b
  · cases h
    rfl
  · next cs hquote =>
    obtain ⟨⟨text, r⟩, hq, he⟩ := Option.map_eq_some_iff.1 h
    cases he
    rw [List.cons_append, next?, quoted_append_semicolon b hq]
    · rfl
    · exact append_semicolon_ne_cons (by decide) hquote b
  · next c cs hsemi hsigns hsign _ hquote =>
    cases h
    have hne : c ≠ '\'' := hquote
    rw [List.cons_append, next?]
    · exact hsemi
    · intro _ he
      exact absurd he hsign
    · exact hsign
    · intro _ he
      exact absurd he hne
    · exact hne

end Token

/-- Where tokens end with the text, they end at a semicolon that follows it. -/
theorem lex_append_semicolon {position : Nat} {cs : List Char} (h : (lex position cs).rest = [])
    (b : List Char) :
    lex position (cs ++ ';' :: b) = { lex position cs with rest := ';' :: b } := by
  fun_induction lex position cs with
  | case1 position cs hnone =>
    cases (show cs = [] from h)
    exact lex_of_next?_eq_none rfl position
  | case2 position cs token rest hnext tail ih =>
    have hlength : (cs ++ ';' :: b).length - (rest ++ ';' :: b).length =
        cs.length - rest.length := by
      simp only [List.length_append]
      omega
    rw [lex_of_next?_eq_some (Token.next?_append_semicolon b hnext), hlength, ih h]

/-! ## Where tokens stand -/

namespace Spans

variable {position : Nat} {ls : List Lexeme} {gs : List Glyph}

theorem le_position (h : Spans position ls gs) : ∀ l ∈ ls, position ≤ l.position := by
  induction h with
  | nil => simp
  | cons hcovers _ ih =>
    intro l hl
    rcases List.mem_cons.1 hl with rfl | hl
    · exact Nat.le_refl _
    · exact Nat.le_trans (Nat.le_add_right _ _) (ih l hl)

theorem le_position_of_ofLexemes (h : Spans position ls gs) {e : SyntaxError}
    (herror : SubPattern.ofLexemes ls = .error e) : position ≤ e.position := by
  obtain ⟨fs, ks, l, rest, ms, rfl, -, hl, -⟩ := SubPattern.ofLexemes_eq_error herror
  rw [← hl]
  exact h.le_position l (by simp)

end Spans

/-! ## Texts of one sub-pattern -/

/-- A text of one sub-pattern: its quotes are closed, and no semicolon stands outside them. -/
structure OneSubPattern (text : List Char) : Prop where
  closed : quoteOpen false text = false
  noSemicolon : .semicolon ∉ glyphs false text

namespace OneSubPattern

open Pattern

variable {a : List Char} (ha : OneSubPattern a)
include ha

theorem rest_lex (position : Nat) : (lex position a).rest = [] := by
  have hhead : (lex position a).rest.head? ≠ some '\'' := by
    intro h
    have hopen := quoteOpen_of_head?_rest h
    rw [ha.closed] at hopen
    cases hopen
  exact (lex_glyphs hhead).2.2.2.2 ha.noSemicolon

theorem stop_lex : (lex 0 a).stop = a.length := by
  obtain ⟨front, hfront, hstop, -, -⟩ := lex_spec 0 a
  rw [ha.rest_lex 0, List.append_nil] at hfront
  rw [hstop, Nat.zero_add, ← hfront]

/-- Alone it fails only where its number body goes wrong. -/
theorem fails_iff {e : SyntaxError} :
    Fails a e ↔ SubPattern.ofLexemes (lex 0 a).lexemes = .error e := by
  have hrest := ha.rest_lex 0
  have hnegative := negativeLexed_of_nil hrest
  constructor
  · intro h
    cases h with
    | openPositive hopen =>
      rw [hrest] at hopen
      cases hopen
    | openNegative _ hopen =>
      rw [hnegative] at hopen
      cases hopen
    | third _ hsemi =>
      rw [hnegative] at hsemi
      cases hsemi
    | positive _ _ herror => exact herror
    | negative _ _ _ herror =>
      rw [hnegative] at herror
      cases herror
  · intro h
    have hcount := List.count_eq_zero.2 ha.noSemicolon
    exact .positive ha.closed (by omega) h

/-! ## Before a semicolon and another text -/

variable (b : List Char)

theorem lex_append : lex 0 (a ++ ';' :: b) = ⟨(lex 0 a).lexemes, a.length, ';' :: b⟩ := by
  rw [lex_append_semicolon (ha.rest_lex 0) b, ← ha.stop_lex]

theorem negativeLexed_append : negativeLexed (a ++ ';' :: b) = lex (a.length + 1) b := by
  rw [negativeLexed, ha.lex_append]
  rfl

/-- Both texts can be read just if the second is of one sub-pattern, too. -/
theorem append_iff :
    (quoteOpen false (a ++ ';' :: b) = false ∧
      (glyphs false (a ++ ';' :: b)).count .semicolon ≤ 1) ↔ OneSubPattern b := by
  have hopen : quoteOpen false (a ++ ';' :: b) = quoteOpen false b := by
    rw [quoteOpen_append, ha.closed, quoteOpen_cons_of_ne (by decide)]
  have hcount : (glyphs false (a ++ ';' :: b)).count .semicolon =
      (glyphs false b).count .semicolon + 1 := by
    rw [glyphs_append, ha.closed, glyphs_cons_of_ne (by decide), List.count_append,
      List.count_eq_zero.2 ha.noSemicolon, Nat.zero_add]
    exact List.count_cons_self
  rw [hopen, hcount]
  constructor
  · intro h
    exact ⟨h.1, List.count_eq_zero.1 (by omega)⟩
  · intro hb
    exact ⟨hb.closed, by rw [List.count_eq_zero.2 hb.noSemicolon]⟩

variable {b} in
theorem fails_append_of_fails (hb : OneSubPattern b) {e : SyntaxError} (h : Fails a e) :
    Fails (a ++ ';' :: b) e := by
  obtain ⟨hclosed, hseparated⟩ := (ha.append_iff b).2 hb
  apply Fails.positive hclosed hseparated
  rw [ha.lex_append]
  exact ha.fails_iff.1 h

/-- **The errors of two sub-patterns**, in their order: what leaves a quote open or starts a third
sub-pattern, then the error of the first, then one in the body of the second. -/
theorem fails_append {e : SyntaxError} (h : Fails (a ++ ';' :: b) e) :
    (¬OneSubPattern b ∧ a.length < e.position ∧
      (e.flaw = .unterminatedQuote ∨ e.flaw = .tooManySubPatterns)) ∨
    (OneSubPattern b ∧ Fails a e) ∨
    (OneSubPattern b ∧ (∀ e', ¬Fails a e') ∧ a.length < e.position) := by
  have hnegative := ha.negativeLexed_append b
  have hstop : a.length < (negativeLexed (a ++ ';' :: b)).stop := by
    obtain ⟨front, -, hstop, -, -⟩ := lex_spec (a.length + 1) b
    rw [hnegative, hstop]
    omega
  cases h with
  | openPositive hopen =>
    rw [ha.lex_append] at hopen
    cases hopen
  | openNegative _ hopen =>
    refine .inl ⟨fun hb => ?_, hstop, .inl rfl⟩
    rw [hnegative, hb.rest_lex] at hopen
    cases hopen
  | third _ hsemi =>
    refine .inl ⟨fun hb => ?_, hstop, .inr rfl⟩
    rw [hnegative, hb.rest_lex] at hsemi
    cases hsemi
  | positive hclosed hseparated herror =>
    have hb := (ha.append_iff b).1 ⟨hclosed, hseparated⟩
    rw [ha.lex_append] at herror
    exact .inr (.inl ⟨hb, ha.fails_iff.2 herror⟩)
  | negative hclosed hseparated hok herror =>
    have hb := (ha.append_iff b).1 ⟨hclosed, hseparated⟩
    rw [ha.lex_append] at hok
    rw [hnegative] at herror
    obtain ⟨front, -, -, -, hspans⟩ := lex_spec (a.length + 1) b
    refine .inr (.inr ⟨hb, fun e' he' => ?_, ?_⟩)
    · cases hok.symm.trans (ha.fails_iff.1 he')
    · exact hspans.le_position_of_ofLexemes herror

theorem of_append_eq_ok {p : Pattern} (h : compileChars (a ++ ';' :: b) = .ok p) :
    OneSubPattern b :=
  (ha.append_iff b).1 (compileChars_eq_ok_iff.1 h).1

end OneSubPattern

namespace Pattern

/-- **Which error is reported.** If the first of two sub-patterns compiles, an error stands behind
the semicolon. If it does not, its error is reported where the rest of the text is one more
sub-pattern; where that leaves a quote open or holds another semicolon, the error for this is, and
stands behind the semicolon. -/
theorem compile_append_semicolon {a : String} (ha : OneSubPattern a.toList) (b : String) :
    (∀ p, compile a = .ok p →
      ∀ e, compile (a ++ ";" ++ b) = .error e → a.length < e.position) ∧
    ∀ e, compile a = .error e →
      (OneSubPattern b.toList → compile (a ++ ";" ++ b) = .error e) ∧
      (¬OneSubPattern b.toList → ∃ e', compile (a ++ ";" ++ b) = .error e' ∧ e' ≠ e ∧
        a.length < e'.position ∧
        (e'.flaw = .unterminatedQuote ∨ e'.flaw = .tooManySubPatterns)) := by
  have htext : compile (a ++ ";" ++ b) = compileChars (a.toList ++ ';' :: b.toList) := by
    rw [compile, String.toList_append, String.toList_append, List.append_assoc]
    rfl
  have hcases {e : SyntaxError} (h : compileChars (a.toList ++ ';' :: b.toList) = .error e) :=
    ha.fails_append b.toList (compileChars_eq_error_iff.1 h)
  rw [htext]
  constructor
  · intro p hp e he
    rcases hcases he with ⟨-, hlt, -⟩ | ⟨-, hfails⟩ | ⟨-, -, hlt⟩
    · exact hlt
    · cases hp.symm.trans (compileChars_eq_error_iff.2 hfails)
    · exact hlt
  · intro e he
    have hfails := compileChars_eq_error_iff.1 he
    constructor
    · intro hb
      exact compileChars_eq_error_iff.2 (ha.fails_append_of_fails hb hfails)
    · intro hb
      cases hresult : compileChars (a.toList ++ ';' :: b.toList) with
      | ok p => exact absurd (ha.of_append_eq_ok _ hresult) hb
      | error e' =>
        rcases hcases hresult with ⟨-, hlt, hflaw⟩ | ⟨hb', -⟩ | ⟨hb', -⟩
        · refine ⟨e', rfl, ?_, hlt, hflaw⟩
          rintro rfl
          exact absurd hfails.showsAt.lt_length (Nat.lt_asymm hlt)
        · exact absurd hb' hb
        · exact absurd hb' hb

/-- Faults behind the semicolon: a literal in the number, and a quote that is never closed. -/
theorem compile_append_semicolon_faults :
    (∃ e, compile "0;0 0" = .error e ∧ 1 < e.position) ∧
      compile "#.#.#;0 0" = .error ⟨3, .multipleDecimalSeparators⟩ ∧
      ∃ e, compile "#.#.#;'" = .error e ∧ 5 < e.position := by
  have hzero : OneSubPattern "0".toList := ⟨by decide +kernel, by decide +kernel⟩
  have hok : compile "0" = .ok {} := by decide +kernel
  have hfault : compile "0;0 0" = .error ⟨3, .literalInNumberBody⟩ := by decide +kernel
  have ha : OneSubPattern "#.#.#".toList := ⟨by decide +kernel, by decide +kernel⟩
  have he : compile "#.#.#" = .error ⟨3, .multipleDecimalSeparators⟩ := by decide +kernel
  have hspaced : OneSubPattern "0 0".toList := ⟨by decide +kernel, by decide +kernel⟩
  have hquote : ¬OneSubPattern "'".toList := by
    intro hb
    cases hb.closed
  obtain ⟨e, hresult, -, hlt, -⟩ := ((compile_append_semicolon ha "'").2 _ he).2 hquote
  exact ⟨⟨_, hfault, (compile_append_semicolon hzero "0 0").1 _ hok _ hfault⟩,
    ((compile_append_semicolon ha "0 0").2 _ he).1 hspaced, e, hresult, hlt⟩

/-- Of two errors that reported is not always the first: a quote that is never closed hides a second
decimal separator before the semicolon. -/
theorem compile_error_hidden :
    OneSubPattern "#.#.#".toList ∧
      compile "#.#.#" = .error ⟨3, .multipleDecimalSeparators⟩ ∧
      compile ("#.#.#" ++ ";" ++ "'") = .error ⟨6, .unterminatedQuote⟩ :=
  ⟨⟨by decide +kernel, by decide +kernel⟩, by decide +kernel, by decide +kernel⟩

end Pattern

end Numerals
