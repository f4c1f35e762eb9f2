import Numerals.Proofs.Pattern.Flaws

/-!
# How tokens cover a text

`Token.Written` says with which characters a token is written, and in front of which others, without
reading any of them; `Token.next?_eq_some_iff` says that just these are read. `Lexed.Tiles` says
that tokens stand one behind the other in a text, each written from its position up to that of the
next one. `tiles_lex` follows by going through the tokens, and `Lexed.Tiles.unique` says that no other
tokens do so.

`Pattern.lexSubPattern_tiles` puts this together for a sub-pattern that starts anywhere in a text,
and for the loop that reads it (`lexLoop`).
-/

namespace Numerals

namespace Token

/-! ## How tokens are written -/

/-- The characters that are not read as themselves. -/
def reserved : List Char := ['0', '#', '.', ',', '%', '‰', '-', '+', '¤', '\'', ';']

theorem not_mem_reserved_iff {c : Char} :
    c ∉ reserved ↔ c ≠ '0' ∧ c ≠ '#' ∧ c ≠ '.' ∧ c ≠ ',' ∧ c ≠ '%' ∧ c ≠ '‰' ∧ c ≠ '-' ∧ c ≠ '+' ∧
      c ≠ '¤' ∧ c ≠ '\'' ∧ c ≠ ';' := by
  simp only [reserved, List.mem_cons, List.not_mem_nil, or_false, not_or, Ne]

/-- With which characters a token is written, and in front of which others. -/
inductive Written : Token → List Char → List Char → Prop where
  | marker (m : Marker) (rest : List Char) : Written (.marker m) [m.char] rest
  | symbol {p : AffixPart} (hp : p ∈ [.percent, .perMille, .minus, .plus]) (rest : List Char) :
    Written (.part p) p.chars rest
  /-- Behind a row of currency signs stands something else. -/
  | sign {rest : List Char} (hrest : rest.head? ≠ some '¤') :
    Written (.part (.currency .symbol)) ['¤'] rest
  | signs (n : Nat) {rest : List Char} (hrest : rest.head? ≠ some '¤') :
    Written (.part (.currency .isoCode)) (List.replicate (n + 2) '¤') rest
  | escaped (rest : List Char) : Written (.part (.literal "'")) ['\'', '\''] rest
  /-- A text in quotes, with those inside it doubled. With one at its start it would be read as two
  quotes and something else. -/
  | quoted {text rest : List Char} (hne : text ≠ []) (hstart : text.head? ≠ some '\'')
    (hrest : rest.head? ≠ some '\'') :
    Written (.part (.literal (String.ofList text))) ('\'' :: (doubleQuotes text ++ ['\''])) rest
  | other {c : Char} (hc : c ∉ reserved) (rest : List Char) :
    Written (.part (.literal (String.singleton c))) [c] rest

theorem quoted_eq_some_iff {cs text rest : List Char} :
    quoted cs = some (text, rest) ↔
      cs = doubleQuotes text ++ '\'' :: rest ∧ rest.head? ≠ some '\'' := by
  constructor
  · intro h
    fun_induction quoted cs generalizing text with
    | case1 => cases h
    | case2 cs ih =>
      obtain ⟨⟨t, r⟩, hq, he⟩ := Option.map_eq_some_iff.1 h
      cases he
      obtain ⟨rfl, hrest⟩ := ih hq
      exact ⟨rfl, hrest⟩
    | case3 cs hquote =>
      cases h
      refine ⟨rfl, fun hrest => ?_⟩
      obtain ⟨tail, rfl⟩ := List.head?_eq_some_iff.1 hrest
      exact hquote tail rfl
    | case4 c cs _ hc ih =>
      obtain ⟨⟨t, r⟩, hq, he⟩ := Option.map_eq_some_iff.1 h
      cases he
      obtain ⟨rfl, hrest⟩ := ih hq
      have hne : c ≠ '\'' := hc
      exact ⟨by simp [doubleQuotes_cons, hne], hrest⟩
  · rintro ⟨rfl, hrest⟩
    exact quoted_doubleQuotes text hrest

theorem written_ofChar {c : Char} (hsign : c ≠ '¤') (hquote : c ≠ '\'') (hsemi : c ≠ ';')
    (rest : List Char) : (ofChar c).Written [c] rest := by
  unfold ofChar
  split
  case h_1 => exact .marker .required rest
  case h_2 => exact .marker .optional rest
  case h_3 => exact .marker .point rest
  case h_4 => exact .marker .group rest
  case h_5 => exact .symbol (p := .percent) (by simp) rest
  case h_6 => exact .symbol (p := .perMille) (by simp) rest
  case h_7 => exact .symbol (p := .minus) (by simp) rest
  case h_8 => exact .symbol (p := .plus) (by simp) rest
  case h_9 h0 h1 h2 h3 h4 h5 h6 h7 =>
    exact .other (not_mem_reserved_iff.2
      ⟨h0, h1, h2, h3, h4, h5, h6, h7, hsign, hquote, hsemi⟩) rest

theorem written_of_next? {cs rest : List Char} {t : Token} (h : next? cs = some (t, rest)) :
    ∃ block, cs = block ++ rest ∧ t.Written block rest := by
  have hcurrency := head?_rest_of_currency h
  unfold next? at h
  split at h
  · cases h
  · cases h
  · next cs =>
    cases h
    have hsigns : cs.takeWhile (· = '¤') = List.replicate (cs.takeWhile (· = '¤')).length '¤' :=
      List.eq_replicate_of_mem fun c hc => by simpa using List.mem_takeWhile_imp hc
    refine ⟨_, ?_, .signs (cs.takeWhile (· = '¤')).length (hcurrency rfl).2⟩
    rw [List.replicate_succ, List.replicate_succ, ← hsigns]
    simp
  · cases h
    exact ⟨['¤'], rfl, .sign (hcurrency rfl).2⟩
  · cases h
    exact ⟨['\'', '\''], rfl, .escaped rest⟩
  · next cs hquote =>
    obtain ⟨⟨text, r⟩, hq, he⟩ := Option.map_eq_some_iff.1 h
    cases he
    obtain ⟨rfl, hrest⟩ := quoted_eq_some_iff.1 hq
    refine ⟨'\'' :: (doubleQuotes text ++ ['\'']), by simp, .quoted ?_ ?_ hrest⟩
    · rintro rfl
      exact hquote rest rfl
    · intro hhead
      obtain ⟨tail, rfl⟩ := List.head?_eq_some_iff.1 hhead
      exact hquote _ rfl
  · next c cs hsemi _ hsign _ hquote =>
    cases h
    exact ⟨[c], rfl, written_ofChar hsign hquote hsemi rest⟩

theorem ofChar_of_not_mem {c : Char} (h : c ∉ reserved) :
    ofChar c = .part (.literal (String.singleton c)) := by
  obtain ⟨h0, h1, h2, h3, h4, h5, h6, h7, -⟩ := not_mem_reserved_iff.1 h
  rw [ofChar] <;> assumption

theorem dropWhile_replicate_append (n : Nat) {rest : List Char} (h : rest.head? ≠ some '¤') :
    (List.replicate n '¤' ++ rest).dropWhile (· = '¤') = rest := by
  rw [List.dropWhile_append_of_pos fun c hc => decide_eq_true (List.eq_of_mem_replicate hc),
    List.dropWhile_eq_self_iff]
  intro hpos
  cases rest with
  | nil => cases hpos
  | cons c rest => simpa using h

/-- **What is read as a token.** -/
theorem next?_eq_some_iff {cs rest : List Char} {t : Token} :
    next? cs = some (t, rest) ↔ ∃ block, cs = block ++ rest ∧ t.Written block rest := by
  refine ⟨written_of_next?, ?_⟩
  rintro ⟨block, rfl, h⟩
  cases h with
  | marker m => cases m <;> rfl
  | symbol hp =>
    simp only [List.mem_cons, List.not_mem_nil, or_false] at hp
    rcases hp with rfl | rfl | rfl | rfl <;> rfl
  | sign hrest =>
    rw [List.singleton_append, next?]
    rintro tail rfl
    exact hrest rfl
  | signs n hrest =>
    rw [List.replicate_succ, List.replicate_succ, List.cons_append, List.cons_append, next?,
      dropWhile_replicate_append n hrest]
  | escaped => rfl
  | @quoted text _ hne hstart hrest =>
    rw [List.cons_append, List.append_assoc, List.singleton_append, next?,
      quoted_doubleQuotes text hrest]
    · rfl
    · obtain ⟨c, cs, rfl⟩ := List.exists_cons_of_ne_nil hne
      have hc : c ≠ '\'' := by simpa using hstart
      rw [doubleQuotes_cons, if_neg hc]
      rintro tail ⟨⟩
      exact hc rfl
  | @other c hc =>
    obtain ⟨-, -, -, -, -, -, -, -, hsign, hquote, hsemi⟩ := not_mem_reserved_iff.1 hc
    rw [List.singleton_append, next?, ofChar_of_not_mem hc]
    · exact hsemi
    · rintro _ rfl
      exact absurd rfl hsign
    · exact hsign
    · rintro _ rfl
      exact absurd rfl hquote
    · exact hquote

end Token

/-! ## Tokens one behind the other -/

theorem extract_append_extract {cs : List Char} {i j k : Nat} (hij : i ≤ j) (hjk : j ≤ k) :
    cs.extract i j ++ cs.extract j k = cs.extract i k := by
  obtain ⟨m, rfl⟩ := Nat.exists_eq_add_of_le hij
  obtain ⟨n, rfl⟩ := Nat.exists_eq_add_of_le hjk
  have hsum : i + m + n - i = m + n := by omega
  simp only [List.extract_eq_take_drop, Nat.add_sub_cancel_left, hsum, List.take_add,
    List.drop_drop]

theorem extract_append_drop {cs : List Char} {i j : Nat} (hij : i ≤ j) :
    cs.extract i j ++ cs.drop j = cs.drop i := by
  obtain ⟨m, rfl⟩ := Nat.exists_eq_add_of_le hij
  rw [List.extract_eq_take_drop, Nat.add_sub_cancel_left, ← List.drop_drop,
    List.take_append_drop]

namespace Lexed

/-- Where the tokens start, and where the last of them ends. -/
def bounds (x : Lexed) : List Nat := x.lexemes.map (·.position) ++ [x.stop]

/-- The tokens with their ends, where the next ones start. -/
def spans (x : Lexed) : List (Lexeme × Nat) := x.lexemes.zip x.bounds.tail

/-- The tokens cover a text from `start` on, each written up to where the next one starts. -/
structure Tiles (source : List Char) (start : Nat) (x : Lexed) : Prop where
  increasing : x.bounds.Pairwise (· < ·)
  first : x.bounds.head? = some start
  within : x.stop ≤ source.length
  rest : x.rest = source.drop x.stop
  written : ∀ s ∈ x.spans,
    s.1.token.Written (source.extract s.1.position s.2) (source.drop s.2)

section
variable {source rest : List Char} {start stop : Nat}

theorem tiles_nil_iff :
    (⟨[], stop, rest⟩ : Lexed).Tiles source start ↔
      stop = start ∧ start ≤ source.length ∧ rest = source.drop start := by
  constructor
  · rintro ⟨-, hfirst, hwithin, hrest, -⟩
    obtain rfl : stop = start := Option.some.inj hfirst
    exact ⟨rfl, hwithin, hrest⟩
  · rintro ⟨rfl, hwithin, hrest⟩
    exact ⟨List.pairwise_singleton _ _, rfl, hwithin, hrest, by simp [spans]⟩

theorem bounds_cons (l : Lexeme) (ls : List Lexeme) :
    (⟨l :: ls, stop, rest⟩ : Lexed).bounds = l.position :: (⟨ls, stop, rest⟩ : Lexed).bounds := rfl

theorem spans_cons {ls : List Lexeme} {p : Nat}
    (h : (⟨ls, stop, rest⟩ : Lexed).bounds.head? = some p) (l : Lexeme) :
    (⟨l :: ls, stop, rest⟩ : Lexed).spans = (l, p) :: (⟨ls, stop, rest⟩ : Lexed).spans := by
  obtain ⟨ps, hps⟩ := List.head?_eq_some_iff.1 h
  rw [spans, spans, bounds_cons, List.tail_cons, hps]
  rfl

theorem tiles_cons_iff {l : Lexeme} {ls : List Lexeme} :
    (⟨l :: ls, stop, rest⟩ : Lexed).Tiles source start ↔
      l.position = start ∧ ∃ p, start < p ∧
        l.token.Written (source.extract start p) (source.drop p) ∧
        (⟨ls, stop, rest⟩ : Lexed).Tiles source p := by
  obtain ⟨p, ps, hps⟩ : ∃ p ps, (⟨ls, stop, rest⟩ : Lexed).bounds = p :: ps :=
    List.exists_cons_of_ne_nil (by simp [bounds])
  have hhead : (⟨ls, stop, rest⟩ : Lexed).bounds.head? = some p := by rw [hps]; rfl
  constructor
  · rintro ⟨hincreasing, hfirst, hwithin, hrest, hwritten⟩
    rw [bounds_cons, hps] at hincreasing hfirst
    rw [spans_cons hhead, List.forall_mem_cons] at hwritten
    obtain ⟨hbelow, hincreasing⟩ := List.pairwise_cons.1 hincreasing
    obtain rfl : l.position = start := Option.some.inj hfirst
    exact ⟨rfl, p, hbelow p List.mem_cons_self, hwritten.1, hps ▸ hincreasing, hhead, hwithin,
      hrest, hwritten.2⟩
  · rintro ⟨rfl, q, hlt, hwritten, hincreasing, hfirst, hwithin, hrest, htail⟩
    obtain rfl : p = q := Option.some.inj (hhead.symm.trans hfirst)
    rw [hps] at hincreasing
    refine ⟨?_, rfl, hwithin, hrest, ?_⟩
    · rw [bounds_cons, hps]
      refine List.pairwise_cons.2 ⟨fun b hb => ?_, hincreasing⟩
      rcases List.mem_cons.1 hb with rfl | hb
      · exact hlt
      · exact hlt.trans ((List.pairwise_cons.1 hincreasing).1 b hb)
    · rw [spans_cons hhead, List.forall_mem_cons]
      exact ⟨hwritten, htail⟩

end

namespace Tiles

variable {source : List Char} {start : Nat} {x y : Lexed}

theorem le_stop (h : x.Tiles source start) : start ≤ x.stop := by
  obtain ⟨ls, stop, rest⟩ := x
  induction ls generalizing start with
  | nil => exact (tiles_nil_iff.1 h).1.ge
  | cons l ls ih =>
    obtain ⟨-, p, hlt, -, htail⟩ := tiles_cons_iff.1 h
    exact hlt.le.trans (ih htail)

/-- Nothing between the tokens is left out, and nothing is covered twice. -/
theorem flatten (h : x.Tiles source start) :
    (x.spans.map fun s => source.extract s.1.position s.2).flatten =
      source.extract start x.stop := by
  obtain ⟨ls, stop, rest⟩ := x
  induction ls generalizing start with
  | nil =>
    obtain ⟨rfl, -, -⟩ := tiles_nil_iff.1 h
    simp [spans]
  | cons l ls ih =>
    obtain ⟨rfl, p, hlt, -, htail⟩ := tiles_cons_iff.1 h
    rw [spans_cons htail.first, List.map_cons, List.flatten_cons, ih htail,
      extract_append_extract hlt.le htail.le_stop]

/-- Tokens that cover the same part of a text are the same. -/
theorem unique (hx : x.Tiles source start) (hy : y.Tiles source start) (h : x.stop = y.stop) :
    x = y := by
  obtain ⟨ls, stop, rest⟩ := x
  obtain ⟨ks, stop', rest'⟩ := y
  obtain rfl : stop = stop' := h
  induction ls generalizing start ks with
  | nil =>
    obtain ⟨rfl, -, hrest⟩ := tiles_nil_iff.1 hx
    cases ks with
    | nil =>
      obtain ⟨-, -, hrest'⟩ := tiles_nil_iff.1 hy
      rw [hrest, hrest']
    | cons k ks =>
      obtain ⟨-, p, hlt, -, htail⟩ := tiles_cons_iff.1 hy
      exact absurd htail.le_stop hlt.not_ge
  | cons l ls ih =>
    obtain ⟨hl, p, hlt, hwritten, htail⟩ := tiles_cons_iff.1 hx
    cases ks with
    | nil =>
      obtain ⟨rfl, -, -⟩ := tiles_nil_iff.1 hy
      exact absurd htail.le_stop hlt.not_ge
    | cons k ks =>
      obtain ⟨hk, q, hlt', hwritten', htail'⟩ := tiles_cons_iff.1 hy
      have hnext := Token.next?_eq_some_iff.2 ⟨_, (extract_append_drop hlt.le).symm, hwritten⟩
      have hnext' := Token.next?_eq_some_iff.2 ⟨_, (extract_append_drop hlt'.le).symm, hwritten'⟩
      obtain ⟨htoken, hdrop⟩ := Prod.mk.inj (Option.some.inj (hnext.symm.trans hnext'))
      have hlength := congrArg List.length hdrop
      rw [List.length_drop, List.length_drop] at hlength
      have hp := htail.le_stop.trans htail.within
      have hq := htail'.le_stop.trans htail'.within
      obtain rfl : p = q := by omega
      cases ih htail ks htail'
      obtain ⟨position, token⟩ := l
      obtain ⟨position', token'⟩ := k
      cases hl.trans hk.symm
      cases htoken
      rfl

end Tiles

end Lexed

/-- The tokens that are read cover the text up to where they stop. -/
theorem tiles_lex (before text : List Char) :
    (lex before.length text).Tiles (before ++ text) before.length := by
  generalize hposition : before.length = position
  fun_induction lex position text generalizing before with
  | case1 position text h =>
    subst hposition
    exact Lexed.tiles_nil_iff.2 ⟨rfl, by simp, by simp⟩
  | case2 position text token rest h tail ih =>
    subst hposition
    obtain ⟨block, rfl, hwritten⟩ := Token.next?_eq_some_iff.1 h
    have hend : before.length + ((block ++ rest).length - rest.length) =
        (before ++ block).length := by simp
    have htail := ih (before ++ block) hend.symm
    rw [List.append_assoc] at htail
    refine Lexed.tiles_cons_iff.2 ⟨rfl, _, ?_, ?_, htail⟩
    · have hlt := Token.length_lt_of_next? h
      omega
    · simpa using hwritten

/-! ## Where tokens stop -/

/-- Tokens are read from a front of the text without a semicolon outside quotes, and what is left
means what it meant. -/
theorem lex_front (position : Nat) (text : List Char) :
    ∃ front, (lex position text).stop = position + front.length ∧
      .semicolon ∉ glyphs false front ∧
      glyphs false text = glyphs false front ++ glyphs false (lex position text).rest := by
  obtain ⟨front, hfront, hstop, hopen, hspans⟩ := lex_spec position text
  refine ⟨front, hstop, fun hsemi => hspans.ne_semicolon _ hsemi rfl, ?_⟩
  conv_lhs => rw [hfront]
  rw [glyphs_append, hopen]

theorem openQuote?_eq_some {opened : Option Nat} {position i : Nat} {cs : List Char}
    (h : openQuote? opened position cs = some i) : opened = some i ∨ position ≤ i := by
  fun_induction openQuote? opened position cs with
  | case1 => exact .inl h
  | case2 opened position cs ih => exact (ih h).imp_right fun _ => by omega
  | case3 opened position cs _ ih =>
    right
    rcases ih h with hopened | hle
    · split at hopened
      · cases hopened
      · exact (Option.some.inj hopened).le
    · omega
  | case4 opened position c cs _ _ ih => exact (ih h).imp_right fun _ => by omega

namespace Pattern

/-- Unless a quote stays open, tokens stop at the first semicolon outside quotes. -/
theorem stop_lex {position : Nat} {text : List Char}
    (h : (lex position text).rest.head? ≠ some '\'') :
    (lex position text).stop = position + (positiveGlyphs (glyphs false text)).length := by
  obtain ⟨front, hstop, hfront, hgs⟩ := lex_front position text
  have hne : ∀ g ∈ glyphs false front, decide (g ≠ .semicolon) = true := fun g hg =>
    decide_eq_true fun he => hfront (he ▸ hg)
  have hrest : (glyphs false (lex position text).rest).takeWhile (· ≠ .semicolon) = [] := by
    rcases rest_lex_of_head? h with hr | ⟨rest, hr⟩
    · rw [hr]
      rfl
    · rw [hr, glyphs_cons_of_ne (by decide)]
      rfl
  rw [hstop, hgs, positiveGlyphs, List.takeWhile_append_of_pos hne, hrest, List.append_nil,
    length_glyphs]

/-- Tokens stop at a quote just where one is opened before the first semicolon outside quotes and
never closed. -/
theorem lexSubPattern_eq_error_iff_openQuote? {position : Nat} {text : List Char}
    {e : SyntaxError} :
    lexSubPattern position text = .error e ↔
      ∃ i, openQuote? none position text = some i ∧
        .semicolon ∉ (glyphs false text).take (i - position) ∧ e = ⟨i, .unterminatedQuote⟩ := by
  obtain ⟨front, hstop, hfront, hgs⟩ := lex_front position text
  rw [lexSubPattern_eq_error_iff]
  constructor
  · rintro ⟨hhead, rfl⟩
    refine ⟨_, openQuote?_of_head?_rest hhead, ?_, rfl⟩
    rw [hstop, Nat.add_sub_cancel_left, hgs, ← length_glyphs false front, List.take_left]
    exact hfront
  · rintro ⟨i, hopen, hbefore, rfl⟩
    have hhead : (lex position text).rest.head? = some '\'' := by
      by_contra hhead
      rw [openQuote?_lex] at hopen
      rcases rest_lex_of_head? hhead with hr | ⟨rest, hr⟩
      · rw [hr] at hopen
        cases hopen
      · -- what stays open is opened behind the semicolon
        rw [hr, openQuote?_cons_of_ne _ _ (by decide)] at hopen
        have hle := (openQuote?_eq_some hopen).resolve_left (by simp)
        apply hbefore
        rw [hgs, hr, glyphs_cons_of_ne (by decide), List.take_append, length_glyphs]
        obtain ⟨n, hn⟩ : ∃ n, i - position - front.length = n + 1 :=
          ⟨i - position - front.length - 1, by omega⟩
        rw [hn]
        simp [Glyph.ofChar]
    rw [openQuote?_of_head?_rest hhead] at hopen
    cases hopen
    exact ⟨hhead, rfl⟩

/-! ## Reading in a loop -/

/-- Reads one token after another behind those that are `read`, until the text ends or a semicolon
stands in front. A position is counted in the whole text `source`. `none` stands for a loop that has
not ended after so many turns. -/
def lexLoop (source : List Char) :
    Nat → List Lexeme → List Char → Option (Except SyntaxError (List Lexeme × List Char))
  | 0, _, _ => none
  | turns + 1, read, cs =>
    if cs = [] ∨ cs.head? = some ';' then some (.ok (read, cs))
    else
      let position := source.length - cs.length
      match Token.next? cs with
      | none => some (.error ⟨position, .unterminatedQuote⟩)
      | some (token, rest) => lexLoop source turns (read ++ [⟨position, token⟩]) rest

theorem lexSubPattern_of_next? {position : Nat} {cs rest : List Char} {t : Token}
    (h : Token.next? cs = some (t, rest)) :
    lexSubPattern position cs =
      (lexSubPattern (position + (cs.length - rest.length)) rest).map fun x =>
        { x with lexemes := ⟨position, t⟩ :: x.lexemes } := by
  rw [lexSubPattern, lexSubPattern, lex_of_next?_eq_some h]
  dsimp only
  split <;> rfl

/-- A loop with more turns than characters ends with the tokens of the sub-pattern. -/
theorem lexLoop_eq {turns : Nat} {before cs : List Char} (h : cs.length < turns)
    (read : List Lexeme) :
    lexLoop (before ++ cs) turns read cs =
      some ((lexSubPattern before.length cs).map fun x => (read ++ x.lexemes, x.rest)) := by
  induction turns generalizing before cs read with
  | zero => cases h
  | succ turns ih =>
    have hposition : (before ++ cs).length - cs.length = before.length := by
      rw [List.length_append, Nat.add_sub_cancel]
    rw [lexLoop, hposition]
    cases hnext : Token.next? cs with
    | none =>
      have hlex := lex_of_next?_eq_none hnext before.length
      have hrest := rest_lex before.length cs
      rw [hlex] at hrest
      rw [lexSubPattern, hlex]
      rcases hrest with rfl | ⟨rest, rfl⟩ | ⟨rest, rfl, -⟩ <;> simp [Except.map]
    | some next =>
      obtain ⟨t, rest⟩ := next
      obtain ⟨block, rfl, hwritten⟩ := Token.next?_eq_some_iff.1 hnext
      have hgo : ¬(block ++ rest = [] ∨ (block ++ rest).head? = some ';') := by
        rintro (hnil | hsemi)
        · rw [hnil] at hnext
          cases hnext
        · obtain ⟨tail, htail⟩ := List.head?_eq_some_iff.1 hsemi
          rw [htail] at hnext
          cases hnext
      have hlt := Token.length_lt_of_next? hnext
      have hend : before.length + ((block ++ rest).length - rest.length) =
          (before ++ block).length := by simp
      rw [if_neg hgo, lexSubPattern_of_next? hnext, hend]
      dsimp only
      rw [← List.append_assoc, ih (by omega)]
      cases lexSubPattern (before ++ block).length rest <;> simp [Except.map]

/-- **Tokens cover a sub-pattern.** From anywhere in a text on, the loop that reads tokens ends.
What it has read then covers the text up to the first semicolon outside quotes or to the end, which
is where the rest begins, and nothing else does. It fails just where a quote is opened before that
semicolon and never closed. -/
theorem lexSubPattern_tiles (before text : List Char) :
    lexLoop (before ++ text) (text.length + 1) [] text =
        some ((lexSubPattern before.length text).map fun x => (x.lexemes, x.rest)) ∧
      (∀ x, lexSubPattern before.length text = .ok x →
        x.Tiles (before ++ text) before.length ∧
        x.stop = before.length + (positiveGlyphs (glyphs false text)).length ∧
        (x.spans.map fun s => (before ++ text).extract s.1.position s.2).flatten =
          text.take (positiveGlyphs (glyphs false text)).length ∧
        x.rest = text.drop (positiveGlyphs (glyphs false text)).length ∧
        ∀ y : Lexed, y.Tiles (before ++ text) before.length → y.stop = x.stop → y = x) ∧
      ∀ e, lexSubPattern before.length text = .error e ↔
        ∃ i, openQuote? none before.length text = some i ∧
          .semicolon ∉ (glyphs false text).take (i - before.length) ∧
          e = ⟨i, .unterminatedQuote⟩ := by
  refine ⟨lexLoop_eq (Nat.lt_succ_self _) [], fun x hx => ?_,
    fun e => lexSubPattern_eq_error_iff_openQuote?⟩
  obtain ⟨hhead, rfl⟩ := lexSubPattern_eq_ok_iff.1 hx
  have htiles := tiles_lex before text
  have hstop := stop_lex hhead
  refine ⟨htiles, hstop, ?_, ?_, fun y hy h => hy.unique htiles h⟩
  · rw [htiles.flatten, hstop]
    simp
  · rw [htiles.rest, hstop]
    simp

/-- A sub-pattern behind a semicolon, with one in quotes, and a quote that three in a row leave
open. -/
theorem lexSubPattern_tiles_quoted :
    (∃ x, lexSubPattern 2 "¤¤'a;''b';x".toList = .ok x ∧
        x.Tiles "0;¤¤'a;''b';x".toList 2 ∧ x.rest = ";x".toList ∧
        x.lexemes = [⟨2, .part (.currency .isoCode)⟩, ⟨4, .part (.literal "a;'b")⟩]) ∧
      lexSubPattern 0 "''';".toList = .error ⟨2, .unterminatedQuote⟩ := by
  obtain ⟨-, hok, -⟩ := lexSubPattern_tiles "0;".toList "¤¤'a;''b';x".toList
  obtain ⟨-, -, herror⟩ := lexSubPattern_tiles [] "''';".toList
  have hread : lexSubPattern 2 "¤¤'a;''b';x".toList = .ok
      ⟨[⟨2, .part (.currency .isoCode)⟩, ⟨4, .part (.literal "a;'b")⟩], 11, ";x".toList⟩ := by
    decide +kernel
  refine ⟨⟨_, hread, (hok _ hread).1, rfl, rfl⟩, ?_⟩
  exact (herror _).2 ⟨2, by decide +kernel, by decide +kernel, rfl⟩

end Pattern

end Numerals
