import Numerals.Proofs.Pattern.Image
import Numerals.Proofs.Pattern.IntegerOnly

/-!
# What a cut text compiles to

`Pattern.beforePoint` counts quotes, and `lex` reads tokens. Both agree where a text is cut
(`lex_cut`), and what is left has the same tokens up to there (`lex_beforePoint`). So the
positive sub-pattern keeps its front and the integer part of its body
(`SubPattern.ofLexemes_takeWhile`). `Pattern.compile_integerOnly` says what this means for the
pattern of the text.
-/

namespace Numerals

/-- Whether a token is a decimal separator. -/
def Lexeme.isPoint (l : Lexeme) : Bool := l.token = .marker .point

/-! ## Characters -/

namespace Pattern

theorem beforePoint_append {q : Bool} {a : List Char} (h : .marker .point ∉ glyphs q a)
    (b : List Char) : beforePoint q (a ++ b) = a ++ beforePoint (quoteOpen q a) b := by
  induction a generalizing q with
  | nil => rfl
  | cons c a ih =>
    by_cases hc : c = '\''
    · subst hc
      rw [glyphs_quote] at h
      rw [quoteOpen_quote, List.cons_append, beforePoint, if_pos rfl,
        ih (List.not_mem_of_not_mem_cons h), List.cons_append]
    · rw [glyphs_cons_of_ne hc] at h
      have hpoint : (c = '.' && !q) = false := by
        cases q with
        | true => simp
        | false =>
          rw [List.mem_cons, not_or] at h
          simpa using fun he => h.1 (Glyph.ofChar_eq_point_iff.2 he).symm
      rw [quoteOpen_cons_of_ne hc, List.cons_append, beforePoint, if_neg hc,
        if_neg (by simp [hpoint]), ih (List.not_mem_of_not_mem_cons h), List.cons_append]

theorem beforePoint_eq_self {q : Bool} {cs : List Char} (h : .marker .point ∉ glyphs q cs) :
    beforePoint q cs = cs := by
  have happend := beforePoint_append h []
  rwa [List.append_nil, beforePoint, List.append_nil] at happend

theorem beforePoint_within (q : Bool) (cs : List Char) : beforePoint q cs <+: cs := by
  induction cs generalizing q with
  | nil => exact List.prefix_refl []
  | cons c cs ih =>
    unfold beforePoint
    split
    · exact List.cons_prefix_cons.2 ⟨rfl, ih _⟩
    · split
      · exact List.nil_prefix
      · exact List.cons_prefix_cons.2 ⟨rfl, ih _⟩

theorem beforePoint_ne_cons {cs : List Char} {c : Char} (h : ∀ rest, cs ≠ c :: rest) (q : Bool)
    (rest : List Char) : beforePoint q cs ≠ c :: rest := by
  intro hcut
  obtain ⟨tail, htail⟩ := beforePoint_within q cs
  rw [hcut] at htail
  exact h _ htail.symm

end Pattern

open Pattern

/-! ## Tokens -/

namespace Token

theorem quoted_beforePoint {cs text rest : List Char} (h : quoted cs = some (text, rest)) :
    quoted (beforePoint true cs) = some (text, beforePoint false rest) := by
  fun_induction quoted cs generalizing text with
  | case1 => cases h
  | case2 cs ih =>
    obtain ⟨⟨t, r⟩, hq, he⟩ := Option.map_eq_some_iff.1 h
    cases he
    simp [beforePoint, quoted, ih hq]
  | case3 cs hquote =>
    cases h
    rw [beforePoint, if_pos rfl, quoted]
    · rfl
    · exact beforePoint_ne_cons hquote _
  | case4 c cs _ hc ih =>
    obtain ⟨⟨t, r⟩, hq, he⟩ := Option.map_eq_some_iff.1 h
    cases he
    have hne : c ≠ '\'' := hc
    rw [beforePoint, if_neg hne, if_neg (by simp), quoted, ih hq]
    · rfl
    · intro _ he
      exact absurd he hne
    · exact hne

theorem beforePoint_dropWhile_currency (cs : List Char) :
    beforePoint false (cs.dropWhile (· = '¤')) = (beforePoint false cs).dropWhile (· = '¤') := by
  induction cs with
  | nil => rfl
  | cons c cs ih =>
    by_cases hc : c = '¤'
    · subst hc
      simpa [beforePoint] using ih
    · have hne : ∀ rest, c :: cs ≠ '¤' :: rest := by simp [hc]
      rw [List.dropWhile_cons_of_neg (by simpa using hc)]
      cases hcut : beforePoint false (c :: cs) with
      | nil => rfl
      | cons d ds =>
        have hd : d ≠ '¤' := by
          rintro rfl
          exact beforePoint_ne_cons hne _ _ hcut
        rw [List.dropWhile_cons_of_neg (by simpa using hd)]

/-- The token at the front, in a text cut behind it. -/
theorem next?_beforePoint {cs rest : List Char} {t : Token} (h : next? cs = some (t, rest))
    (ht : t ≠ .marker .point) :
    next? (beforePoint false cs) = some (t, beforePoint false rest) := by
  unfold next? at h
  split at h
  · cases h
  · cases h
  · cases h
    rw [beforePoint_dropWhile_currency]
    rfl
  · next cs hsign =>
    cases h
    change next? ('¤' :: beforePoint false rest) = _
    rw [next?]
    exact beforePoint_ne_cons hsign _
  · cases h
    rfl
  · next cs hquote =>
    obtain ⟨⟨text, r⟩, hq, he⟩ := Option.map_eq_some_iff.1 h
    cases he
    change next? ('\'' :: beforePoint true cs) = _
    rw [next?, quoted_beforePoint hq]
    · rfl
    · exact beforePoint_ne_cons hquote _
  · next c cs hsemi hsigns hsign _ hquote =>
    cases h
    have hne : c ≠ '\'' := hquote
    have hpoint : c ≠ '.' := by
      rintro rfl
      exact ht rfl
    rw [beforePoint, if_neg hne, if_neg (by simp [hpoint]), next?]
    · exact hsemi
    · intro _ he
      exact absurd he hsign
    · exact hsign
    · intro _ he
      exact absurd he hne
    · exact hne

theorem beforePoint_of_next?_point {cs rest : List Char}
    (h : next? cs = some (.marker .point, rest)) : beforePoint false cs = [] := by
  obtain ⟨block, rfl, -, hblock⟩ := next?_eq_some h
  have hlength : (beforePoint false (block ++ rest)).length = 0 := by
    rw [← length_glyphs false, glyphs_beforePoint, glyphs_append,
      show glyphs false block = [.marker .point] from hblock]
    rfl
  exact List.eq_nil_of_length_eq_zero hlength

/-- Any other token stays as it is. -/
theorem exists_block {cs rest : List Char} {t : Token} (h : next? cs = some (t, rest))
    (ht : t ≠ .marker .point) :
    ∃ block, cs = block ++ rest ∧ beforePoint false cs = block ++ beforePoint false rest := by
  obtain ⟨block, rfl, hopen, hblock⟩ := next?_eq_some h
  have hpoint : .marker .point ∉ glyphs false block := by
    intro hmem
    cases t with
    | marker m =>
      rw [show glyphs false block = _ from hblock, List.mem_singleton] at hmem
      cases hmem
      exact ht rfl
    | part p => cases hblock.2 _ hmem
  refine ⟨block, rfl, ?_⟩
  rw [beforePoint_append hpoint, hopen]

end Token

/-- A text that is cut has the tokens before the first decimal separator. Where there is none,
reading stops at the same place. -/
theorem lex_beforePoint {position : Nat} {cs : List Char}
    (h : (lex position cs).rest.head? ≠ some '\'') :
    (lex position (beforePoint false cs)).lexemes =
        (lex position cs).lexemes.takeWhile (!·.isPoint) ∧
      ((∃ l ∈ (lex position cs).lexemes, l.isPoint = true) →
        (lex position (beforePoint false cs)).rest = []) ∧
      ((∀ l ∈ (lex position cs).lexemes, l.isPoint = false) →
        (lex position (beforePoint false cs)).stop = (lex position cs).stop ∧
        (lex position (beforePoint false cs)).rest = beforePoint false (lex position cs).rest) := by
  fun_induction lex position cs with
  | case1 position cs hnone =>
    have hcut : Token.next? (beforePoint false cs) = none := by
      rw [← lex_of_next?_eq_none hnone position] at h
      rcases rest_lex_of_head? h with hr | ⟨rest, hr⟩ <;>
        rw [lex_of_next?_eq_none hnone] at hr <;> subst hr <;> rfl
    rw [lex_of_next?_eq_none hcut]
    simp
  | case2 position cs token rest hnext tail ih =>
    by_cases ht : token = .marker .point
    · subst ht
      rw [Token.beforePoint_of_next?_point hnext, lex_of_next?_eq_none rfl]
      simp [Lexeme.isPoint]
    · have hpoint : (⟨position, token⟩ : Lexeme).isPoint = false := decide_eq_false ht
      obtain ⟨block, hblock, hcut⟩ := Token.exists_block hnext ht
      have hlength : (beforePoint false cs).length - (beforePoint false rest).length =
          cs.length - rest.length := by
        rw [hcut, hblock, List.length_append, List.length_append]
        omega
      -- the token is as long as before, so that the next one keeps its position
      rw [lex_of_next?_eq_some (Token.next?_beforePoint hnext ht), hlength]
      obtain ⟨hlexemes, hrest, hstop⟩ := ih h
      simp only [List.takeWhile_cons, List.exists_mem_cons_iff, List.forall_mem_cons, hpoint]
      exact ⟨by simp [hlexemes, tail], by simpa using hrest, by simpa using hstop⟩

/-! ## Positions -/

/-- A text is cut where its first decimal separator stands. Where there is none, it is not cut as
far as it is read. -/
theorem lex_cut (position : Nat) (cs : List Char) :
    (∀ l, (lex position cs).lexemes.find? (·.isPoint) = some l →
      l.position = position + (beforePoint false cs).length) ∧
    ((lex position cs).lexemes.find? (·.isPoint) = none →
      ∃ front, cs = front ++ (lex position cs).rest ∧
        (lex position cs).stop = position + front.length ∧
        beforePoint false cs = front ++ beforePoint false (lex position cs).rest) := by
  fun_induction lex position cs with
  | case1 position cs hnone => exact ⟨by simp, fun _ => ⟨[], rfl, rfl, rfl⟩⟩
  | case2 position cs token rest hnext tail ih =>
    by_cases ht : token = .marker .point
    · subst ht
      rw [Token.beforePoint_of_next?_point hnext]
      simp [Lexeme.isPoint]
    · have hpoint : (⟨position, token⟩ : Lexeme).isPoint = false := decide_eq_false ht
      obtain ⟨block, rfl, hcut⟩ := Token.exists_block hnext ht
      have hlength : (block ++ rest).length - rest.length = block.length := by simp
      rw [hlength] at ih
      obtain ⟨hsome, hnone⟩ := ih
      simp only [List.find?_cons, hpoint, hcut, hlength, tail]
      refine ⟨fun l hl => ?_, fun hl => ?_⟩
      · rw [hsome l hl, List.length_append, Nat.add_assoc]
      · obtain ⟨front, hfront, hstop, hrest⟩ := hnone hl
        refine ⟨block ++ front, ?_, ?_, ?_⟩
        · rw [List.append_assoc, ← hfront]
        · rw [hstop, List.length_append, Nat.add_assoc]
        · rw [hrest, List.append_assoc]

namespace Pattern

/-- The tokens of both sub-patterns, in the order of the text. -/
def lexemes (text : List Char) : List Lexeme :=
  (lex 0 text).lexemes ++ (negativeLexed text).lexemes

/-- The quotes and the tokens of a text that compiles tell the same cut. -/
theorem beforePoint_spec {text : List Char} {p : Pattern} (h : compileChars text = .ok p) :
    (∀ l, (lexemes text).find? (·.isPoint) = some l →
      beforePoint false text = text.take l.position) ∧
    ((lexemes text).find? (·.isPoint) = none → beforePoint false text = text) := by
  obtain ⟨hread, -⟩ := compileChars_eq_ok_iff.1 h
  obtain ⟨hfirst, hsecond, hend⟩ := lexSubPatterns_iff.2 ⟨hread, rfl, rfl⟩
  have htake {n : Nat} (hn : n = (beforePoint false text).length) :
      beforePoint false text = text.take n := by
    rw [hn]
    exact List.prefix_iff_eq_take.1 (beforePoint_within false text)
  obtain ⟨hsome, hnone⟩ := lex_cut 0 text
  rw [lexemes, List.find?_append]
  cases hpositive : (lex 0 text).lexemes.find? (·.isPoint) with
  | some k =>
    refine ⟨fun l hl => ?_, fun hl => by cases hl⟩
    cases hl
    apply htake
    rw [hsome k hpositive, Nat.zero_add]
  | none =>
    obtain ⟨front, hfront, hstop, hcut⟩ := hnone hpositive
    rw [Nat.zero_add] at hstop
    rw [Option.none_or]
    rcases rest_lex_of_head? (lexSubPattern_eq_ok_iff.1 hfirst).1 with hr | ⟨rest, hr⟩
    · have hnil : (negativeLexed text).lexemes = [] := by
        rw [negativeLexed, hr, lex_of_next?_eq_none rfl]
      rw [hnil]
      refine ⟨by simp, fun _ => ?_⟩
      rw [hcut, hr]
      conv_rhs => rw [hfront, hr]
      rfl
    · rw [hr] at hfront hcut
      have hnegative : negativeLexed text = lex (front.length + 1) rest := by
        rw [negativeLexed, hr, hstop]
        rfl
      rw [hnegative] at hend ⊢
      obtain ⟨hsome', hnone'⟩ := lex_cut (front.length + 1) rest
      have hcut : beforePoint false text = front ++ ';' :: beforePoint false rest := hcut
      refine ⟨fun l hl => htake ?_, fun hl => ?_⟩
      · rw [hsome' l hl, hcut, List.length_append, List.length_cons]
        omega
      · obtain ⟨front', hfront', -, hcut'⟩ := hnone' hl
        rw [hend] at hfront' hcut'
        rw [hcut, hcut', hfront, hfront']
        rfl

end Pattern

/-! ## Sub-patterns -/

/-- A layout without the digits behind its decimal separator. Without integer digits nothing is
left of the body, which asks for one. -/
def Layout.withoutFraction (l : Layout) (startsWithPoint : Bool) : Layout :=
  { l with
    limits := { l.limits with
      minInteger := if startsWithPoint then 1 else l.limits.minInteger
      minFraction := 0
      maxFraction := 0 }
    separatorAlwaysShown := false }

theorem NumberForm.Valid.layout_withoutFraction {n : NumberForm} (h : n.Valid) :
    ({ n with fraction := none } : NumberForm).layout =
      n.layout.withoutFraction (n.markers.head? = some .point) := by
  obtain ⟨integer, fraction⟩ := n
  cases integer with
  | nil => cases fraction <;> simp [layout, markers, Layout.withoutFraction]
  | cons m integer =>
    have hm : m ≠ .point := by
      rintro rfl
      exact h.noPoint List.mem_cons_self
    simp [layout, markers, lastGroup, Layout.withoutFraction, hm]

namespace Lexeme

/-- Whether the first marker of a sub-pattern is its decimal separator. -/
def startsWithPoint (ls : List Lexeme) : Bool := (ls.find? (·.isMarker)).any (·.isPoint)

theorem isPoint_eq_false {l : Lexeme} (h : l.isMarker = false) : l.isPoint = false := by
  apply decide_eq_false
  intro hl
  rw [isMarker, hl] at h
  cases h

theorem isPoint_of_markers {ls : List Lexeme} {ms : List Marker}
    (h : ls.map (·.token) = ms.map .marker) (hms : .point ∉ ms) : ∀ l ∈ ls, l.isPoint = false := by
  intro l hl
  apply decide_eq_false
  intro htoken
  have hmem : l.token ∈ ms.map Token.marker := h ▸ List.mem_map_of_mem hl
  obtain ⟨m, hm, he⟩ := List.mem_map.1 hmem
  rw [htoken] at he
  cases he
  exact hms hm

theorem startsWithPoint_eq {fs body bs : List Lexeme} {ms : List Marker}
    (hfs : ∀ l ∈ fs, l.isMarker = false) (hbs : ∀ l ∈ bs, l.isMarker = false)
    (hbody : body.map (·.token) = ms.map .marker) :
    startsWithPoint (fs ++ (body ++ bs)) = decide (ms.head? = some .point) := by
  have hfs : fs.find? (·.isMarker) = none := by simpa using hfs
  have hbs : bs.find? (·.isMarker) = none := by simpa using hbs
  rw [startsWithPoint, List.find?_append, hfs, Option.none_or, List.find?_append]
  cases body with
  | nil =>
    cases List.map_eq_nil_iff.1 hbody.symm
    simp [hbs]
  | cons l body =>
    obtain ⟨m, ms, rfl, hm, -⟩ := List.map_eq_cons_iff.1 hbody.symm
    have hm : .marker m = l.token := hm
    have hmarker : l.isMarker = true := by rw [isMarker, ← hm]; rfl
    rw [List.find?_cons_of_pos hmarker]
    simp [isPoint, ← hm]

end Lexeme

namespace SubPattern

variable {ls : List Lexeme} {sub : SubPattern} {layout : Layout}

/-- The tokens of a sub-pattern that compiles: parts in front, a body of some form, and parts
behind. -/
theorem exists_form_of_ofLexemes (h : ofLexemes ls = .ok (sub, layout)) :
    ∃ (fs body bs : List Lexeme) (n : NumberForm), ls = fs ++ (body ++ bs) ∧
      (∀ l ∈ fs, l.isMarker = false) ∧ (∀ l ∈ bs, l.isMarker = false) ∧ n.Valid ∧
      body.map (·.token) = n.markers.map .marker ∧ layout = n.layout ∧
      sub.front = .ofParts (Lexeme.parts fs) := by
  obtain ⟨layout', hl, he⟩ := bind_eq_ok_iff.1 h
  cases he
  obtain ⟨n, hn, htokens, rfl⟩ := Layout.ofBody_eq_ok_iff.1 hl
  obtain ⟨happend, hbs⟩ := Lexeme.cutAfterMarkers_spec (ls.dropWhile (!·.isMarker))
  refine ⟨ls.takeWhile (!·.isMarker), _, _, n, ?_, ?_, hbs, hn, htokens, rfl, rfl⟩
  · rw [happend, List.takeWhile_append_dropWhile]
  · intro l hl
    simpa using List.mem_takeWhile_imp hl

/-- A sub-pattern cut at its decimal separator keeps what is in front of its body, and the body up
to there. -/
theorem ofLexemes_takeWhile (h : ofLexemes ls = .ok (sub, layout)) :
    ofLexemes (ls.takeWhile (!·.isPoint)) =
      .ok (⟨sub.front, if ls.any (·.isPoint) then [] else sub.back⟩,
        layout.withoutFraction (Lexeme.startsWithPoint ls)) := by
  obtain ⟨fs, body, bs, n, hls, hfs, hbs, hn, htokens, rfl, hfront⟩ := exists_form_of_ofLexemes h
  rw [hls, Lexeme.startsWithPoint_eq hfs hbs htokens, ← hn.layout_withoutFraction, ← hls]
  have hbefore {ks : List Lexeme} (hks : ∀ l ∈ ks, l.isPoint = false) :
      ∀ l ∈ ks, (!l.isPoint) = true := fun l hl => by rw [hks l hl]; rfl
  have hparts : ∀ l ∈ fs, l.isPoint = false := fun l hl => Lexeme.isPoint_eq_false (hfs l hl)
  cases hfraction : n.fraction with
  | none =>
    have hsame : n = { n with fraction := none } := by rw [← hfraction]
    rw [NumberForm.markers, hfraction, Option.elim_none, List.append_nil] at htokens
    have hnone : ∀ l ∈ ls, l.isPoint = false := by
      simp only [hls, List.forall_mem_append]
      exact ⟨hparts, Lexeme.isPoint_of_markers htokens hn.noPoint,
        fun l hl => Lexeme.isPoint_eq_false (hbs l hl)⟩
    have hany : ls.any (·.isPoint) = false := List.any_eq_false.2 fun l hl => by simp [hnone l hl]
    rw [List.takeWhile_eq_self_iff.2 (hbefore hnone), hany, ← hsame]
    exact h
  | some f =>
    rw [NumberForm.markers, hfraction, Option.elim_some, List.map_append] at htokens
    obtain ⟨ks, rest, rfl, hks, hrest⟩ := List.map_eq_append_iff.1 htokens
    obtain ⟨l, rest, rfl, hl, -⟩ := List.map_eq_cons_iff.1 hrest
    have hl : l.isPoint = true := decide_eq_true hl
    have hany : ls.any (·.isPoint) = true := by simp [hls, hl]
    have hcut : ls.takeWhile (!·.isPoint) = fs ++ ks := by
      rw [hls, List.takeWhile_append_of_pos (hbefore hparts), List.append_assoc,
        List.takeWhile_append_of_pos (hbefore (Lexeme.isPoint_of_markers hks hn.noPoint)),
        List.cons_append, List.takeWhile_cons_of_neg (by simp [hl]), List.append_nil]
    rw [hany, hcut, hfront]
    apply ofLexemes_eq hn.withoutFraction (fun _ => rfl)
    simp [NumberForm.markers, hks, Lexeme.map_token_eq_parts hfs]

theorem withoutFraction_of_ofLexemes (h : ofLexemes ls = .ok (sub, layout))
    (hls : ∀ l ∈ ls, l.isPoint = false) :
    layout.withoutFraction (Lexeme.startsWithPoint ls) = layout := by
  have hcut := ofLexemes_takeWhile h
  rw [List.takeWhile_eq_self_iff.2 fun l hl => by rw [hls l hl]; rfl, h] at hcut
  exact (congrArg Prod.snd (Except.ok.inj hcut)).symm

theorem minInteger_of_startsWithPoint (h : ofLexemes ls = .ok (sub, layout))
    (hls : Lexeme.startsWithPoint ls = true) : layout.limits.minInteger = 0 := by
  obtain ⟨fs, body, bs, n, rfl, hfs, hbs, hn, htokens, rfl, -⟩ := exists_form_of_ofLexemes h
  rw [Lexeme.startsWithPoint_eq hfs hbs htokens, decide_eq_true_iff] at hls
  obtain ⟨integer, fraction⟩ := n
  cases integer with
  | nil =>
    cases fraction with
    | none => simp [NumberForm.markers] at hls
    | some f => simp [NumberForm.layout, NumberForm.markers]
  | cons m integer =>
    have hm : m = .point := by simpa [NumberForm.markers] using hls
    exact absurd (hm ▸ List.mem_cons_self) hn.noPoint

end SubPattern

/-! ## Patterns -/

namespace Pattern

/-- A text cut in its positive sub-pattern has no negative one, and one cut behind that has the
tokens of the negative one up to there. -/
theorem negativeLexed_beforePoint {text : List Char}
    (h : (lex 0 text).rest.head? ≠ some '\'') (h' : (negativeLexed text).rest.head? ≠ some '\'') :
    (negativeLexed (beforePoint false text)).lexemes =
      if (lex 0 text).lexemes.any (·.isPoint) then []
      else (negativeLexed text).lexemes.takeWhile (!·.isPoint) := by
  obtain ⟨-, hpoint, hnone⟩ := lex_beforePoint h
  rw [negativeLexed]
  split
  · next hany =>
    rw [hpoint (List.any_eq_true.1 hany), lex_of_next?_eq_none rfl]
  · next hany =>
    obtain ⟨hstop, hrest⟩ := hnone (by simpa using hany)
    rw [hstop, hrest]
    have hdrop : (beforePoint false (lex 0 text).rest).drop 1 =
        beforePoint false ((lex 0 text).rest.drop 1) := by
      rcases rest_lex_of_head? h with hr | ⟨rest, hr⟩ <;> rw [hr] <;> rfl
    rw [hdrop]
    exact (lex_beforePoint h').1

/-- What is left of a text that compiles compiles. It keeps the front and the whole part of its
body, and nothing behind the cut. -/
theorem exists_compileChars_beforePoint {text : List Char} {p : Pattern}
    (h : compileChars text = .ok p) :
    ∃ p', compileChars (beforePoint false text) = .ok p' ∧
      p'.positive = ⟨p.positive.front,
        if (lex 0 text).lexemes.any (·.isPoint) then [] else p.positive.back⟩ ∧
      p'.toLayout = p.toLayout.withoutFraction (Lexeme.startsWithPoint (lex 0 text).lexemes) ∧
      ((lex 0 text).lexemes.any (·.isPoint) = true ∨ p.negative = none → p'.negative = none) := by
  obtain ⟨n, m, hg⟩ := exists_compileChars_iff.1 ⟨p, h⟩
  obtain ⟨m', hg'⟩ := hg.beforePoint
  obtain ⟨p', hp'⟩ := exists_compileChars_iff.2 ⟨_, m', hg'⟩
  obtain ⟨hread, positive, layout, negative, hpositive, hnegative, rfl⟩ :=
    compileChars_eq_ok_iff.1 h
  obtain ⟨-, positive', layout', negative', hpositive', hnegative', rfl⟩ :=
    compileChars_eq_ok_iff.1 hp'
  obtain ⟨hfirst, hsecond, -⟩ := lexSubPatterns_iff.2 ⟨hread, rfl, rfl⟩
  have hhead := (lexSubPattern_eq_ok_iff.1 hfirst).1
  rw [(lex_beforePoint hhead).1, SubPattern.ofLexemes_takeWhile hpositive] at hpositive'
  rw [negativeLexed_beforePoint hhead (lexSubPattern_eq_ok_iff.1 hsecond).1] at hnegative'
  cases hpositive'
  refine ⟨_, hp', rfl, rfl, fun hnone => ?_⟩
  split at hnegative'
  · cases hnegative'
    rfl
  · next hany =>
    obtain ⟨-, hspans⟩ := spans_subPatterns hread.1 hread.2
    have hglyphs := (ofLexemes?_eq_none_iff hspans hnegative).1 (hnone.resolve_left hany)
    rw [hspans.eq_nil_iff.2 hglyphs, List.takeWhile_nil] at hnegative'
    cases hnegative'
    rfl

theorem minInteger_of_startsWithPoint {text : List Char} {p : Pattern}
    (h : compileChars text = .ok p)
    (hstart : Lexeme.startsWithPoint (lex 0 text).lexemes = true) : p.limits.minInteger = 0 := by
  obtain ⟨-, positive, layout, negative, hpositive, -, rfl⟩ := compileChars_eq_ok_iff.1 h
  exact SubPattern.minInteger_of_startsWithPoint hpositive hstart

/-- What cutting a text for whole numbers keeps of its pattern. -/
structure WholePart (text : List Char) (p p' : Pattern) : Prop where
  front : p'.positive.front = p.positive.front
  groupingSize : p'.groupingSize = p.groupingSize
  minInteger : p'.limits.minInteger =
    if Lexeme.startsWithPoint (lex 0 text).lexemes then 1 else p.limits.minInteger
  maxFraction : p'.limits.maxFraction = 0
  separator : p'.separatorAlwaysShown = false
  /-- Cut in the positive sub-pattern, nothing follows the body. -/
  cutPositive : (∃ l ∈ (lex 0 text).lexemes, l.isPoint = true) →
    p'.positive.back = [] ∧ p'.negative = none
  /-- Cut behind it, or not at all, it stays. -/
  keptPositive : (∀ l ∈ (lex 0 text).lexemes, l.isPoint = false) →
    p'.positive = p.positive ∧ p'.toLayout = p.toLayout

/-- **Cutting for whole numbers.** The text of a pattern is cut before the first token of both its
sub-patterns that is a decimal separator. What is left compiles, to the whole part of the
pattern. -/
theorem compile_integerOnly {text : String} {p : Pattern} (h : compile text = .ok p) :
    ((∀ l, (lexemes text.toList).find? (·.isPoint) = some l →
        integerOnly text = String.ofList (text.toList.take l.position)) ∧
      ((lexemes text.toList).find? (·.isPoint) = none → integerOnly text = text)) ∧
    ∃ p', compile (integerOnly text) = .ok p' ∧ WholePart text.toList p p' := by
  obtain ⟨hsome, hnone⟩ := beforePoint_spec h
  obtain ⟨p', hp', hpositive, hlayout, hnegative⟩ := exists_compileChars_beforePoint h
  refine ⟨⟨fun l hl => ?_, fun hl => ?_⟩, p', ?_, ?_⟩
  · rw [integerOnly, hsome l hl]
  · rw [integerOnly, hnone hl, String.ofList_toList]
  · rw [compile, integerOnly, String.toList_ofList]
    exact hp'
  · exact
      { front := by rw [hpositive]
        groupingSize := by rw [hlayout]; rfl
        minInteger := by rw [hlayout]; rfl
        maxFraction := by rw [hlayout]; rfl
        separator := by rw [hlayout]; rfl
        cutPositive := fun hany => by
          have hany := List.any_eq_true.2 hany
          exact ⟨by rw [hpositive, hany]; rfl, hnegative (.inl hany)⟩
        keptPositive := fun hall => by
          obtain ⟨-, positive, layout, negative, hof, -, rfl⟩ := compileChars_eq_ok_iff.1 h
          have hany : (lex 0 text.toList).lexemes.any (·.isPoint) = false := by simpa using hall
          rw [hpositive, hlayout, hany]
          exact ⟨rfl, SubPattern.withoutFraction_of_ofLexemes hof hall⟩ }

/-- Of a body that starts with its decimal separator, one digit is left. -/
theorem compile_integerOnly_kept :
    ∃ p p', compile "'.'.0 ¤;(0)" = .ok p ∧ compile "'.'" = .ok p' ∧
      integerOnly "'.'.0 ¤;(0)" = "'.'" ∧ WholePart "'.'.0 ¤;(0)".toList p p' ∧
      p.limits.minInteger = 0 ∧ p'.limits.minInteger = 1 := by
  have hp : compile "'.'.0 ¤;(0)" = .ok
      { limits := { minInteger := 0, minFraction := 1, maxFraction := 1 }
        positive := { front := [.literal "."], back := [.literal " ", .currency .symbol] }
        negative := some { front := [.literal "("], back := [.literal ")"] }
        hasCurrency := true } := by
    decide +kernel
  obtain ⟨⟨hsome, -⟩, p', hp', hwhole⟩ := compile_integerOnly hp
  have hcut : integerOnly "'.'.0 ¤;(0)" = "'.'" :=
    hsome ⟨3, .marker .point⟩ (by decide +kernel)
  rw [hcut] at hp'
  refine ⟨_, p', hp, hp', hcut, hwhole, rfl, ?_⟩
  rw [hwhole.minInteger]
  decide +kernel

end Pattern

end Numerals
