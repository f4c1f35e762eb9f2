import Numerals.Proofs.Pattern.Printing

/-!
# The patterns that texts compile to

The tokens of a text hold no literal without text and no two currency placeholders in a row
(`Lexeme.normal_lex`), so the affixes made of them are normal (`Affix.normal_ofParts`), and so is
every compiled pattern (`Pattern.normal_of_compileChars`). With the text that is written for a
normal pattern this is exact: `Pattern.compile_image`.
-/

namespace Numerals

/-! ## Tokens -/

def AffixPart.isCurrency : AffixPart → Bool
  | currency _ => true
  | _ => false

namespace Token

def isCurrency : Token → Bool
  | part p => p.isCurrency
  | marker _ => false

/-- Two quotes in a row are one literal, so a quoted text is never empty. -/
theorem ne_of_next? {cs rest : List Char} {t : Token} (h : next? cs = some (t, rest)) :
    t ≠ part (.literal "") := by
  unfold next? at h
  split at h
  · cases h
  · cases h
  · cases h; simp
  · cases h; simp
  · cases h; simp
  · next cs hquote =>
    obtain ⟨⟨text, r⟩, hq, he⟩ := Option.map_eq_some_iff.1 h
    cases he
    cases cs with
    | nil => cases hq
    | cons c cs =>
      have hc : c ≠ '\'' := by
        rintro rfl
        exact hquote cs rfl
      rw [quoted] at hq
      · obtain ⟨⟨_, _⟩, -, he⟩ := Option.map_eq_some_iff.1 hq
        cases he
        simp
      · simp [hc]
      · exact hc
  · cases h
    unfold ofChar
    split <;> simp

/-- A currency placeholder takes the whole row of currency signs. -/
theorem head?_rest_of_currency {cs rest : List Char} {t : Token} (h : next? cs = some (t, rest))
    (ht : t.isCurrency = true) : cs.head? = some '¤' ∧ rest.head? ≠ some '¤' := by
  unfold next? at h
  split at h
  · cases h
  · cases h
  · next cs =>
    cases h
    have hdrop := List.head?_dropWhile_not (· = '¤') cs
    refine ⟨rfl, fun hhead => ?_⟩
    rw [hhead] at hdrop
    simp at hdrop
  · next cs hsign =>
    cases h
    refine ⟨rfl, fun hhead => ?_⟩
    obtain ⟨cs, rfl⟩ := List.head?_eq_some_iff.1 hhead
    exact hsign cs rfl
  · cases h; cases ht
  · obtain ⟨_, -, he⟩ := Option.map_eq_some_iff.1 h
    cases he
    cases ht
  · cases h
    unfold ofChar at ht
    split at ht <;> cases ht

end Token

namespace Lexeme

/-- Tokens as they are read: every literal has a text, and no two placeholders for the currency
follow each other. -/
structure Normal (ls : List Lexeme) : Prop where
  nonempty : ∀ l ∈ ls, l.token ≠ .part (.literal "")
  apart : ls.IsChain fun k l => ¬(k.token.isCurrency = true ∧ l.token.isCurrency = true)

theorem Normal.within {ks ls : List Lexeme} (h : Normal ls) (hks : ks <:+: ls) : Normal ks :=
  ⟨fun l hl => h.nonempty l (hks.subset hl), List.IsChain.infix h.apart hks⟩

theorem next?_of_head?_lex {position : Nat} {cs : List Char} {l : Lexeme}
    (h : (lex position cs).lexemes.head? = some l) :
    ∃ rest, Token.next? cs = some (l.token, rest) := by
  rw [lex] at h
  split at h
  · cases h
  · next token rest hnext =>
    cases h
    exact ⟨rest, hnext⟩

theorem normal_lex (position : Nat) (cs : List Char) : Normal (lex position cs).lexemes := by
  fun_induction lex position cs with
  | case1 => exact ⟨by simp, .nil⟩
  | case2 position cs token rest h tail ih =>
    refine ⟨fun l hl => ?_, ih.apart.cons fun l hl => ?_⟩
    · rcases List.mem_cons.1 hl with rfl | hl
      · exact Token.ne_of_next? h
      · exact ih.nonempty l hl
    · rintro ⟨htoken, hcurrency⟩
      obtain ⟨_, hnext⟩ := next?_of_head?_lex hl
      have hsign := (Token.head?_rest_of_currency hnext hcurrency).1
      exact (Token.head?_rest_of_currency h htoken).2 hsign

theorem map_token_eq_parts {ls : List Lexeme} (h : ∀ l ∈ ls, l.isMarker = false) :
    ls.map (·.token) = (parts ls).map .part := by
  induction ls with
  | nil => rfl
  | cons l ls ih =>
    obtain ⟨position, token | p⟩ := l
    · cases h _ List.mem_cons_self
    · exact congrArg (Token.part p :: ·) (ih fun k hk => h k (List.mem_cons_of_mem _ hk))

theorem cutAfterMarkers_spec (ls : List Lexeme) :
    (cutAfterMarkers ls).1 ++ (cutAfterMarkers ls).2 = ls ∧
      ∀ l ∈ (cutAfterMarkers ls).2, l.isMarker = false := by
  induction ls with
  | nil => simp [cutAfterMarkers]
  | cons l ls ih =>
    rw [cutAfterMarkers]
    generalize cutAfterMarkers ls = cut at ih ⊢
    obtain ⟨_ | ⟨b, body⟩, back⟩ := cut
    · obtain ⟨rfl, hback⟩ := ih
      cases hl : l.isMarker
      · exact ⟨rfl, by simpa [hl] using hback⟩
      · exact ⟨rfl, hback⟩
    · obtain ⟨rfl, hback⟩ := ih
      exact ⟨rfl, hback⟩

end Lexeme

/-! ## Affixes -/

namespace Affix

theorem Normal.push {affix : Affix} (h : affix.Normal) {p : AffixPart} (hp : p ≠ .literal "")
    (hhead : ∀ q ∈ affix.head?, ¬(p.isCurrency = true ∧ q.isCurrency = true)) :
    (Affix.push p affix).Normal := by
  obtain ⟨hnonempty, hapart⟩ := h
  unfold Affix.push
  split
  · next s t affix =>
    obtain ⟨happart, htail⟩ := List.isChain_cons.1 hapart
    refine ⟨?_, htail.cons fun q hq => ?_⟩
    · simp only [List.mem_cons, not_or] at hnonempty ⊢
      refine ⟨fun he => ?_, hnonempty.2⟩
      have hs : s ++ t = "" := (AffixPart.literal.inj he).symm
      exact hp (by simp [(String.append_eq_empty_iff.1 hs).1])
    · have := happart q hq
      cases q <;> first | rfl | cases this
  · next hmerge =>
    refine ⟨?_, hapart.cons fun q hq => ?_⟩
    · exact fun hmem => (List.mem_cons.1 hmem).elim (fun he => hp he.symm) hnonempty
    · obtain ⟨rest, rfl⟩ := List.head?_eq_some_iff.1 hq
      have hcurrency := hhead q rfl
      cases p <;> cases q <;>
        first | rfl | exact absurd rfl (hmerge _ _ _ rfl) | simp [AffixPart.isCurrency] at hcurrency

theorem isCurrency_head?_ofParts {ps : List AffixPart} {q : AffixPart}
    (h : q ∈ (ofParts ps).head?) (hq : q.isCurrency = true) : q ∈ ps.head? := by
  cases ps with
  | nil => cases h
  | cons p ps =>
    change q ∈ (Affix.push p (ofParts ps)).head? at h
    unfold Affix.push at h
    split at h
    · cases h
      cases hq
    · exact h

theorem normal_ofParts {ps : List AffixPart} (hnonempty : .literal "" ∉ ps)
    (hapart : ps.IsChain fun p q => ¬(p.isCurrency = true ∧ q.isCurrency = true)) :
    (ofParts ps).Normal := by
  induction ps with
  | nil => exact ⟨by simp [ofParts], .nil⟩
  | cons p ps ih =>
    obtain ⟨hp, hnonempty⟩ := not_or.1 (mt List.mem_cons.2 hnonempty)
    obtain ⟨hhead, hapart⟩ := List.isChain_cons.1 hapart
    refine (ih hnonempty hapart).push (Ne.symm hp) fun q hq hboth => ?_
    exact hhead q (isCurrency_head?_ofParts hq hboth.2) hboth

theorem normal_ofParts_lexemes {ls : List Lexeme} (h : Lexeme.Normal ls)
    (hparts : ∀ l ∈ ls, l.isMarker = false) : (ofParts (Lexeme.parts ls)).Normal := by
  have htokens := Lexeme.map_token_eq_parts hparts
  refine normal_ofParts (fun hmem => ?_) ?_
  · have : Token.part (.literal "") ∈ ls.map (·.token) := htokens ▸ List.mem_map_of_mem hmem
    obtain ⟨l, hl, hempty⟩ := List.mem_map.1 this
    exact h.nonempty l hl hempty
  · have := (List.isChain_map (R := fun s t : Token => ¬(s.isCurrency = true ∧ t.isCurrency = true))
      Lexeme.token).2 h.apart
    rw [htokens] at this
    exact (List.isChain_map _).1 this

end Affix

/-! ## Patterns -/

theorem SubPattern.normal_of_ofLexemes {ls : List Lexeme} (h : Lexeme.Normal ls)
    {sub : SubPattern} {layout : Layout} (hsub : ofLexemes ls = .ok (sub, layout)) :
    sub.Normal := by
  obtain ⟨_, -, he⟩ := bind_eq_ok_iff.1 hsub
  cases he
  obtain ⟨happend, hback⟩ := Lexeme.cutAfterMarkers_spec (ls.dropWhile (!·.isMarker))
  refine ⟨Affix.normal_ofParts_lexemes (h.within (List.takeWhile_prefix _).isInfix) fun l hl => ?_,
    Affix.normal_ofParts_lexemes (h.within ?_) hback⟩
  · simpa using List.mem_takeWhile_imp hl
  · have hsuffix := List.suffix_append (Lexeme.cutAfterMarkers (ls.dropWhile (!·.isMarker))).1
      (Lexeme.cutAfterMarkers (ls.dropWhile (!·.isMarker))).2
    rw [happend] at hsuffix
    exact (hsuffix.trans (List.dropWhile_suffix _)).isInfix

theorem SubPattern.normal_of_ofLexemes? {ls : List Lexeme} (h : Lexeme.Normal ls)
    {sub : Option SubPattern} (hsub : ofLexemes? ls = .ok sub) : ∀ s ∈ sub, s.Normal := by
  cases ls with
  | nil => cases hsub; simp
  | cons l ls =>
    obtain ⟨⟨s, layout⟩, hs, he⟩ := bind_eq_ok_iff.1 hsub
    cases he
    rintro _ ⟨⟩
    exact normal_of_ofLexemes h hs

namespace Pattern

theorem normal_of_compileChars {text : List Char} {p : Pattern} (h : compileChars text = .ok p) :
    p.Normal := by
  have hcurrency := p.hasCurrency_iff
  obtain ⟨-, positive, layout, negative, hpositive, hnegative, rfl⟩ := compileChars_eq_ok_iff.1 h
  obtain ⟨_, hlayout, he⟩ := bind_eq_ok_iff.1 hpositive
  cases he
  obtain ⟨n, -, -, rfl⟩ := Layout.ofBody_eq_ok_iff.1 hlayout
  refine ⟨SubPattern.normal_of_ofLexemes (Lexeme.normal_lex _ _) hpositive,
    SubPattern.normal_of_ofLexemes? (Lexeme.normal_lex _ _) hnegative, rfl, ?_, fun hshown => ?_,
    hcurrency⟩
  · exact List.count_le_length
  · have hfraction : n.fraction = some [] := of_decide_eq_true hshown
    simp [NumberForm.layout, hfraction]

/-- **The image of the compiler.** The patterns that texts compile to are the normal ones, and the
text that is written for a pattern compiles to it just if it is normal. -/
theorem compile_image (p : Pattern) :
    ((∃ text, compile text = .ok p) ↔ p.Normal) ∧ (p.Normal ↔ compile p.text = .ok p) := by
  have hprinted (h : p.Normal) : compile p.text = .ok p := by
    rw [compile, text, String.toList_ofList]
    exact h.compileChars_chars
  exact ⟨⟨fun ⟨_, h⟩ => normal_of_compileChars h, fun h => ⟨p.text, hprinted h⟩⟩,
    ⟨hprinted, normal_of_compileChars⟩⟩

end Pattern

end Numerals
