import Numerals.Proofs.Pattern.Cut

/-!
# Where syntax errors point

The position of a syntax error is told by what stands there, character by character
(`SyntaxFlaw.ShowsAt`): which marker, and what its sub-pattern holds before and after it, or the
quote that is never closed (`openQuote?`). `Layout.blames_of_ofBody` finds the token at which a
number body goes wrong (`BodyFlaw`), `Spans.split` finds the characters of this token, and
`Pattern.compile_error_position` puts both together for the texts that do not compile.
-/

namespace Numerals

/-! ## What stands at a position -/

def Marker.isDigit : Marker → Bool
  | required => true
  | optional => true
  | _ => false

def Glyph.isDigit : Glyph → Bool
  | marker m => m.isDigit
  | _ => false

/-- The character at `i` is `c`, and has the meaning it has outside quotes. -/
def Unquoted (text : List Char) (i : Nat) (c : Char) : Prop :=
  text[i]? = some c ∧ (glyphs false text)[i]? = some (.ofChar c)

/-- The position of the quote that is open after a text. The text stands at `position`, and `opened`
is where a quote was opened before it; two quotes in a row stand for a quote. -/
def openQuote? (opened : Option Nat) (position : Nat) : List Char → Option Nat
  | [] => opened
  | '\'' :: '\'' :: cs => openQuote? opened (position + 2) cs
  | '\'' :: cs =>
    openQuote? (if opened.isSome then none else some position) (position + 1) cs
  | _ :: cs => openQuote? opened (position + 1) cs

namespace Pattern

/-- What stands before position `i` in its sub-pattern. -/
def before (text : List Char) (i : Nat) : List Glyph :=
  ((glyphs false text).take i).rtakeWhile (· ≠ .semicolon)

/-- What stands after position `i` in its sub-pattern. -/
def after (text : List Char) (i : Nat) : List Glyph :=
  ((glyphs false text).drop (i + 1)).takeWhile (· ≠ .semicolon)

end Pattern

open Pattern

/-- What stands at the position of a flaw. -/
def SyntaxFlaw.ShowsAt (text : List Char) (i : Nat) : SyntaxFlaw → Prop
  | multipleDecimalSeparators => Unquoted text i '.' ∧ .marker .point ∈ before text i
  | emptyGroup =>
    Unquoted text i ',' ∧
      ∀ g ∈ (after text i).takeWhile (· ≠ .marker .point), g.isDigit = false
  | groupingInFraction => Unquoted text i ',' ∧ .marker .point ∈ before text i
  | unterminatedQuote => text[i]? = some '\'' ∧ openQuote? none 0 text = some i
  | literalInNumberBody =>
    (glyphs false text)[i]? = some .other ∧ (∃ p, ⟨i, .part p⟩ ∈ lexemes text) ∧
      (∃ m, (before text i).getLast? = some (.marker m)) ∧ ∃ m, .marker m ∈ after text i
  | optionalAfterRequired =>
    Unquoted text i '#' ∧ .marker .point ∉ before text i ∧ .marker .required ∈ before text i
  | requiredAfterOptional =>
    Unquoted text i '0' ∧
      ∃ a b, before text i = a ++ .marker .point :: b ∧ .marker .optional ∈ b
  | tooManySubPatterns =>
    Unquoted text i ';' ∧ ((glyphs false text).take i).count .semicolon = 1

/-! ## Characters -/

namespace Glyph

theorem ofChar_marker {c : Char} {m : Marker} (h : ofChar c = .marker m) : c = m.char := by
  unfold ofChar at h
  split at h <;> first | (cases h; rfl) | cases h

theorem ofChar_semicolon {c : Char} (h : ofChar c = .semicolon) : c = ';' := by
  unfold ofChar at h
  split at h <;> first | rfl | cases h

end Glyph

theorem unquoted_of_glyphs {q : Bool} {cs : List Char} {i : Nat} {g : Glyph}
    (h : (glyphs q cs)[i]? = some g) (hg : g ≠ .other) :
    ∃ c, cs[i]? = some c ∧ Glyph.ofChar c = g := by
  induction cs generalizing q i with
  | nil => simp [glyphs] at h
  | cons c cs ih =>
    by_cases hc : c = '\''
    · subst hc
      rw [glyphs_quote] at h
      cases i with
      | zero => exact absurd (Option.some.inj h).symm hg
      | succ i => exact ih h
    · rw [glyphs_cons_of_ne hc] at h
      cases i with
      | zero =>
        have h := Option.some.inj h
        cases q with
        | true => exact absurd h.symm hg
        | false => exact ⟨c, rfl, h⟩
      | succ i => exact ih h

theorem unquoted_of_marker {text : List Char} {i : Nat} {m : Marker}
    (h : (glyphs false text)[i]? = some (.marker m)) : Unquoted text i m.char := by
  obtain ⟨c, hc, hg⟩ := unquoted_of_glyphs h (by simp)
  obtain rfl := Glyph.ofChar_marker hg
  exact ⟨hc, hg ▸ h⟩

theorem unquoted_of_semicolon {text : List Char} {i : Nat}
    (h : (glyphs false text)[i]? = some .semicolon) : Unquoted text i ';' := by
  obtain ⟨c, hc, hg⟩ := unquoted_of_glyphs h (by simp)
  obtain rfl := Glyph.ofChar_semicolon hg
  exact ⟨hc, h⟩

/-! ## The quote that stays open -/

section
variable (opened : Option Nat) (position : Nat)

theorem openQuote?_cons_of_ne {c : Char} (h : c ≠ '\'') (cs : List Char) :
    openQuote? opened position (c :: cs) = openQuote? opened (position + 1) cs := by
  rw [openQuote?]
  · rintro _ rfl
    exact absurd rfl h
  · exact h

theorem openQuote?_quote {cs : List Char} (h : ∀ rest, cs ≠ '\'' :: rest) :
    openQuote? opened position ('\'' :: cs) =
      openQuote? (if opened.isSome then none else some position) (position + 1) cs := by
  rw [openQuote?]
  exact h

theorem openQuote?_dropWhile {c : Char} (h : c ≠ '\'') (cs : List Char) :
    openQuote? opened position cs =
      openQuote? opened (position + (cs.takeWhile (· = c)).length) (cs.dropWhile (· = c)) := by
  induction cs generalizing position with
  | nil => rfl
  | cons d cs ih =>
    by_cases hd : d = c
    · subst hd
      rw [openQuote?_cons_of_ne _ _ h, ih, List.takeWhile_cons_of_pos (by simp),
        List.dropWhile_cons_of_pos (by simp), List.length_cons]
      congr 1
      omega
    · simp [hd]

end

namespace Token

theorem openQuote?_of_quoted {cs text rest : List Char} (h : quoted cs = some (text, rest))
    (q position : Nat) :
    openQuote? (some q) position cs =
      openQuote? none (position + (cs.length - rest.length)) rest := by
  fun_induction quoted cs generalizing text position with
  | case1 => cases h
  | case2 cs ih =>
    obtain ⟨⟨t, r⟩, hq, he⟩ := Option.map_eq_some_iff.1 h
    cases he
    have hlength := length_le_of_quoted hq
    rw [openQuote?, ih hq]
    congr 1
    simp only [List.length_cons]
    omega
  | case3 cs hquote =>
    cases h
    rw [openQuote?_quote _ _ hquote]
    simp
  | case4 c cs _ hc ih =>
    obtain ⟨⟨t, r⟩, hq, he⟩ := Option.map_eq_some_iff.1 h
    cases he
    have hlength := length_le_of_quoted hq
    have hne : c ≠ '\'' := hc
    rw [openQuote?_cons_of_ne _ _ hne, ih hq]
    congr 1
    simp only [List.length_cons]
    omega

theorem openQuote?_of_quoted_eq_none {cs : List Char} (h : quoted cs = none) (q position : Nat) :
    openQuote? (some q) position cs = some q := by
  fun_induction quoted cs generalizing position with
  | case1 => rfl
  | case2 cs ih =>
    rw [openQuote?]
    exact ih (Option.map_eq_none_iff.1 h) _
  | case3 cs => cases h
  | case4 c cs _ hc ih =>
    have hne : c ≠ '\'' := hc
    rw [openQuote?_cons_of_ne _ _ hne]
    exact ih (Option.map_eq_none_iff.1 h) _

theorem openQuote?_of_next? {cs rest : List Char} {t : Token} (h : next? cs = some (t, rest))
    (position : Nat) :
    openQuote? none position cs =
      openQuote? none (position + (cs.length - rest.length)) rest := by
  unfold next? at h
  split at h
  · cases h
  · cases h
  · next cs =>
    cases h
    have hlength := congrArg List.length
      (List.takeWhile_append_dropWhile (p := (· = '¤')) (l := cs))
    rw [List.length_append] at hlength
    rw [openQuote?_cons_of_ne _ _ (by decide), openQuote?_cons_of_ne _ _ (by decide),
      openQuote?_dropWhile _ _ (c := '¤') (by decide)]
    congr 1
    simp only [List.length_cons]
    omega
  · cases h
    rw [openQuote?_cons_of_ne _ _ (by decide)]
    simp
  · cases h
    rw [openQuote?]
    congr 1
    simp only [List.length_cons]
    omega
  · next cs hquote =>
    obtain ⟨⟨text, r⟩, hq, he⟩ := Option.map_eq_some_iff.1 h
    cases he
    have hlength := length_le_of_quoted hq
    rw [openQuote?_quote _ _ hquote]
    simp only [Option.isSome_none, Bool.false_eq_true, if_false]
    rw [openQuote?_of_quoted hq]
    congr 1
    simp only [List.length_cons]
    omega
  · next c cs _ _ _ _ hquote =>
    cases h
    have hne : c ≠ '\'' := hquote
    rw [openQuote?_cons_of_ne _ _ hne]
    simp

end Token

/-- Tokens leave no quote open, so that the quote that is open at the end is opened where they
end. -/
theorem openQuote?_lex (position : Nat) (cs : List Char) :
    openQuote? none position cs =
      openQuote? none (lex position cs).stop (lex position cs).rest := by
  fun_induction lex position cs with
  | case1 => rfl
  | case2 position cs token rest h tail ih =>
    rw [Token.openQuote?_of_next? h]
    exact ih

/-! ## Bodies that go wrong -/

/-- How a number body goes wrong at a token: by the markers before it and by what follows it. -/
inductive BodyFlaw : List Marker → Token → List Lexeme → SyntaxFlaw → Prop where
  | multipleDecimalSeparators {ms : List Marker} {ls : List Lexeme} :
    .point ∈ ms → BodyFlaw ms (.marker .point) ls .multipleDecimalSeparators
  | emptyGroup {ms : List Marker} {ls : List Lexeme} :
    (∀ l ∈ ls.takeWhile (!·.isPoint), l.isMarker = false) →
    BodyFlaw ms (.marker .group) ls .emptyGroup
  | groupingInFraction {ms : List Marker} {ls : List Lexeme} :
    .point ∈ ms → BodyFlaw ms (.marker .group) ls .groupingInFraction
  | literalInNumberBody {ms : List Marker} {ls : List Lexeme} (p : AffixPart) :
    BodyFlaw ms (.part p) ls .literalInNumberBody
  | optionalAfterRequired {ms : List Marker} {ls : List Lexeme} :
    .point ∉ ms → .required ∈ ms → BodyFlaw ms (.marker .optional) ls .optionalAfterRequired
  | requiredAfterOptional {ms fs : List Marker} {ls : List Lexeme} :
    .optional ∈ fs →
    BodyFlaw (ms ++ .point :: fs) (.marker .required) ls .requiredAfterOptional

theorem BodyFlaw.append {ms : List Marker} {t : Token} {ls bs : List Lexeme} {flaw : SyntaxFlaw}
    (h : BodyFlaw ms t ls flaw) (hbs : ∀ l ∈ bs, l.isMarker = false) :
    BodyFlaw ms t (ls ++ bs) flaw := by
  cases h with
  | multipleDecimalSeparators hms => exact .multipleDecimalSeparators hms
  | emptyGroup hls =>
    refine .emptyGroup fun l hl => ?_
    rw [List.takeWhile_append] at hl
    split at hl
    · next hlength =>
      rw [(List.takeWhile_prefix _).eq_of_length hlength] at hls
      rcases List.mem_append.1 hl with hl | hl
      · exact hls l hl
      · exact hbs l ((List.takeWhile_sublist _).subset hl)
    · exact hls l hl
  | groupingInFraction hms => exact .groupingInFraction hms
  | literalInNumberBody p => exact .literalInNumberBody p
  | optionalAfterRequired hpoint hms => exact .optionalAfterRequired hpoint hms
  | requiredAfterOptional hfs => exact .requiredAfterOptional hfs

/-- The error blames one of the tokens, all those before it being markers. -/
def Blames (ls : List Lexeme) (e : SyntaxError) : Prop :=
  ∃ ks l rest ms, ls = ks ++ l :: rest ∧ l.position = e.position ∧
    ks.map (·.token) = ms.map .marker ∧ BodyFlaw ms l.token rest e.flaw

namespace IntegerPart

theorem Reads.concat {i : IntegerPart} {ls : List Lexeme} (h : i.Reads ls) {l : Lexeme} {m : Marker}
    (hm : l.token = .marker m) (hpoint : m ≠ .point)
    (hoptional : m = .optional → (ls.foldl read i).required = 0) : i.Reads (ls ++ [l]) := by
  induction ls generalizing i with
  | nil => exact reads_cons_iff.2 ⟨⟨m, hm, hpoint, hoptional⟩, reads_nil _⟩
  | cons k ls ih =>
    obtain ⟨hk, hls⟩ := reads_cons_iff.1 h
    exact reads_cons_iff.2 ⟨hk, ih hls hoptional⟩

/-- A group without digits is that of the separator read last. -/
theorem exists_of_groupingSize_eq_error {ls : List Lexeme} (h : ({} : IntegerPart).Reads ls)
    {e : SyntaxError} (he : (ls.foldl read {}).groupingSize = .error e) :
    e.flaw = .emptyGroup ∧ ∃ ks, ls = ks ++ [⟨e.position, .marker .group⟩] := by
  have hempty : (ls.foldl read {}).lastGroup = some e.position ∧
      (ls.foldl read {}).grouped = 0 ∧ e.flaw = .emptyGroup := by
    unfold groupingSize at he
    split at he
    · cases he
    · next position hlast =>
      split at he
      · next hzero =>
        cases he
        exact ⟨hlast, hzero, rfl⟩
      · cases he
  obtain ⟨hlast, hzero, hflaw⟩ := hempty
  refine ⟨hflaw, ?_⟩
  rcases List.eq_nil_or_concat ls with rfl | ⟨ks, l, rfl⟩
  · cases hlast
  obtain ⟨m, hm, hpoint, -⟩ := h ks l [] (by simp)
  rw [List.concat_eq_append, List.foldl_append, List.foldl_cons, List.foldl_nil] at hlast hzero
  obtain ⟨position, token⟩ := l
  cases (show token = .marker m from hm)
  cases m with
  | required => cases hzero
  | optional => cases hzero
  | point => exact absurd rfl hpoint
  | group =>
    cases hlast
    exact ⟨ks, by rw [List.concat_eq_append]⟩

end IntegerPart

namespace Layout

/-- A fraction that goes wrong, after `fs` of its markers and after `ms` in front of its decimal
separator. -/
theorem readFraction_eq_error {f : FractionPart} {ls : List Lexeme} {e : SyntaxError}
    (h : readFraction f ls = .error e) (ms : List Marker) {fs : List Marker}
    (hf : 0 < f.optional → .optional ∈ fs) :
    ∃ ks l rest gs, ls = ks ++ l :: rest ∧ l.position = e.position ∧
      ks.map (·.token) = gs.map .marker ∧
      BodyFlaw (ms ++ .point :: (fs ++ gs)) l.token rest e.flaw := by
  induction ls generalizing f fs with
  | nil => cases h
  | cons l ls ih =>
    obtain ⟨position, token⟩ := l
    have here {t : Token} {flaw : SyntaxFlaw} (he : e = ⟨position, flaw⟩)
        (hflaw : BodyFlaw (ms ++ .point :: fs) t ls flaw) :
        ∃ ks l rest gs, (⟨position, t⟩ :: ls : List Lexeme) = ks ++ l :: rest ∧
          l.position = e.position ∧ ks.map (·.token) = gs.map .marker ∧
          BodyFlaw (ms ++ .point :: (fs ++ gs)) l.token rest e.flaw := by
      subst he
      exact ⟨[], _, ls, [], rfl, rfl, rfl, by rwa [List.append_nil]⟩
    have later {m : Marker} {f' : FractionPart} (h : readFraction f' ls = .error e)
        (hf' : 0 < f'.optional → .optional ∈ fs ++ [m]) :
        ∃ ks l rest gs, (⟨position, .marker m⟩ :: ls : List Lexeme) = ks ++ l :: rest ∧
          l.position = e.position ∧ ks.map (·.token) = gs.map .marker ∧
          BodyFlaw (ms ++ .point :: (fs ++ gs)) l.token rest e.flaw := by
      obtain ⟨ks, l, rest, gs, rfl, hl, hks, hflaw⟩ := ih h hf'
      refine ⟨⟨position, .marker m⟩ :: ks, l, rest, m :: gs, rfl, hl, by simp [hks], ?_⟩
      rwa [List.append_assoc] at hflaw
    rcases token with (_ | _ | _ | _) | p
    · by_cases ho : 0 < f.optional
      · rw [readFraction, if_pos ho] at h
        exact here (Except.error.inj h).symm (.requiredAfterOptional (hf ho))
      · rw [readFraction, if_neg ho] at h
        exact later h fun hpos => absurd hpos ho
    · exact later h fun _ => by simp
    · exact here (Except.error.inj h).symm (.multipleDecimalSeparators (by simp))
    · exact here (Except.error.inj h).symm (.groupingInFraction (by simp))
    · exact here (Except.error.inj h).symm (.literalInNumberBody p)

/-- An integer part that goes wrong at its end, before nothing or a decimal separator. -/
theorem blames_of_ofInteger {ks ls : List Lexeme} {e : SyntaxError}
    (hks : ({} : IntegerPart).Reads ks) (h : ofInteger (ks.foldl .read {}) = .error e)
    (hls : ls.takeWhile (!·.isPoint) = []) : Blames (ks ++ ls) e := by
  have hsize : (ks.foldl IntegerPart.read {}).groupingSize = .error e := by
    rcases bind_eq_error_iff.1 h with hsize | ⟨size, -, hok⟩
    · exact hsize
    · cases hok
  obtain ⟨hflaw, init, rfl⟩ := IntegerPart.exists_of_groupingSize_eq_error hks hsize
  obtain ⟨ms, hms, -, -⟩ := IntegerPart.reads_iff.1 hks
  rw [List.map_append] at hms
  obtain ⟨ms, ns, rfl, hinit, -⟩ := List.append_eq_map_iff.1 hms
  refine ⟨init, ⟨e.position, .marker .group⟩, ls, ms, by simp, rfl, hinit.symm, ?_⟩
  rw [hflaw]
  exact .emptyGroup (by simp [hls])

/-- A body that goes wrong after `ks` of its integer part. -/
theorem blames_of_readBody {ks ls : List Lexeme} {e : SyntaxError}
    (hks : ({} : IntegerPart).Reads ks) (h : readBody (ks.foldl .read {}) ls = .error e) :
    Blames (ks ++ ls) e := by
  induction ls generalizing ks with
  | nil => exact blames_of_ofInteger hks h rfl
  | cons l ls ih =>
    obtain ⟨ms, hms, hpoint, -⟩ := IntegerPart.reads_iff.1 hks
    obtain ⟨position, token⟩ := l
    have here {t : Token} {flaw : SyntaxFlaw} (he : e = ⟨position, flaw⟩)
        (hflaw : BodyFlaw ms t ls flaw) : Blames (ks ++ ⟨position, t⟩ :: ls) e := by
      subst he
      exact ⟨ks, _, ls, ms, rfl, rfl, hms, hflaw⟩
    have later {m : Marker} (hm : m ≠ .point)
        (hoptional : m = .optional → (ks.foldl IntegerPart.read {}).required = 0)
        (h : readBody ((ks.foldl .read {} : IntegerPart).read ⟨position, .marker m⟩) ls =
          .error e) : Blames (ks ++ ⟨position, .marker m⟩ :: ls) e := by
      have hconcat := hks.concat (l := ⟨position, .marker m⟩) rfl hm hoptional
      have hblames := ih hconcat (by rwa [List.foldl_append])
      rwa [List.append_assoc] at hblames
    rcases token with (_ | _ | _ | _) | p
    · exact later (by decide) (by simp) h
    · by_cases hr : 0 < (ks.foldl IntegerPart.read {}).required
      · rw [readBody, if_pos hr] at h
        refine here (Except.error.inj h).symm (.optionalAfterRequired hpoint ?_)
        rw [(IntegerPart.read_spec hms hpoint).1] at hr
        exact List.count_pos_iff.1 hr
      · rw [readBody, if_neg hr] at h
        exact later (by decide) (fun _ => by omega) h
    · rcases bind_eq_error_iff.1 h with hinteger | ⟨layout, -, hrest⟩
      · exact blames_of_ofInteger hks hinteger (by simp [Lexeme.isPoint])
      rcases bind_eq_error_iff.1 hrest with hfraction | ⟨f, -, hok⟩
      · have hnone : 0 < ({} : FractionPart).optional → Marker.optional ∈ ([] : List Marker) := by
          simp
        obtain ⟨fs, l, rest, gs, rfl, hl, hfs, hflaw⟩ := readFraction_eq_error hfraction ms hnone
        refine ⟨ks ++ ⟨position, .marker .point⟩ :: fs, l, rest, ms ++ .point :: gs, by simp, hl,
          ?_, hflaw⟩
        rw [List.map_append, List.map_cons, hms, hfs, List.map_append, List.map_cons]
      · cases hok
    · exact later (by decide) (by simp) h
    · exact here (Except.error.inj h).symm (.literalInNumberBody p)

/-- **Where a body goes wrong.** -/
theorem blames_of_ofBody {ls : List Lexeme} {e : SyntaxError} (h : ofBody ls = .error e) :
    Blames ls e := by
  cases ls with
  | nil => cases h
  | cons l ls => exact blames_of_readBody (IntegerPart.reads_nil {}) h

end Layout

/-! ## Sub-patterns that go wrong -/

/-- A row of tokens is parts, a body that starts and ends with a marker, and parts. -/
theorem Lexeme.exists_body (ls : List Lexeme) :
    ∃ fs bs, ls = fs ++ ((cutAfterMarkers (ls.dropWhile (!·.isMarker))).1 ++ bs) ∧
      (∀ l ∈ fs, l.isMarker = false) ∧ (∀ l ∈ bs, l.isMarker = false) ∧
      (∀ l ∈ (cutAfterMarkers (ls.dropWhile (!·.isMarker))).1.head?, l.isMarker = true) ∧
      ∀ l ∈ (cutAfterMarkers (ls.dropWhile (!·.isMarker))).1.getLast?, l.isMarker = true := by
  obtain ⟨happend, hbs⟩ := cutAfterMarkers_spec (ls.dropWhile (!·.isMarker))
  refine ⟨ls.takeWhile (!·.isMarker), _, ?_, fun l hl => ?_, hbs, fun l hl => ?_, fun l hl => ?_⟩
  · rw [happend, List.takeWhile_append_dropWhile]
  · simpa using List.mem_takeWhile_imp hl
  · obtain ⟨body, hbody⟩ := List.head?_eq_some_iff.1 hl
    have hhead := List.head?_dropWhile_not (!·.isMarker) ls
    rw [← happend, hbody] at hhead
    simpa using hhead
  · rw [cutAfterMarkers_fst] at hl
    obtain ⟨hne, rfl⟩ := List.mem_getLast?_eq_getLast hl
    simpa using List.rdropWhile_last_not _ _ hne

/-- **Where a sub-pattern goes wrong.** A part is to blame only between two markers. -/
theorem SubPattern.ofLexemes_eq_error {ls : List Lexeme} {e : SyntaxError}
    (h : ofLexemes ls = .error e) :
    ∃ fs ks l rest ms, ls = fs ++ (ks ++ l :: rest) ∧ (∀ k ∈ fs, k.isMarker = false) ∧
      l.position = e.position ∧ ks.map (·.token) = ms.map .marker ∧
      BodyFlaw ms l.token rest e.flaw ∧
      (l.isMarker = false → ms ≠ [] ∧ ∃ k ∈ rest, k.isMarker = true) := by
  obtain ⟨fs, bs, hls, hfs, hbs, hhead, hlast⟩ := Lexeme.exists_body ls
  have hblames : Blames (Lexeme.cutAfterMarkers (ls.dropWhile (!·.isMarker))).1 e := by
    rcases bind_eq_error_iff.1 h with hbody | ⟨layout, -, hok⟩
    · exact Layout.blames_of_ofBody hbody
    · cases hok
  obtain ⟨ks, l, rest, ms, hbody, hl, hks, hflaw⟩ := hblames
  rw [hbody] at hls hhead hlast
  refine ⟨fs, ks, l, rest ++ bs, ms, by simpa using hls, hfs, hl, hks, hflaw.append hbs, ?_⟩
  intro hpart
  constructor
  · rintro rfl
    obtain rfl := List.map_eq_nil_iff.1 hks
    rw [hhead l rfl] at hpart
    cases hpart
  · rcases List.eq_nil_or_concat rest with rfl | ⟨rest, k, rfl⟩
    · rw [hlast l (by simp)] at hpart
      cases hpart
    · refine ⟨k, by simp, hlast k ?_⟩
      rw [List.concat_eq_append, ← List.cons_append, ← List.append_assoc, List.getLast?_concat]
      rfl

/-! ## Tokens and their characters -/

theorem Token.Covers.exists_cons {t : Token} {block : List Glyph} (h : t.Covers block) :
    ∃ g tail, block = g :: tail := by
  cases t with
  | marker m => exact ⟨.marker m, [], h⟩
  | part p => exact List.exists_cons_of_ne_nil h.1

namespace Spans

variable {position : Nat} {gs : List Glyph}

/-- Tokens in two rows were read from two parts of the text. -/
theorem split {a b : List Lexeme} (h : Spans position (a ++ b) gs) :
    ∃ ga gb, gs = ga ++ gb ∧ Spans position a ga ∧ Spans (position + ga.length) b gb := by
  induction a generalizing position gs with
  | nil => exact ⟨[], gs, rfl, .nil position, h⟩
  | cons l a ih =>
    cases h with
    | @cons _ token block _ gs hcovers hspans =>
      obtain ⟨ga, gb, rfl, ha, hb⟩ := ih hspans
      refine ⟨block ++ ga, gb, by rw [List.append_assoc], .cons hcovers ha, ?_⟩
      rwa [List.length_append, ← Nat.add_assoc]

theorem isMarker_eq_false {ls : List Lexeme} (h : Spans position ls gs)
    (hls : ∀ l ∈ ls, l.isMarker = false) : ∀ g ∈ gs, g.isMarker = false := by
  induction h with
  | nil => simp
  | @cons position token block ls gs hcovers _ ih =>
    obtain ⟨htoken, hls⟩ := List.forall_mem_cons.1 hls
    intro g hg
    rcases List.mem_append.1 hg with hg | hg
    · cases token with
      | marker m => cases htoken
      | part p => rw [hcovers.2 g hg]; rfl
    · exact ih hls g hg

theorem exists_marker {ls : List Lexeme} (h : Spans position ls gs)
    (hls : ∃ l ∈ ls, l.isMarker = true) : ∃ m, .marker m ∈ gs := by
  by_contra! hnone
  obtain ⟨l, hl, hmarker⟩ := hls
  obtain ⟨a, b, rfl⟩ := List.append_of_mem hl
  obtain ⟨ga, gb, rfl, -, hb⟩ := h.split
  cases hb with
  | @cons _ token block _ gs hcovers _ =>
    cases token with
    | marker m => exact hnone m (by simp [show block = [.marker m] from hcovers])
    | part p => cases hmarker

theorem takeWhile_point {ls : List Lexeme} (h : Spans position ls gs) :
    Spans position (ls.takeWhile (!·.isPoint)) (gs.takeWhile (· ≠ .marker .point)) := by
  induction h with
  | nil position => exact .nil position
  | @cons position token block ls gs hcovers hspans ih =>
    by_cases ht : token = .marker .point
    · subst ht
      cases (show block = [.marker .point] from hcovers)
      exact .nil position
    · have hpoint : (⟨position, token⟩ : Lexeme).isPoint = false := decide_eq_false ht
      have hblock : ∀ g ∈ block, decide (g ≠ .marker .point) = true := by
        intro g hg
        apply decide_eq_true
        rintro rfl
        cases token with
        | marker m =>
          rw [show block = [.marker m] from hcovers, List.mem_singleton] at hg
          cases hg
          exact ht rfl
        | part p => cases hcovers.2 _ hg
      rw [List.takeWhile_cons_of_pos (by simp [hpoint]), List.takeWhile_append_of_pos hblock]
      exact .cons hcovers ih

end Spans

namespace Pattern

/-- A glyph with what surrounds it in its sub-pattern, between two semicolons or ends of the
text. -/
theorem glyph_in_subPattern {text : List Char} {pre x y post : List Glyph} {g : Glyph}
    (h : glyphs false text = pre ++ (x ++ g :: (y ++ post)))
    (hpre : ∀ s ∈ pre.getLast?, s = .semicolon) (hpost : ∀ s ∈ post.head?, s = .semicolon)
    (hx : .semicolon ∉ x) (hy : .semicolon ∉ y) :
    (glyphs false text)[pre.length + x.length]? = some g ∧
      before text (pre.length + x.length) = x ∧ after text (pre.length + x.length) = y := by
  have hne {z : List Glyph} (hz : .semicolon ∉ z) : ∀ s ∈ z, decide (s ≠ .semicolon) = true :=
    fun _ hs => decide_eq_true (ne_of_mem_of_not_mem hs hz)
  rw [before, after, h, ← List.append_assoc, ← List.length_append]
  refine ⟨by simp, ?_, ?_⟩
  · rw [List.take_left]
    exact (rdropWhile_rtakeWhile_append (fun s hs => by simp [hpre s hs]) (hne hx)).2
  · rw [← List.singleton_append, ← List.append_assoc, List.drop_left' (by simp; omega),
      List.takeWhile_append_of_pos (hne hy)]
    cases post with
    | nil => simp
    | cons s post =>
      obtain rfl := hpost s rfl
      simp

end Pattern

/-- What a token to blame says about the text, where its first character stands for `g`. -/
theorem BodyFlaw.showsAt {text : List Char} {i position : Nat} {ms : List Marker} {t : Token}
    {rest : List Lexeme} {flaw : SyntaxFlaw} (h : BodyFlaw ms t rest flaw)
    {front tail back : List Glyph} {g : Glyph} (hcovers : t.Covers (g :: tail))
    (hat : (glyphs false text)[i]? = some g) (hbefore : before text i = front ++ ms.map .marker)
    (hafter : after text i = tail ++ back) (hfront : ∀ k ∈ front, k.isMarker = false)
    (hback : Spans position rest back) (hlexeme : ⟨i, t⟩ ∈ lexemes text)
    (hbetween : t.isMarker = false → ms ≠ [] ∧ ∃ k ∈ rest, k.isMarker = true) :
    flaw.ShowsAt text i := by
  have hmem {m : Marker} : .marker m ∈ before text i ↔ m ∈ ms := by
    have hnot : .marker m ∉ front := by
      intro hm
      cases hfront _ hm
    simp [hbefore, hnot]
  cases h with
  | multipleDecimalSeparators hms =>
    cases (show g :: tail = _ from hcovers)
    exact ⟨unquoted_of_marker hat, hmem.2 hms⟩
  | emptyGroup hrest =>
    cases (show g :: tail = _ from hcovers)
    refine ⟨unquoted_of_marker hat, fun k hk => ?_⟩
    rw [hafter, List.nil_append] at hk
    have hmarker := hback.takeWhile_point.isMarker_eq_false hrest k hk
    cases k with
    | marker m => cases hmarker
    | semicolon => rfl
    | other => rfl
  | groupingInFraction hms =>
    cases (show g :: tail = _ from hcovers)
    exact ⟨unquoted_of_marker hat, hmem.2 hms⟩
  | literalInNumberBody p =>
    obtain ⟨hne, hlater⟩ := hbetween rfl
    obtain ⟨m, hm⟩ := hback.exists_marker hlater
    obtain rfl := hcovers.2 g List.mem_cons_self
    refine ⟨hat, ⟨p, hlexeme⟩, ⟨ms.getLast hne, ?_⟩, m, ?_⟩
    · rw [hbefore, List.getLast?_append, List.getLast?_map, List.getLast?_eq_some_getLast hne]
      rfl
    · rw [hafter]
      exact List.mem_append_right _ hm
  | optionalAfterRequired hpoint hms =>
    cases (show g :: tail = _ from hcovers)
    exact ⟨unquoted_of_marker hat, mt hmem.1 hpoint, hmem.2 hms⟩
  | @requiredAfterOptional ms fs _ hfs =>
    cases (show g :: tail = _ from hcovers)
    refine ⟨unquoted_of_marker hat, front ++ ms.map .marker, fs.map .marker, ?_, ?_⟩
    · rw [hbefore, List.map_append, List.map_cons, List.append_assoc]
    · exact List.mem_map_of_mem hfs

theorem SyntaxFlaw.ShowsAt.lt_length {flaw : SyntaxFlaw} {text : List Char} {i : Nat}
    (h : flaw.ShowsAt text i) : i < text.length := by
  have hsome {α : Type} {l : List α} {a : α} (hi : l[i]? = some a) : i < l.length :=
    (List.getElem?_eq_some_iff.1 hi).1
  cases flaw with
  | literalInNumberBody =>
    rw [← length_glyphs false text]
    exact hsome h.1
  | unterminatedQuote => exact hsome h.1
  | _ => exact hsome h.1.1

namespace Pattern

/-- A sub-pattern that goes wrong, in a text. -/
theorem showsAt_of_ofLexemes {text : List Char} {pre gs post : List Glyph} {ls : List Lexeme}
    {e : SyntaxError} (htext : glyphs false text = pre ++ (gs ++ post))
    (hpre : ∀ s ∈ pre.getLast?, s = .semicolon) (hpost : ∀ s ∈ post.head?, s = .semicolon)
    (hspans : Spans pre.length ls gs) (hlexemes : ∀ l ∈ ls, l ∈ lexemes text)
    (h : SubPattern.ofLexemes ls = .error e) : e.flaw.ShowsAt text e.position := by
  obtain ⟨fs, ks, l, rest, ms, rfl, hfs, hl, hks, hflaw, hbetween⟩ :=
    SubPattern.ofLexemes_eq_error h
  have hsemi : .semicolon ∉ gs := fun hmem => hspans.ne_semicolon _ hmem rfl
  -- the characters of the front, of the markers, of the token to blame and of what follows it
  obtain ⟨gf, gs, rfl, hfront, hspans⟩ := hspans.split
  obtain ⟨gk, gs, rfl, hmarkers, hspans⟩ := hspans.split
  obtain rfl := hmarkers.eq_map_marker_iff.2 hks
  cases hspans with
  | @cons _ token block _ back hcovers hback =>
    obtain ⟨g, tail, rfl⟩ := hcovers.exists_cons
    simp only [List.mem_append, List.mem_cons, not_or] at hsemi
    have htext : glyphs false text =
        pre ++ ((gf ++ ms.map .marker) ++ g :: ((tail ++ back) ++ post)) := by simpa using htext
    obtain ⟨hat, hbefore, hafter⟩ :=
      glyph_in_subPattern htext hpre hpost (by simp [hsemi]) (by simp [hsemi])
    rw [List.length_append, ← Nat.add_assoc] at hat hbefore hafter
    rw [← hl]
    exact hflaw.showsAt hcovers hat hbefore hafter (hfront.isMarker_eq_false hfs) hback
      (hlexemes _ (by simp)) hbetween

/-! ## Texts that do not compile -/

/-- The errors of a text, in the order in which they are looked for. -/
inductive Fails (text : List Char) : SyntaxError → Prop where
  | openPositive : (lex 0 text).rest.head? = some '\'' →
    Fails text ⟨(lex 0 text).stop, .unterminatedQuote⟩
  | openNegative : (lex 0 text).rest.head? ≠ some '\'' →
    (negativeLexed text).rest.head? = some '\'' →
    Fails text ⟨(negativeLexed text).stop, .unterminatedQuote⟩
  | third : (lex 0 text).rest.head? ≠ some '\'' → (negativeLexed text).rest.head? = some ';' →
    Fails text ⟨(negativeLexed text).stop, .tooManySubPatterns⟩
  | positive {e : SyntaxError} : quoteOpen false text = false →
    (glyphs false text).count .semicolon ≤ 1 →
    SubPattern.ofLexemes (lex 0 text).lexemes = .error e → Fails text e
  | negative {e : SyntaxError} {sub : SubPattern × Layout} : quoteOpen false text = false →
    (glyphs false text).count .semicolon ≤ 1 →
    SubPattern.ofLexemes (lex 0 text).lexemes = .ok sub →
    SubPattern.ofLexemes (negativeLexed text).lexemes = .error e → Fails text e

theorem lexSubPattern_eq_error_iff {position : Nat} {text : List Char} {e : SyntaxError} :
    lexSubPattern position text = .error e ↔
      (lex position text).rest.head? = some '\'' ∧
        e = ⟨(lex position text).stop, .unterminatedQuote⟩ := by
  by_cases h : (lex position text).rest.head? = some '\''
  · simp [lexSubPattern, h, eq_comm]
  · simp [lexSubPattern, h]

theorem ofLexemes?_eq_error_iff {ls : List Lexeme} {e : SyntaxError} :
    SubPattern.ofLexemes? ls = .error e ↔ SubPattern.ofLexemes ls = .error e := by
  cases ls with
  | nil => simp [SubPattern.ofLexemes?, SubPattern.ofLexemes, Lexeme.cutAfterMarkers, Layout.ofBody]
  | cons l ls =>
    constructor
    · intro h
      rcases bind_eq_error_iff.1 h with h | ⟨sub, -, hok⟩
      · exact h
      · cases hok
    · intro h
      exact bind_eq_error_iff.2 (.inl h)

/-- **The errors of a text.** -/
theorem compileChars_eq_error_iff {text : List Char} {e : SyntaxError} :
    compileChars text = .error e ↔ Fails text e := by
  simp only [compileChars]
  constructor
  · intro h
    rcases bind_eq_error_iff.1 h with hfirst | ⟨first, hfirst, h⟩
    · obtain ⟨hopen, rfl⟩ := lexSubPattern_eq_error_iff.1 hfirst
      exact .openPositive hopen
    obtain ⟨hhead, rfl⟩ := lexSubPattern_eq_ok_iff.1 hfirst
    rcases bind_eq_error_iff.1 h with hsecond | ⟨second, hsecond, h⟩
    · obtain ⟨hopen, rfl⟩ := lexSubPattern_eq_error_iff.1 hsecond
      exact .openNegative hhead hopen
    obtain ⟨hhead', hlex⟩ := lexSubPattern_eq_ok_iff.1 hsecond
    obtain rfl : second = negativeLexed text := hlex
    by_cases hrest : (negativeLexed text).rest = []
    · obtain ⟨⟨hclosed, hseparated⟩, -, -⟩ := lexSubPatterns_iff.1 ⟨hfirst, hsecond, hrest⟩
      rw [if_neg (not_not.2 hrest)] at h
      rcases bind_eq_error_iff.1 h with hpositive | ⟨⟨sub, layout⟩, hpositive, h⟩
      · exact .positive hclosed hseparated hpositive
      rcases bind_eq_error_iff.1 h with hnegative | ⟨_, -, hok⟩
      · exact .negative hclosed hseparated hpositive (ofLexemes?_eq_error_iff.1 hnegative)
      · cases hok
    · rw [if_pos hrest] at h
      rcases bind_eq_error_iff.1 h with hthird | ⟨_, hthrow, -⟩
      · cases hthird
        rcases rest_lex_of_head? hhead' with hnil | ⟨rest, hr⟩
        · exact absurd hnil hrest
        · exact .third hhead (by rw [negativeLexed, hr]; rfl)
      · cases hthrow
  · intro h
    cases h with
    | openPositive hopen =>
      exact bind_eq_error_iff.2 (.inl (lexSubPattern_eq_error_iff.2 ⟨hopen, rfl⟩))
    | openNegative hhead hopen =>
      refine bind_eq_error_iff.2 (.inr ⟨_, lexSubPattern_eq_ok_iff.2 ⟨hhead, rfl⟩, ?_⟩)
      exact bind_eq_error_iff.2 (.inl (lexSubPattern_eq_error_iff.2 ⟨hopen, rfl⟩))
    | third hhead hsemi =>
      refine bind_eq_error_iff.2 (.inr ⟨_, lexSubPattern_eq_ok_iff.2 ⟨hhead, rfl⟩, ?_⟩)
      refine bind_eq_error_iff.2
        (.inr ⟨negativeLexed text, lexSubPattern_eq_ok_iff.2 ⟨?_, rfl⟩, ?_⟩)
      · change (negativeLexed text).rest.head? ≠ some '\''
        simp [hsemi]
      · have hrest : (negativeLexed text).rest ≠ [] := by
          intro hnil
          simp [hnil] at hsemi
        rw [if_pos hrest]
        rfl
    | positive hclosed hseparated hpositive =>
      obtain ⟨hfirst, hsecond, hrest⟩ := lexSubPatterns_iff.2 ⟨⟨hclosed, hseparated⟩, rfl, rfl⟩
      refine bind_eq_error_iff.2 (.inr ⟨_, hfirst, bind_eq_error_iff.2 (.inr ⟨_, hsecond, ?_⟩)⟩)
      rw [if_neg (not_not.2 hrest)]
      exact bind_eq_error_iff.2 (.inl hpositive)
    | negative hclosed hseparated hpositive hnegative =>
      obtain ⟨hfirst, hsecond, hrest⟩ := lexSubPatterns_iff.2 ⟨⟨hclosed, hseparated⟩, rfl, rfl⟩
      refine bind_eq_error_iff.2 (.inr ⟨_, hfirst, bind_eq_error_iff.2 (.inr ⟨_, hsecond, ?_⟩)⟩)
      rw [if_neg (not_not.2 hrest)]
      refine bind_eq_error_iff.2 (.inr ⟨_, hpositive, ?_⟩)
      exact bind_eq_error_iff.2 (.inl (ofLexemes?_eq_error_iff.2 hnegative))

/-! ## Halves of a text -/

theorem openQuote?_of_head?_rest {position : Nat} {cs : List Char}
    (h : (lex position cs).rest.head? = some '\'') :
    openQuote? none position cs = some (lex position cs).stop := by
  have hnext := next?_rest_lex position cs
  rw [openQuote?_lex]
  obtain ⟨rest, hrest⟩ := List.head?_eq_some_iff.1 h
  rw [hrest] at hnext ⊢
  have hquote : ∀ tail, rest ≠ '\'' :: tail := by
    rintro tail rfl
    cases hnext
  rw [Token.next?] at hnext
  · rw [openQuote?_quote _ _ hquote]
    exact Token.openQuote?_of_quoted_eq_none (Option.map_eq_none_iff.1 hnext) _ _
  · exact hquote

theorem negativeLexed_of_nil {text : List Char} (h : (lex 0 text).rest = []) :
    negativeLexed text = ⟨[], (lex 0 text).stop + 1, []⟩ := by
  rw [negativeLexed, h]
  exact lex_of_next?_eq_none rfl _

/-- A text with a semicolon outside quotes, cut at the first of them and where the tokens behind it
end. -/
theorem exists_halves {text rest : List Char} (h : (lex 0 text).rest = ';' :: rest) :
    ∃ front back, text = front ++ ';' :: (back ++ (negativeLexed text).rest) ∧
      (lex 0 text).stop = front.length ∧
      (negativeLexed text).stop = front.length + 1 + back.length ∧
      glyphs false text = glyphs false front ++
        .semicolon :: (glyphs false back ++ glyphs false (negativeLexed text).rest) ∧
      Spans 0 (lex 0 text).lexemes (glyphs false front) ∧
      Spans (front.length + 1) (negativeLexed text).lexemes (glyphs false back) := by
  obtain ⟨front, hfront, hstop, hopen, hspans⟩ := lex_spec 0 text
  rw [Nat.zero_add] at hstop
  have hnegative : negativeLexed text = lex (front.length + 1) rest := by
    rw [negativeLexed, h, hstop]
    rfl
  obtain ⟨back, hback, hstop', hopen', hspans'⟩ := lex_spec (front.length + 1) rest
  rw [← hnegative] at hback hstop' hspans'
  have htext : text = front ++ ';' :: (back ++ (negativeLexed text).rest) := by
    rw [← hback, ← h]
    exact hfront
  refine ⟨front, back, htext, hstop, hstop', ?_, hspans, hspans'⟩
  conv_lhs => rw [htext]
  rw [glyphs_append, hopen, glyphs_cons_of_ne (by decide), glyphs_append, hopen']
  rfl

/-- Every error shows where it points. -/
theorem Fails.showsAt {text : List Char} {e : SyntaxError} (h : Fails text e) :
    e.flaw.ShowsAt text e.position := by
  cases h with
  | openPositive hopen =>
    refine ⟨?_, openQuote?_of_head?_rest hopen⟩
    obtain ⟨front, hfront, hstop, -, -⟩ := lex_spec 0 text
    obtain ⟨rest, hr⟩ := List.head?_eq_some_iff.1 hopen
    rw [hr] at hfront
    rw [hstop, Nat.zero_add]
    conv_lhs => rw [hfront]
    simp
  | openNegative hhead hopen =>
    rcases rest_lex_of_head? hhead with hnil | ⟨rest, hr⟩
    · rw [negativeLexed_of_nil hnil] at hopen
      cases hopen
    have hquote : openQuote? none ((lex 0 text).stop + 1) ((lex 0 text).rest.drop 1) =
        some (negativeLexed text).stop := openQuote?_of_head?_rest hopen
    refine ⟨?_, ?_⟩
    · obtain ⟨front, back, htext, -, hstop, -⟩ := exists_halves hr
      obtain ⟨tail, htail⟩ := List.head?_eq_some_iff.1 hopen
      rw [htail, ← List.cons_append, ← List.append_assoc] at htext
      rw [hstop]
      conv_lhs => rw [htext]
      simp [Nat.add_assoc, Nat.add_comm 1]
    · rw [openQuote?_lex, hr, openQuote?_cons_of_ne _ _ (by decide)]
      rw [hr] at hquote
      exact hquote
  | third hhead hsemi =>
    rcases rest_lex_of_head? hhead with hnil | ⟨rest, hr⟩
    · rw [negativeLexed_of_nil hnil] at hsemi
      cases hsemi
    obtain ⟨front, back, -, -, hstop, hgs, hspans, hspans'⟩ := exists_halves hr
    obtain ⟨tail, htail⟩ := List.head?_eq_some_iff.1 hsemi
    have hsplit : glyphs false text =
        (glyphs false front ++ .semicolon :: glyphs false back) ++
          .semicolon :: glyphs false tail := by
      rw [hgs, htail, glyphs_cons_of_ne (by decide), List.append_assoc, List.cons_append]
      rfl
    have hlength : (negativeLexed text).stop =
        (glyphs false front ++ .semicolon :: glyphs false back).length := by
      rw [hstop, List.length_append, List.length_cons, length_glyphs, length_glyphs]
      omega
    have hfront : .semicolon ∉ glyphs false front := fun hmem => hspans.ne_semicolon _ hmem rfl
    have hback : .semicolon ∉ glyphs false back := fun hmem => hspans'.ne_semicolon _ hmem rfl
    refine ⟨unquoted_of_semicolon ?_, ?_⟩
    · rw [hsplit, hlength]
      simp
    · rw [hsplit, hlength, List.take_left, List.count_append, List.count_cons_self,
        List.count_eq_zero.2 hfront, List.count_eq_zero.2 hback]
  | positive hclosed hseparated hpositive =>
    obtain ⟨hspans, -⟩ := spans_subPatterns hclosed hseparated
    have hsplit : glyphs false text = [] ++ (positiveGlyphs (glyphs false text) ++
        (glyphs false text).dropWhile (· ≠ .semicolon)) := by
      rw [positiveGlyphs, List.nil_append, List.takeWhile_append_dropWhile]
    refine showsAt_of_ofLexemes hsplit (by simp) (fun s hs => ?_) hspans (fun l hl => ?_) hpositive
    · have hhead := List.head?_dropWhile_not (· ≠ .semicolon) (glyphs false text)
      rw [show _ = some s from hs] at hhead
      simpa using hhead
    · exact List.mem_append_left _ hl
  | negative hclosed hseparated _ hnegative =>
    obtain ⟨hfirst, -, hrest⟩ := lexSubPatterns_iff.2 ⟨⟨hclosed, hseparated⟩, rfl, rfl⟩
    rcases rest_lex_of_head? (lexSubPattern_eq_ok_iff.1 hfirst).1 with hnil | ⟨rest, hr⟩
    · rw [negativeLexed_of_nil hnil] at hnegative
      cases hnegative
    obtain ⟨front, back, -, -, -, hgs, -, hspans⟩ := exists_halves hr
    have hsplit : glyphs false text = (glyphs false front ++ [.semicolon]) ++
        (glyphs false back ++ []) := by
      rw [hgs, hrest]
      simp [glyphs]
    rw [← length_glyphs false front, ← List.length_singleton (a := Glyph.semicolon),
      ← List.length_append] at hspans
    refine showsAt_of_ofLexemes hsplit (by simp) (by simp) hspans (fun l hl => ?_) hnegative
    exact List.mem_append_right _ hl

/-- **Where syntax errors point.** The position of an error is that of a character of the text,
which shows the flaw. -/
theorem compile_error_position {text : String} {e : SyntaxError} (h : compile text = .error e) :
    e.position < text.length ∧ e.flaw.ShowsAt text.toList e.position := by
  have hshows := (compileChars_eq_error_iff.1 h).showsAt
  exact ⟨hshows.lt_length, hshows⟩

/-- A second decimal separator behind a semicolon, a quoted text and signs of several bytes. -/
theorem compile_error_position_negative :
    ∃ e, compile "¤¤'é;'0.0;€#.#.#" = .error e ∧ e.position = 14 ∧
      e.flaw = .multipleDecimalSeparators ∧ e.position < "¤¤'é;'0.0;€#.#.#".length ∧
      Unquoted "¤¤'é;'0.0;€#.#.#".toList 14 '.' ∧
      .marker .point ∈ before "¤¤'é;'0.0;€#.#.#".toList 14 := by
  have h : compile "¤¤'é;'0.0;€#.#.#" = .error ⟨14, .multipleDecimalSeparators⟩ := by
    decide +kernel
  obtain ⟨hlt, hshows⟩ := compile_error_position h
  exact ⟨_, h, rfl, rfl, hlt, hshows⟩

end Pattern

end Numerals
