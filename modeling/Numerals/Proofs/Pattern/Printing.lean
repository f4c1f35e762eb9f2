import Mathlib.Data.List.Chain
import Numerals.Proofs.Pattern.Grammar

/-!
# Patterns as text

`Pattern.text` writes a pattern: the affixes with their literals in quotes, around a number body
that asks for the layout, and the negative sub-pattern after a semicolon.

`Spells` says which tokens are read from the front of a text. What is written for an affix spells
parts that make the affix again (`Affix.Normal.spells`), and the written body is a form with the
layout (`Layout.form_layout`), so that reading what was written gives the pattern back
(`Pattern.Normal.compileChars_chars`).
-/

namespace Numerals

/-! ## Writing -/

/-- The text with every quote doubled. -/
def doubleQuotes (cs : List Char) : List Char :=
  cs.flatMap fun c => if c = '\'' then ['\'', '\''] else [c]

namespace AffixPart

/-- A part as it is written in a pattern. A literal stands in quotes; one of nothing but quotes
needs none around it. -/
def chars : AffixPart → List Char
  | literal text =>
    if text.toList.all (· = '\'') then doubleQuotes text.toList
    else '\'' :: (doubleQuotes text.toList ++ ['\''])
  | percent => ['%']
  | perMille => ['‰']
  | minus => ['-']
  | plus => ['+']
  | currency .symbol => ['¤']
  | currency .isoCode => ['¤', '¤']

/-- Whether two parts in a row would be read as one. -/
def merges : AffixPart → AffixPart → Bool
  | literal _, literal _ => true
  | currency _, currency _ => true
  | _, _ => false

end AffixPart

def Affix.chars (affix : Affix) : List Char := affix.flatMap AffixPart.chars

def Marker.char : Marker → Char
  | required => '0'
  | optional => '#'
  | point => '.'
  | group => ','

/-- A number body that asks for a layout. -/
def Layout.form (l : Layout) : NumberForm where
  integer :=
    if l.groupingSize = 0 then .optional :: List.replicate l.limits.minInteger .required
    else
      .optional :: (List.replicate (l.limits.minInteger - l.groupingSize) .required ++
        .group :: (List.replicate (l.groupingSize - l.limits.minInteger) .optional ++
          List.replicate (min l.limits.minInteger l.groupingSize) .required))
  fraction :=
    if l.limits.maxFraction = 0 ∧ l.separatorAlwaysShown = false then none
    else
      some (List.replicate l.limits.minFraction .required ++
        List.replicate (l.limits.maxFraction - l.limits.minFraction) .optional)

def SubPattern.chars (s : SubPattern) (body : List Marker) : List Char :=
  s.front.chars ++ (body.map Marker.char ++ s.back.chars)

namespace Pattern

/-- What follows the positive sub-pattern; the layout stands there already. -/
def negativeChars (p : Pattern) : List Char :=
  p.negative.elim [] fun s => ';' :: s.chars [.required]

def chars (p : Pattern) : List Char :=
  p.positive.chars p.toLayout.form.markers ++ p.negativeChars

/-- A text of the pattern. -/
def text (p : Pattern) : String := String.ofList p.chars

end Pattern

/-! ## Normal forms -/

/-- An affix without anything that would not be read back: a literal without text, or parts in a
row that would be read as one. -/
structure Affix.Normal (affix : Affix) : Prop where
  nonempty : .literal "" ∉ affix
  apart : affix.IsChain fun p q => p.merges q = false

structure SubPattern.Normal (s : SubPattern) : Prop where
  front : s.front.Normal
  back : s.back.Normal

/-- The affixes of both sub-patterns. -/
def Pattern.affixes (p : Pattern) : List Affix :=
  p.positive.front :: p.positive.back :: p.negative.elim [] fun s => [s.front, s.back]

/-- A pattern that some text compiles to. -/
structure Pattern.Normal (p : Pattern) : Prop where
  positive : p.positive.Normal
  negative : ∀ s ∈ p.negative, s.Normal
  maxInteger : p.limits.maxInteger = unboundedDigits
  fraction : p.limits.minFraction ≤ p.limits.maxFraction
  separator : p.separatorAlwaysShown = true → p.limits.maxFraction = 0
  currency : p.hasCurrency = true ↔ ∃ affix ∈ p.affixes, ∃ display, .currency display ∈ affix

example : ({ groupingSize := 3
             limits := { maxFraction := 2 }
             positive := { front := [.literal "o'clock ", .currency .isoCode] }
             negative := some { front := [.minus] }
             hasCurrency := true } : Pattern).text = "'o''clock '¤¤#,##0.##;-0" := by
  decide +kernel

/-! ## Tokens of a text -/

/-- Reading the tokens off the front of a text leaves the rest. -/
inductive Spells : List Token → List Char → List Char → Prop where
  | nil (rest : List Char) : Spells [] rest rest
  | cons {t : Token} {ts : List Token} {cs mid rest : List Char} :
    Token.next? cs = some (t, mid) → Spells ts mid rest → Spells (t :: ts) cs rest

namespace Spells

theorem append {ts us : List Token} {cs mid rest : List Char} (h : Spells ts cs mid)
    (h' : Spells us mid rest) : Spells (ts ++ us) cs rest := by
  induction h with
  | nil => exact h'
  | cons hnext _ ih => exact .cons hnext (ih h')

/-- Where no further token starts, these are the tokens that `lex` reads. -/
theorem lex {ts : List Token} {cs rest : List Char} (h : Spells ts cs rest)
    (hend : Token.next? rest = none) (position : Nat) :
    (lex position cs).lexemes.map (·.token) = ts ∧ (Numerals.lex position cs).rest = rest := by
  induction h generalizing position with
  | nil rest =>
    rw [lex_of_next?_eq_none hend]
    exact ⟨rfl, rfl⟩
  | cons hnext _ ih =>
    rw [lex_of_next?_eq_some hnext]
    obtain ⟨hts, hrest⟩ := ih hend _
    exact ⟨by simpa using hts, hrest⟩

theorem markers (ms : List Marker) (rest : List Char) :
    Spells (ms.map .marker) (ms.map Marker.char ++ rest) rest := by
  induction ms with
  | nil => exact .nil rest
  | cons m ms ih => exact .cons (by cases m <;> rfl) ih

end Spells

/-! ## Literals -/

theorem doubleQuotes_cons (c : Char) (cs : List Char) :
    doubleQuotes (c :: cs) = (if c = '\'' then ['\'', '\''] else [c]) ++ doubleQuotes cs := rfl

theorem quoted_doubleQuotes (cs : List Char) {rest : List Char} (h : rest.head? ≠ some '\'') :
    Token.quoted (doubleQuotes cs ++ '\'' :: rest) = some (cs, rest) := by
  induction cs with
  | nil =>
    cases rest with
    | nil => rfl
    | cons c rest =>
      have hc : c ≠ '\'' := by simpa using h
      simp [doubleQuotes, Token.quoted, hc]
  | cons c cs ih =>
    by_cases hc : c = '\''
    · subst hc
      simp [doubleQuotes_cons, Token.quoted, ih]
    · simp [doubleQuotes_cons, Token.quoted, hc, ih]

namespace AffixPart

/-- The parts `ps` in front of an affix become the one part `p`. -/
def Makes (ps : List AffixPart) (p : AffixPart) : Prop :=
  ∀ affix : Affix, (∀ q ∈ affix.head?, p.merges q = false) → ps.foldr Affix.push affix = p :: affix

theorem push_of_apart {p : AffixPart} {affix : Affix}
    (h : ∀ q ∈ affix.head?, p.merges q = false) : Affix.push p affix = p :: affix := by
  unfold Affix.push
  split
  · simp [merges] at h
  · rfl

theorem makes_singleton (p : AffixPart) : Makes [p] p := fun _ h => push_of_apart h

theorem Makes.cons {ps : List AffixPart} {t : String} (h : Makes ps (.literal t)) (s : String) :
    Makes (.literal s :: ps) (.literal (s ++ t)) := by
  intro affix haffix
  have happart : ∀ q ∈ affix.head?, (literal t).merges q = false := fun q hq => by
    have := haffix q hq
    cases q <;> first | rfl | cases this
  rw [List.foldr_cons, h affix happart]
  rfl

theorem quote_append (cs : List Char) :
    "'" ++ String.ofList cs = String.ofList ('\'' :: cs) := by
  rw [String.ofList_cons]
  rfl

/-- Nothing but quotes, each of them doubled. -/
theorem exists_spells_quotes {cs : List Char} (hne : cs ≠ []) (h : ∀ c ∈ cs, c = '\'') :
    ∃ ps, Makes ps (.literal (String.ofList cs)) ∧
      ∀ rest, Spells (ps.map .part) (doubleQuotes cs ++ rest) rest := by
  induction cs with
  | nil => exact absurd rfl hne
  | cons c cs ih =>
    obtain rfl : c = '\'' := h c List.mem_cons_self
    cases cs with
    | nil => exact ⟨[.literal "'"], makes_singleton _, fun rest => .cons rfl (.nil rest)⟩
    | cons d cs =>
      obtain ⟨ps, hmakes, hspells⟩ := ih (List.cons_ne_nil _ _) fun e he =>
        h e (List.mem_cons_of_mem _ he)
      refine ⟨.literal "'" :: ps, ?_, fun rest => .cons rfl (hspells rest)⟩
      rw [← quote_append]
      exact hmakes.cons "'"

/-- A text in quotes. Those at its start are read one by one, since the first of them meets the
opening quote; the rest is read as one. -/
theorem exists_spells_quoted {cs : List Char} (h : ¬∀ c ∈ cs, c = '\'') :
    ∃ ps, Makes ps (.literal (String.ofList cs)) ∧ ∀ rest, rest.head? ≠ some '\'' →
      Spells (ps.map .part) ('\'' :: (doubleQuotes cs ++ '\'' :: rest)) rest := by
  induction cs with
  | nil => simp at h
  | cons c cs ih =>
    by_cases hc : c = '\''
    · subst hc
      obtain ⟨ps, hmakes, hspells⟩ := ih (by simpa using h)
      refine ⟨.literal "'" :: ps, ?_, fun rest hrest => .cons rfl (hspells rest hrest)⟩
      rw [← quote_append]
      exact hmakes.cons "'"
    · refine ⟨[.literal (String.ofList (c :: cs))], makes_singleton _, fun rest hrest =>
        .cons ?_ (.nil rest)⟩
      have hquoted := quoted_doubleQuotes (c :: cs) hrest
      rw [doubleQuotes_cons, if_neg hc] at hquoted ⊢
      rw [Token.next?]
      · rw [hquoted]
        rfl
      · simp [hc]

/-! ## Affixes -/

/-- Whether a text cannot be taken for more of the part. -/
def StopsAt (p : AffixPart) (rest : List Char) : Prop :=
  match p with
  | literal _ => rest.head? ≠ some '\''
  | currency _ => rest.head? ≠ some '¤'
  | _ => True

theorem exists_spells {p : AffixPart} (hp : p ≠ .literal "") :
    ∃ ps, Makes ps p ∧ ∀ rest, p.StopsAt rest → Spells (ps.map .part) (p.chars ++ rest) rest := by
  have single
      (hnext : ∀ rest, p.StopsAt rest → Token.next? (p.chars ++ rest) = some (.part p, rest)) :
      ∃ ps, Makes ps p ∧ ∀ rest, p.StopsAt rest → Spells (ps.map .part) (p.chars ++ rest) rest :=
    ⟨[p], makes_singleton p, fun rest hrest => .cons (hnext rest hrest) (.nil rest)⟩
  rcases p with text | _ | _ | _ | _ | (_ | _)
  · have hne : text.toList ≠ [] := by simpa using hp
    by_cases hall : ∀ c ∈ text.toList, c = '\''
    · obtain ⟨ps, hmakes, hspells⟩ := exists_spells_quotes hne hall
      rw [String.ofList_toList] at hmakes
      refine ⟨ps, hmakes, fun rest _ => ?_⟩
      rw [chars, if_pos (by simpa using hall)]
      exact hspells rest
    · obtain ⟨ps, hmakes, hspells⟩ := exists_spells_quoted hall
      rw [String.ofList_toList] at hmakes
      refine ⟨ps, hmakes, fun rest hrest => ?_⟩
      rw [chars, if_neg (by simpa using hall), List.cons_append, List.append_assoc]
      exact hspells rest hrest
  · exact single fun _ _ => rfl
  · exact single fun _ _ => rfl
  · exact single fun _ _ => rfl
  · exact single fun _ _ => rfl
  · refine single fun rest hrest => ?_
    cases rest with
    | nil => rfl
    | cons c rest =>
      have hc : c ≠ '¤' := by simpa [StopsAt] using hrest
      simp [chars, Token.next?, hc]
  · refine single fun rest hrest => ?_
    have hdrop : rest.dropWhile (· = '¤') = rest := by
      cases rest with
      | nil => rfl
      | cons c rest =>
        have hc : c ≠ '¤' := by simpa [StopsAt] using hrest
        simp [hc]
    show some (_, rest.dropWhile (· = '¤')) = _
    rw [hdrop]

theorem head?_chars_literal {text : String} (h : literal text ≠ .literal "") (rest : List Char) :
    ((literal text).chars ++ rest).head? = some '\'' := by
  rw [chars]
  split
  · next hall =>
    cases hcs : text.toList with
    | nil => exact absurd (by simpa using hcs) h
    | cons c cs =>
      rw [hcs] at hall
      obtain rfl : c = '\'' := by simpa using (List.all_eq_true.1 hall) c List.mem_cons_self
      rfl
  · rfl

/-- What is written for a part that does not merge ends the part before. -/
theorem stopsAt_chars {p q : AffixPart} (h : p.merges q = false) (hq : q ≠ .literal "")
    (rest : List Char) : p.StopsAt (q.chars ++ rest) := by
  cases q with
  | literal text =>
    have hhead := head?_chars_literal hq rest
    cases p <;> simp [StopsAt, merges, hhead] at h ⊢
  | currency display => cases display <;> cases p <;> simp [StopsAt, merges, chars] at h ⊢
  | _ => cases p <;> simp [StopsAt, chars]

end AffixPart

/-- What is written for an affix is read as parts that make the affix. -/
theorem Affix.Normal.spells {affix : Affix} (h : affix.Normal) {rest : List Char}
    (hrest : ∀ p : AffixPart, p.StopsAt rest) :
    ∃ ps, Spells (ps.map .part) (affix.chars ++ rest) rest ∧ Affix.ofParts ps = affix := by
  obtain ⟨hnonempty, hapart⟩ := h
  induction affix with
  | nil => exact ⟨[], .nil rest, rfl⟩
  | cons p affix ih =>
    obtain ⟨hp, hnonempty⟩ := not_or.1 (mt List.mem_cons.2 hnonempty)
    obtain ⟨hhead, hapart⟩ := List.isChain_cons.1 hapart
    obtain ⟨ps, hspells, hps⟩ := ih hnonempty hapart
    obtain ⟨qs, hmakes, hqs⟩ := AffixPart.exists_spells (Ne.symm hp)
    have hstop : p.StopsAt (Affix.chars affix ++ rest) := by
      cases affix with
      | nil => exact hrest p
      | cons q affix =>
        rw [Affix.chars, List.flatMap_cons, List.append_assoc]
        exact AffixPart.stopsAt_chars (hhead q rfl)
          (fun hq => hnonempty (hq ▸ List.mem_cons_self)) _
    refine ⟨qs ++ ps, ?_, ?_⟩
    · rw [Affix.chars, List.flatMap_cons, List.append_assoc, List.map_append]
      exact (hqs _ hstop).append hspells
    · rw [Affix.ofParts, List.foldr_append]
      change qs.foldr Affix.push (Affix.ofParts ps) = p :: affix
      rw [hps]
      exact hmakes affix hhead

/-! ## Layouts -/

namespace Layout

variable (l : Layout)

/-- A row of markers in which no optional digit follows a required one. -/
theorem optionalFirst_of_pairwise {ms : List Marker}
    (h : ms.Pairwise fun m n => ¬(m = .required ∧ n = .optional)) (a b : List Marker)
    (hms : ms = a ++ .optional :: b) : .required ∉ a := by
  subst hms
  intro hr
  exact (List.pairwise_append.1 h).2.2 _ hr _ List.mem_cons_self ⟨rfl, rfl⟩

theorem rtakeWhile_group {a b : List Marker} (h : .group ∉ b) :
    (a ++ .group :: b).rtakeWhile (· ≠ .group) = b := by
  have hlast : ∀ m ∈ (a ++ [Marker.group]).getLast?, decide (m ≠ .group) = false := by simp
  have hb : ∀ m ∈ b, decide (m ≠ .group) = true := fun m hm => decide_eq_true fun he => h (he ▸ hm)
  rw [← List.singleton_append, ← List.append_assoc]
  exact (rdropWhile_rtakeWhile_append hlast hb).2

theorem lastGroup_form (h : l.groupingSize ≠ 0) :
    l.form.lastGroup = List.replicate (l.groupingSize - l.limits.minInteger) .optional ++
      List.replicate (min l.limits.minInteger l.groupingSize) .required := by
  rw [NumberForm.lastGroup, form, if_neg h, ← List.cons_append]
  exact rtakeWhile_group (by simp)

theorem group_mem_form : .group ∈ l.form.integer ↔ l.groupingSize ≠ 0 := by
  by_cases h : l.groupingSize = 0 <;> simp [form, h]

theorem form_valid : l.form.Valid where
  noPoint := by
    by_cases h : l.groupingSize = 0 <;> simp [form, h]
  optionalFirst := by
    apply optionalFirst_of_pairwise
    by_cases h : l.groupingSize = 0
    · simp [form, h, List.pairwise_replicate]
    · -- no required digit stands before the separator, or no optional one after it
      rcases Nat.le_total l.limits.minInteger l.groupingSize with hle | hle
      · simp [form, h, List.pairwise_append, List.pairwise_replicate, Nat.sub_eq_zero_of_le hle]
      · simp +contextual [form, h, List.pairwise_append, List.pairwise_replicate,
          Nat.sub_eq_zero_of_le hle]
  grouped := by
    rw [group_mem_form]
    intro h
    rw [l.lastGroup_form h, Ne, List.append_eq_nil_iff, List.replicate_eq_nil_iff,
      List.replicate_eq_nil_iff]
    omega
  requiredFirst := by
    intro f hf
    by_cases h : l.limits.maxFraction = 0 ∧ l.separatorAlwaysShown = false
    · simp [form, h] at hf
    · simp only [form, if_neg h, Option.mem_def, Option.some.injEq] at hf
      exact ⟨_, _, hf.symm⟩

theorem count_required_form : l.form.integer.count .required = l.limits.minInteger := by
  by_cases h : l.groupingSize = 0
  · simp [form, h]
  · simp [form, h, List.count_replicate]

theorem fraction_form (hfraction : l.limits.minFraction ≤ l.limits.maxFraction)
    (hseparator : l.separatorAlwaysShown = true → l.limits.maxFraction = 0) :
    (l.form.fraction.getD []).count .required = l.limits.minFraction ∧
      (l.form.fraction.getD []).length = l.limits.maxFraction ∧
      (l.form.fraction = some [] ↔ l.separatorAlwaysShown = true) := by
  by_cases h : l.limits.maxFraction = 0 ∧ l.separatorAlwaysShown = false
  · obtain ⟨hmax, hshown⟩ := h
    simp [form, hmax, hshown]
    omega
  · have hshown : l.separatorAlwaysShown = true ↔ l.limits.maxFraction = 0 := by
      refine ⟨hseparator, fun hmax => ?_⟩
      simpa [hmax] using h
    simp [form, if_neg h, hshown, List.count_replicate]
    omega

theorem markers_form_ne_nil : l.form.markers ≠ [] := by
  by_cases h : l.groupingSize = 0 <;> simp [NumberForm.markers, form, h]

theorem form_layout (hmax : l.limits.maxInteger = unboundedDigits)
    (hfraction : l.limits.minFraction ≤ l.limits.maxFraction)
    (hseparator : l.separatorAlwaysShown = true → l.limits.maxFraction = 0) :
    l.form.layout = l := by
  have hsize : (if .group ∈ l.form.integer then l.form.lastGroup.length else 0) =
      l.groupingSize := by
    simp only [group_mem_form]
    split
    · next h =>
      rw [l.lastGroup_form h, List.length_append, List.length_replicate, List.length_replicate]
      omega
    · next h => exact (not_not.1 h).symm
  obtain ⟨hcount, hlength, hshown⟩ := l.fraction_form hfraction hseparator
  unfold NumberForm.layout
  rw [hsize, if_neg l.markers_form_ne_nil, l.count_required_form, hcount, hlength, ← hmax]
  simp only [hshown, Bool.decide_eq_true]

end Layout

/-! ## Sub-patterns -/

namespace Lexeme

theorem cutAfterMarkers_append {body back : List Lexeme} (hbody : ∀ l ∈ body, l.isMarker = true)
    (hback : ∀ l ∈ back, l.isMarker = false) :
    cutAfterMarkers (body ++ back) = (body, back) := by
  have hnone : cutAfterMarkers back = ([], back) := by
    induction back with
    | nil => rfl
    | cons l back ih =>
      have hl := hback l List.mem_cons_self
      rw [cutAfterMarkers, ih fun k hk => hback k (List.mem_cons_of_mem _ hk)]
      simp [hl]
  induction body with
  | nil => exact hnone
  | cons l body ih =>
    have hl := hbody l List.mem_cons_self
    rw [List.cons_append, cutAfterMarkers, ih fun k hk => hbody k (List.mem_cons_of_mem _ hk)]
    cases body <;> simp [hl]

theorem parts_eq {ls : List Lexeme} {ps : List AffixPart}
    (h : ls.map (·.token) = ps.map .part) : parts ls = ps := by
  induction ls generalizing ps with
  | nil => cases List.map_eq_nil_iff.1 h.symm; rfl
  | cons l ls ih =>
    obtain ⟨p, ps, rfl, hp, hps⟩ := List.map_eq_cons_iff.1 h.symm
    obtain ⟨position, token⟩ := l
    cases (show token = .part p from hp.symm)
    exact congrArg (p :: ·) (ih hps.symm)

theorem isMarker_of_mem {ls : List Lexeme} {ts : List Token} (marker : Bool)
    (h : ls.map (·.token) = ts) (hts : ∀ t ∈ ts, t.isMarker = marker) :
    ∀ l ∈ ls, l.isMarker = marker :=
  fun _ hl => hts _ (h ▸ List.mem_map_of_mem hl)

end Lexeme

/-- Tokens of a front, of a number body and of a back. -/
theorem SubPattern.ofLexemes_eq {ls : List Lexeme} {front back : List AffixPart} {n : NumberForm}
    (hn : n.Valid) (hback : n.markers = [] → back = [])
    (h : ls.map (·.token) = front.map .part ++ (n.markers.map .marker ++ back.map .part)) :
    ofLexemes ls = .ok (⟨.ofParts front, .ofParts back⟩, n.layout) := by
  obtain ⟨fs, rest, rfl, hfs, hrest⟩ := List.map_eq_append_iff.1 h
  obtain ⟨ms, bs, rfl, hms, hbs⟩ := List.map_eq_append_iff.1 hrest
  have hfs' := Lexeme.isMarker_of_mem false hfs (by simp [Token.isMarker])
  have hms' := Lexeme.isMarker_of_mem true hms (by simp [Token.isMarker])
  have hbs' := Lexeme.isMarker_of_mem false hbs (by simp [Token.isMarker])
  have hfs' : ∀ l ∈ fs, (!l.isMarker) = true := fun l hl => by simp [hfs' l hl]
  have hbody : (ms ++ bs).takeWhile (!·.isMarker) = [] ∧
      (ms ++ bs).dropWhile (!·.isMarker) = ms ++ bs := by
    cases ms with
    | nil =>
      have hnone : bs = [] := by simpa [hback (by simpa using hms.symm)] using hbs
      simp [hnone]
    | cons m ms => simp [hms' m List.mem_cons_self]
  rw [ofLexemes, List.takeWhile_append_of_pos hfs', List.dropWhile_append_of_pos hfs', hbody.1,
    hbody.2, Lexeme.cutAfterMarkers_append hms' hbs', List.append_nil]
  simp only [Layout.ofBody_of_valid hn hms, Lexeme.parts_eq hfs, Lexeme.parts_eq hbs]
  rfl

theorem AffixPart.stopsAt_marker (p : AffixPart) (m : Marker) (rest : List Char) :
    p.StopsAt (m.char :: rest) := by
  cases p <;> cases m <;> simp [StopsAt, Marker.char]

/-- What is written for a sub-pattern is read as its affixes around the markers. -/
theorem SubPattern.Normal.spells {s : SubPattern} (h : s.Normal) {ms : List Marker} (hne : ms ≠ [])
    {rest : List Char} (hrest : ∀ p : AffixPart, p.StopsAt rest) :
    ∃ front back,
      Spells (front.map .part ++ (ms.map .marker ++ back.map .part)) (s.chars ms ++ rest) rest ∧
      Affix.ofParts front = s.front ∧ Affix.ofParts back = s.back := by
  obtain ⟨m, ms, rfl⟩ := List.exists_cons_of_ne_nil hne
  have hmarker (p : AffixPart) :
      p.StopsAt ((m :: ms).map Marker.char ++ (s.back.chars ++ rest)) := p.stopsAt_marker m _
  obtain ⟨front, hfront, hparts⟩ := h.front.spells hmarker
  obtain ⟨back, hback, hparts'⟩ := h.back.spells hrest
  refine ⟨front, back, ?_, hparts, hparts'⟩
  rw [SubPattern.chars, List.append_assoc, List.append_assoc]
  exact hfront.append ((Spells.markers _ _).append hback)

/-! ## Patterns -/

theorem Affix.hasCurrency_iff {affix : Affix} :
    affix.hasCurrency = true ↔ ∃ display, .currency display ∈ affix := by
  rw [hasCurrency, List.any_eq_true]
  constructor
  · rintro ⟨p, hp, h⟩
    cases p <;> first | exact ⟨_, hp⟩ | cases h
  · rintro ⟨display, h⟩
    exact ⟨_, h, rfl⟩

namespace Pattern

theorem hasCurrency_iff (p : Pattern) :
    (p.positive.hasCurrency || p.negative.any (·.hasCurrency)) = true ↔
      ∃ affix ∈ p.affixes, ∃ display, .currency display ∈ affix := by
  cases h : p.negative <;>
    simp [affixes, h, SubPattern.hasCurrency, Affix.hasCurrency_iff, or_assoc]

theorem negativeChars_spec (p : Pattern) :
    p.negativeChars = [] ∨ ∃ rest, p.negativeChars = ';' :: rest := by
  unfold negativeChars
  cases p.negative with
  | none => exact .inl rfl
  | some s => exact .inr ⟨_, rfl⟩

/-- What follows the semicolon is read as the negative sub-pattern. -/
theorem Normal.exists_negative {p : Pattern} (h : p.Normal) :
    ∃ ts, Spells ts (p.negativeChars.drop 1) [] ∧
      ∀ ls : List Lexeme, ls.map (·.token) = ts → SubPattern.ofLexemes? ls = .ok p.negative := by
  cases hn : p.negative with
  | none =>
    refine ⟨[], by simpa [negativeChars, hn] using Spells.nil [], fun ls hls => ?_⟩
    obtain rfl := List.map_eq_nil_iff.1 hls
    rfl
  | some s =>
    have hend (q : AffixPart) : q.StopsAt [] := by cases q <;> simp [AffixPart.StopsAt]
    obtain ⟨front, back, hspells, hfront, hback⟩ :=
      (h.negative s hn).spells (List.cons_ne_nil .required []) hend
    refine ⟨_, by simpa [negativeChars, hn] using hspells, fun ls hls => ?_⟩
    have hvalid : ({ integer := [.required] } : NumberForm).Valid :=
      ⟨by decide, fun a b h => by simp [List.cons_eq_append_iff] at h, by simp, by simp⟩
    have hof := SubPattern.ofLexemes_eq hvalid (by simp [NumberForm.markers]) hls
    rw [hfront, hback] at hof
    cases ls with
    | nil => simp at hls
    | cons l ls => exact bind_eq_ok_iff.2 ⟨_, hof, rfl⟩

/-- What was written compiles to the pattern. -/
theorem Normal.compileChars_chars {p : Pattern} (h : p.Normal) : compileChars p.chars = .ok p := by
  have hform := p.toLayout.form_layout h.maxInteger h.fraction h.separator
  have hmarkers := p.toLayout.markers_form_ne_nil
  have hstop : ∀ q : AffixPart, q.StopsAt p.negativeChars := by
    intro q
    rcases p.negativeChars_spec with hr | ⟨rest, hr⟩ <;> rw [hr] <;>
      cases q <;> simp [AffixPart.StopsAt]
  have hend : Token.next? p.negativeChars = none := by
    rcases p.negativeChars_spec with hr | ⟨rest, hr⟩ <;> rw [hr] <;> rfl
  obtain ⟨front, back, hspells, hfront, hback⟩ := h.positive.spells hmarkers hstop
  obtain ⟨ts, hnegative, hofLexemes?⟩ := h.exists_negative
  obtain ⟨hls, hrest⟩ := hspells.lex hend 0
  have hfirst : lexSubPattern 0 p.chars = .ok (lex 0 p.chars) :=
    lexSubPattern_eq_ok_iff.2 ⟨by
      rw [chars, hrest]
      exact hstop (.literal ""), rfl⟩
  have hsecond : negativeLexed p.chars =
      lex ((lex 0 p.chars).stop + 1) (p.negativeChars.drop 1) := by
    rw [negativeLexed, show (lex 0 p.chars).rest = p.negativeChars from hrest]
  obtain ⟨hls', hrest'⟩ := hnegative.lex rfl ((lex 0 p.chars).stop + 1)
  rw [← hsecond] at hls' hrest'
  have hread := lexSubPatterns_iff.1 ⟨hfirst, lexSubPattern_eq_ok_iff.2 ⟨by
    change (negativeLexed p.chars).rest.head? ≠ some '\''
    rw [hrest']
    simp, rfl⟩, hrest'⟩
  refine compileChars_eq_ok_iff.2 ⟨hread.1, _, _, _,
    SubPattern.ofLexemes_eq p.toLayout.form_valid (absurd · hmarkers) hls, hofLexemes? _ hls', ?_⟩
  have hcurrency := Bool.eq_iff_iff.2 (h.currency.trans p.hasCurrency_iff.symm)
  rw [hform, hfront, hback, ← hcurrency]

end Pattern

end Numerals
