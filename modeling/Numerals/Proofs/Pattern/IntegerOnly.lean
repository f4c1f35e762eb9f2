import Numerals.Proofs.Pattern.Grammar

/-!
# Patterns cut for whole numbers

`Pattern.beforePoint` cuts a text before the first decimal separator that is a marker, in whichever
sub-pattern it stands (`glyphs_beforePoint`). What is left of a text of the grammar is in the
grammar, with the integer part of the positive form and no fraction (`Grammar.beforePoint`).
-/

namespace Numerals

namespace Glyph

theorem ofChar_eq_point_iff {c : Char} : ofChar c = .marker .point ↔ c = '.' := by
  constructor
  · intro h
    unfold ofChar at h
    split at h <;> first | rfl | cases h
  · rintro rfl
    rfl

theorem exists_body (gs : List Glyph) :
    ∃ a b, gs = a ++ body gs ++ b ∧ (∀ g ∈ a, g.isMarker = false) ∧
      ∀ g ∈ b, g.isMarker = false := by
  refine ⟨gs.takeWhile (!·.isMarker),
    (gs.dropWhile (!·.isMarker)).rtakeWhile (!·.isMarker), ?_, ?_, ?_⟩
  · rw [body, List.append_assoc, List.rdropWhile_append_rtakeWhile,
      List.takeWhile_append_dropWhile]
  · intro g hg
    simpa using List.mem_takeWhile_imp hg
  · intro g hg
    simpa using List.mem_rtakeWhile_imp hg

theorem body_append {a b : List Glyph} (ha : ∀ g ∈ a, g.isMarker = false)
    (hb : ∀ g ∈ b, g.isMarker = false) (ms : List Marker) :
    body (a ++ (ms.map .marker ++ b)) = ms.map .marker := by
  rw [body, List.dropWhile_append_of_pos fun g hg => by rw [ha g hg]; rfl]
  cases ms with
  | nil =>
    have hdrop : b.dropWhile (!·.isMarker) = [] :=
      List.dropWhile_eq_nil_iff.2 fun g hg => by rw [hb g hg]; rfl
    rw [List.map_nil, List.nil_append, hdrop, List.rdropWhile_nil]
  | cons m ms =>
    have hdrop : (List.map marker (m :: ms) ++ b).dropWhile (!·.isMarker) =
        List.map marker (m :: ms) ++ b := rfl
    rw [hdrop, rdropWhile_append,
      if_pos (List.rdropWhile_eq_nil_iff.2 fun g hg => by simp [hb g hg]),
      List.rdropWhile_eq_self_iff]
    intro hne
    obtain ⟨k, -, hk⟩ := List.mem_map.1 (List.getLast_mem hne)
    rw [← hk]
    simp [isMarker]

end Glyph

theorem NumberForm.Valid.withoutFraction {n : NumberForm} (h : n.Valid) :
    ({ n with fraction := none } : NumberForm).Valid :=
  ⟨h.noPoint, h.optionalFirst, h.grouped, by simp⟩

/-- Cut at its decimal separator, a sub-pattern keeps the integer part of its body. -/
theorem Glyph.HasForm.takeWhile {gs : List Glyph} {n : NumberForm} (h : Glyph.HasForm gs n) :
    Glyph.HasForm (gs.takeWhile (· ≠ .marker .point)) { n with fraction := none } := by
  refine ⟨h.valid.withoutFraction, ?_⟩
  obtain ⟨a, b, hgs, ha, hb⟩ := Glyph.exists_body gs
  have hne {ds : List Glyph} (hd : ∀ g ∈ ds, g.isMarker = false) :
      ∀ g ∈ ds, decide (g ≠ .marker .point) = true := by
    intro g hg
    apply decide_eq_true
    rintro rfl
    cases hd _ hg
  have hinteger : ∀ g ∈ n.integer.map Glyph.marker, decide (g ≠ .marker .point) = true := by
    intro g hg
    obtain ⟨m, hm, rfl⟩ := List.mem_map.1 hg
    apply decide_eq_true
    rintro ⟨⟩
    exact h.valid.noPoint hm
  have hform : ({ n with fraction := none } : NumberForm).markers = n.integer := by
    simp [NumberForm.markers]
  rw [hform, hgs, h.body, List.append_assoc, List.takeWhile_append_of_pos (hne ha),
    NumberForm.markers, List.map_append, List.append_assoc, List.takeWhile_append_of_pos hinteger]
  cases n.fraction with
  | none =>
    rw [Option.elim_none, List.map_nil, List.nil_append,
      List.takeWhile_eq_self_iff.2 (hne hb), Glyph.body_append ha hb]
  | some f =>
    have hcut : ((some f).elim [] (Marker.point :: ·)).map Glyph.marker ++ b =
        .marker .point :: (f.map .marker ++ b) := rfl
    rw [hcut, List.takeWhile_cons_of_neg (by simp), Glyph.body_append ha (by simp)]

namespace Pattern

/-- A text cut at its first decimal separator outside quotes. -/
theorem glyphs_beforePoint (q : Bool) (cs : List Char) :
    glyphs q (beforePoint q cs) = (glyphs q cs).takeWhile (· ≠ .marker .point) := by
  induction cs generalizing q with
  | nil => rfl
  | cons c cs ih =>
    by_cases hc : c = '\''
    · subst hc
      simp [beforePoint, glyphs_quote, ih]
    · rw [glyphs_cons_of_ne hc, beforePoint, if_neg hc]
      cases q with
      | true => simp [glyphs_cons_of_ne hc, ih]
      | false =>
        by_cases hp : c = '.'
        · simp [hp, glyphs, Glyph.ofChar]
        · simp [hp, glyphs_cons_of_ne hc, ih, Glyph.ofChar_eq_point_iff]

theorem quoteOpen_beforePoint {q : Bool} {cs : List Char} (h : quoteOpen q cs = false) :
    quoteOpen q (beforePoint q cs) = false := by
  induction cs generalizing q with
  | nil => exact h
  | cons c cs ih =>
    by_cases hc : c = '\''
    · subst hc
      rw [quoteOpen_quote] at h
      simpa [beforePoint, quoteOpen_quote] using ih h
    · rw [quoteOpen_cons_of_ne hc] at h
      rw [beforePoint, if_neg hc]
      split
      · next hp => simpa [quoteOpen] using (Bool.and_eq_true_iff.1 hp).2
      · rw [quoteOpen_cons_of_ne hc]
        exact ih h

theorem positiveGlyphs_takeWhile (gs : List Glyph) :
    positiveGlyphs (gs.takeWhile (· ≠ .marker .point)) =
      (positiveGlyphs gs).takeWhile (· ≠ .marker .point) := by
  simp only [positiveGlyphs, List.takeWhile_takeWhile, and_comm]

/-- The cut leaves nothing of the negative sub-pattern, or cuts that. -/
theorem negativeGlyphs_takeWhile (gs : List Glyph) :
    negativeGlyphs (gs.takeWhile (· ≠ .marker .point)) = [] ∨
      negativeGlyphs (gs.takeWhile (· ≠ .marker .point)) =
        (negativeGlyphs gs).takeWhile (· ≠ .marker .point) := by
  induction gs with
  | nil => exact .inl rfl
  | cons g gs ih =>
    cases g with
    | marker m =>
      by_cases hm : m = .point
      · subst hm
        exact .inl rfl
      · simpa [negativeGlyphs, hm] using ih
    | semicolon => exact .inr (by simp [negativeGlyphs])
    | other => simpa [negativeGlyphs] using ih

/-- **Cutting keeps a text in the grammar**, with the positive form up to its decimal separator. -/
theorem Grammar.beforePoint {text : List Char} {n m : NumberForm} (h : Grammar text n m) :
    ∃ m', Grammar (Pattern.beforePoint false text) { n with fraction := none } m' := by
  have hpositive := positiveGlyphs_takeWhile (glyphs false text)
  have hcount : ((glyphs false text).takeWhile (· ≠ .marker .point)).count .semicolon ≤ 1 :=
    ((List.takeWhile_sublist _).count_le _).trans h.separated
  rw [← glyphs_beforePoint] at hcount hpositive
  have hclosed := quoteOpen_beforePoint h.closed
  rcases negativeGlyphs_takeWhile (glyphs false text) with hn | hn <;>
    rw [← glyphs_beforePoint] at hn
  · refine ⟨{}, hclosed, hcount, hpositive ▸ h.positive.takeWhile, ?_⟩
    rw [hn]
    exact Glyph.hasForm_nil
  · exact ⟨_, hclosed, hcount, hpositive ▸ h.positive.takeWhile, hn ▸ h.negative.takeWhile⟩

theorem exists_compile_integerOnly {text : String} {p : Pattern} (h : compile text = .ok p) :
    ∃ p', compile (integerOnly text) = .ok p' := by
  obtain ⟨n, m, hg⟩ := exists_compileChars_iff.1 ⟨p, h⟩
  obtain ⟨m', hg'⟩ := hg.beforePoint
  obtain ⟨p', hp'⟩ := exists_compileChars_iff.2 ⟨_, m', hg'⟩
  exact ⟨p', by rw [compile, integerOnly, String.toList_ofList]; exact hp'⟩

example : integerOnly "'.'0;(0.0)" = "'.'0;(0" := by decide +kernel

end Pattern

end Numerals
