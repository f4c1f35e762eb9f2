import Numerals.Proofs.Pattern.Flaws

/-!
# Digits behind grouping separators

Around each marker of a text that compiles stands a sub-pattern with a form
(`Pattern.exists_hasForm`), and what follows a grouping separator in it is the rest of the integer
part, which ends with a digit (`Glyph.HasForm.exists_integer`). `Pattern.compile_groups` draws two
conclusions: a digit follows before the decimal separator, and it follows in the group itself unless
the next character is a grouping separator, too. That such a text compiles is shown by
`Pattern.compile_empty_group`.
-/

namespace Numerals

namespace Pattern

/-- What stands after position `i` up to the next separator of its sub-pattern. -/
def groupAfter (text : List Char) (i : Nat) : List Glyph :=
  (after text i).takeWhile fun g => g ≠ .marker .point ∧ g ≠ .marker .group

end Pattern

open Pattern

/-! ## Splitting at an element -/

section
variable {α : Type} {a b x y : List α} {g : α}

theorem exists_append_left (h : x ++ g :: y = a ++ b) (ha : g ∉ a) :
    ∃ c, x = a ++ c ∧ b = c ++ g :: y := by
  rcases List.append_eq_append_iff.1 h with ⟨c, rfl, hc⟩ | ⟨c, rfl, hc⟩
  · cases c with
    | nil => exact ⟨[], by simp, by simpa using hc.symm⟩
    | cons d c =>
      obtain ⟨rfl, -⟩ := List.cons.inj hc
      exact absurd (List.mem_append_right _ List.mem_cons_self) ha
  · exact ⟨c, rfl, hc⟩

theorem exists_append_right (h : x ++ g :: y = a ++ b) (hb : g ∉ b) :
    ∃ c, a = x ++ g :: c ∧ y = c ++ b := by
  rcases List.append_eq_append_iff.1 h with ⟨c, rfl, hc⟩ | ⟨c, rfl, rfl⟩
  · cases c with
    | nil =>
      rw [List.nil_append] at hc
      exact absurd (hc ▸ List.mem_cons_self) hb
    | cons d c =>
      obtain ⟨rfl, rfl⟩ := List.cons.inj hc
      exact ⟨c, rfl, rfl⟩
  · exact absurd (List.mem_append_right _ List.mem_cons_self) hb

end

/-! ## Integer parts -/

namespace NumberForm.Valid

variable {n : NumberForm} (h : n.Valid)
include h

/-- Grouping separators stand in the integer part. -/
theorem exists_integer {x y : List Marker} (hxy : n.markers = x ++ .group :: y) :
    ∃ k, n.integer = x ++ .group :: k ∧ y = k ++ n.fraction.elim [] (.point :: ·) := by
  apply exists_append_right hxy.symm
  intro hmem
  cases hf : n.fraction with
  | none => simp [hf] at hmem
  | some f =>
    obtain ⟨required, optional, rfl⟩ := h.requiredFirst f hf
    simp [hf] at hmem

theorem exists_digit {x k : List Marker} (hn : n.integer = x ++ .group :: k) :
    ∃ m ∈ k, m.isDigit = true := by
  have hgroup := h.grouped (by simp [hn])
  rcases List.eq_nil_or_concat k with rfl | ⟨k, m, rfl⟩
  · simp [NumberForm.lastGroup, hn] at hgroup
  · have hpoint := h.noPoint
    refine ⟨m, by simp, ?_⟩
    rw [NumberForm.lastGroup, hn, List.concat_eq_append, ← List.cons_append, ← List.append_assoc,
      List.rtakeWhile_concat] at hgroup
    cases m with
    | required => rfl
    | optional => rfl
    | point => simp [hn] at hpoint
    | group => simp at hgroup

end NumberForm.Valid

/-- What follows a grouping separator in a sub-pattern: markers up to the end of the integer part,
one of them a digit. -/
theorem Glyph.HasForm.exists_integer {x y : List Glyph} {n : NumberForm}
    (h : HasForm (x ++ .marker .group :: y) n) :
    ∃ (k : List Marker) (rest : List Glyph), y = k.map .marker ++ rest ∧ .point ∉ k ∧
      ∃ m ∈ k, m.isDigit = true := by
  obtain ⟨a, b, hgs, ha, hb⟩ := exists_body (x ++ .marker .group :: y)
  rw [h.body, List.append_assoc] at hgs
  -- the separator is a marker, so it stands neither before the body nor behind it
  obtain ⟨c, -, hc⟩ := exists_append_left hgs fun hmem => by cases ha _ hmem
  obtain ⟨d, hd, rfl⟩ := exists_append_right hc.symm fun hmem => by cases hb _ hmem
  obtain ⟨ms, tail, hmarkers, -, htail⟩ := List.map_eq_append_iff.1 hd
  obtain ⟨m, ks, rfl, hm, rfl⟩ := List.map_eq_cons_iff.1 htail
  cases hm
  obtain ⟨k, hk, rfl⟩ := h.valid.exists_integer hmarkers
  have hpoint := h.valid.noPoint
  refine ⟨k, _, by rw [List.map_append, List.append_assoc], ?_, h.valid.exists_digit hk⟩
  rw [hk, List.mem_append, List.mem_cons] at hpoint
  intro hmem
  exact hpoint (.inr (.inr hmem))

/-! ## Sub-patterns of a text -/

namespace Pattern

/-- Around anything but a semicolon stands the positive or the negative sub-pattern. -/
theorem subPattern_of_append {pre post : List Glyph} {g : Glyph} (hg : g ≠ .semicolon)
    (hseparated : (pre ++ g :: post).count .semicolon ≤ 1) :
    pre.rtakeWhile (· ≠ .semicolon) ++ g :: post.takeWhile (· ≠ .semicolon) =
        positiveGlyphs (pre ++ g :: post) ∨
      pre.rtakeWhile (· ≠ .semicolon) ++ g :: post.takeWhile (· ≠ .semicolon) =
        negativeGlyphs (pre ++ g :: post) := by
  have hne {z : List Glyph} (hz : .semicolon ∉ z) : ∀ s ∈ z, decide (s ≠ .semicolon) = true :=
    fun _ hs => decide_eq_true (ne_of_mem_of_not_mem hs hz)
  by_cases hpre : .semicolon ∈ pre
  · obtain ⟨front, x, rfl, hfront⟩ := List.eq_append_cons_of_mem hpre
    rw [List.append_assoc, List.cons_append, List.count_append, List.count_cons_self,
      List.count_append, List.count_cons_of_ne hg] at hseparated
    have hx : .semicolon ∉ x := List.count_eq_zero.1 (by omega)
    have hpost : .semicolon ∉ post := List.count_eq_zero.1 (by omega)
    have hbefore : (front ++ .semicolon :: x).rtakeWhile (· ≠ .semicolon) = x := by
      rw [← List.singleton_append, ← List.append_assoc]
      exact (rdropWhile_rtakeWhile_append (by simp) (hne hx)).2
    right
    rw [hbefore, List.takeWhile_eq_self_iff.2 (hne hpost), negativeGlyphs, List.append_assoc,
      List.dropWhile_append_of_pos (hne hfront)]
    simp
  · left
    rw [List.rtakeWhile_eq_self_iff.2 (hne hpre), positiveGlyphs,
      List.takeWhile_append_of_pos (hne hpre)]
    simp [hg]

theorem exists_hasForm {text : List Char} {p : Pattern} (h : compileChars text = .ok p) {i : Nat}
    {m : Marker} (hi : (glyphs false text)[i]? = some (.marker m)) :
    ∃ n, Glyph.HasForm (before text i ++ .marker m :: after text i) n := by
  obtain ⟨n, k, hgrammar⟩ := exists_compileChars_iff.1 ⟨p, h⟩
  obtain ⟨hlt, hget⟩ := List.getElem?_eq_some_iff.1 hi
  have hsplit : glyphs false text =
      (glyphs false text).take i ++ .marker m :: (glyphs false text).drop (i + 1) := by
    rw [← hget, ← List.drop_eq_getElem_cons hlt, List.take_append_drop]
  have hseparated := hgrammar.separated
  have hpositive := hgrammar.positive
  have hnegative := hgrammar.negative
  rw [hsplit] at hseparated hpositive hnegative
  rcases subPattern_of_append (by simp) hseparated with hgs | hgs
  · exact ⟨n, hgs ▸ hpositive⟩
  · exact ⟨k, hgs ▸ hnegative⟩

/-- **Digits behind grouping separators.** In a text that compiles, a digit follows each grouping
separator before the decimal separator or the end of its sub-pattern, and one follows before the
next separator unless that is a grouping separator that follows at once. -/
theorem compile_groups {text : String} {p : Pattern} (h : compile text = .ok p) {i : Nat}
    (hi : Unquoted text.toList i ',') :
    (∃ g ∈ (after text.toList i).takeWhile (· ≠ .marker .point), g.isDigit = true) ∧
      ((∃ g ∈ groupAfter text.toList i, g.isDigit = true) ↔
        (after text.toList i).head? ≠ some (.marker .group)) := by
  obtain ⟨n, hform⟩ := exists_hasForm h hi.2
  obtain ⟨k, rest, hafter, hpoint, m, hm, hdigit⟩ := hform.exists_integer
  have hnone : .marker .point ∉ k.map Glyph.marker := by simpa using hpoint
  rw [groupAfter, hafter]
  constructor
  · refine ⟨.marker m, ?_, hdigit⟩
    rw [List.takeWhile_append_of_pos fun _ hg => decide_eq_true (ne_of_mem_of_not_mem hg hnone)]
    exact List.mem_append_left _ (List.mem_map_of_mem hm)
  · cases k with
    | nil => cases hm
    | cons d k =>
      cases d with
      | point => exact absurd List.mem_cons_self hpoint
      | group => simp
      | required => simp [Glyph.isDigit, Marker.isDigit]
      | optional => simp [Glyph.isDigit, Marker.isDigit]

/-- The groups of both sub-patterns. -/
theorem compile_groups_negative :
    ∃ p, compile "#,##0;(0,0)" = .ok p ∧
      (∃ g ∈ groupAfter "#,##0;(0,0)".toList 1, g.isDigit = true) ∧
      ∃ g ∈ groupAfter "#,##0;(0,0)".toList 8, g.isDigit = true := by
  have hp : compile "#,##0;(0,0)" = .ok
      { groupingSize := 3
        negative := some { front := [.literal "("], back := [.literal ")"] } } := by
    decide +kernel
  have hfirst : Unquoted "#,##0;(0,0)".toList 1 ',' := ⟨by decide +kernel, by decide +kernel⟩
  have hsecond : Unquoted "#,##0;(0,0)".toList 8 ',' := ⟨by decide +kernel, by decide +kernel⟩
  exact ⟨_, hp, (compile_groups hp hfirst).2.2 (by decide +kernel),
    (compile_groups hp hsecond).2.2 (by decide +kernel)⟩

/-- A grouping separator without a digit before the next one compiles. -/
theorem compile_empty_group :
    ∃ p, compile "#,,##0" = .ok p ∧ Unquoted "#,,##0".toList 1 ',' ∧
      ¬∃ g ∈ groupAfter "#,,##0".toList 1, g.isDigit = true := by
  have hcomma : Unquoted "#,,##0".toList 1 ',' := ⟨by decide +kernel, by decide +kernel⟩
  refine ⟨{ groupingSize := 3 }, by decide +kernel, hcomma, by decide +kernel⟩

end Pattern

end Numerals
