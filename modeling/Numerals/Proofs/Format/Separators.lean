import Numerals.Proofs.Format.Output

/-!
# Grouping separators

Grouped digits can be written in one pass, digit by digit, without building any group: before a
digit that is not the first goes a separator where the number of digits that are left is a multiple
of the size (`insertSeparators`). The two agree because the first group of digits is full exactly
where the size divides their number (`IsGrouping.length_head_eq_iff`), which tells whether one more
digit in front starts a group of its own (`IsGrouping.pushGrouped_eq`, `groupedText_cons`).

The separators stand nowhere but between the integer digits, and nothing else that is formatted
depends on them: `Formatter.format_ungrouped`.
-/

namespace Numerals

theorem Digits.text_append (ds es : List Digit) : text (ds ++ es) = text ds ++ text es := by
  rw [text, List.map_append, String.ofList_append]
  rfl

/-! ## Full groups -/

theorem IsGrouping.length_eq {size : Nat} {ds g : List Digit} {gs : List (List Digit)}
    (h : IsGrouping size ds (g :: gs)) : ds.length = g.length + gs.length * size := by
  have hsizes : gs.map List.length = List.replicate gs.length size :=
    List.eq_replicate_iff.2 ⟨List.length_map _, by simpa using h.rest⟩
  rw [← h.flatten, List.length_flatten, List.map_cons, List.sum_cons, hsizes,
    List.sum_replicate_nat]

theorem IsGrouping.length_head_eq_iff {size : Nat} {ds g : List Digit} {gs : List (List Digit)}
    (h : IsGrouping size ds (g :: gs)) : g.length = size ↔ ds.length % size = 0 := by
  obtain ⟨hne, hle⟩ := h.first g rfl
  have hpos := List.length_pos_iff.2 hne
  rw [h.length_eq, Nat.add_mul_mod_self_right]
  refine ⟨fun heq => by rw [heq, Nat.mod_self], fun hmod => ?_⟩
  rcases Nat.lt_or_eq_of_le hle with hlt | heq
  · rw [Nat.mod_eq_of_lt hlt] at hmod
    omega
  · exact heq

/-! ## One digit more in front -/

/-- A digit starts a group of its own where the groups after it are full. -/
theorem IsGrouping.pushGrouped_eq {size : Nat} {ds g : List Digit} {gs : List (List Digit)}
    (h : IsGrouping size ds (g :: gs)) (d : Digit) :
    pushGrouped size d (g :: gs) =
      if ds.length % size = 0 then [d] :: g :: gs else (d :: g) :: gs := by
  have hle := (h.first g rfl).2
  rw [pushGrouped]
  by_cases hfull : g.length = size
  · rw [if_neg (by omega), if_pos (h.length_head_eq_iff.1 hfull)]
  · rw [if_pos (by omega), if_neg (mt h.length_head_eq_iff.2 hfull)]

theorem groupedText_nil (size : Nat) (separator : String) : groupedText size separator [] = "" := by
  unfold groupedText
  split
  · rfl
  · exact String.intercalate_nil

/-- What stands before the last digits, where others are in front of them. -/
def separatorBefore (size : Nat) (separator : String) (ds : List Digit) : String :=
  if ds ≠ [] ∧ ds.length % size = 0 then separator else ""

theorem groupedText_cons (size : Nat) (separator : String) (d : Digit) (ds : List Digit) :
    groupedText size separator (d :: ds) =
      Digits.text [d] ++ separatorBefore size separator ds ++ groupedText size separator ds := by
  rcases Nat.eq_zero_or_pos size with rfl | hsize
  · -- there are no groups, and no digits are a multiple of 0
    have hnone : separatorBefore 0 separator ds = "" :=
      if_neg fun h => h.1 (List.length_eq_zero_iff.1 ((Nat.mod_zero _).symm.trans h.2))
    rw [hnone, String.append_empty]
    exact Digits.text_append [d] ds
  have hgrouping := isGrouping_groups hsize ds
  rw [groupedText, groupedText, if_neg hsize.ne', if_neg hsize.ne', groups_cons]
  unfold separatorBefore
  cases hgs : groups size ds with
  | nil =>
    rw [hgs] at hgrouping
    have hds : ds = [] := hgrouping.flatten.symm
    simp [hds, pushGrouped]
  | cons g gs =>
    rw [hgs] at hgrouping
    have hds : ds ≠ [] := by
      rw [← hgrouping.flatten, List.flatten_cons]
      exact List.append_ne_nil_of_left_ne_nil (hgrouping.first g rfl).1 _
    rw [hgrouping.pushGrouped_eq]
    by_cases hmod : ds.length % size = 0
    · rw [if_pos hmod, if_pos ⟨hds, hmod⟩, List.map_cons, List.map_cons,
        String.intercalate_cons_cons]
    · rw [if_neg hmod, if_neg fun h => hmod h.2, String.append_empty, List.map_cons, List.map_cons,
        show d :: g = [d] ++ g from rfl, Digits.text_append, String.intercalate_cons_append]

/-! ## One pass -/

/-- Writes one of `n` digits, with its index, after those before it. -/
def putDigit (n size : Nat) (separator text : String) : Digit × Nat → String
  | (d, i) =>
    (if 0 < i ∧ (n - i) % size = 0 then text ++ separator else text) ++ Digits.text [d]

/-- The digits written one by one, with a separator wherever the number of digits left is a multiple
of `size`, but not before the first. -/
def insertSeparators (size : Nat) (separator : String) (ds : List Digit) : String :=
  ds.zipIdx.foldl (putDigit ds.length size separator) ""

/-- The digits from an index on come in groups after what is written so far. -/
theorem foldl_putDigit (size : Nat) (separator text : String) {n i : Nat} (ds : List Digit)
    (hi : 0 < i) (hn : n = i + ds.length) :
    (ds.zipIdx i).foldl (putDigit n size separator) text =
      text ++ separatorBefore size separator ds ++ groupedText size separator ds := by
  induction ds generalizing i text with
  | nil => simp [separatorBefore, groupedText_nil]
  | cons d ds ih =>
    have hleft : n - i = (d :: ds).length := by omega
    have hput : putDigit n size separator text (d, i) =
        text ++ separatorBefore size separator (d :: ds) ++ Digits.text [d] := by
      rw [putDigit, separatorBefore, hleft]
      by_cases h : (d :: ds).length % size = 0
      · rw [if_pos ⟨hi, h⟩, if_pos ⟨List.cons_ne_nil _ _, h⟩]
      · rw [if_neg fun hn => h hn.2, if_neg fun hn => h hn.2, String.append_empty]
    have hnext : n = i + 1 + ds.length := by
      rw [hn, List.length_cons]
      omega
    rw [List.zipIdx_cons, List.foldl_cons, hput, ih _ (Nat.succ_pos i) hnext, groupedText_cons]
    simp only [String.append_assoc]

theorem insertSeparators_eq (size : Nat) (separator : String) (ds : List Digit) :
    insertSeparators size separator ds = groupedText size separator ds := by
  cases ds with
  | nil => exact (groupedText_nil size separator).symm
  | cons d ds =>
    have hput : putDigit (d :: ds).length size separator "" (d, 0) = Digits.text [d] := by
      simp [putDigit]
    rw [insertSeparators, List.zipIdx_cons, List.foldl_cons, hput,
      foldl_putDigit size separator _ ds (Nat.succ_pos 0) (by rw [List.length_cons]; omega),
      groupedText_cons]

/-! ## Formatted values -/

namespace Formatter

variable (f : Formatter)

/-- What stands before the integer digits of a number. -/
def beforeInteger (r : ℚ) : String :=
  f.signText r ++ (f.subPattern r).front.text f.symbols f.settings.currency

/-- What stands after its integer digits: the fraction, if it is shown, and an affix. -/
def afterInteger (r : ℚ) (fraction : List Digit) : String :=
  (if fraction = [] ∧ f.settings.separatorAlwaysShown = false then ""
    else f.symbols.decimal ++ Digits.text fraction) ++
  (f.subPattern r).back.text f.symbols f.settings.currency

/-- Only the integer digits are written in groups. -/
theorem writes_iff_integer {r : ℚ} {text : String} :
    f.Writes r text ↔ ∃ (b : NumberBody) (integer : String), b.Shows f.settings.limits |r| ∧
      f.WritesInteger b.integer integer ∧
      text = f.beforeInteger r ++ integer ++ f.afterInteger r b.fraction := by
  constructor
  · rintro ⟨_, _, _, hfront, ⟨b, integer, hb, hinteger, rfl⟩, hback, rfl⟩
    exact ⟨b, integer, hb, hinteger, by simp only [beforeInteger, afterInteger,
      Affix.writes_iff.1 hfront, Affix.writes_iff.1 hback, String.append_assoc]⟩
  · rintro ⟨b, integer, hb, hinteger, rfl⟩
    exact ⟨_, _, _, Affix.writes_iff.2 rfl, ⟨b, integer, hb, hinteger, rfl⟩,
      Affix.writes_iff.2 rfl, by simp only [beforeInteger, afterInteger, String.append_assoc]⟩

theorem format_eq_ok_iff_integer {v : Numeric} {x : ℚ} (hx : v.value? = some x) {text : String} :
    f.format v = .ok text ↔ ∃ r, f.rounded? x = some r ∧
      ∃ (b : NumberBody) (integer : String), b.Shows f.settings.limits |r| ∧
        f.WritesInteger b.integer integer ∧
        text = f.beforeInteger r ++ integer ++ f.afterInteger r b.fraction := by
  simp only [f.format_eq_ok_iff hx, ← writes_iff_shows, writes_iff_integer]

/-- **Grouping.** Digits are written in groups, counted from the right, with a separator between
them, and writing them in one pass gives the same text. Grouping can be switched off in every
formatter. Then it refuses the finite values that it refused before, with the same error, and the
text of any other loses the separators between the integer digits of the rounded result. What stands
before and after these digits does not change. -/
theorem format_ungrouped {size : Nat} (hsize : 0 < size) (separator : String) (ds : List Digit)
    (f : Formatter) {v : Numeric} {x : ℚ} (hx : v.value? = some x) :
    (∃ gs, IsGrouping size ds gs ∧
      groupedText size separator ds = separator.intercalate (gs.map Digits.text)) ∧
    groupedText size separator [] = "" ∧
    insertSeparators size separator ds = groupedText size separator ds ∧
    ∃ g, f.adjust (.groupingUsed false) = .ok g ∧
      (∀ e, g.format v = .error e ↔ f.format v = .error e) ∧
      ∀ text, f.format v = .ok text → ∃ r, f.rounded? x = some r ∧
        ∃ (b : NumberBody) (integer : String), b.Shows f.settings.limits |r| ∧
          f.WritesInteger b.integer integer ∧
          text = f.beforeInteger r ++ integer ++ f.afterInteger r b.fraction ∧
          g.format v =
            .ok (f.beforeInteger r ++ Digits.text b.integer ++ f.afterInteger r b.fraction) := by
  have hgrouped : groupedText size separator ds =
      separator.intercalate ((groups size ds).map Digits.text) := if_neg hsize.ne'
  refine ⟨⟨_, isGrouping_groups hsize ds, hgrouped⟩, groupedText_nil size separator,
    insertSeparators_eq size separator ds, _, rfl, fun e => ?_, fun text htext => ?_⟩
  · rw [format_eq_error_iff _ hx, f.format_eq_error_iff hx]
    exact Iff.rfl
  · obtain ⟨r, hr, b, integer, hb, hinteger, rfl⟩ := (f.format_eq_ok_iff_integer hx).1 htext
    exact ⟨r, hr, b, integer, hb, hinteger, rfl,
      (format_eq_ok_iff_integer _ hx).2 ⟨r, hr, b, _, hb, rfl, rfl⟩⟩

/-- Two separators of two characters each, with a single digit before the first. -/
theorem format_ungrouped_spaced :
    ∃ f, f = { bracketed with symbols := { bracketed.symbols with group := ", " } } ∧ 0 < 3 ∧
      (Numeric.integer (-1234567)).value? = some (-1234567) ∧
      f.format (.integer (-1234567)) = .ok "(1, 234, 567.00)" ∧
      (∃ gs, IsGrouping 3 [1, 2, 3, 4, 5, 6, 7] gs ∧
        "1, 234, 567" = ", ".intercalate (gs.map Digits.text)) ∧
      insertSeparators 3 ", " [1, 2, 3, 4, 5, 6, 7] = "1, 234, 567" ∧
      ∃ g, f.adjust (.groupingUsed false) = .ok g ∧
        (∀ e, g.format (.integer (-1234567)) = .error e ↔
          f.format (.integer (-1234567)) = .error e) ∧
        ∃ r, f.rounded? (-1234567) = some r ∧
          ∃ (b : NumberBody) (integer : String), b.Shows f.settings.limits |r| ∧
            f.WritesInteger b.integer integer ∧
            "(1, 234, 567.00)" = f.beforeInteger r ++ integer ++ f.afterInteger r b.fraction ∧
            g.format (.integer (-1234567)) =
              .ok (f.beforeInteger r ++ Digits.text b.integer ++ f.afterInteger r b.fraction) := by
  have hx : (Numeric.integer (-1234567)).value? = some (-1234567) := by decide +kernel
  have htext : Formatter.format
      { bracketed with symbols := { bracketed.symbols with group := ", " } }
      (.integer (-1234567)) = .ok "(1, 234, 567.00)" := by
    decide +kernel
  have hgrouped : groupedText 3 ", " [1, 2, 3, 4, 5, 6, 7] = "1, 234, 567" := by decide +kernel
  obtain ⟨⟨gs, hgs, hjoin⟩, -, hpass, g, hg, herror, hok⟩ :=
    format_ungrouped (by decide : 0 < 3) ", " [1, 2, 3, 4, 5, 6, 7]
      { bracketed with symbols := { bracketed.symbols with group := ", " } } hx
  exact ⟨_, rfl, by decide, hx, htext, ⟨gs, hgs, hgrouped.symm.trans hjoin⟩,
    hpass.trans hgrouped, g, hg, herror, hok _ htext⟩

end Formatter

end Numerals
