import Numerals.Proofs.Decimal.Numeral
import Numerals.Proofs.Format.Output
import Numerals.Proofs.Pattern.Glyphs

/-!
# Reading numbers back

The digits that a text shows can be read off it where the decimal separator is told apart from
digits and from the grouping separator (`NumberBody.read_text`): the last gap between digits, if it
is the decimal separator, divides them. So texts that are the same show the same digits, and
formatting loses nothing but what rounding and the cut of integer digits take away
(`Formatter.format_injective`).
-/

namespace Numerals

/-! ## Gaps between digits -/

/-- What stands before the last digits of a text and after the digits before that. -/
def lastGap (cs : List Char) : List Char :=
  (cs.rdropWhile Char.isDigit).rtakeWhile (!·.isDigit)

theorem lastGap_append {front gap back : List Char}
    (hfront : ∀ c ∈ front.getLast?, c.isDigit = true) (hgap : ∀ c ∈ gap, c.isDigit = false)
    (hne : gap ≠ []) (hback : ∀ c ∈ back, c.isDigit = true) :
    lastGap (front ++ gap ++ back) = gap := by
  have hlast : ∀ c ∈ (front ++ gap).getLast?, c.isDigit = false := by
    rw [List.getLast?_append_of_ne_nil _ hne]
    exact fun c hc => hgap c (List.mem_of_mem_getLast? hc)
  rw [lastGap, (rdropWhile_rtakeWhile_append hlast hback).1]
  exact (rdropWhile_rtakeWhile_append (fun c hc => by simp [hfront c hc])
    (fun c hc => by simp [hgap c hc])).2

theorem lastGap_append_digits (front : List Char) {back : List Char}
    (hback : ∀ c ∈ back, c.isDigit = true) : lastGap (front ++ back) = lastGap front := by
  rw [lastGap, rdropWhile_append, if_pos (List.rdropWhile_eq_nil_iff.2 hback), lastGap]

/-! ## Grouped digits -/

theorem intercalate_concat {α : Type} (sep : List α) {gs : List (List α)} (h : gs ≠ [])
    (g : List α) : sep.intercalate (gs ++ [g]) = sep.intercalate gs ++ sep ++ g := by
  induction gs with
  | nil => exact absurd rfl h
  | cons k gs ih =>
    cases gs with
    | nil => simp [List.intercalate_cons_cons]
    | cons k' gs =>
      rw [List.cons_append, List.cons_append, List.intercalate_cons_cons, ← List.cons_append,
        ih (List.cons_ne_nil _ _), List.intercalate_cons_cons]
      simp only [List.append_assoc]

/-- A text ends in digits, has just the digits `ds`, and no other last gap than a separator. -/
structure Grouped (separator : List Char) (ds : List Digit) (cs : List Char) : Prop where
  digits : cs.filter Char.isDigit = ds.map Digits.char
  last : ∀ c ∈ cs.getLast?, c.isDigit = true
  gap : lastGap cs = [] ∨ lastGap cs = separator

namespace Grouped

theorem row (separator : List Char) (ds : List Digit) :
    Grouped separator ds (ds.map Digits.char) where
  digits := List.filter_eq_self.2 (Digits.isDigit_of_mem_map ds)
  last c hc := Digits.isDigit_of_mem_map ds c (List.mem_of_mem_getLast? hc)
  gap := .inl (lastGap_append_digits [] (Digits.isDigit_of_mem_map ds))

theorem concat {separator cs : List Char} {ds g : List Digit} (h : Grouped separator ds cs)
    (hseparator : ∀ c ∈ separator, c.isDigit = false) (hg : g ≠ []) :
    Grouped separator (ds ++ g) (cs ++ separator ++ g.map Digits.char) := by
  have hfilter : separator.filter Char.isDigit = [] :=
    List.filter_eq_nil_iff.2 fun c hc => by simp [hseparator c hc]
  refine ⟨?_, fun c hc => ?_, ?_⟩
  · rw [List.filter_append, List.filter_append, hfilter, h.digits, (row separator g).digits,
      List.append_nil, List.map_append]
  · rw [List.getLast?_append_of_ne_nil _ (by simpa using hg)] at hc
    exact (row separator g).last c hc
  · by_cases hempty : separator = []
    · subst hempty
      rw [List.append_nil, lastGap_append_digits _ (Digits.isDigit_of_mem_map g)]
      exact h.gap
    · exact .inr (lastGap_append h.last hseparator hempty (Digits.isDigit_of_mem_map g))

theorem intercalate {separator : List Char} (hseparator : ∀ c ∈ separator, c.isDigit = false)
    {gs : List (List Digit)} (hgs : ∀ g ∈ gs, g ≠ []) :
    Grouped separator gs.flatten (separator.intercalate (gs.map (·.map Digits.char))) := by
  induction gs using List.reverseRecOn with
  | nil => exact row separator []
  | append_singleton gs g ih =>
    rcases eq_or_ne gs [] with rfl | hne
    · simpa using row separator g
    · have h := ih fun k hk => hgs k (List.mem_append_left _ hk)
      rw [List.map_append, List.map_singleton, intercalate_concat _ (by simpa using hne),
        List.flatten_append, List.flatten_singleton]
      exact h.concat hseparator (hgs g (by simp))

end Grouped

theorem IsGrouping.ne_nil {size : Nat} (hsize : 0 < size) {ds : List Digit}
    {gs : List (List Digit)} (h : IsGrouping size ds gs) : ∀ g ∈ gs, g ≠ [] := by
  cases gs with
  | nil => simp
  | cons g gs =>
    intro k hk
    rcases List.mem_cons.1 hk with rfl | hk
    · exact (h.first k rfl).1
    · exact List.ne_nil_of_length_pos ((h.rest k hk).symm ▸ hsize)

theorem grouped_groupedText (size : Nat) {separator : String}
    (h : ∀ c ∈ separator.toList, c.isDigit = false) (ds : List Digit) :
    Grouped separator.toList ds (groupedText size separator ds).toList := by
  unfold groupedText
  split
  · rw [Digits.toList_text]
    exact .row _ ds
  · next hsize =>
    have hgroups := isGrouping_groups (Nat.pos_of_ne_zero hsize) ds
    have hgrouped := Grouped.intercalate h (hgroups.ne_nil (Nat.pos_of_ne_zero hsize))
    rw [hgroups.flatten] at hgrouped
    simpa only [String.toList_intercalate, List.map_map, Function.comp_def, Digits.toList_text]
      using hgrouped

/-! ## Bodies -/

/-- The decimal separator is told apart from digits and from the grouping separator. -/
structure Symbols.Readable (s : Symbols) : Prop where
  decimal_ne : s.decimal ≠ ""
  decimal : ∀ c ∈ s.decimal.toList, c.isDigit = false
  group : ∀ c ∈ s.group.toList, c.isDigit = false
  ne : s.decimal ≠ s.group

namespace NumberBody

/-- The characters of the integer and of the fraction digits in the text of a body. The last gap
divides them, if it is the decimal separator. -/
def read (decimal : String) (cs : List Char) : List Char × List Char :=
  if lastGap cs = decimal.toList then
    ((cs.rdropWhile Char.isDigit).filter Char.isDigit, cs.rtakeWhile Char.isDigit)
  else (cs.filter Char.isDigit, [])

/-- The digits of a body can be read off its text. -/
theorem read_text {symbols : Symbols} (h : symbols.Readable) (b : NumberBody) (size : Nat)
    (separatorAlwaysShown : Bool) :
    read symbols.decimal (b.text size separatorAlwaysShown symbols).toList =
      (b.integer.map Digits.char, b.fraction.map Digits.char) := by
  have hinteger := grouped_groupedText size h.group b.integer
  unfold text
  dsimp only
  split
  · next hnone =>
    have hfraction : b.fraction = [] := List.isEmpty_iff.1 (Bool.and_eq_true_iff.1 hnone).1
    have hgap : lastGap (groupedText size symbols.group b.integer).toList ≠
        symbols.decimal.toList := by
      rcases hinteger.gap with hgap | hgap <;> rw [hgap]
      · exact fun he => h.decimal_ne (by simpa using he.symm)
      · exact fun he => h.ne (String.toList_inj.1 he.symm)
    rw [read, if_neg hgap, hinteger.digits, hfraction, List.map_nil]
  · have hne : symbols.decimal.toList ≠ [] := fun he => h.decimal_ne (by simpa using he)
    have hdecimal : symbols.decimal.toList.filter Char.isDigit = [] :=
      List.filter_eq_nil_iff.2 fun c hc => by simp [h.decimal c hc]
    have hlast : ∀ c ∈ ((groupedText size symbols.group b.integer).toList ++
        symbols.decimal.toList).getLast?, c.isDigit = false := by
      rw [List.getLast?_append_of_ne_nil _ hne]
      exact fun c hc => h.decimal c (List.mem_of_mem_getLast? hc)
    obtain ⟨hdrop, htake⟩ := rdropWhile_rtakeWhile_append hlast
      (Digits.isDigit_of_mem_map b.fraction)
    rw [String.toList_append, String.toList_append, Digits.toList_text, read,
      if_pos (lastGap_append hinteger.last h.decimal hne (Digits.isDigit_of_mem_map _)), hdrop,
      htake, List.filter_append, hdecimal, List.append_nil, hinteger.digits]

theorem text_injective {symbols : Symbols} (h : symbols.Readable) (size : Nat)
    (separatorAlwaysShown : Bool) {b c : NumberBody}
    (htext : b.text size separatorAlwaysShown symbols = c.text size separatorAlwaysShown symbols) :
    b = c := by
  have hread := b.read_text h size separatorAlwaysShown
  rw [htext, c.read_text h size separatorAlwaysShown, Prod.mk.injEq] at hread
  obtain ⟨_, _⟩ := b
  obtain ⟨_, _⟩ := c
  rw [mk.injEq]
  exact ⟨(Digits.char_injective.list_map hread.1).symm,
    (Digits.char_injective.list_map hread.2).symm⟩

/-- Magnitudes that show the same digits are the same, if no integer digit is cut off. -/
theorem Shows.eq_of_length_le {b : NumberBody} {l : DigitLimits} {r s : ℚ} (hr : b.Shows l r)
    (hs : b.Shows l s) (hr0 : 0 ≤ r) (hs0 : 0 ≤ s)
    (hrmax : (Nat.digits 10 ⌊r⌋₊).length ≤ l.maxInteger)
    (hsmax : (Nat.digits 10 ⌊s⌋₊).length ≤ l.maxInteger) : r = s := by
  have hmod (n : ℕ) (hn : (Nat.digits 10 n).length ≤ l.maxInteger) : n % 10 ^ l.maxInteger = n :=
    Nat.mod_eq_of_lt ((Nat.lt_base_pow_length_digits (by decide)).trans_le
      (Nat.pow_le_pow_right (by decide) hn))
  have hfloor : ⌊r⌋₊ = ⌊s⌋₊ := by
    rw [← hmod _ hrmax, ← hr.integer_value, hs.integer_value, hmod _ hsmax]
  have hfract : Int.fract r = Int.fract s := hr.fraction_value.symm.trans hs.fraction_value
  calc r = ⌊r⌋ + Int.fract r := (Int.floor_add_fract r).symm
    _ = ⌊r⌋₊ + Int.fract r := by rw [natCast_floor_eq_intCast_floor hr0]
    _ = ⌊s⌋₊ + Int.fract s := by rw [hfloor, hfract]
    _ = ⌊s⌋ + Int.fract s := by rw [natCast_floor_eq_intCast_floor hs0]
    _ = s := Int.floor_add_fract s

end NumberBody

/-! ## Formatted values -/

theorem SubPattern.surround_injective (s : SubPattern) (symbols : Symbols)
    (currency : Option Currency) {body body' : String}
    (h : s.surround symbols currency body = s.surround symbols currency body') : body = body' :=
  (String.append_right_inj _).1 ((String.append_left_inj _).1 h)

theorem Pattern.surround_injective (p : Pattern) (symbols : Symbols) (currency : Option Currency)
    (negative : Bool) {body body' : String}
    (h : p.surround symbols currency negative body = p.surround symbols currency negative body') :
    body = body' := by
  unfold Pattern.surround at h
  split at h
  · split at h
    · exact SubPattern.surround_injective _ _ _ h
    · exact SubPattern.surround_injective _ _ _ ((String.append_right_inj _).1 h)
  · exact SubPattern.surround_injective _ _ _ h

namespace Formatter

/-- **Formatting is injective but for rounding and cutting.** Let the decimal separator be told
apart from digits and from the grouping separator. Two finite values with one text, whose rounded
results have one sign and no more integer digits than are shown, have one rounded result. -/
theorem format_injective {f : Formatter} (hf : f.symbols.Readable) {v w : Numeric}
    {x y r s : ℚ} {text : String} (hx : v.value? = some x) (hy : w.value? = some y)
    (hv : f.format v = .ok text) (hw : f.format w = .ok text) (hr : f.rounded? x = some r)
    (hs : f.rounded? y = some s) (hsign : r < 0 ↔ s < 0)
    (hrmax : (Nat.digits 10 ⌊|r|⌋₊).length ≤ f.settings.limits.maxInteger)
    (hsmax : (Nat.digits 10 ⌊|s|⌋₊).length ≤ f.settings.limits.maxInteger) : r = s := by
  obtain ⟨r', hr', b, hb, htext⟩ := (f.format_eq_ok_iff hx).1 hv
  obtain ⟨s', hs', c, hc, htext'⟩ := (f.format_eq_ok_iff hy).1 hw
  cases hr.symm.trans hr'
  cases hs.symm.trans hs'
  have hbody := htext.symm.trans htext'
  rw [decide_eq_decide.2 hsign] at hbody
  have hbc : b = c :=
    NumberBody.text_injective hf _ _ (Pattern.surround_injective _ _ _ _ hbody)
  have habs : |r| = |s| :=
    hb.eq_of_length_le (hbc ▸ hc) (abs_nonneg r) (abs_nonneg s) hrmax hsmax
  rcases lt_or_ge r 0 with h | h
  · rw [abs_of_neg h, abs_of_neg (hsign.1 h)] at habs
    exact neg_injective habs
  · rwa [abs_of_nonneg h, abs_of_nonneg (not_lt.1 fun hlt => h.not_gt (hsign.2 hlt))] at habs

/-- The middle between two cents, and the even one of them. -/
theorem format_injective_halfway :
    ∃ w r s, bracketed.symbols.Readable ∧ halfway.value? = some (-1234.565) ∧
      w.value? = some (-1234.56) ∧ bracketed.format halfway = .ok "(1,234.56)" ∧
      bracketed.format w = .ok "(1,234.56)" ∧ bracketed.rounded? (-1234.565) = some r ∧
      bracketed.rounded? (-1234.56) = some s ∧ r = s := by
  have hsymbols : bracketed.symbols.Readable :=
    ⟨by decide, by simp [bracketed], by simp [bracketed], by decide⟩
  have hx : halfway.value? = some (-1234.565) := by decide +kernel
  have hy : (Numeric.real (.ofBits 0xC0934A3D70A3D70A)).value? = some (-1234.56) := by
    decide +kernel
  have hv : bracketed.format halfway = .ok "(1,234.56)" := by decide +kernel
  have hw : bracketed.format (.real (.ofBits 0xC0934A3D70A3D70A)) = .ok "(1,234.56)" := by
    decide +kernel
  have hr : bracketed.rounded? (-1234.565) = some (-1234.56) := by decide +kernel
  have hs : bracketed.rounded? (-1234.56) = some (-1234.56) := by decide +kernel
  have hmax : (Nat.digits 10 ⌊|(-1234.56 : ℚ)|⌋₊).length ≤
      bracketed.settings.limits.maxInteger := by
    decide +kernel
  exact ⟨_, _, _, hsymbols, hx, hy, hv, hw, hr, hs,
    format_injective hsymbols hx hy hv hw hr hs Iff.rfl hmax hmax⟩

end Formatter

end Numerals
