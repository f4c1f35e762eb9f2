import Numerals.Proofs.Format.Decoding
import Numerals.Proofs.Format.Separators
import Numerals.Proofs.Format.SignSymmetry

/-!
# Whether the sign shows

Values with opposite rounded results have the same body, so their texts differ just where the
affixes for either sign make different texts around it. Where a pattern has none for negative
numbers, the minus sign tells the two apart; where it has them, they may be written like those of
the positive sub-pattern, and then nothing does (`Formatter.surround_true_eq_iff`).

Around a body with a digit, affixes without digits make the same text only where they are the same
one by one (`Digitless.append_inj`). `Formatter.format_eq_iff_of_opposite` puts this together.
Infinities have no digits: the two of them share a text just where the pattern has affixes for
negative numbers that make the same text as the positive ones around the symbol of infinity
(`Formatter.format_infinite_eq_iff`).
-/

namespace Numerals

/-! ## Texts around a number -/

/-- Fronts without digits end at the first digit of what they stand before. -/
theorem append_inj_of_front {front front' back back' body : List Char}
    (hbody : ∃ c ∈ body, c.isDigit = true) (hfront : ∀ c ∈ front, c.isDigit = false)
    (hfront' : ∀ c ∈ front', c.isDigit = false)
    (h : front ++ body ++ back = front' ++ body ++ back') : front = front' ∧ back = back' := by
  have hshort : ¬(body.takeWhile (!·.isDigit)).length = body.length := by
    obtain ⟨c, hc, hdigit⟩ := hbody
    intro hlen
    have hall := (List.takeWhile_prefix fun c : Char => !c.isDigit).eq_of_length hlen
    have := List.takeWhile_eq_self_iff.1 hall c hc
    simp [hdigit] at this
  have hread {f b : List Char} (hf : ∀ c ∈ f, c.isDigit = false) :
      (f ++ body ++ b).takeWhile (!·.isDigit) = f ++ body.takeWhile (!·.isDigit) := by
    rw [List.append_assoc, List.takeWhile_append_of_pos fun c hc => by simp [hf c hc],
      List.takeWhile_append, if_neg hshort]
  have hreads := congrArg (List.takeWhile (!·.isDigit)) h
  rw [hread hfront, hread hfront'] at hreads
  obtain rfl := List.append_cancel_right hreads
  exact ⟨rfl, List.append_cancel_left h⟩

/-- Likewise backs, from the other end. -/
theorem append_inj_of_back {front front' back back' body : List Char}
    (hbody : ∃ c ∈ body, c.isDigit = true) (hback : ∀ c ∈ back, c.isDigit = false)
    (hback' : ∀ c ∈ back', c.isDigit = false)
    (h : front ++ body ++ back = front' ++ body ++ back') : front = front' ∧ back = back' := by
  have hreverse := congrArg List.reverse h
  simp only [List.reverse_append, ← List.append_assoc] at hreverse
  have hbody' : ∃ c ∈ body.reverse, c.isDigit = true := by simpa using hbody
  have hinj := append_inj_of_front hbody' (by simpa using hback) (by simpa using hback') hreverse
  exact ⟨List.reverse_injective hinj.2, List.reverse_injective hinj.1⟩

/-- A text without digits. -/
def Digitless (text : String) : Prop :=
  ∀ c ∈ text.toList, c.isDigit = false

theorem Digitless.append_inj {front front' back back' body : String}
    (hbody : ∃ c ∈ body.toList, c.isDigit = true)
    (h : Digitless front ∧ Digitless front' ∨ Digitless back ∧ Digitless back')
    (heq : front ++ body ++ back = front' ++ body ++ back') : front = front' ∧ back = back' := by
  have heq := congrArg String.toList heq
  simp only [String.toList_append] at heq
  have hinj : front.toList = front'.toList ∧ back.toList = back'.toList := by
    rcases h with ⟨hfront, hfront'⟩ | ⟨hback, hback'⟩
    · exact append_inj_of_front hbody hfront hfront' heq
    · exact append_inj_of_back hbody hback hback' heq
  exact ⟨String.toList_inj.1 hinj.1, String.toList_inj.1 hinj.2⟩

/-! ## Digits of a body -/

theorem exists_isDigit_groupedText (size : Nat) (separator : String) {ds : List Digit}
    (h : ds ≠ []) : ∃ c ∈ (groupedText size separator ds).toList, c.isDigit = true := by
  obtain ⟨d, ds, rfl⟩ := List.exists_cons_of_ne_nil h
  refine ⟨Digits.char d, ?_, Digits.isDigit_char d⟩
  rw [groupedText_cons, String.append_assoc, String.toList_append, Digits.toList_text]
  exact List.mem_append_left _ List.mem_cons_self

theorem NumberBody.Shows.ne_nil {b : NumberBody} {l : DigitLimits} {r : ℚ} (h : b.Shows l r) :
    b.integer ≠ [] ∨ b.fraction ≠ [] := by
  by_contra! hnone
  obtain ⟨hinteger, hfraction⟩ := hnone
  have hlength := h.integer_length
  rw [hinteger, List.length_nil] at hlength
  split at hlength
  · cases hlength
  · next hcount => exact hcount ⟨hlength.symm, hfraction⟩

namespace Formatter

variable {f : Formatter}

theorem WritesBody.exists_isDigit {r : ℚ} {body : String} (h : f.WritesBody r body) :
    ∃ c ∈ body.toList, c.isDigit = true := by
  obtain ⟨b, hb, rfl⟩ := f.writesBody_iff_shows.1 h
  unfold NumberBody.text
  dsimp only
  split
  · next hnone =>
    have hfraction := List.isEmpty_iff.1 (Bool.and_eq_true_iff.1 hnone).1
    exact exists_isDigit_groupedText _ _ (hb.ne_nil.resolve_right (absurd hfraction))
  · rcases hb.ne_nil with hinteger | hfraction
    · obtain ⟨c, hc, hdigit⟩ := exists_isDigit_groupedText f.groupingSize f.symbols.group hinteger
      exact ⟨c, by simp [hc], hdigit⟩
    · obtain ⟨d, ds, hds⟩ := List.exists_cons_of_ne_nil hfraction
      refine ⟨Digits.char d, ?_, Digits.isDigit_char d⟩
      simp [Digits.toList_text, hds]

/-! ## Shown signs -/

/-- What a sub-pattern writes before a number. -/
def frontText (f : Formatter) (s : SubPattern) : String :=
  s.front.text f.symbols f.settings.currency

/-- What a sub-pattern writes after a number. -/
def backText (f : Formatter) (s : SubPattern) : String :=
  s.back.text f.symbols f.settings.currency

/-- A number is written alike for either sign only where the pattern has affixes for negative
numbers that make the same text. -/
theorem surround_true_eq_iff (hminus : f.symbols.minusSign ≠ "") (body : String) :
    f.surround true body = f.surround false body ↔
      ∃ sub, f.pattern.negative = some sub ∧ f.frontText sub ++ body ++ f.backText sub =
        f.frontText f.pattern.positive ++ body ++ f.backText f.pattern.positive := by
  cases hnegative : f.pattern.negative with
  | none =>
    rw [surround_true hnegative]
    simp only [reduceCtorEq, false_and, exists_false, iff_false]
    exact fun h => hminus (String.append_eq_right_iff.1 h)
  | some sub =>
    simp only [Option.some.injEq, exists_eq_left', surround, Pattern.surround, hnegative]
    rfl

theorem format_infinite_eq_iff (hminus : f.symbols.minusSign ≠ "") {x y : Binary64}
    (hx : x.isFinite = false) (hy : y.isFinite = false) (hxnan : x.isNaN = false)
    (hynan : y.isNaN = false) (hsign : y.negative = !x.negative) :
    f.format (.real x) = f.format (.real y) ↔
      ∃ sub, f.pattern.negative = some sub ∧
        f.frontText sub ++ f.symbols.infinity ++ f.backText sub =
          f.frontText f.pattern.positive ++ f.symbols.infinity ++
            f.backText f.pattern.positive := by
  rw [format_of_infinite f hx hxnan, format_of_infinite f hy hynan, hsign, Except.ok.injEq,
    ← surround_true_eq_iff hminus]
  cases x.negative <;> cases f.settings.multiplier.isNegative <;> simp [eq_comm]

/-- **Shown signs.** Two values with opposite rounded results, not zero, are formatted with the same
body between the affixes for their signs. Their texts differ, unless the pattern has affixes for
negative numbers which make the same text around that body as the positive ones. Where the fronts
are written without digits, or the backs, that is where the fronts are written alike and so are the
backs. -/
theorem format_eq_iff_of_opposite (f : Formatter) (hminus : f.symbols.minusSign ≠ "")
    {v w : Numeric} {x y r : ℚ} (hx : v.value? = some x) (hy : w.value? = some y)
    (hr : f.rounded? x = some r) (hs : f.rounded? y = some (-r)) (hr0 : r ≠ 0) :
    ∃ s t body, f.format v = .ok s ∧ f.format w = .ok t ∧ f.WritesBody |r| body ∧
      (f.pattern.negative = none → s ≠ t) ∧
      ∀ sub, f.pattern.negative = some sub →
        (s = t ↔ f.frontText sub ++ body ++ f.backText sub =
          f.frontText f.pattern.positive ++ body ++ f.backText f.pattern.positive) ∧
        (Digitless (f.frontText sub) ∧ Digitless (f.frontText f.pattern.positive) ∨
            Digitless (f.backText sub) ∧ Digitless (f.backText f.pattern.positive) →
          (s = t ↔ f.frontText sub = f.frontText f.pattern.positive ∧
            f.backText sub = f.backText f.pattern.positive)) := by
  obtain ⟨body, hbody⟩ := f.exists_writesBody hx hr
  have hv := f.format_of_rounded? hx hr hbody
  have hbody' : f.WritesBody |-r| body := by rwa [abs_neg]
  have hw := f.format_of_rounded? hy hs hbody'
  rw [decide_neg_lt_zero hr0] at hw
  have hshown : f.surround (decide (r < 0)) body = f.surround (!decide (r < 0)) body ↔
      f.surround true body = f.surround false body := by
    cases decide (r < 0)
    · exact eq_comm
    · exact Iff.rfl
  have hsame := hshown.trans (surround_true_eq_iff hminus body)
  refine ⟨_, _, body, hv, hw, hbody, fun hnone heq => ?_, fun sub hsub => ?_⟩
  · obtain ⟨sub, hsub, -⟩ := hsame.1 heq
    cases hnone.symm.trans hsub
  · rw [hsub] at hsame
    simp only [Option.some.injEq, exists_eq_left'] at hsame
    refine ⟨hsame, fun hdigitless => hsame.trans ⟨fun heq => ?_, fun h => by rw [h.1, h.2]⟩⟩
    exact Digitless.append_inj hbody.exists_isDigit hdigitless heq

/-- The middle between two cents of either sign. -/
theorem format_eq_iff_of_opposite_halfway :
    ∃ w s t body, bracketed.symbols.minusSign ≠ "" ∧ halfway.value? = some (-1234.565) ∧
      w.value? = some 1234.565 ∧ bracketed.rounded? (-1234.565) = some (-1234.56) ∧
      bracketed.rounded? 1234.565 = some (- -1234.56) ∧ (-1234.56 : ℚ) ≠ 0 ∧
      bracketed.format halfway = .ok s ∧ bracketed.format w = .ok t ∧
      bracketed.WritesBody |-1234.56| body ∧
      (s = t ↔ "(" ++ body ++ ")" = "" ++ body ++ "") ∧ (s = t ↔ "(" = "" ∧ ")" = "") := by
  have hminus : bracketed.symbols.minusSign ≠ "" := by decide
  have hx : halfway.value? = some (-1234.565) := by decide +kernel
  have hy : (Numeric.real (.ofBits 0x40934A428F5C28F6)).value? = some 1234.565 := by decide +kernel
  have hr : bracketed.rounded? (-1234.565) = some (-1234.56) := by decide +kernel
  have hs : bracketed.rounded? 1234.565 = some (- -1234.56) := by decide +kernel
  have hr0 : (-1234.56 : ℚ) ≠ 0 := by decide +kernel
  obtain ⟨s, t, body, hv, hw, hbody, -, hnegative⟩ :=
    format_eq_iff_of_opposite bracketed hminus hx hy hr hs hr0
  obtain ⟨hiff, hdigitless⟩ := hnegative _ rfl
  have hfront : Digitless "(" := by simp [Digitless]
  have hnone : Digitless "" := by simp [Digitless]
  exact ⟨_, s, t, body, hminus, hx, hy, hr, hs, hr0, hv, hw, hbody, hiff,
    hdigitless (.inl ⟨hfront, hnone⟩)⟩

/-- A formatter of the pattern `0;0`, which writes both signs alike. -/
def alike : Formatter where
  family := .number
  locale := .root
  pattern := { negative := some {} }
  symbols := {}
  settings := {}

theorem format_alike :
    number (.ofList [{ id := .root, decimalPattern := some "0;0" }]) .root = .ok alike ∧
      alike.symbols.minusSign ≠ "" ∧ (Numeric.integer 5).value? = some 5 ∧
      (Numeric.integer (-5)).value? = some (-5) ∧ alike.rounded? 5 = some 5 ∧
      alike.rounded? (-5) = some (-5) ∧ alike.format (.integer 5) = .ok "5" ∧
      alike.format (.integer (-5)) = .ok "5" := by
  decide +kernel

end Formatter

end Numerals
