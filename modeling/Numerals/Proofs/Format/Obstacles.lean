import Numerals.Proofs.Format.Construction

/-!
# What keeps a formatter from being made

Making a formatter resolves a pattern, compiles it, resolves the symbols and, for amounts, a
currency. Each of these follows the ancestry of the locale as far as it must, which is to the end
for the symbols. So the outcome depends on two things only: the pattern of the nearest member that
defines one, and the fault of the ancestry. `Formatter.make_obstacles` says how.
-/

namespace Numerals

/-- The text that a formatter of a family is compiled from. -/
def Ancestry.patternText? (a : Ancestry) (family : Family) : Option String :=
  (a.members.findSome? (·.pattern family.category)).map family.cut

namespace Formatter

variable {family : Family} {m : LocaleMap} {symbols : CurrencySymbols} {l : Locale} {text : String}

theorem make_eq_error_of_resolvePattern {e : FormatError}
    (h : m.resolvePattern l family.category = .error e) : make family m symbols l = .error e := by
  cases family with
  | number | integer | currency | percent => exact bind_eq_error_iff.2 (.inl h)

theorem make_eq_error_of_ofPattern {e : FormatError}
    (htext : m.resolvePattern l family.category = .ok text)
    (h : ofPattern family m l (family.cut text) = .error e) :
    make family m symbols l = .error e := by
  cases family with
  | number | integer | currency | percent =>
    exact bind_eq_error_iff.2 (.inr ⟨text, htext, bind_eq_error_iff.2 (.inl h)⟩)

theorem ofPattern_eq_badPattern {e : SyntaxError} (h : Pattern.compile text = .error e) :
    ofPattern family m l text = .error (.badPattern e) := by
  rw [ofPattern, h]
  rfl

theorem ofPattern_eq_error {p : Pattern} {e : FormatError} (hp : Pattern.compile text = .ok p)
    (hs : m.resolveSymbols l = .error e) : ofPattern family m l text = .error e := by
  rw [ofPattern, hp, hs]
  rfl

/-! ## With a pattern -/

/-- A pattern that is found is compiled before the walk goes on. -/
theorem resolvePattern_of_patternText? (h : (m.ancestry l).patternText? family = some text) :
    ∃ found, m.resolvePattern l family.category = .ok found ∧ family.cut found = text := by
  obtain ⟨found, hfound, rfl⟩ := Option.map_eq_some_iff.1 h
  exact ⟨found, LocaleMap.resolvePattern_eq_ok_iff.2 hfound, rfl⟩

theorem make_eq_badPattern {e : SyntaxError} (h : (m.ancestry l).patternText? family = some text)
    (he : Pattern.compile text = .error e) : make family m symbols l = .error (.badPattern e) := by
  obtain ⟨found, hfound, rfl⟩ := resolvePattern_of_patternText? h
  exact make_eq_error_of_ofPattern hfound (ofPattern_eq_badPattern he)

theorem make_eq_inheritance {p : Pattern} {fault : InheritanceFault}
    (h : (m.ancestry l).patternText? family = some text) (hp : Pattern.compile text = .ok p)
    (hf : (m.ancestry l).fault = some fault) :
    make family m symbols l = .error (.inheritance fault) := by
  obtain ⟨found, hfound, rfl⟩ := resolvePattern_of_patternText? h
  exact make_eq_error_of_ofPattern hfound
    (ofPattern_eq_error hp (LocaleMap.resolveSymbols_of_fault hf))

theorem exists_make_of_patternText? {p : Pattern}
    (h : (m.ancestry l).patternText? family = some text) (hp : Pattern.compile text = .ok p)
    (hf : (m.ancestry l).fault = none) : ∃ f, make family m symbols l = .ok f := by
  obtain ⟨found, hfound, rfl⟩ := resolvePattern_of_patternText? h
  obtain ⟨s, hs⟩ := LocaleMap.exists_resolveSymbols hf
  obtain ⟨code, hcode⟩ := LocaleMap.exists_resolveCurrency hf
  obtain ⟨f, hmake, -⟩ := exists_make_of_resolves hfound hp hs hcode
  exact ⟨f, hmake⟩

/-! ## Without a pattern -/

theorem make_of_patternText?_eq_none (h : (m.ancestry l).patternText? family = none) :
    make family m symbols l = .error
      ((m.ancestry l).fault.elim (.missingRootPattern family.category) .inheritance) :=
  make_eq_error_of_resolvePattern
    (LocaleMap.resolvePattern_of_findSome?_eq_none (Option.map_eq_none_iff.1 h))

/-- **What keeps a formatter from being made.** It is made exactly if the nearest pattern compiles
and the ancestry has no fault, wherever that would be. Otherwise the pattern's error comes first,
then the fault, and then that there is no pattern. -/
theorem make_obstacles (family : Family) (m : LocaleMap) (symbols : CurrencySymbols) (l : Locale) :
    ((∃ f, make family m symbols l = .ok f) ↔
        (∃ text p, (m.ancestry l).patternText? family = some text ∧
          Pattern.compile text = .ok p) ∧ (m.ancestry l).fault = none) ∧
      (∀ text e, (m.ancestry l).patternText? family = some text → Pattern.compile text = .error e →
        make family m symbols l = .error (.badPattern e)) ∧
      (∀ fault, (m.ancestry l).fault = some fault →
        (∀ text, (m.ancestry l).patternText? family = some text →
          ∃ p, Pattern.compile text = .ok p) →
        make family m symbols l = .error (.inheritance fault)) ∧
      ((m.ancestry l).patternText? family = none → (m.ancestry l).fault = none →
        make family m symbols l = .error (.missingRootPattern family.category)) := by
  refine ⟨⟨?_, ?_⟩, fun text e h he => make_eq_badPattern h he, fun fault hf hcompiles => ?_,
    fun h hf => ?_⟩
  · rintro ⟨f, hmake⟩
    cases h : (m.ancestry l).patternText? family with
    | none =>
      rw [make_of_patternText?_eq_none h] at hmake
      cases hmake
    | some text =>
      cases hp : Pattern.compile text with
      | error e =>
        rw [make_eq_badPattern h hp] at hmake
        cases hmake
      | ok p =>
        cases hf : (m.ancestry l).fault with
        | none => exact ⟨⟨text, p, rfl, hp⟩, rfl⟩
        | some fault =>
          rw [make_eq_inheritance h hp hf] at hmake
          cases hmake
  · rintro ⟨⟨text, p, h, hp⟩, hf⟩
    exact exists_make_of_patternText? h hp hf
  · cases h : (m.ancestry l).patternText? family with
    | none => rw [make_of_patternText?_eq_none h, hf, Option.elim_some]
    | some text =>
      obtain ⟨p, hp⟩ := hcompiles text h
      exact make_eq_inheritance h hp hf
  · rw [make_of_patternText?_eq_none h, hf, Option.elim_none]

/-- The United States have a pattern, but English above them names itself as parent. -/
theorem make_obstacles_above :
    let english : Locale := { language := "en" }
    let american : Locale := { language := "en", territory := "US" }
    let m := LocaleMap.ofList
      [{ id := american, parent := some english, currencyPattern := some "¤0.00" },
        { id := english, parent := some english }]
    (m.ancestry american).fault = some (.invalidParent english english) ∧
      (m.ancestry american).patternText? .currency = some "¤0.00" ∧
      ∀ symbols, make .currency m symbols american =
        .error (.inheritance (.invalidParent english english)) := by
  intro english american m
  have hf : (m.ancestry american).fault = some (.invalidParent english english) := by
    decide +kernel
  have htext : (m.ancestry american).patternText? .currency = some "¤0.00" := by
    decide +kernel
  have hcompiles : (Pattern.compile "¤0.00").isOk := by
    decide +kernel
  refine ⟨hf, htext, fun symbols => (make_obstacles .currency m symbols american).2.2.1 _ hf ?_⟩
  intro text h
  cases htext.symm.trans h
  cases hp : Pattern.compile "¤0.00" with
  | error e => simp [hp, Except.isOk, Except.toBool] at hcompiles
  | ok p => exact ⟨p, rfl⟩

end Formatter

end Numerals
