import Numerals.Locale.Bundled

/-!
# Accepted locale data

`Catalog.ofList` accepts data exactly if they are `Catalog.Acceptable`, and the catalog then holds
every one of them under its identifier, and nothing else (`Catalog.ofList_get?_eq_some_iff`).

The order of the data does not matter. Data with distinct identifiers are looked up the same in any
order, and the locales are checked in the order of their identifiers, so the first defect is the
same as well (`Catalog.defect_perm`). `Catalog.ofList_accepts` puts this together.
-/

namespace Numerals

namespace Table

variable {κ ν : Type} [DecidableEq κ]

theorem get?_foldl_insert_of_notMem {t : Table κ ν} {entries : List (κ × ν)} {k : κ}
    (h : k ∉ entries.map Prod.fst) :
    (entries.foldl (fun t e => t.insert e.1 e.2) t).get? k = t.get? k := by
  induction entries generalizing t with
  | nil => rfl
  | cons e es ih =>
    simp only [List.map_cons, List.mem_cons, not_or] at h
    rw [List.foldl_cons, ih h.2, get?_insert, if_neg h.1]

theorem get?_ofList_eq_some_iff {entries : List (κ × ν)} (hn : (entries.map Prod.fst).Nodup)
    {k : κ} {v : ν} : (ofList entries).get? k = some v ↔ (k, v) ∈ entries := by
  refine ⟨mem_of_get?_ofList, fun hm => ?_⟩
  obtain ⟨before, after, rfl⟩ := List.append_of_mem hm
  rw [List.map_append, List.map_cons, List.nodup_append] at hn
  have hafter : k ∉ after.map Prod.fst := (List.nodup_cons.1 hn.2.1).1
  rw [ofList, List.foldl_append, List.foldl_cons, get?_foldl_insert_of_notMem hafter, get?_insert,
    if_pos rfl]

end Table

namespace LocaleMap

theorem get?_ofList_eq_some_iff {ds : List LocaleData} (hn : (ds.map (·.id)).Nodup) {l : Locale}
    {d : LocaleData} : (ofList ds).get? l = some d ↔ d ∈ ds ∧ d.id = l := by
  have hkeys : ((ds.map fun d => (d.id, d)).map Prod.fst).Nodup := by
    rw [List.map_map]
    exact hn
  rw [ofList, Table.get?_ofList_eq_some_iff hkeys, List.mem_map]
  constructor
  · intro hmem
    obtain ⟨e, he, hed⟩ := hmem
    cases hed
    exact ⟨he, rfl⟩
  · intro hmem
    obtain ⟨hd, rfl⟩ := hmem
    exact ⟨d, hd, rfl⟩

theorem contains_ofList_iff {ds : List LocaleData} (hn : (ds.map (·.id)).Nodup) {l : Locale} :
    (ofList ds).contains l ↔ ∃ d ∈ ds, d.id = l := by
  rw [Table.contains, Option.isSome_iff_exists]
  exact exists_congr fun d => get?_ofList_eq_some_iff hn

theorem get?_ofList_perm {ds es : List LocaleData} (h : ds.Perm es) (hn : (ds.map (·.id)).Nodup)
    (l : Locale) : (ofList ds).get? l = (ofList es).get? l := by
  have hn' := (h.map (·.id)).nodup_iff.1 hn
  refine Option.ext fun d => ?_
  rw [get?_ofList_eq_some_iff hn, get?_ofList_eq_some_iff hn', h.mem_iff]

end LocaleMap

namespace Catalog

/-! ## Absence of defects -/

theorem firstRepeated_eq_none_iff {seen ls : List Locale} :
    firstRepeated seen ls = none ↔ ls.Nodup ∧ ∀ l ∈ ls, l ∉ seen := by
  induction ls generalizing seen with
  | nil => simp [firstRepeated]
  | cons l ls ih =>
    by_cases h : l ∈ seen
    · simp [firstRepeated, h]
    · simp only [firstRepeated, if_neg h, ih, List.nodup_cons, List.mem_cons, not_or,
        forall_eq_or_imp]
      constructor
      · intro hno
        obtain ⟨hn, hs⟩ := hno
        exact ⟨⟨fun hl => (hs l hl).1 rfl, hn⟩, h, fun k hk => (hs k hk).2⟩
      · intro hno
        obtain ⟨⟨hl, hn⟩, -, hs⟩ := hno
        exact ⟨hn, fun k hk => ⟨fun he => hl (he ▸ hk), hs k hk⟩⟩

theorem firstRepeated_nil_eq_none_iff {ls : List Locale} :
    firstRepeated [] ls = none ↔ ls.Nodup := by
  simp [firstRepeated_eq_none_iff]

theorem rootDefect_eq_none_iff {m : LocaleMap} :
    rootDefect m = none ↔ ∃ d, m.get? .root = some d ∧ ∀ k, (d.pattern k).isSome := by
  unfold rootDefect
  cases m.get? .root with
  | none => simp
  | some d => simp [Option.isSome_iff_ne_none, Category.mem_all]

theorem parentDefect_eq_none_iff {m : LocaleMap} {d : LocaleData} :
    parentDefect m d = none ↔
      ∀ p, d.parent = some p → p.specificity < d.id.specificity ∧ m.contains p := by
  unfold parentDefect
  cases d.parent with
  | none => simp
  | some p =>
    by_cases hs : d.id.specificity ≤ p.specificity
    · simp [hs, Nat.not_lt.2 hs]
    · simp [hs, Nat.lt_of_not_le hs]

theorem patternDefect_eq_none_iff {d : LocaleData} {k : Category} :
    patternDefect d k = none ↔
      ∀ text, d.pattern k = some text → ∃ p, Pattern.compile text = .ok p := by
  unfold patternDefect
  cases d.pattern k with
  | none => simp
  | some text => cases h : Pattern.compile text <;> simp [h]

theorem dataDefect_eq_none_iff {m : LocaleMap} {d : LocaleData} :
    dataDefect m d = none ↔
      (∀ p, d.parent = some p → p.specificity < d.id.specificity ∧ m.contains p) ∧
        ∀ k text, d.pattern k = some text → ∃ p, Pattern.compile text = .ok p := by
  rw [dataDefect, Option.or_eq_none_iff, parentDefect_eq_none_iff, List.findSome?_eq_none_iff]
  simp only [Category.mem_all, forall_const, patternDefect_eq_none_iff]

/-- In whichever order the locales come, none has a defect if none of the data does. -/
theorem findSome?_dataDefect_eq_none_iff {m : LocaleMap} :
    ((Locale.sortUnique m.keys).findSome? fun id => (m.get? id).bind (dataDefect m)) = none ↔
      ∀ id d, m.get? id = some d → dataDefect m d = none := by
  rw [List.findSome?_eq_none_iff]
  constructor
  · intro h id d hd
    have := h id (Locale.mem_sortUnique.2 (Table.mem_keys_iff.2 (by simp [Table.contains, hd])))
    rwa [hd] at this
  · intro h id _
    exact Option.bind_eq_none_iff.2 fun d hd => h id d hd

/-- Locale data that make a catalog. -/
structure Acceptable (ds : List LocaleData) : Prop where
  distinct : (ds.map (·.id)).Nodup
  /-- Root is there and defines all patterns. -/
  root : ∃ d ∈ ds, d.id = .root ∧ ∀ k, (d.pattern k).isSome
  /-- A parent that is named is there and less specific. -/
  parent : ∀ d ∈ ds, ∀ p, d.parent = some p →
    p.specificity < d.id.specificity ∧ ∃ e ∈ ds, e.id = p
  pattern : ∀ d ∈ ds, ∀ k text, d.pattern k = some text → ∃ p, Pattern.compile text = .ok p

/-- Nothing is less specific than root. -/
theorem Acceptable.parent_root {ds : List LocaleData} (h : Acceptable ds) {d : LocaleData}
    (hd : d ∈ ds) (hroot : d.id = .root) : d.parent = none := by
  refine Option.eq_none_iff_forall_ne_some.2 fun p hp => ?_
  have hs := (h.parent d hd p hp).1
  rw [hroot, Locale.specificity_root] at hs
  exact Nat.not_lt_zero _ hs

theorem defect_eq_none_iff {ds : List LocaleData} :
    defect ds (.ofList ds) = none ↔ Acceptable ds := by
  rw [defect, Option.or_eq_none_iff, Option.or_eq_none_iff, Option.map_eq_none_iff,
    firstRepeated_nil_eq_none_iff, rootDefect_eq_none_iff, findSome?_dataDefect_eq_none_iff]
  constructor
  · rintro ⟨hn, ⟨r, hr, hpatterns⟩, hdata⟩
    have hget {l d} := LocaleMap.get?_ofList_eq_some_iff hn (l := l) (d := d)
    have hspec (d) (hd : d ∈ ds) := dataDefect_eq_none_iff.1 (hdata d.id d (hget.2 ⟨hd, rfl⟩))
    obtain ⟨hmem, hid⟩ := hget.1 hr
    refine ⟨hn, ⟨r, hmem, hid, hpatterns⟩, fun d hd p hp => ?_, fun d hd => (hspec d hd).2⟩
    obtain ⟨hs, hc⟩ := (hspec d hd).1 p hp
    exact ⟨hs, (LocaleMap.contains_ofList_iff hn).1 hc⟩
  · rintro ⟨hn, ⟨r, hr, hid, hpatterns⟩, hparent, hpattern⟩
    have hget {l d} := LocaleMap.get?_ofList_eq_some_iff hn (l := l) (d := d)
    refine ⟨hn, ⟨r, hget.2 ⟨hr, hid⟩, hpatterns⟩, fun l d hd => ?_⟩
    have hmem := (hget.1 hd).1
    refine dataDefect_eq_none_iff.2 ⟨fun p hp => ?_, hpattern d hmem⟩
    obtain ⟨hs, hc⟩ := hparent d hmem p hp
    exact ⟨hs, (LocaleMap.contains_ofList_iff hn).2 hc⟩

/-! ## Order of the data -/

section
variable {m m' : LocaleMap} (h : ∀ l, m.get? l = m'.get? l)
include h

theorem contains_congr (l : Locale) : m.contains l = m'.contains l := by
  rw [Table.contains, Table.contains, h]

theorem rootDefect_congr : rootDefect m = rootDefect m' := by
  rw [rootDefect, rootDefect, h]

theorem dataDefect_congr (d : LocaleData) : dataDefect m d = dataDefect m' d := by
  simp only [dataDefect, parentDefect, contains_congr h]

theorem sortUnique_keys_congr : Locale.sortUnique m.keys = Locale.sortUnique m'.keys :=
  Locale.sortUnique_congr fun l => by
    rw [Table.mem_keys_iff, Table.mem_keys_iff, contains_congr h]

end

/-- Data with distinct identifiers have the same first defect in any order. -/
theorem defect_perm {ds es : List LocaleData} (h : ds.Perm es) (hn : (ds.map (·.id)).Nodup) :
    defect ds (.ofList ds) = defect es (.ofList es) := by
  have hget := LocaleMap.get?_ofList_perm h hn
  have hrepeated : firstRepeated [] (ds.map (·.id)) = firstRepeated [] (es.map (·.id)) := by
    rw [firstRepeated_nil_eq_none_iff.2 hn,
      firstRepeated_nil_eq_none_iff.2 ((h.map (·.id)).nodup_iff.1 hn)]
  have hdata : (fun id => ((LocaleMap.ofList ds).get? id).bind (dataDefect (.ofList ds))) =
      fun id => ((LocaleMap.ofList es).get? id).bind (dataDefect (.ofList es)) := by
    funext id
    rw [hget, funext (dataDefect_congr hget)]
  rw [defect, defect, hrepeated, rootDefect_congr hget, sortUnique_keys_congr hget, hdata]

/-- That an identifier repeats comes before every other defect. -/
theorem exists_defect_of_not_nodup {ds : List LocaleData} (hn : ¬(ds.map (·.id)).Nodup) :
    ∃ l, defect ds (.ofList ds) = some (.duplicate l) := by
  cases hf : firstRepeated [] (ds.map (·.id)) with
  | none => exact absurd (firstRepeated_nil_eq_none_iff.1 hf) hn
  | some l => exact ⟨l, by rw [defect, hf]; rfl⟩

/-! ## Catalogs of data -/

theorem ofList_of_defect {ds : List LocaleData} (h : defect ds (.ofList ds) = none) :
    ofList ds = .ok ⟨.ofList ds, wellFormed_of_defect h⟩ := by
  unfold ofList
  split
  · next h' => simp [h] at h'
  · rfl

theorem ofList_eq_error_iff {ds : List LocaleData} {e : CatalogError} :
    ofList ds = .error e ↔ defect ds (.ofList ds) = some e := by
  unfold ofList
  split
  · next h' => simp [h']
  · next h' => simp [h']

section
variable {ds : List LocaleData} {c : Catalog} (h : ofList ds = .ok c)
include h

theorem defect_eq_none_of_ofList : defect ds (.ofList ds) = none := by
  unfold ofList at h
  split at h
  · cases h
  · assumption

theorem locales_of_ofList : c.locales = .ofList ds := by
  unfold ofList at h
  split at h
  · cases h
  · cases h
    rfl

theorem acceptable_of_ofList : Acceptable ds :=
  defect_eq_none_iff.1 (defect_eq_none_of_ofList h)

theorem nodup_of_ofList : (ds.map (·.id)).Nodup :=
  (acceptable_of_ofList h).distinct

/-- The catalog holds each of the data under its identifier, and nothing else. -/
theorem ofList_get?_eq_some_iff {l : Locale} {d : LocaleData} :
    c.locales.get? l = some d ↔ d ∈ ds ∧ d.id = l := by
  rw [locales_of_ofList h, LocaleMap.get?_ofList_eq_some_iff (nodup_of_ofList h)]

theorem ofList_get?_eq_none {l : Locale} (hl : ∀ d ∈ ds, d.id ≠ l) : c.locales.get? l = none := by
  refine Option.eq_none_iff_forall_ne_some.2 fun d hd => ?_
  obtain ⟨hmem, hid⟩ := (ofList_get?_eq_some_iff h).1 hd
  exact hl d hmem hid

theorem mem_available_iff {l : Locale} : l ∈ c.available ↔ ∃ d ∈ ds, d.id = l := by
  rw [available, Locale.mem_sortUnique, Table.mem_keys_iff, locales_of_ofList h,
    LocaleMap.contains_ofList_iff (nodup_of_ofList h)]

theorem exists_ofList_perm {es : List LocaleData} (hp : ds.Perm es) :
    ∃ c', ofList es = .ok c' ∧ ∀ l, c.locales.get? l = c'.locales.get? l := by
  have hn := nodup_of_ofList h
  have hdefect : defect es (.ofList es) = none := by
    rw [← defect_perm hp hn]
    exact defect_eq_none_of_ofList h
  refine ⟨_, ofList_of_defect hdefect, fun l => ?_⟩
  rw [locales_of_ofList h]
  exact LocaleMap.get?_ofList_perm hp hn l

end

theorem exists_ofList_iff {ds : List LocaleData} : (∃ c, ofList ds = .ok c) ↔ Acceptable ds := by
  constructor
  · rintro ⟨c, h⟩
    exact acceptable_of_ofList h
  · intro h
    exact ⟨_, ofList_of_defect (defect_eq_none_iff.2 h)⟩

/-- **Acceptance.** Exactly the acceptable data make a catalog. It holds all of them and nothing
else, its locales are listed in increasing order, and root has no parent. In another order the data
make a catalog with the same content, or have the same defect, unless an identifier repeats, which
is then the defect in either order. -/
theorem ofList_accepts (ds : List LocaleData) :
    ((∃ c, ofList ds = .ok c) ↔ Acceptable ds) ∧
      (∀ c, ofList ds = .ok c →
        (∀ l d, c.locales.get? l = some d ↔ d ∈ ds ∧ d.id = l) ∧
        (∀ l, l ∈ c.available ↔ ∃ d ∈ ds, d.id = l) ∧
        c.available.Pairwise (compare · · = .lt) ∧
        ∀ d ∈ ds, d.id = .root → d.parent = none) ∧
      ∀ es, ds.Perm es →
        (∀ c, ofList ds = .ok c →
          ∃ c', ofList es = .ok c' ∧ ∀ l, c.locales.get? l = c'.locales.get? l) ∧
        ((ds.map (·.id)).Nodup → ∀ e, ofList ds = .error e → ofList es = .error e) ∧
        (¬(ds.map (·.id)).Nodup →
          (∃ l, ofList ds = .error (.duplicate l)) ∧ ∃ l, ofList es = .error (.duplicate l)) := by
  refine ⟨exists_ofList_iff, fun c h => ⟨fun l d => ofList_get?_eq_some_iff h,
    fun l => mem_available_iff h, Locale.pairwise_sortUnique _,
    fun d hd => (acceptable_of_ofList h).parent_root hd⟩,
    fun es hp => ⟨fun c h => exists_ofList_perm h hp, fun hn e h => ?_, fun hn => ?_⟩⟩
  · rw [ofList_eq_error_iff] at h ⊢
    rwa [← defect_perm hp hn]
  · simp only [ofList_eq_error_iff]
    exact ⟨exists_defect_of_not_nodup hn,
      exists_defect_of_not_nodup (mt (hp.map (·.id)).nodup_iff.2 hn)⟩

theorem ofList_accepts_reversed :
    ofList Bundled.localeData = .ok Bundled.catalog ∧
      Bundled.localeData.Perm Bundled.localeData.reverse ∧
      ∃ c, ofList Bundled.localeData.reverse = .ok c ∧
        ∀ l, Bundled.catalog.locales.get? l = c.locales.get? l := by
  have h : ofList Bundled.localeData = .ok Bundled.catalog :=
    ofList_of_defect Bundled.defect_localeData
  have hp := (List.reverse_perm Bundled.localeData).symm
  exact ⟨h, hp, ((ofList_accepts Bundled.localeData).2.2 _ hp).1 _ h⟩

end Catalog

end Numerals
