import Numerals.Proofs.Locale.Walk

/-!
# Walks over labelled data

Where all data lie under their own identifiers, looking up a less specific parent leads to less
specific data, be it root in its place (`LocaleMap.Labelled.specificity_lt`). So a walk descends and
meets nothing again (`LocaleMap.Labelled.descends_climb`), and it has five members at most. It ends
at root or at a parent that is not less specific, unless there is no root
(`LocaleMap.Labelled.walkEnd`), and in a catalog it always ends at root.

`LocaleMap.descends_ancestry` puts this together.
-/

namespace Numerals

namespace LocaleMap

/-- All data lie under their own identifiers. Nothing else is checked. -/
def Labelled (m : LocaleMap) : Prop :=
  ∀ {l d}, m.get? l = some d → d.id = l

theorem labelled_ofList (ds : List LocaleData) : (ofList ds).Labelled := by
  intro l d h
  obtain ⟨e, -, he⟩ := List.mem_map.1 (Table.mem_of_get?_ofList h)
  cases he
  rfl

namespace Labelled

variable {m : LocaleMap} (hm : m.Labelled)
include hm

theorem id_of_getOrRoot? {l : Locale} {d : LocaleData} (h : m.getOrRoot? l = some d) :
    d.id = l ∨ d.id = .root := by
  rcases Option.or_eq_some_iff.1 h with h | ⟨-, h⟩
  · exact .inl (hm h)
  · exact .inr (hm h)

/-- Data that are looked up for a less specific parent are less specific, be they root's. -/
theorem specificity_lt {n : Nat} {parent : Locale} {e : LocaleData} (hs : parent.specificity < n)
    (he : m.getOrRoot? parent = some e) : e.id.specificity < n := by
  rcases hm.id_of_getOrRoot? he with hid | hid
  · rw [hid]
    exact hs
  · rw [hid, Locale.specificity_root]
    omega

/-! ## Members -/

/-- A climb that starts below all that was met before descends from there, and meets nothing
again. -/
theorem descends_climb {visited : List Locale} {d : LocaleData} (hd : d ∈ m.values)
    (hv : ∀ v ∈ visited, d.id.specificity < v.specificity) :
    (m.climb visited d hd).members.Pairwise (fun d e => e.id.specificity < d.id.specificity) ∧
      (∀ e ∈ (m.climb visited d hd).members, e.id.specificity ≤ d.id.specificity) ∧
      ∀ l, (m.climb visited d hd).fault ≠ some (.cycle l) := by
  fun_induction climb m visited d hd with
  | case1 visited d hd hmem => exact absurd (hv _ hmem) (Nat.lt_irrefl _)
  | case2 => simp
  | case3 => simp
  | case4 => simp
  | case5 visited d hd _ parent hp hs e he above ih =>
    have hlt : e.id.specificity < d.id.specificity :=
      hm.specificity_lt (Nat.lt_of_not_le hs) he
    have hbelow : ∀ v ∈ d.id :: visited, e.id.specificity < v.specificity := by
      intro v hmem
      rcases List.mem_cons.1 hmem with rfl | hmem
      · exact hlt
      · exact Nat.lt_trans hlt (hv v hmem)
    obtain ⟨hpairwise, hle, hcycle⟩ := ih hbelow
    refine ⟨List.pairwise_cons.2 ⟨fun a ha => ?_, hpairwise⟩, fun a ha => ?_, hcycle⟩
    · exact Nat.lt_of_le_of_lt (hle a ha) hlt
    · rcases List.mem_cons.1 ha with rfl | ha
      · exact Nat.le_refl _
      · exact Nat.le_trans (hle a ha) (Nat.le_of_lt hlt)

theorem descends (start : Locale) :
    (m.ancestry start).members.Pairwise (fun d e => e.id.specificity < d.id.specificity) ∧
      ∀ l, (m.ancestry start).fault ≠ some (.cycle l) := by
  cases h : m.getOrRoot? start with
  | none => simp [ancestry_of_getOrRoot?_eq_none h]
  | some d =>
    rw [ancestry_of_getOrRoot? h]
    have hv : ∀ v ∈ ([] : List Locale), d.id.specificity < v.specificity := by simp
    obtain ⟨hpairwise, -, hcycle⟩ := hm.descends_climb (mem_values_of_getOrRoot? h) hv
    exact ⟨hpairwise, hcycle⟩

/-- There are five specificities. -/
theorem length_members_le_five (start : Locale) : (m.ancestry start).members.length ≤ 5 := by
  have hnodup : ((m.ancestry start).members.map (·.id.specificity)).Nodup :=
    List.pairwise_map.2 ((hm.descends start).1.imp fun h => Nat.ne_of_gt h)
  rw [← List.length_map (·.id.specificity), ← List.toFinset_card_of_nodup hnodup]
  refine (Finset.card_le_card fun n hn => ?_).trans_eq (Finset.card_range 5)
  rw [List.mem_toFinset] at hn
  obtain ⟨d, -, rfl⟩ := List.mem_map.1 hn
  exact Finset.mem_range.2 d.id.specificity_lt_five

end Labelled

end LocaleMap

/-! ## The end of a walk -/

theorem LocaleData.parentId_eq_none_iff {d : LocaleData} :
    d.parentId = none ↔ d.parent = none ∧ d.id = .root := by
  simp [parentId, Locale.isRoot]

theorem Ancestry.getLast?_items (a : Ancestry) :
    a.items.getLast? = (a.fault.map Except.error).or (a.members.getLast?.map Except.ok) := by
  unfold items
  cases a.fault with
  | none => simp
  | some f => simp

namespace LocaleMap

/-- Where a walk over labelled data ends: with a parent that is not less specific, or at root. Only
if the map has no root does it end elsewhere, or has no item at all. -/
inductive WalkEnd (m : LocaleMap) (items : List (Except InheritanceFault LocaleData)) : Prop where
  | invalidParent {child parent : Locale} :
    items.getLast? = some (.error (.invalidParent child parent)) → WalkEnd m items
  | root {d : LocaleData} : items.getLast? = some (.ok d) → d.id = .root → WalkEnd m items
  | rootless : m.get? .root = none →
    (items = [] ∨ ∃ d, items.getLast? = some (.ok d) ∧ d.id ≠ .root) → WalkEnd m items

theorem Labelled.walkEnd {m : LocaleMap} (hm : m.Labelled) (start : Locale) :
    m.WalkEnd (m.ancestry start).items := by
  cases h : m.getOrRoot? start with
  | none =>
    refine .rootless (getOrRoot?_eq_none_iff.1 h).2 (.inl ?_)
    rw [ancestry_of_getOrRoot?_eq_none h]
    rfl
  | some d =>
    obtain ⟨last, hlast, hfault, -⟩ := exists_last_ancestry h
    have hitems := (m.ancestry start).getLast?_items
    rw [hlast, hfault] at hitems
    cases hstep : m.stepAbove last with
    | member e =>
      rw [hstep] at hfault
      exact absurd hfault ((hm.descends start).2 e.id)
    | fault f =>
      obtain ⟨parent, -, -, rfl⟩ := stepAbove_eq_fault_iff.1 hstep
      rw [hstep] at hitems
      exact .invalidParent hitems
    | top =>
      rw [hstep] at hitems
      by_cases hroot : last.id = .root
      · exact .root hitems hroot
      · rcases stepAbove_eq_top_iff.1 hstep with hp | ⟨parent, -, -, he⟩
        · exact absurd (LocaleData.parentId_eq_none_iff.1 hp).2 hroot
        · exact .rootless (getOrRoot?_eq_none_iff.1 he).2 (.inr ⟨last, hitems, hroot⟩)

/-- Nothing is missing in a catalog, so a walk goes on to root. -/
theorem WellFormed.exists_items {m : LocaleMap} (hm : m.WellFormed) (start : Locale) :
    ∃ below root, (m.ancestry start).items = (below ++ [root]).map .ok ∧ root.id = .root := by
  have hlabelled : m.Labelled := hm.labelled
  have hitems : (m.ancestry start).items = (m.ancestry start).members.map .ok := by
    rw [Ancestry.items, hm.fault_ancestry]
    simp
  have hends := hlabelled.walkEnd start
  rw [hitems] at hends ⊢
  cases hends with
  | invalidParent h => simp at h
  | root h hroot =>
    rw [List.getLast?_map, Option.map_eq_some_iff] at h
    obtain ⟨last, hlast, he⟩ := h
    obtain ⟨below, hbelow⟩ := List.getLast?_eq_some_iff.1 hlast
    rw [← Except.ok.inj he] at hroot
    exact ⟨below, last, by rw [hbelow], hroot⟩
  | rootless h _ =>
    obtain ⟨d, hd, -⟩ := hm.root
    cases h.symm.trans hd

/-- The walk up from `start` yields the items of `a`, which descend to where the walk ends. -/
structure Descends (m : LocaleMap) (start : Locale) (a : Ancestry) : Prop where
  /-- However many items are asked for, there are those of `a` and no more. -/
  items : ∀ n, (m.walk start).take m n = a.items.take n
  no_cycle : ∀ l, .error (.cycle l) ∉ a.items
  descending : a.members.Pairwise fun d e => e.id.specificity < d.id.specificity
  length_le : a.members.length ≤ 5
  ends : m.WalkEnd a.items

/-- **Walks over labelled data descend**, and in a catalog they go all the way to root. -/
theorem descends_ancestry :
    (∀ m : LocaleMap, m.Labelled → ∀ start, m.Descends start (m.ancestry start)) ∧
      ∀ ds c, Catalog.ofList ds = .ok c → ∀ start,
        ∃ below root, root.id = .root ∧
          ∀ n, (c.locales.walk start).take c.locales n = ((below ++ [root]).map .ok).take n := by
  refine ⟨fun m hm start => ?_, fun ds c _ start => ?_⟩
  · obtain ⟨hdescending, hcycle⟩ := hm.descends start
    refine ⟨m.take_walk start, fun l hl => ?_, hdescending, hm.length_members_le_five start,
      hm.walkEnd start⟩
    exact hcycle l (by simpa [Ancestry.items] using hl)
  · obtain ⟨below, root, hitems, hroot⟩ := c.wellFormed.exists_items start
    refine ⟨below, root, hroot, fun n => ?_⟩
    rw [take_walk, hitems]

/-- The United States of a language named `root`, with an unknown parent, and root below a parent
with an empty name. -/
theorem descends_ancestry_root_language :
    let american : Locale := { language := "root", territory := "US" }
    let m := ofList
      [{ id := .root, parent := some { language := "" } },
        { id := american, parent := some { language := "xx" } }]
    m.Labelled ∧ m.Descends american (m.ancestry american) ∧
      m.ancestry american =
        { members :=
            [{ id := american, parent := some { language := "xx" } },
              { id := .root, parent := some { language := "" } }]
          fault := some (.invalidParent .root { language := "" }) } ∧
      Catalog.ofList Bundled.localeData = .ok Bundled.catalog ∧
      ∃ below root, root.id = .root ∧
        ∀ n, (Bundled.catalog.locales.walk american).take Bundled.catalog.locales n =
          ((below ++ [root]).map .ok).take n := by
  intro american m
  have hm : m.Labelled := labelled_ofList _
  have hcatalog : Catalog.ofList Bundled.localeData = .ok Bundled.catalog :=
    Catalog.ofList_of_defect Bundled.defect_localeData
  exact ⟨hm, descends_ancestry.1 m hm american, by decide +kernel, hcatalog,
    descends_ancestry.2 _ _ hcatalog american⟩

end LocaleMap

end Numerals
