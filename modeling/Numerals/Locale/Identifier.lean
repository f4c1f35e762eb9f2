/-!
# Locale identifiers

An identifier names a locale by language, script, territory and variant. Its specificity counts
the parts that are given; a locale may only inherit from a less specific one, which
`specificity_lt_five` turns into a bound on the length of inheritance.

`sortUnique` lists identifiers in order and once each: `mem_sortUnique` and
`pairwise_sortUnique`, which determine the list (`sortUnique_congr`).
-/

namespace Numerals

/-- A locale key. A part that is given but empty still counts as given. -/
structure Locale where
  language : String
  script : Option String := none
  territory : Option String := none
  variant : Option String := none
  deriving DecidableEq

namespace Locale

/-- The locale that every other one falls back to. -/
def root : Locale := { language := "root" }

def isRoot (l : Locale) : Bool := l = root

/-- The optional parts that are given, from script to variant. -/
def subtags (l : Locale) : List String :=
  [l.script, l.territory, l.variant].filterMap id

/-- How many parts name the locale; root is named by none. -/
def specificity (l : Locale) : Nat :=
  if l.isRoot then 0 else 1 + l.subtags.length

/-- The parts that are given, joined by underscores. -/
def display (l : Locale) : String :=
  String.intercalate "_" (l.language :: l.subtags)

theorem specificity_lt_five (l : Locale) : l.specificity < 5 := by
  have : l.subtags.length ≤ 3 := List.length_filterMap_le id [l.script, l.territory, l.variant]
  unfold specificity
  split <;> omega

theorem specificity_root : root.specificity = 0 := by decide

theorem specificity_eq_zero_iff {l : Locale} : l.specificity = 0 ↔ l = root := by
  unfold specificity isRoot
  by_cases h : l = root <;> simp [h]

/-! ## Order -/

/-- By language, script, territory and variant; an absent part comes before a given one, and texts
are compared by code points. -/
def order : Locale → Locale → Ordering :=
  compareLex (compareOn language)
    (compareLex (compareOn script) (compareLex (compareOn territory) (compareOn variant)))

instance : Ord Locale := ⟨order⟩

instance : Std.TransOrd Locale :=
  inferInstanceAs (Std.TransCmp (compareLex (compareOn language)
    (compareLex (compareOn script) (compareLex (compareOn territory) (compareOn variant)))))

instance : Std.LawfulEqOrd Locale where
  eq_of_compare {l m} h := by
    obtain ⟨_, _, _, _⟩ := l
    obtain ⟨_, _, _, _⟩ := m
    change order _ _ = .eq at h
    simp only [order, compareLex, compareOn, Ordering.then_eq_eq] at h
    obtain ⟨hl, hs, ht, hv⟩ := h
    cases Std.LawfulEqOrd.eq_of_compare hl
    cases Std.LawfulEqOrd.eq_of_compare hs
    cases Std.LawfulEqOrd.eq_of_compare ht
    cases Std.LawfulEqOrd.eq_of_compare hv
    rfl

/-- Puts `l` into its place in an increasing list, unless it is there already. -/
def insertSorted (l : Locale) : List Locale → List Locale
  | [] => [l]
  | m :: ms =>
    match compare l m with
    | .lt => l :: m :: ms
    | .eq => m :: ms
    | .gt => m :: insertSorted l ms

/-- The identifiers in increasing order, each once. -/
def sortUnique (ids : List Locale) : List Locale :=
  ids.foldr insertSorted []

theorem mem_insertSorted {k l : Locale} {ms : List Locale} :
    k ∈ insertSorted l ms ↔ k = l ∨ k ∈ ms := by
  induction ms with
  | nil => simp [insertSorted]
  | cons m ms ih =>
    rw [insertSorted]
    split
    next => simp
    next h => simp [Std.LawfulEqOrd.eq_of_compare h]
    next => simp [ih]; exact or_left_comm

theorem pairwise_insertSorted {l : Locale} {ms : List Locale}
    (h : ms.Pairwise (compare · · = .lt)) : (insertSorted l ms).Pairwise (compare · · = .lt) := by
  induction ms with
  | nil => simp [insertSorted]
  | cons m ms ih =>
    obtain ⟨hm, hms⟩ := List.pairwise_cons.1 h
    rw [insertSorted]
    split
    next hlm =>
      refine List.pairwise_cons.2 ⟨fun k hk => ?_, h⟩
      rcases List.mem_cons.1 hk with rfl | hk
      · exact hlm
      · exact Std.TransCmp.lt_trans hlm (hm k hk)
    next => exact h
    next hlm =>
      refine List.pairwise_cons.2 ⟨fun k hk => ?_, ih hms⟩
      rcases mem_insertSorted.1 hk with rfl | hk
      · exact Std.OrientedCmp.gt_iff_lt.1 hlm
      · exact hm k hk

@[simp] theorem mem_sortUnique {l : Locale} {ids : List Locale} : l ∈ sortUnique ids ↔ l ∈ ids := by
  induction ids with
  | nil => simp [sortUnique]
  | cons k ids ih =>
    rw [show sortUnique (k :: ids) = insertSorted k (sortUnique ids) from rfl, mem_insertSorted, ih,
      List.mem_cons]

theorem pairwise_sortUnique (ids : List Locale) :
    (sortUnique ids).Pairwise (compare · · = .lt) := by
  induction ids with
  | nil => exact .nil
  | cons k ids ih => exact pairwise_insertSorted ih

theorem sortUnique_congr {ids ids' : List Locale} (h : ∀ l, l ∈ ids ↔ l ∈ ids') :
    sortUnique ids = sortUnique ids' := by
  have hnodup (ids : List Locale) : (sortUnique ids).Nodup :=
    (pairwise_sortUnique ids).imp fun {k l} hlt => by
      rintro rfl
      simp [Std.ReflCmp.compare_self] at hlt
  have hperm : (sortUnique ids).Perm (sortUnique ids') :=
    (List.perm_ext_iff_of_nodup (hnodup ids) (hnodup ids')).2 fun l => by simp [h l]
  refine hperm.eq_of_pairwise (fun k l _ _ hkl hlk => ?_) (pairwise_sortUnique ids)
    (pairwise_sortUnique ids')
  rw [Std.OrientedCmp.gt_iff_lt.2 hlk] at hkl
  cases hkl

end Locale

end Numerals
