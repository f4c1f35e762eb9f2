import Mathlib.Data.Finset.Card
import Numerals.Proofs.Locale.Inheritance

/-!
# Walking up unchecked data

An ancestry can also be had one item at a time: a `Walk` holds what it has come to and the
identifiers it has met, and looks up the parent of a member as it yields the member. However many
items are asked for, they are those of the ancestry (`LocaleMap.take_walk`).

No identifier is met twice (`LocaleMap.nodup_ancestry`), and the step above the last member says why
the walk ended (`LocaleMap.exists_last_ancestry`). `LocaleMap.yields_ancestry` puts this together,
for data that may lie under identifiers that are not their own.
-/

namespace Numerals

/-- What a walk comes to. -/
inductive Walk.Step where
  | member (d : LocaleData)
  | fault (f : InheritanceFault)
  /-- There is nothing further up. -/
  | top

/-- A walk in progress: what it has come to, and the identifiers of the members before. -/
structure Walk where
  step : Walk.Step
  visited : List Locale := []

/-- The fault that a step ends a walk with. A member that ends one is met again. -/
def Walk.Step.fault? : Walk.Step → Option InheritanceFault
  | member d => some (.cycle d.id)
  | fault f => some f
  | top => none

namespace Walk.Step

variable {s : Walk.Step}

theorem fault?_eq_none_iff : s.fault? = none ↔ s = .top := by
  cases s <;> simp [fault?]

theorem fault?_eq_invalidParent_iff {child parent : Locale} :
    s.fault? = some (.invalidParent child parent) ↔ s = .fault (.invalidParent child parent) := by
  cases s <;> simp [fault?]

theorem fault?_eq_cycle_iff {l : Locale} :
    s.fault? = some (.cycle l) ↔ s = .fault (.cycle l) ∨ ∃ d, s = .member d ∧ d.id = l := by
  cases s <;> simp [fault?]

end Walk.Step

namespace LocaleMap

/-- To the data under an identifier, or to root's where there are none. -/
def stepTo (m : LocaleMap) (l : Locale) : Walk.Step :=
  (m.getOrRoot? l).elim .top .member

/-- The step above `d`. A parent that is not less specific is not looked up. -/
def stepAbove (m : LocaleMap) (d : LocaleData) : Walk.Step :=
  match d.parentId with
  | none => .top
  | some parent =>
    if d.id.specificity ≤ parent.specificity then .fault (.invalidParent d.id parent)
    else m.stepTo parent

/-- The walk up from a locale. -/
def walk (m : LocaleMap) (start : Locale) : Walk := { step := m.stepTo start }

end LocaleMap

namespace Walk

/-- The next item of a walk, and what is left of the walk after it. What is above a member is looked
up before the member is given out. -/
def next? (m : LocaleMap) (w : Walk) : Option (Except InheritanceFault LocaleData × Walk) :=
  match w.step with
  | .top => none
  | .fault f => some (.error f, { w with step := .top })
  | .member d =>
    if d.id ∈ w.visited then some (.error (.cycle d.id), { w with step := .top })
    else some (.ok d, { step := m.stepAbove d, visited := d.id :: w.visited })

/-- The items of a walk, as long as there are any and no more than `n`. -/
def take (m : LocaleMap) : Nat → Walk → List (Except InheritanceFault LocaleData)
  | 0, _ => []
  | n + 1, w =>
    match w.next? m with
    | none => []
    | some (item, w) => item :: take m n w

section
variable (m : LocaleMap) (n : Nat) (visited : List Locale)

theorem take_top : take m n ⟨.top, visited⟩ = [] := by
  cases n <;> rfl

theorem take_fault (f : InheritanceFault) :
    take m n ⟨.fault f, visited⟩ = [Except.error f].take n := by
  cases n with
  | zero => rfl
  | succ n => simp [take, next?, take_top]

theorem take_visited {d : LocaleData} (h : d.id ∈ visited) :
    take m n ⟨.member d, visited⟩ = [Except.error (.cycle d.id)].take n := by
  cases n with
  | zero => rfl
  | succ n => simp [take, next?, h, take_top]

theorem take_member {d : LocaleData} (h : d.id ∉ visited) :
    take m (n + 1) ⟨.member d, visited⟩ =
      .ok d :: take m n ⟨m.stepAbove d, d.id :: visited⟩ := by
  simp [take, next?, h]

end

end Walk

namespace LocaleMap

/-! ## Steps -/

section
variable {m : LocaleMap} {d : LocaleData} {l : Locale}

@[simp] theorem stepTo_eq_top_iff : m.stepTo l = .top ↔ m.getOrRoot? l = none := by
  unfold stepTo
  cases m.getOrRoot? l <;> simp

@[simp] theorem stepTo_eq_member_iff {e : LocaleData} :
    m.stepTo l = .member e ↔ m.getOrRoot? l = some e := by
  unfold stepTo
  cases m.getOrRoot? l <;> simp

@[simp] theorem stepTo_ne_fault {f : InheritanceFault} : m.stepTo l ≠ .fault f := by
  unfold stepTo
  cases m.getOrRoot? l <;> simp

theorem stepAbove_eq_iff {s : Walk.Step} : m.stepAbove d = s ↔
    d.parentId = none ∧ s = .top ∨ ∃ parent, d.parentId = some parent ∧
      (d.id.specificity ≤ parent.specificity ∧ s = .fault (.invalidParent d.id parent) ∨
        parent.specificity < d.id.specificity ∧ m.stepTo parent = s) := by
  unfold stepAbove
  cases d.parentId with
  | none => simp [eq_comm]
  | some p =>
    by_cases hs : d.id.specificity ≤ p.specificity
    · simp [hs, Nat.not_lt.2 hs, eq_comm]
    · simp [hs, Nat.lt_of_not_le hs]

theorem stepAbove_eq_top_iff :
    m.stepAbove d = .top ↔ d.parentId = none ∨ ∃ parent, d.parentId = some parent ∧
      parent.specificity < d.id.specificity ∧ m.getOrRoot? parent = none := by
  simp [stepAbove_eq_iff]

theorem stepAbove_eq_fault_iff {f : InheritanceFault} :
    m.stepAbove d = .fault f ↔ ∃ parent, d.parentId = some parent ∧
      d.id.specificity ≤ parent.specificity ∧ f = .invalidParent d.id parent := by
  simp [stepAbove_eq_iff]

theorem stepAbove_eq_member_iff {e : LocaleData} :
    m.stepAbove d = .member e ↔ ∃ parent, d.parentId = some parent ∧
      parent.specificity < d.id.specificity ∧ m.getOrRoot? parent = some e := by
  simp [stepAbove_eq_iff]

end

/-! ## The items of a walk -/

theorem ancestry_of_getOrRoot?_eq_none {m : LocaleMap} {l : Locale} (h : m.getOrRoot? l = none) :
    m.ancestry l = {} := by
  unfold ancestry
  split
  · rfl
  · next h' => simp [h] at h'

/-- A climb is the walk from the same place. The induction is on the number of items asked for. -/
theorem take_climb {m : LocaleMap} {visited : List Locale} {d : LocaleData} (hd : d ∈ m.values)
    (n : Nat) : Walk.take m n ⟨.member d, visited⟩ = (m.climb visited d hd).items.take n := by
  induction n generalizing visited d with
  | zero => rfl
  | succ n ih =>
    rw [climb]
    split
    · next hv => exact Walk.take_visited m (n + 1) visited hv
    · next hv =>
      rw [Walk.take_member m n visited hv]
      split
      · next hp =>
        rw [stepAbove_eq_top_iff.2 (.inl hp), Walk.take_top]
        simp [Ancestry.items]
      · next p hp =>
        split
        · next hs =>
          rw [stepAbove_eq_fault_iff.2 ⟨p, hp, hs, rfl⟩, Walk.take_fault]
          rfl
        · next hs =>
          split
          · next he =>
            rw [stepAbove_eq_top_iff.2 (.inr ⟨p, hp, Nat.lt_of_not_le hs, he⟩), Walk.take_top]
            simp [Ancestry.items]
          · next e he =>
            rw [stepAbove_eq_member_iff.2 ⟨p, hp, Nat.lt_of_not_le hs, he⟩,
              ih (mem_values_of_getOrRoot? he)]
            rfl

/-- The walk yields the ancestry, and no more. -/
theorem take_walk (m : LocaleMap) (start : Locale) (n : Nat) :
    (m.walk start).take m n = (m.ancestry start).items.take n := by
  rw [walk, stepTo]
  cases h : m.getOrRoot? start with
  | none =>
    rw [Option.elim_none, Walk.take_top, ancestry_of_getOrRoot?_eq_none h]
    simp [Ancestry.items]
  | some d => rw [Option.elim_some, ancestry_of_getOrRoot? h, take_climb]

end LocaleMap

namespace Ancestry

variable (a : Ancestry)

theorem length_items_le : a.items.length ≤ a.members.length + 1 := by
  unfold items
  cases a.fault <;> simp

theorem eq_nil_of_items_eq {a : Ancestry} {before after : List (Except InheritanceFault LocaleData)}
    {f : InheritanceFault} (h : a.items = before ++ .error f :: after) : after = [] := by
  have hmembers (items : List (Except InheritanceFault LocaleData)) :
      a.members.map .ok ≠ before ++ .error f :: items := fun he => by
    have : .error f ∈ a.members.map Except.ok := he ▸ List.mem_append_right _ List.mem_cons_self
    simp at this
  unfold items at h
  cases hf : a.fault with
  | none =>
    rw [hf, Option.toList_none, List.map_nil, List.append_nil] at h
    exact absurd h (hmembers after)
  | some g =>
    rcases List.eq_nil_or_concat after with rfl | ⟨items, item, rfl⟩
    · rfl
    · rw [hf, List.concat_eq_append, ← List.cons_append, ← List.append_assoc] at h
      exact absurd (List.append_inj_left' h rfl) (hmembers items)

end Ancestry

namespace LocaleMap

/-! ## Members -/

theorem mem_values_of_mem_climb {m : LocaleMap} {visited : List Locale} {d : LocaleData}
    {hd : d ∈ m.values} : ∀ e ∈ (m.climb visited d hd).members, e ∈ m.values := by
  fun_induction climb m visited d hd with
  | case1 => simp
  | case2 => simpa
  | case3 => simpa
  | case4 => simpa
  | case5 visited d hd hv parent hp hlt e he above ih =>
    intro e' he'
    rcases List.mem_cons.1 he' with rfl | he'
    · exact hd
    · exact ih e' he'

theorem mem_values_of_mem_ancestry {m : LocaleMap} {l : Locale} :
    ∀ d ∈ (m.ancestry l).members, d ∈ m.values := by
  unfold ancestry
  split
  · simp
  · exact mem_values_of_mem_climb

/-- A climb meets no identifier twice, and none of those met before. -/
theorem nodup_climb {m : LocaleMap} {visited : List Locale} {d : LocaleData} {hd : d ∈ m.values} :
    ((m.climb visited d hd).members.map (·.id)).Nodup ∧
      ∀ e ∈ (m.climb visited d hd).members, e.id ∉ visited := by
  fun_induction climb m visited d hd with
  | case1 => simp
  | case2 _ _ _ hv => simpa
  | case3 _ _ _ hv => simpa
  | case4 _ _ _ hv => simpa
  | case5 visited d hd hv parent hp hlt e he above ih =>
    obtain ⟨hnodup, hfresh⟩ := ih
    refine ⟨List.nodup_cons.2 ⟨fun hmem => ?_, hnodup⟩, fun e' he' => ?_⟩
    · obtain ⟨e', he', hid⟩ := List.mem_map.1 hmem
      exact hfresh e' he' (hid ▸ List.mem_cons_self)
    · rcases List.mem_cons.1 he' with rfl | he'
      · exact hv
      · exact fun hmem => hfresh e' he' (List.mem_cons_of_mem _ hmem)

theorem nodup_ancestry {m : LocaleMap} {l : Locale} :
    ((m.ancestry l).members.map (·.id)).Nodup := by
  unfold ancestry
  split
  · simp
  · exact nodup_climb.1

/-- Every member has an identifier of its own, which is that of some data. -/
theorem length_members_le (m : LocaleMap) (l : Locale) :
    (m.ancestry l).members.length ≤ (m.values.map (·.id)).toFinset.card := by
  rw [← List.length_map (·.id), ← List.toFinset_card_of_nodup nodup_ancestry]
  refine Finset.card_le_card fun k hk => ?_
  rw [List.mem_toFinset] at hk ⊢
  obtain ⟨d, hd, rfl⟩ := List.mem_map.1 hk
  exact List.mem_map_of_mem (mem_values_of_mem_ancestry d hd)

/-! ## The end of a walk -/

/-- A climb ends because of the step above its last member. A member that would come next has been
met before. -/
theorem exists_last_climb {m : LocaleMap} {visited : List Locale} {d : LocaleData}
    (hd : d ∈ m.values) (hv : d.id ∉ visited) :
    ∃ e, (m.climb visited d hd).members.getLast? = some e ∧
      (m.climb visited d hd).fault = (m.stepAbove e).fault? ∧
      ∀ e', m.stepAbove e = .member e' →
        e'.id ∈ visited ++ (m.climb visited d hd).members.map (·.id) := by
  fun_induction climb m visited d hd with
  | case1 _ _ _ hmem => exact absurd hmem hv
  | case2 visited d hd _ hp =>
    have habove : m.stepAbove d = .top := stepAbove_eq_top_iff.2 (.inl hp)
    exact ⟨d, rfl, by rw [habove]; rfl, by simp [habove]⟩
  | case3 visited d hd _ parent hp hs =>
    have habove := stepAbove_eq_fault_iff (m := m).2 ⟨parent, hp, hs, rfl⟩
    exact ⟨d, rfl, by rw [habove]; rfl, by simp [habove]⟩
  | case4 visited d hd _ parent hp hs he =>
    have habove := stepAbove_eq_top_iff.2 (.inr ⟨parent, hp, Nat.lt_of_not_le hs, he⟩)
    exact ⟨d, rfl, by rw [habove]; rfl, by simp [habove]⟩
  | case5 visited d hd _ parent hp hs e he above ih =>
    by_cases hmem : e.id ∈ d.id :: visited
    · -- `d` is the last member, and the climb from `e` is its fault alone
      have habove := stepAbove_eq_member_iff.2 ⟨parent, hp, Nat.lt_of_not_le hs, he⟩
      have hclimb : above = { fault := some (.cycle e.id) } := by
        show m.climb (d.id :: visited) e (mem_values_of_getOrRoot? he) = _
        rw [climb, dif_pos hmem]
      refine ⟨d, by rw [hclimb]; rfl, by rw [hclimb, habove]; rfl, fun e' he' => ?_⟩
      cases habove.symm.trans he'
      rw [hclimb]
      exact List.mem_append.2 ((List.mem_cons.1 hmem).symm.imp_right (List.mem_singleton.2 ·))
    · obtain ⟨last, hlast, hfault, hmet⟩ := ih hmem
      refine ⟨last, ?_, hfault, fun e' he' => List.perm_middle.mem_iff.2 (hmet e' he')⟩
      rw [List.getLast?_cons, hlast, Option.getD_some]

theorem exists_last_ancestry {m : LocaleMap} {l : Locale} {d : LocaleData}
    (h : m.getOrRoot? l = some d) :
    ∃ e, (m.ancestry l).members.getLast? = some e ∧
      (m.ancestry l).fault = (m.stepAbove e).fault? ∧
      ∀ e', m.stepAbove e = .member e' → e'.id ∈ (m.ancestry l).members.map (·.id) := by
  rw [ancestry_of_getOrRoot? h]
  exact exists_last_climb (mem_values_of_getOrRoot? h) List.not_mem_nil

theorem getOrRoot?_eq_none_iff {m : LocaleMap} {l : Locale} :
    m.getOrRoot? l = none ↔ m.get? l = none ∧ m.get? .root = none :=
  Option.or_eq_none_iff

/-- The walk up from `start` yields the items of `a`, few and without repetition, and ends for the
reason that the data give. -/
structure Yields (m : LocaleMap) (start : Locale) (a : Ancestry) : Prop where
  /-- However many items are asked for, there are those of `a` and no more. -/
  items : ∀ n, (m.walk start).take m n = a.items.take n
  length_le : a.items.length ≤ (m.values.map (·.id)).toFinset.card + 1
  distinct : (a.members.map (·.id)).Nodup
  fault_last : ∀ {before fault after}, a.items = before ++ .error fault :: after → after = []
  /-- The effective parent of the last member is not less specific. -/
  invalidParent : ∀ {child parent}, a.fault = some (.invalidParent child parent) ↔
    ∃ d, a.members.getLast? = some d ∧ d.id = child ∧ d.parentId = some parent ∧
      d.id.specificity ≤ parent.specificity
  /-- Looking up a less specific parent of the last member finds a member again. -/
  cycle : ∀ {l}, a.fault = some (.cycle l) ↔
    ∃ d parent e, a.members.getLast? = some d ∧ d.parentId = some parent ∧
      parent.specificity < d.id.specificity ∧ m.getOrRoot? parent = some e ∧ e.id = l ∧
      l ∈ a.members.map (·.id)
  /-- There is no parent above the last member, or neither it nor root is in the map; so for the
  start itself if there are no members. -/
  complete : a.fault = none ↔
    a.members = [] ∧ m.get? start = none ∧ m.get? .root = none ∨
      ∃ d, a.members.getLast? = some d ∧ (d.parentId = none ∨
        ∃ parent, d.parentId = some parent ∧ parent.specificity < d.id.specificity ∧
          m.get? parent = none ∧ m.get? .root = none)

/-- **Walks over unchecked data end**, and tell what is wrong with them. -/
theorem yields_ancestry (m : LocaleMap) (start : Locale) : m.Yields start (m.ancestry start) := by
  have hlength : (m.ancestry start).items.length ≤ (m.values.map (·.id)).toFinset.card + 1 :=
    (Ancestry.length_items_le _).trans (Nat.add_le_add_right (m.length_members_le start) 1)
  cases h : m.getOrRoot? start with
  | none =>
    refine ⟨m.take_walk start, hlength, nodup_ancestry, Ancestry.eq_nil_of_items_eq, ?_, ?_, ?_⟩ <;>
      simp [ancestry_of_getOrRoot?_eq_none h, getOrRoot?_eq_none_iff.1 h]
  | some d =>
    obtain ⟨last, hlast, hfault, hmet⟩ := exists_last_ancestry h
    have hne : (m.ancestry start).members ≠ [] := fun hnil => by simp [hnil] at hlast
    refine ⟨m.take_walk start, hlength, nodup_ancestry, Ancestry.eq_nil_of_items_eq, ?_, ?_, ?_⟩
    · intro child parent
      rw [hfault, Walk.Step.fault?_eq_invalidParent_iff, stepAbove_eq_fault_iff]
      constructor
      · rintro ⟨p, hp, hs, heq⟩
        cases heq
        exact ⟨last, hlast, rfl, hp, hs⟩
      · rintro ⟨d', hd', rfl, hp, hs⟩
        cases hlast.symm.trans hd'
        exact ⟨parent, hp, hs, rfl⟩
    · intro l
      rw [hfault, Walk.Step.fault?_eq_cycle_iff]
      constructor
      · rintro (hstep | ⟨e, hstep, rfl⟩)
        · obtain ⟨p, -, -, heq⟩ := stepAbove_eq_fault_iff.1 hstep
          cases heq
        · obtain ⟨p, hp, hs, he⟩ := stepAbove_eq_member_iff.1 hstep
          exact ⟨last, p, e, hlast, hp, hs, he, rfl, hmet e hstep⟩
      · rintro ⟨d', p, e, hd', hp, hs, he, rfl, -⟩
        cases hlast.symm.trans hd'
        exact .inr ⟨e, stepAbove_eq_member_iff.2 ⟨p, hp, hs, he⟩, rfl⟩
    · rw [hfault, Walk.Step.fault?_eq_none_iff, stepAbove_eq_top_iff]
      simp [hlast, hne, getOrRoot?_eq_none_iff]

/-- Data of the United States under the identifier of English, which they inherit from. -/
example :
    let looping : LocaleData :=
      { id := { language := "en", territory := "US" }, parent := some { language := "en" } }
    let m : LocaleMap := Table.ofList [({ language := "en" }, looping)]
    m.ancestry { language := "en" } =
      { members := [looping], fault := some (.cycle looping.id) } := by
  decide +kernel

end LocaleMap

end Numerals
