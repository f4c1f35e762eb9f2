import Numerals.Locale.Data

/-!
# Inheritance

The ancestry of a locale is the locale itself, its parent, its parent's parent and so on, nearest
first. A locale that the map does not know counts as root, also as a parent. The walk stops with a
fault at a parent that is not less specific than its child, and at an identifier met before; the
second is what bounds it, since the map may hold data under identifiers that are not its own.

Whatever a locale does not define is taken from the nearest member of its ancestry that does.
-/

namespace Numerals

/-- Why an ancestry could not be followed to its end. -/
inductive InheritanceFault where
  /-- The parent is not less specific than the child. -/
  | invalidParent (child parent : Locale)
  /-- The locale is its own ancestor. -/
  | cycle (locale : Locale)
  deriving DecidableEq

def InheritanceFault.message : InheritanceFault → String
  | invalidParent child parent =>
    "locale " ++ child.display ++ " names " ++ parent.display ++
      " as parent, which is not less specific"
  | cycle locale => "locale inheritance cycle through " ++ locale.display

/-- A locale's data and its ancestors', nearest first, and the fault that ended the walk, if one
did. -/
structure Ancestry where
  members : List LocaleData := []
  fault : Option InheritanceFault := none
  deriving DecidableEq

namespace LocaleMap

/-- The data under an identifier, or root's where there is none. -/
def getOrRoot? (m : LocaleMap) (id : Locale) : Option LocaleData :=
  (m.get? id).or (m.get? .root)

theorem mem_values_of_getOrRoot? {m : LocaleMap} {id : Locale} {d : LocaleData}
    (h : m.getOrRoot? id = some d) : d ∈ m.values := by
  rcases Option.or_eq_some_iff.1 h with h | ⟨_, h⟩ <;> exact Table.mem_values_of_get? h

/-- How many data of the map have an identifier that is not among `visited`. -/
def unvisited (m : LocaleMap) (visited : List Locale) : Nat :=
  m.values.countP (·.id ∉ visited)

theorem unvisited_lt {m : LocaleMap} {visited : List Locale} {d : LocaleData} (hd : d ∈ m.values)
    (hv : d.id ∉ visited) : m.unvisited (d.id :: visited) < m.unvisited visited := by
  unfold unvisited
  generalize m.values = ds at hd
  induction ds with
  | nil => cases hd
  | cons e es ih =>
    have himp (x : LocaleData) : decide (x.id ∉ d.id :: visited) = true →
        decide (x.id ∉ visited) = true := by simp
    rw [List.countP_cons, List.countP_cons]
    rcases List.mem_cons.1 hd with rfl | hd
    · have hle := List.countP_mono_left (l := es) fun x _ => himp x
      rw [if_neg (by simp), if_pos (by simpa using hv)]
      omega
    · have := ih hd
      by_cases h : decide (e.id ∉ d.id :: visited) = true
      · rw [if_pos h, if_pos (himp e h)]
        omega
      · rw [if_neg h]
        omega

/-- Follows parents from `d` upwards; `visited` are the identifiers already met. -/
def climb (m : LocaleMap) (visited : List Locale) (d : LocaleData) (_hd : d ∈ m.values) :
    Ancestry :=
  if _hv : d.id ∈ visited then { fault := some (.cycle d.id) }
  else
    match d.parentId with
    | none => { members := [d] }
    | some parent =>
      if d.id.specificity ≤ parent.specificity then
        { members := [d], fault := some (.invalidParent d.id parent) }
      else
        match he : m.getOrRoot? parent with
        | none => { members := [d] }
        | some e =>
          let above := climb m (d.id :: visited) e (mem_values_of_getOrRoot? he)
          { above with members := d :: above.members }
termination_by m.unvisited visited
decreasing_by exact unvisited_lt _hd _hv

/-- The ancestry of a locale; empty only where the map holds neither the locale nor root. -/
def ancestry (m : LocaleMap) (start : Locale) : Ancestry :=
  match h : m.getOrRoot? start with
  | none => {}
  | some d => m.climb [] d (mem_values_of_getOrRoot? h)

end LocaleMap

namespace Ancestry

/-- The walk step by step: each member, then the fault. -/
def items (a : Ancestry) : List (Except InheritanceFault LocaleData) :=
  a.members.map .ok ++ a.fault.toList.map .error

/-- The nearest value that a member defines. A fault matters only if no member defines one. -/
def nearest? {α : Type} (a : Ancestry) (f : LocaleData → Option α) :
    Except InheritanceFault (Option α) :=
  match a.members.findSome? f, a.fault with
  | none, some fault => .error fault
  | found, _ => .ok found

/-- Each symbol from the nearest member that defines it. All members take part, so any fault is
one. -/
def symbols (a : Ancestry) : Except InheritanceFault Symbols :=
  match a.fault with
  | some fault => .error fault
  | none => .ok (a.members.foldl (fun (s : SymbolOverrides) d => s.orElse d.symbols) {}).complete

/-- The nearest symbol for a currency, or its code; a fault does not matter. -/
def currencySymbol (a : Ancestry) (code : CurrencyCode) : String :=
  (a.members.findSome? (·.currencySymbols.get? code.text)).getD code.text

end Ancestry

end Numerals
