/-!
# Finite tables

A table is a list of entries with distinct keys. What a table holds is what `get?` finds:
`get?_insert` and `get?_eq_some_iff` say so for insertion and for the list of entries.
-/

namespace Numerals

/-- Entries with pairwise distinct keys; their order carries no meaning. -/
structure Table (κ ν : Type) where
  entries : List (κ × ν) := []
  nodup : (entries.map Prod.fst).Nodup := by simp
  deriving DecidableEq

namespace Table

variable {κ ν : Type}

instance : Inhabited (Table κ ν) := ⟨{}⟩

def keys (t : Table κ ν) : List κ := t.entries.map Prod.fst

def values (t : Table κ ν) : List ν := t.entries.map Prod.snd

def size (t : Table κ ν) : Nat := t.entries.length

variable [DecidableEq κ]

def get? (t : Table κ ν) (k : κ) : Option ν :=
  (t.entries.find? (·.1 = k)).map Prod.snd

def contains (t : Table κ ν) (k : κ) : Bool :=
  (t.get? k).isSome

/-- Puts `v` under `k`, in place of what was there. -/
def insert (t : Table κ ν) (k : κ) (v : ν) : Table κ ν where
  entries := (k, v) :: t.entries.filter (·.1 ≠ k)
  nodup := by
    refine List.nodup_cons.2 ⟨?_, t.nodup.sublist (List.filter_sublist.map _)⟩
    simp [List.mem_map, List.mem_filter]

/-- The table of a list of entries; of two entries with one key the later stays. -/
def ofList (entries : List (κ × ν)) : Table κ ν :=
  entries.foldl (fun t e => t.insert e.1 e.2) {}

/-! ## Lookups -/

@[simp] theorem get?_empty (k : κ) : ({} : Table κ ν).get? k = none := rfl

theorem get?_eq_some_iff {t : Table κ ν} {k : κ} {v : ν} :
    t.get? k = some v ↔ (k, v) ∈ t.entries := by
  obtain ⟨entries, nodup⟩ := t
  show (entries.find? _).map Prod.snd = some v ↔ (k, v) ∈ entries
  induction entries with
  | nil => simp
  | cons e es ih =>
    obtain ⟨k', v'⟩ := e
    simp only [List.map_cons, List.nodup_cons] at nodup
    by_cases h : k' = k
    · subst h
      have : (k', v) ∉ es := fun hm => nodup.1 (List.mem_map_of_mem hm)
      simp [this, eq_comm]
    · simp [h, ih nodup.2, Ne.symm h]

theorem mem_values_of_get? {t : Table κ ν} {k : κ} {v : ν} (h : t.get? k = some v) :
    v ∈ t.values :=
  List.mem_map_of_mem (get?_eq_some_iff.1 h)

theorem mem_keys_iff {t : Table κ ν} {k : κ} : k ∈ t.keys ↔ t.contains k := by
  simp only [keys, List.mem_map, contains, Option.isSome_iff_exists, get?_eq_some_iff]
  exact ⟨fun ⟨⟨k', v⟩, hm, hk⟩ => ⟨v, hk ▸ hm⟩, fun ⟨v, hm⟩ => ⟨(k, v), hm, rfl⟩⟩

theorem get?_insert (t : Table κ ν) (k k' : κ) (v : ν) :
    (t.insert k v).get? k' = if k' = k then some v else t.get? k' := by
  by_cases h : k' = k
  · subst h; simp [insert, get?]
  · rw [if_neg h]
    refine Option.ext fun w => ?_
    rw [get?_eq_some_iff, get?_eq_some_iff]
    simp [insert, h]

theorem mem_of_get?_ofList {entries : List (κ × ν)} {k : κ} {v : ν}
    (h : (ofList entries).get? k = some v) : (k, v) ∈ entries := by
  have key (t : Table κ ν) (es : List (κ × ν)) :
      (es.foldl (fun t e => t.insert e.1 e.2) t).get? k = some v →
        (k, v) ∈ es ∨ t.get? k = some v := by
    induction es generalizing t with
    | nil => exact .inr
    | cons e es ih =>
      intro h
      rcases ih (t.insert e.1 e.2) h with h | h
      · exact .inl (List.mem_cons_of_mem _ h)
      · rw [get?_insert] at h
        split at h
        · next he => cases h; exact .inl (by simp [he])
        · exact .inr h
  rcases key {} entries h with h | h
  · exact h
  · cases h

end Table

end Numerals
