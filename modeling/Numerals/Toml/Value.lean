/-!
# TOML values

The values that a TOML text holds, with what decides whether a later line of the text may add to
them: a table given inline is complete, a table named by a header may be named only once, and an
array grows only if it is one of tables that headers name.
-/

namespace Numerals.Toml

/-- How a table came to be. -/
inductive Extent where
  /-- In braces, as a value. -/
  | inline
  /-- By a header for something inside it. -/
  | implied
  /-- By a header of its own. -/
  | named
  deriving DecidableEq

inductive Value where
  | text (s : String)
  | integer (n : Int)
  | boolean (b : Bool)
  | array (grows : Bool) (elements : List Value)
  | table (extent : Extent) (entries : List (String × Value))

/-- The entries of a table in the order in which they were written. -/
abbrev Entries := List (String × Value)

namespace Entries

/-- Replaces what lies under a key, or adds it; `f` may refuse. -/
def alter (key : String) (f : Option Value → Option Value) : Entries → Option Entries
  | [] => (f none).map fun v => [(key, v)]
  | (k, v) :: es =>
    if k = key then (f (some v)).map fun v => (k, v) :: es
    else (alter key f es).map ((k, v) :: ·)

/-- Adds an entry under a key that is not there yet. -/
def add (key : String) (value : Value) (es : Entries) : Option Entries :=
  es.alter key fun
    | none => some value
    | some _ => none

/-- Changes the entries of the table at a path. Tables that are missing on the way are implied, and
an array of tables stands for its last element. -/
def within : List String → (Entries → Option Entries) → Entries → Option Entries
  | [], f, es => f es
  | key :: path, f, es =>
    es.alter key fun
      | none => (within path f []).map (.table .implied)
      | some (.table extent inner) =>
        if extent = .inline then none else (within path f inner).map (.table extent)
      | some (.array true elements) =>
        match elements.getLast? with
        | some (.table extent inner) =>
          (within path f inner).map fun es =>
            .array true (elements.dropLast ++ [.table extent es])
        | _ => none
      | some _ => none

end Entries

namespace Value

def text? : Value → Option String
  | text s => some s
  | _ => none

/-- The fields of a record: the entries of a table, or the elements of an array, which give the
fields in order. -/
def fields? (names : List String) : Value → Option Entries
  | table _ entries => some entries
  | array _ elements => some (names.zip elements)
  | _ => none

end Value

/-- A field that must be there. -/
def Entries.required {α : Type} (es : Entries) (name : String) (read : Value → Option α) :
    Option α :=
  (es.lookup name).bind read

/-- A field that may be absent, but is read if it is there. -/
def Entries.optional {α : Type} (es : Entries) (name : String) (read : Value → Option α) :
    Option (Option α) :=
  match es.lookup name with
  | none => some none
  | some v => (read v).map some

end Numerals.Toml
