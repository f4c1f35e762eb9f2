import Numerals.Toml.Line

/-!
# TOML documents

A document is read line by line: a header opens a table, and the entries after it go there.
-/

namespace Numerals.Toml

/-- What has been read, and the path of the table that is open. -/
structure Document where
  entries : Entries := []
  path : List String := []

namespace Document

/-- Opens the table at a path, which no header has named before. -/
def openTable (d : Document) (path : List String) : Option Document := do
  let key ← path.getLast?
  let entries ← d.entries.within path.dropLast fun es =>
    es.alter key fun
      | none => some (.table .named [])
      | some (.table .implied inner) => some (.table .named inner)
      | some _ => none
  return { entries, path }

/-- Opens a new element of the array at a path. -/
def openElement (d : Document) (path : List String) : Option Document := do
  let key ← path.getLast?
  let entries ← d.entries.within path.dropLast fun es =>
    es.alter key fun
      | none => some (.array true [.table .named []])
      | some (.array true elements) => some (.array true (elements ++ [.table .named []]))
      | some _ => none
  return { entries, path }

def addLine (d : Document) : Line → Option Document
  | .blank => some d
  | .header path => d.openTable path
  | .element path => d.openElement path
  | .entry key value => do
    let entries ← d.entries.within d.path (·.add key value)
    return { d with entries }

end Document

/-- The entries of a TOML text, or `none` where it is not well-formed. -/
def read? (text : String) : Option Entries := do
  let lines ← (splitLines text.toList).mapM readLine
  let document ← lines.foldlM Document.addLine {}
  return document.entries

end Numerals.Toml
