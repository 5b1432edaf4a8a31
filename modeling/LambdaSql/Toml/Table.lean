import LambdaSql.Value.Named
import LambdaSql.Toml.Scalar

/-!
# Tables of TOML

How keys and headers fill tables. A table comes to be by a header of its own, by a longer header,
or by a dotted key, and only some of these may be mixed. Tables keep the order of their keys, as
the first one may say that a table stands for a date.

## Main definitions

* `Toml.Item` - what a key stands for.
* `Toml.assign?` - a key with a value.
* `Toml.openTable?`, `Toml.openElement?` - headers.
* `Toml.dateKey` - the key of a table that stands for a date.
* `Toml.Item.document?` - the document of an item.
-/

namespace LambdaSql.Toml

/-- What a key stands for. -/
inductive Item where
  /-- A quoted text. -/
  | quoted (s : String)
  /-- The value of a word. -/
  | word (d : Document)
  | array (items : List Item)
  /-- A table within braces. -/
  | inline (items : List (String × Item))
  /-- A table; `isImplicit` if it has no header of its own, `isDotted` if a dotted key made it. -/
  | table (isImplicit isDotted : Bool) (items : List (String × Item))
  /-- The tables of repeated headers, the last one first. -/
  | tables (elements : List (List (String × Item)))

/-- The items of a table. -/
abbrev Items := List (String × Item)

/-- A change of a table, which may depend on whether a dotted key made it. -/
abbrev Change := Bool → Items → Option Items

/-- A table with the table at a path changed. Tables on the way are made as needed; `isDotted` tells
whether it is a dotted key that goes there, and a dotted key may not enter a table with a header of
its own. -/
def change? (isDotted : Bool) (act : Change) : List String → Change
  | [], here, items => act here items
  | key :: rest, _, items =>
    match items.lookup key with
    | none => do
      let sub ← change? isDotted act rest isDotted []
      return Named.set key (.table true isDotted sub) items
    | some (.tables (last :: before)) => do
      let sub ← change? isDotted act rest false last
      return Named.set key (.tables (sub :: before)) items
    | some (.table isImplicit made sub) =>
      if isDotted && !isImplicit then none
      else do
        let sub ← change? isDotted act rest made sub
        return Named.set key (.table isImplicit made sub) items
    | some _ => none

/-- A key with a value, in the table that the path before it leads to. -/
def assign? (path : List String) (key : String) (item : Item) : Change :=
  change? true (fun made items =>
    if made == path.isEmpty then none
    else
      match items.lookup key with
      | none => some (Named.set key item items)
      | some _ => none) path

/-- A table header. A table that longer headers have made already moves to the end. -/
def openTable? (path : List String) (key : String) : Change :=
  change? false (fun _ items =>
    match items.lookup key with
    | none => some (Named.set key (.table false false []) items)
    | some (.table true false sub) =>
      some (items.filter (·.1 != key) ++ [(key, .table false false sub)])
    | some _ => none) path

/-- The header of one more table of several. -/
def openElement? (path : List String) (key : String) : Change :=
  change? false (fun _ items =>
    match items.lookup key with
    | none => some (Named.set key (.tables [[]]) items)
    | some (.tables elements) => some (Named.set key (.tables ([] :: elements)) items)
    | some _ => none) path

/-- The key that makes a table stand for a date or a time, if it is the first one. -/
def dateKey : String := "$__toml_private_datetime"

/-- The date or the time of a quoted text. -/
def Item.temporal? : Item → Option Document
  | .quoted s => readTemporal? s.toList
  | _ => none

mutual

/-- The document of an item. -/
def Item.document? : Item → Option Document
  | .quoted s => some (.string s)
  | .word d => some d
  | .array items => (itemDocuments? items).map .array
  | .inline items => tableDocument? items
  | .table _ _ items => tableDocument? items
  | .tables elements => (elementDocuments? elements).map fun ds => .array ds.reverse

/-- The documents of several items. -/
def itemDocuments? : List Item → Option (List Document)
  | [] => some []
  | item :: rest => do return (← item.document?) :: (← itemDocuments? rest)

/-- The document of a table. If it stands for a date, its other keys do not count. -/
def tableDocument? : List (String × Item) → Option Document
  | [] => some (.object [])
  | (name, item) :: rest =>
    if name = dateKey then item.temporal?
    else do return .ofMembers ((name, ← item.document?) :: (← itemsMembers? rest))

/-- The members of a table. -/
def itemsMembers? : List (String × Item) → Option (List (String × Document))
  | [] => some []
  | (name, item) :: rest => do return (name, ← item.document?) :: (← itemsMembers? rest)

/-- The documents of several tables. -/
def elementDocuments? : List (List (String × Item)) → Option (List Document)
  | [] => some []
  | items :: rest => do return (← tableDocument? items) :: (← elementDocuments? rest)

end

end LambdaSql.Toml
