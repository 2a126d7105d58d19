/-! # TOML values

* **`Toml.Value`** — the values of a document.
* **`Toml.Node`** — a value in the making: a table remembers how it came about, because that decides
  what may still be added to it.
* **`Toml.insertKey`, `openTable`, `openTableItem`** — what a key, a table heading and a heading of
  an array of tables do to the tables of a document. -/

namespace Mgol.Toml

/-- **A TOML value.** Floats and dates are kept as they are written. -/
inductive Value where
  | text (s : String)
  | integer (n : Int)
  | float (written : List Char)
  | boolean (b : Bool)
  | date (written : List Char)
  | array (items : List Value)
  | table (entries : List (String × Value))

/-- **A value in the making.** A table is `implicit` while no heading of its own named it, and
`dotted` if a dotted key made it. The tables of an array stand with the latest first. -/
inductive Node where
  | leaf (v : Value)
  | table (isImplicit isDotted : Bool) (entries : List (String × Node))
  | tables (items : List (List (String × Node)))

/-- The entries of a table in the making. -/
abbrev Entries := List (String × Node)

namespace Entries

/-- The entry of a key. -/
def get? (key : String) : Entries → Option Node
  | [] => none
  | (k, n) :: rest => if k = key then some n else get? key rest

/-- Sets the entry of a key. -/
def put (key : String) (node : Node) : Entries → Entries
  | [] => [(key, node)]
  | (k, n) :: rest => if k = key then (k, node) :: rest else (k, n) :: put key node rest

end Entries

/-- What is done to a table at the end of a path, given whether a dotted key made it. -/
abbrev Edit := Bool → Entries → Option Entries

/-- **Edits the table at the end of a path.** Tables on the way are made where they are missing. A
path of a dotted key must not lead through a table that a heading made, and of an array of tables
the latest one is meant. -/
def editAt (dotted : Bool) (edit : Edit) : List String → Edit
  | [], isDotted, entries => edit isDotted entries
  | key :: rest, _, entries =>
    match Entries.get? key entries with
    | none =>
      (editAt dotted edit rest dotted []).map fun es => entries.put key (.table true dotted es)
    | some (.leaf _) => none
    | some (.tables []) => none
    | some (.tables (latest :: earlier)) =>
      (editAt dotted edit rest false latest).map fun es =>
        entries.put key (.tables (es :: earlier))
    | some (.table isImplicit isDotted es) =>
      if dotted && !isImplicit then none
      else
        (editAt dotted edit rest isDotted es).map fun es =>
          entries.put key (.table isImplicit isDotted es)

/-- Adds a value under a key that is new. A dotted key must end in a table of dotted keys, and a
plain key must not. -/
def addNew (plain : Bool) (key : String) (v : Value) : Edit := fun isDotted entries =>
  if isDotted == plain then none
  else
    match Entries.get? key entries with
    | some _ => none
    | none => some (entries.put key (.leaf v))

/-- **Adds a value under a key**, which may be dotted. -/
def insertKey (path : List String) (key : String) (v : Value) (entries : Entries) :
    Option Entries :=
  editAt true (addNew path.isEmpty key v) path false entries

/-- Makes a table, or takes over one that was only implied so far. -/
def defineTable (key : String) : Edit := fun _ entries =>
  match Entries.get? key entries with
  | none => some (entries.put key (.table false false []))
  | some (.table true false es) => some (entries.put key (.table false false es))
  | some _ => none

/-- **What a table heading does.** -/
def openTable (path : List String) (key : String) (entries : Entries) : Option Entries :=
  editAt false (defineTable key) path false entries

/-- Adds a table to an array of tables. -/
def addTableItem (key : String) : Edit := fun _ entries =>
  match Entries.get? key entries with
  | none => some (entries.put key (.tables [[]]))
  | some (.tables items) => some (entries.put key (.tables ([] :: items)))
  | some _ => none

/-- **What a heading of an array of tables does.** -/
def openTableItem (path : List String) (key : String) (entries : Entries) : Option Entries :=
  editAt false (addTableItem key) path false entries

mutual

/-- The finished value of a node. -/
def Node.value : Node → Value
  | .leaf v => v
  | .table _ _ entries => .table (entriesValue entries)
  | .tables items => .array (itemsValue items [])

/-- The finished values of the entries of a table. -/
def entriesValue : Entries → List (String × Value)
  | [] => []
  | (key, node) :: rest => (key, node.value) :: entriesValue rest

/-- The finished tables of an array, put before those finished already. -/
def itemsValue : List Entries → List Value → List Value
  | [], found => found
  | item :: rest, found => itemsValue rest (.table (entriesValue item) :: found)

end

end Mgol.Toml
