/-!
# The tree of tables of a TOML document

A document is read for its integers. All other values are checked for form and dropped
(`Node.other`); tables are kept, with how they came to be, since that decides what may be added to
them later.
-/

namespace ProofOfAuthority.Toml

/-- How a table came to be. -/
inductive Origin
  /-- By a header of its own, or as the whole document. -/
  | declared
  /-- On the way of a header to a table below it. -/
  | implied
  /-- On the way of a dotted key. -/
  | dotted
  deriving DecidableEq

/-- What a key stands for. -/
inductive Node
  | integer (value : Int)
  /-- A value that is no integer, closed to additions. -/
  | other
  | table (origin : Origin) (entries : List (String × Node))
  /-- An array of tables, of which only the last is open to additions. -/
  | tables (last : List (String × Node))

/-- The entries of a table, in order. -/
abbrev Entries := List (String × Node)

namespace Entries

/-- What a key stands for, if it is set. -/
def find? (es : Entries) (key : String) : Option Node := es.lookup key

/-- The entries with a key set, in place of an earlier value. -/
def set (key : String) (node : Node) : Entries → Entries
  | [] => [(key, node)]
  | (k, n) :: rest => if k = key then (k, node) :: rest else (k, n) :: set key node rest

/-- Change the table at the end of a path, with tables of the given origin put in where the path has
none. A dotted path does not pass through a table that was declared. -/
def update (through : Origin) (change : Origin → Entries → Option Entries) :
    (path : List String) → (origin : Origin) → Entries → Option Entries
  | [], origin, es => change origin es
  | key :: path, _, es =>
    match find? es key with
    | none => do
      let below ← update through change path through []
      return set key (.table through below) es
    | some (.table origin below) =>
      if through = .dotted ∧ origin = .declared then none
      else do
        let below ← update through change path origin below
        return set key (.table origin below) es
    | some (.tables last) => do
      let last ← update through change path .declared last
      return set key (.tables last) es
    | some _ => none

/-- Set a dotted key, which must be new, and whose table must be made of dotted keys. -/
def insert (path : List String) (node : Node) (origin : Origin) (es : Entries) : Option Entries :=
  match path.getLast? with
  | none => none
  | some key =>
    let change (origin : Origin) (es : Entries) : Option Entries :=
      if path.length ≠ 1 ∧ origin ≠ .dotted then none
      else if (find? es key).isSome then none
      else some (set key node es)
    update .dotted change path.dropLast origin es

/-- Change what the last part of a header's path stands for. -/
def declare (change : Option Node → Option Node) (path : List String) (es : Entries) :
    Option Entries :=
  match path.getLast? with
  | none => none
  | some key => update .implied (fun _ es => (change (find? es key)).map (set key · es))
      path.dropLast .declared es

/-- Open a table by its header. It must be new, or only implied so far. -/
def openTable : List String → Entries → Option Entries :=
  declare fun
    | none => some (.table .declared [])
    | some (.table .implied es) => some (.table .declared es)
    | some _ => none

/-- Open the next table of an array of tables by its header. -/
def openElement : List String → Entries → Option Entries :=
  declare fun
    | none => some (.tables [])
    | some (.tables _) => some (.tables [])
    | some _ => none

end Entries

end ProofOfAuthority.Toml
