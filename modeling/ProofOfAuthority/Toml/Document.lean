import ProofOfAuthority.Toml.Number
import ProofOfAuthority.Toml.Tree

/-!
# TOML documents

A document is a sequence of lines: headers, which open tables, and pairs of key and value, which go
into the table opened last. `entries?` reads a text as the entries of its root table.
-/

namespace ProofOfAuthority.Toml

open Reader

/-! ## Values -/

/-- A value that is neither an array nor a table. -/
def scalar : Reader Node :=
  (do anyString; return .other) <|>
  (do moment; return .other) <|>
  (do float; return .other) <|>
  (do return .integer (← integer)) <|>
  (do word "true" <|> word "false"; return .other)

/-- An array of items. -/
def array (item : Reader Node) : Reader Node := do
  char '['
  trivia
  let _ ← optional (do
    let _ ← separated (do
      trivia
      let _ ← item
      trivia) (char ',')
    optional (char ','))
  trivia
  char ']'
  return .other

/-- A table on one line. -/
def inlineTable (item : Reader Node) : Reader Node := do
  char '{'
  let pairs ← optional (separated (do
    let path ← key
    char '='
    blanks
    let node ← item
    blanks
    return (path, node)) (char ','))
  blanks
  char '}'
  let insertPair (es : Entries) (pair : List String × Node) : Option Entries :=
    es.insert pair.1 pair.2 .declared
  match (pairs.getD []).foldlM insertPair [] with
  | some _ => return .other
  | none => failure

/-- A value in which arrays and tables are nested at most `depth` deep. -/
def value : (depth : Nat) → Reader Node
  | 0 => scalar
  | depth + 1 => scalar <|> array (value depth) <|> inlineTable (value depth)

/-! ## Lines -/

/-- What a line says. -/
inductive Statement
  | nothing
  | header (path : List String)
  | elementHeader (path : List String)
  | pair (path : List String) (node : Node)

/-- A line with its end, blanks before it apart. -/
def statement : Reader Statement :=
  (do newline; return .nothing) <|>
  (do comment; newline <|> done; return .nothing) <|>
  (do
    word "[["
    let path ← key
    word "]]"
    lineEnd
    return .elementHeader path) <|>
  (do
    char '['
    let path ← key
    char ']'
    lineEnd
    return .header path) <|>
  (do
    let path ← key
    char '='
    blanks
    let node ← value (maxDepth - 1)
    lineEnd
    return .pair path node)

/-- All lines of a text, which may start with a byte order mark. -/
def statements : Reader (List Statement) := do
  let _ ← optional (char '\uFEFF')
  blanks
  let lines ← many (do
    let line ← statement
    blanks
    return line)
  done
  return lines

/-! ## Documents -/

/-- A document under way: its entries, and the path of the table opened last. -/
structure Document where
  entries : Entries
  path : List String

namespace Document

/-- The document with one more line. -/
def add (d : Document) : Statement → Option Document
  | .nothing => some d
  | .header path => (d.entries.openTable path).map (⟨·, path⟩)
  | .elementHeader path => (d.entries.openElement path).map (⟨·, path⟩)
  | .pair path node =>
    (Entries.update .implied (Entries.insert path node) d.path .declared d.entries).map
      (⟨·, d.path⟩)

end Document

/-- The entries of the root table of a text, unless the text is malformed. -/
def entries? (text : String) : Option Entries := do
  let (lines, _) ← statements text.toList
  let d ← lines.foldlM Document.add ⟨[], []⟩
  return d.entries

end ProofOfAuthority.Toml
