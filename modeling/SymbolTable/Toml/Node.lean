/-!
# TOML tables

What a TOML text says, as a table of named nodes in the order in which they were written. Tables
come about in four ways, which say what may be added to them later: under a header of their own, by
being passed through in a header or in a dotted key, and inline. A key is given a value once, and a
table has one header.
-/

namespace SymbolTable.Toml

/-- How a table came about. -/
inductive Form where
  /-- Under a header. -/
  | header
  /-- Passed through in a header; it may get a header later. -/
  | implied
  /-- Passed through in a dotted key; it may get more keys in the same way. -/
  | dotted
  /-- Between braces; it is complete. -/
  | inline
  deriving DecidableEq, Repr

/-- A value, or a table or tables under headers. -/
inductive Node where
  | text (s : String)
  | integer (n : Int)
  | float (literal : String)
  | flag (b : Bool)
  /-- A date, a time, or both. -/
  | moment (literal : String)
  | array (items : List Node)
  | table (form : Form) (entries : List (String × Node))
  /-- The tables under headers in double brackets. -/
  | tables (rows : List (List (String × Node)))

/-- The named nodes of a table. -/
abbrev Entries :=
  List (String × Node)

namespace Entries

/-- The node under a key. -/
def get? (es : Entries) (key : String) : Option Node :=
  (es.find? (·.1 = key)).map (·.2)

/-- Puts a node under a key, in place of what was there. -/
def put : Entries → String → Node → Entries
  | [], key, node => [(key, node)]
  | e :: es, key, node => if e.1 = key then (key, node) :: es else e :: put es key node

/-- Changes the last of the tables under a header in double brackets. -/
def changeLast (rows : List Entries) (f : Entries → Option Entries) : Option Node :=
  match rows.getLast? with
  | none => none
  | some row => (fun row => .tables (rows.dropLast ++ [row])) <$> f row

/-- Gives a value to a dotted key, whose last part is `key`. The tables on the way are made where
they are missing; they may not have a header of their own, nor be complete, and the last one must
have been made by a dotted key. -/
def assign : (path : List String) → (key : String) → Node → Entries → Option Entries
  | [], key, node, es => if (es.get? key).isSome then none else some (es.put key node)
  | part :: path, key, node, es =>
    match es.get? part with
    | none => (fun sub => es.put part (.table .dotted sub)) <$> assign path key node []
    | some (.table form sub) =>
      if form = .header || form = .inline || path.isEmpty && form ≠ .dotted then none
      else (fun sub => es.put part (.table form sub)) <$> assign path key node sub
    | some (.tables rows) =>
      if path.isEmpty then none
      else (fun node => es.put part node) <$> changeLast rows (assign path key node)
    | some _ => none

/-- Changes the table that a path leads to, making the tables on the way where they are missing. -/
def within (f : Entries → Option Entries) : (path : List String) → Entries → Option Entries
  | [], es => f es
  | part :: path, es =>
    match es.get? part with
    | none => (fun sub => es.put part (.table .implied sub)) <$> within f path []
    | some (.table form sub) =>
      if form = .inline then none
      else (fun sub => es.put part (.table form sub)) <$> within f path sub
    | some (.tables rows) => (fun node => es.put part node) <$> changeLast rows (within f path)
    | some _ => none

/-- Opens the table under a header. -/
def openTable (key : String) (es : Entries) : Option Entries :=
  match es.get? key with
  | none => some (es.put key (.table .header []))
  | some (.table .implied sub) => some (es.put key (.table .header sub))
  | some _ => none

/-- Opens a further table under a header in double brackets. -/
def addTable (key : String) (es : Entries) : Option Entries :=
  match es.get? key with
  | none => some (es.put key (.tables [[]]))
  | some (.tables rows) => some (es.put key (.tables (rows ++ [[]])))
  | some _ => none

end Entries

end SymbolTable.Toml
