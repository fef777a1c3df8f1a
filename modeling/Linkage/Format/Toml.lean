import Linkage.Format.Dialect
import Linkage.Format.Toml.Token
import Linkage.Format.Toml.Tree

/-!
# TOML documents

A document is a sequence of lines: comments, headers that open a table or add
an element to a list of tables, and assignments of values to dotted keys in the
table of the last header. Lists may span lines and end in a comma, inline tables
may not.

Keys have fewer than 80 parts, and lists and inline tables nest fewer than 80
deep.

A moment is looked at as a table with one reserved key, so it can stand where a
table of texts is expected and nowhere else.
-/

namespace Linkage

namespace Toml

open Reader

/-- Keys have fewer parts, and values nest less deep, than this. -/
def nestingLimit : Nat := 80

/-- Whether a character may stand in a key without quotes. -/
def isKeyChar (c : Char) : Bool := c.isAlphanum || c = '_' || c = '-'

/-- One part of a key. -/
def readKeyPart : Reader String := do
  let s ← get
  if ← accept '"' then return String.ofList (← readBasic (s.length + 1))
  else if ← accept '\'' then return String.ofList (← readLiteral)
  else return String.ofList (← takeSome isKeyChar)

/-- The parts of a dotted key. -/
def readKeyParts : Nat → Reader (List String)
  | 0 => failure
  | fuel + 1 => do
      skipBlanks
      let part ← readKeyPart
      skipBlanks
      if ← accept '.' then return part :: (← readKeyParts fuel)
      else return [part]

/-- A dotted key: the path to a table and a key in it. -/
def readKey : Reader (List String × String) := do
  let parts ← readKeyParts nestingLimit
  match parts.getLast? with
  | some key =>
      if parts.length < nestingLimit then
        return (parts.dropLast, key) else failure
  | none => failure

mutual

/-- A value. The first bound is larger than any recursion needs, the second
counts the levels of nesting that are left. -/
def readValue : Nat → Nat → Reader Tree
  | 0, _ => failure
  | fuel + 1, depth => do
      let s ← get
      match s.head? with
      | some '"' => return .scalar (.text (← readText))
      | some '\'' => return .scalar (.text (← readText))
      | some '[' =>
          match depth with
          | 0 => failure
          | inner + 1 =>
              let _ ← next
              return .array (← readItems fuel inner)
      | some '\x7b' =>
          match depth with
          | 0 => failure
          | inner + 1 =>
              let _ ← next
              skipBlanks
              let empty : Tree := .table { inlined := true } []
              if ← accept '\x7d' then return empty else
                readEntries fuel inner empty
      | some 't' => literal "true".toList; return .scalar (.flag true)
      | some 'f' => literal "false".toList; return .scalar (.flag false)
      | _ =>
          if startsMoment s then return .moment (← readMoment)
          else return .scalar (← readNumber)

/-- The items of a list, up to and with its closing bracket. -/
def readItems : Nat → Nat → Reader (List Tree)
  | 0, _ => failure
  | fuel + 1, depth => do
      skipLines ((← get).length + 1)
      if ← accept ']' then return []
      let v ← readValue fuel depth
      skipLines ((← get).length + 1)
      if ← accept ',' then return v :: (← readItems fuel depth)
      else
        expect ']'
        return [v]

/-- The entries of an inline table, up to and with its closing brace. -/
def readEntries : Nat → Nat → Tree → Reader Tree
  | 0, _, _ => failure
  | fuel + 1, depth, table => do
      let (path, key) ← readKey
      expect '='
      skipBlanks
      let v ← readValue fuel depth
      skipBlanks
      match table.put true path key v with
      | none => failure
      | some extended =>
          if ← accept ',' then readEntries fuel depth extended
          else
            expect '\x7d'
            return extended

end

/-- A document as far as it is read, and the path of the last header. -/
structure Progress where
  root : Tree := .table {} []
  header : List String := []

/-- An assignment in the table of the last header. -/
def readAssignment (p : Progress) : Reader Progress := do
  let (path, key) ← readKey
  expect '='
  skipBlanks
  let v ← readValue (3 * (← get).length + 3) (nestingLimit - 1)
  endLine
  match p.root.assign p.header path key v with
  | some root => return { p with root }
  | none => failure

/-- A header after its opening bracket. -/
def readHeader (p : Progress) : Reader Progress := do
  let element ← accept '['
  let (path, key) ← readKey
  expect ']'
  if element then expect ']'
  endLine
  let opened := if element then p.root.openElement path key
    else p.root.openTable path key
  match opened with
  | some root => return { root, header := path ++ [key] }
  | none => failure

/-- The lines of a document up to its end. -/
def readDocument : Nat → Progress → Reader Tree
  | 0, _ => failure
  | fuel + 1, p => do
      skipBlanks
      match ← peek with
      | none => return p.root
      | some c =>
          if c = '#' || c = '\n' || c = '\r' then
            if ← accept '#' then skipWhile isCommentChar
            if ← acceptBreak then readDocument fuel p
            else
              finish
              if c = '#' then return p.root else failure
          else if ← accept '[' then readDocument fuel (← readHeader p)
          else readDocument fuel (← readAssignment p)

/-- The document of a text, which may start with a byte order mark. -/
def parse? (s : String) : Option Tree :=
  let chars := match s.toList with
    | '\ufeff' :: rest => rest
    | chars => chars
  whole (readDocument (chars.length + 1) {}) chars

/-! ### Views -/

/-- The key under which a moment is looked at. -/
def momentKey : String := "$__toml_private_datetime"

/-- The entries of a table. -/
def entries? : Tree → Option (List (String × Tree))
  | .table _ entries => some entries
  | .moment text => some [(momentKey, .scalar (.text text))]
  | _ => none

/-- The items of a list. -/
def items? : Tree → Option (List Tree)
  | .array items => some items
  | .tables elements => some elements
  | _ => none

/-- How TOML documents are looked at: a record is a table, or a list whose first
items are its fields. -/
def dialect : Dialect Tree where
  record _ v := match entries? v with
    | some entries => some (.named entries)
    | none => (items? v).map .positional
  sequence := items?
  dictionary := entries?
  text v := match v with
    | .scalar (.text s) => some s
    | _ => none
  natural v := match v with
    | .scalar (.integer (.ofNat n)) => some n
    | _ => none
  scalar v := match v with
    | .scalar s => some s
    | _ => none
  isUnit _ _ := false
  refusesExtraItems := false

mutual

/-- How deep tables and lists nest in a document. -/
def depth : Tree → Nat
  | .array items => depthOfItems items + 1
  | .tables elements => depthOfItems elements + 1
  | .table _ entries => depthOfEntries entries + 1
  | .scalar _ => 0
  | .moment _ => 1

/-- How deep the items of a list nest. -/
def depthOfItems : List Tree → Nat
  | [] => 0
  | t :: rest => max (depth t) (depthOfItems rest)

/-- How deep the values of a table nest. -/
def depthOfEntries : List (String × Tree) → Nat
  | [] => 0
  | e :: rest => max (depth e.2) (depthOfEntries rest)

end

end Toml

end Linkage
