import Linkage.Format.Dialect
import Linkage.Format.Reader
import Linkage.Number.Integer
import Linkage.Number.Powers
import Linkage.Number.Reading

/-!
# RON documents

A document writes records as `Name(field: value, …)`, where the name may be left
out but must fit if it is there, lists in brackets and tables with free keys in
braces. Commas may trail, comments may stand wherever white space may, and block
comments nest. Extensions may be switched on in front; one of them lets an
optional value stand without its parentheses, and the others do not change how
the data of this library is written.

Numbers are told apart by how they begin: one whose run of fraction characters
is longer than its run of integer characters is a fraction, and an integer that
is out of range or holds a digit outside its base is tried again as a fraction.

Containers and the values in them nest at most 128 deep.
-/

namespace Linkage

namespace Ron

/-- A number as it is written and as it is read where any value may stand. -/
structure Number where
  lexeme : List Char
  value : Scalar
  deriving DecidableEq, Repr

/-- A document. A record may carry a type name; so may a sequence in
parentheses. -/
inductive Value
  | boolean (b : Bool)
  | number (n : Number)
  | character (c : Char)
  | text (s : String)
  | none
  | some (v : Value)
  | name (type : String)
  | unit
  | list (items : List Value)
  | map (entries : List (Value × Value))
  | record (type : Option String) (entries : List (String × Value))
  | tuple (type : Option String) (items : List Value)
  deriving Inhabited

open Reader

/-! ### Characters -/

/-- Whether a character may start a name. -/
def startsName (c : Char) : Bool := c.isAlpha || c = '_'

/-- Whether a character may continue a name. -/
def continuesName (c : Char) : Bool := c.isAlphanum || c = '_'

/-- Whether a character may stand in a raw name. -/
def isRaw (c : Char) : Bool := continuesName c || c = '.' || c = '+' || c = '-'

/-- Whether a character counts towards the run of an integer. -/
def isIntegerChar (c : Char) : Bool := Digits.isDigitIn 16 c || c = '_'

/-- Whether a character counts towards the run of a fraction. -/
def isFractionChar (c : Char) : Bool :=
  Digits.isDecimal c || c = 'e' || c = 'E' || c = '.' || c = '+' ||
    c = '-' || c = '_'

/-! ### Space and comments -/

/-- Whether a character is white space. -/
def isSpace (c : Char) : Bool := c = ' ' || c = '\t' || c = '\n' || c = '\r'

/-- The text after a block comment, given how many comments are open. -/
def afterBlock : Nat → List Char → Option (List Char)
  | 0, s => .some s
  | _ + 1, [] => .none
  | depth + 1, '/' :: '*' :: rest => afterBlock (depth + 2) rest
  | depth + 1, '*' :: '/' :: rest => afterBlock depth rest
  | depth + 1, _ :: rest => afterBlock (depth + 1) rest
termination_by _ s => s.length

/-- Skip white space and comments. -/
def skipSpaceWithin : Nat → Reader Unit
  | 0 => failure
  | fuel + 1 => do
      skipWhile isSpace
      match ← get with
      | '/' :: '/' :: rest =>
          set (rest.dropWhile (· ≠ '\n'))
          skipSpaceWithin fuel
      | '/' :: '*' :: rest =>
          match afterBlock 1 rest with
          | .some after =>
              set after
              skipSpaceWithin fuel
          | .none => failure
      | '/' :: _ => failure
      | _ => pure ()

/-- Skip white space and comments. -/
def skipSpace : Reader Unit := do skipSpaceWithin ((← get).length + 1)

/-- Take a comma and the space around it, and tell whether there was one. -/
def acceptComma : Reader Bool := do
  skipSpace
  if ← accept ',' then
    skipSpace
    return true
  else return false

/-! ### Names -/

/-- A name; one that goes on with the characters of a raw name has to be written
as such. -/
def readName : Reader String := do
  match ← get with
  | 'r' :: '#' :: rest =>
      match rest with
      | c :: _ =>
          if isRaw c then
            set rest
            return String.ofList (← takeWhile isRaw)
          else failure
      | [] => failure
  | ['r'] => failure
  | 'r' :: '"' :: _ => failure
  | c :: s =>
      if startsName c then
        let length := ((c :: s).takeWhile continuesName).length
        if length < ((c :: s).takeWhile isRaw).length then failure
        return String.ofList (← takeWhile continuesName)
      else failure
  | [] => failure

/-- Take a word if it comes next and is not part of a longer name. -/
def acceptWord (word : String) : Reader Bool := do
  let w := word.toList
  let s ← get
  if w.isPrefixOf s && !((s.drop w.length).head?.any continuesName) then
    set (s.drop w.length)
    return true
  else return false

/-! ### Texts -/

/-- A Unicode escape after its opening brace: up to six digits and the closing
brace. -/
def readUnicodeDigits : Nat → Nat → Reader (Nat × Nat)
  | 0, n => return (n, 6)
  | left + 1, n => do
      match ← peek with
      | .some '\x7d' => return (n, 5 - left)
      | _ =>
          let c ← next
          match Digits.digit? c with
          | .some d => readUnicodeDigits left (n * 16 + d)
          | .none => failure

/-- Whether a number is a Unicode scalar value. -/
def isScalarValue (n : Nat) : Bool := n < 0xD800 || (0xDFFF < n && n < 0x110000)

/-- What follows a backslash. -/
def readEscape : Reader Char := do
  match ← next with
  | '\'' => return '\''
  | '"' => return '"'
  | '\\' => return '\\'
  | 'n' => return '\n'
  | 'r' => return '\r'
  | 't' => return '\t'
  | '0' => return '\x00'
  | 'x' =>
      return Char.ofNat
        (← fixedDigits (Digits.isDigitIn 16) (Digits.value 16) 2)
  | 'u' =>
      expect '\x7b'
      let (n, count) ← readUnicodeDigits 6 0
      if count = 0 then failure
      expect '\x7d'
      if isScalarValue n then return Char.ofNat n else failure
  | _ => failure

/-- The characters of a quoted text up to and with its closing quote. -/
def readQuoted : Nat → Reader (List Char)
  | 0 => failure
  | fuel + 1 => do
      let c ← next
      if c = '"' then return []
      else
        let d ← if c = '\\' then readEscape else pure c
        return d :: (← readQuoted fuel)

/-- The characters of a raw text before a quote with a number of hashes. -/
def readRawBody (close : List Char) : Nat → Reader (List Char)
  | 0 => failure
  | fuel + 1 => do
      if ← acceptText close then return []
      else
        let c ← next
        return c :: (← readRawBody close fuel)

/-- A text, quoted or raw. -/
def readText : Reader String := do
  let fuel := (← get).length + 1
  if ← accept '"' then return String.ofList (← readQuoted fuel)
  else
    expect 'r'
    let hashes ← takeWhile (· = '#')
    expect '"'
    return String.ofList (← readRawBody ('"' :: hashes) fuel)

/-- A character between single quotes. -/
def readCharacter : Reader Char := do
  expect '\''
  let c ← next
  if c = '\'' then failure
  let d ← if c = '\\' then readEscape else pure c
  expect '\''
  return d

/-! ### Numbers -/

/-- The base that an integer is written in, and how many characters say so. -/
def baseOf : List Char → Nat × Nat
  | '0' :: 'x' :: _ => (16, 2)
  | '0' :: 'b' :: _ => (2, 2)
  | '0' :: 'o' :: _ => (8, 2)
  | _ => (10, 0)

/-- The natural number that a run of digits writes: underscores may stand
anywhere but in front. -/
def digitsValue? (base : Nat) (run : List Char) : Option Nat :=
  if run.head? = .some '_' ∨ run = [] then .none
  else
    let digits := run.filter (· ≠ '_')
    if digits.all (Digits.isDigitIn base) then
      .some (Digits.value base digits) else .none

/-- The natural number at the front of a text, and the rest. -/
def unsigned? (s : List Char) : Option (Nat × List Char) :=
  let base := baseOf s
  let body := s.drop base.2
  (digitsValue? base.1 (body.takeWhile isIntegerChar)).map fun n =>
    (n, body.dropWhile isIntegerChar)

/-- The integer at the front of a text where any value may stand: signed
integers have to fit 64 bits with a sign, others 64 bits without. -/
def integer? : List Char → Option (Int × List Char)
  | '+' :: s => (unsigned? s).bind fun (n, rest) =>
      if n < twoTo 63 then .some ((n : Int), rest) else .none
  | '-' :: s => (unsigned? s).bind fun (n, rest) =>
      if n ≤ twoTo 63 then .some (-(n : Int), rest) else .none
  | s => (unsigned? s).bind fun (n, rest) =>
      if n < twoTo 64 then .some ((n : Int), rest) else .none

/-- The words that are fractions. -/
def fractionWords : List (String × Binary64) :=
  [("inf", .infinity false), ("+inf", .infinity false),
    ("-inf", .infinity true), ("NaN", .nan), ("+NaN", .nan), ("-NaN", .nan)]

/-- The fraction at the front of a text, and the rest. -/
def readFraction : Reader Binary64 := do
  match ← fractionWords.findSomeM? fun w => do
      if ← acceptWord w.1 then return .some w.2 else return .none with
  | .some x => return x
  | .none =>
      let run ← takeWhile isFractionChar
      if run.contains '_' then failure
      match Binary64.read? run with
      | .some x => return x
      | .none => failure

/-- Whether the number at the front of a text is written as a fraction. -/
def looksFractional (s : List Char) : Bool :=
  let body := match s with
    | '+' :: rest => rest
    | '-' :: rest => rest
    | rest => rest
  (body.takeWhile isIntegerChar).length < (body.takeWhile isFractionChar).length

/-- The value of a number where any value may stand. -/
def readNumberValue : Reader Scalar := do
  let s ← get
  match if looksFractional s then Option.none else integer? s with
  | .some (n, rest) =>
      set rest
      return Scalar.ofInteger n
  | .none => return .fraction (← readFraction)

/-- A number where any value may stand. -/
def readNumber : Reader Number := do
  let s ← get
  let value ← readNumberValue
  let rest ← get
  return ⟨s.take (s.length - rest.length), value⟩

/-! ### Values -/

/-- Containers and the values in them nest at most this deep. -/
def nestingLimit : Nat := 128

/-- Whether the inside of parentheses is a list of values and not of fields: it
does not start with a name followed by a colon. -/
def looksPositional : Reader Bool := do
  let s ← get
  match readName s with
  | .none => return true
  | .some (_, rest) =>
      match skipSpace rest with
      | .none => failure
      | .some (_, after) =>
          match after with
          | [] => failure
          | c :: _ => return c ≠ ':'

mutual

/-- A value. The first bound is larger than any recursion needs, the second
counts the levels of nesting that are left. `bare` tells whether an optional
value may go without parentheses. -/
def readValue (bare : Bool) : Nat → Nat → Reader Value
  | 0, _ => failure
  | fuel + 1, depth => do
      if ← acceptWord "true" then return .boolean true
      if ← acceptWord "false" then return .boolean false
      let s ← get
      if ← acceptWord "Some" then
        skipSpace
        match depth with
        | 0 => failure
        | inner + 1 =>
            if ← accept '(' then
              skipSpace
              let v ← readValue bare fuel inner
              let _ ← acceptComma
              expect ')'
              return .some v
            else if bare then return .some (← readValue bare fuel inner)
            else failure
      if ← acceptWord "None" then return .none
      if ← acceptText ['(', ')'] then return .unit
      if ← acceptWord "inf" then return .number ⟨"inf".toList,
        .fraction (.infinity false)⟩
      if ← acceptWord "-inf" then return .number ⟨"-inf".toList,
        .fraction (.infinity true)⟩
      if ← acceptWord "NaN" then return .number ⟨"NaN".toList, .fraction .nan⟩
      match ← Reader.optional readName with
      | .some type =>
          skipSpace
          if ← accept '(' then readParenthesised bare (.some type) fuel depth
          else return .name type
      | .none =>
          match s.head? with
          | .some '(' =>
              let _ ← next
              readParenthesised bare .none fuel depth
          | .some '[' =>
              let _ ← next
              match depth with
              | 0 => failure
              | inner + 1 => return .list (← readItems bare ']' fuel inner)
          | .some '\x7b' =>
              let _ ← next
              match depth with
              | 0 => failure
              | inner + 1 => return .map (← readMapEntries bare fuel inner)
          | .some '"' => return .text (← readText)
          | .some 'r' => return .text (← readText)
          | .some '\'' => return .character (← readCharacter)
          | .some c =>
              if Digits.isDecimal c || c = '+' || c = '-' || c = '.' then
                return .number (← readNumber)
              else failure
          | .none => failure

/-- What stands in parentheses, after the opening one. -/
def readParenthesised (bare : Bool) (type : Option String) :
    Nat → Nat → Reader Value
  | 0, _ => failure
  | fuel + 1, depth => do
      skipSpace
      match depth with
      | 0 => failure
      | inner + 1 =>
          if ← looksPositional then
            return .tuple type (← readItems bare ')' fuel inner)
          else return .record type (← readFields bare fuel inner)

/-- Values with commas between them, up to and with a closing bracket. -/
def readItems (bare : Bool) (close : Char) : Nat → Nat → Reader (List Value)
  | 0, _ => failure
  | fuel + 1, depth => do
      skipSpace
      if ← accept close then return []
      match depth with
      | 0 => failure
      | inner + 1 =>
          let v ← readValue bare fuel inner
          if ← acceptComma then return v :: (← readItems bare close fuel depth)
          else
            expect close
            return [v]

/-- Entries of a table with free keys, up to and with the closing brace. -/
def readMapEntries (bare : Bool) : Nat → Nat → Reader (List (Value × Value))
  | 0, _ => failure
  | fuel + 1, depth => do
      skipSpace
      if ← accept '\x7d' then return []
      match depth with
      | 0 => failure
      | inner + 1 =>
          let k ← readValue bare fuel inner
          skipSpace
          expect ':'
          skipSpace
          let v ← readValue bare fuel inner
          if ← acceptComma then
            return (k, v) :: (← readMapEntries bare fuel depth)
          else
            expect '\x7d'
            return [(k, v)]

/-- Fields of a record, up to and with the closing parenthesis. -/
def readFields (bare : Bool) : Nat → Nat → Reader (List (String × Value))
  | 0, _ => failure
  | fuel + 1, depth => do
      skipSpace
      if ← accept ')' then return []
      match depth with
      | 0 => failure
      | inner + 1 =>
          let k ← readName
          skipSpace
          expect ':'
          skipSpace
          let v ← readValue bare fuel inner
          if ← acceptComma then return (k, v) :: (← readFields bare fuel depth)
          else
            expect ')'
            return [(k, v)]

end

/-! ### Documents -/

/-- The extension that lets an optional value stand without its parentheses. -/
def bareOptions : String := "implicit_some"

/-- The extensions that a document may switch on. -/
def extensions : List String :=
  ["unwrap_newtypes", bareOptions, "unwrap_variant_newtypes"]

/-- The names of extensions up to the closing parenthesis. -/
def readExtensionNames : Nat → Reader (List String)
  | 0 => failure
  | fuel + 1 => do
      let name ← readName
      if !extensions.contains name then failure
      let comma ← acceptComma
      let more := (← peek).any continuesName
      if comma && more then return name :: (← readExtensionNames fuel)
      else if more then failure
      else return [name]

/-- Take a text and the space after it. -/
def token (s : String) : Reader Unit := do
  literal s.toList
  skipSpace

/-- The names of the extensions that are switched on in front of a document. -/
def readAttributes : Nat → Reader (List String)
  | 0 => failure
  | fuel + 1 => do
      match ← peek with
      | .some '#' =>
          token "#"
          token "!"
          token "["
          token "enable"
          token "("
          let names ← readExtensionNames fuel
          skipSpace
          token ")"
          token "]"
          return names ++ (← readAttributes fuel)
      | _ => return []

/-- The document of a text. Every nested call takes a character first, or is one
of three that share it, so the length of the text bounds the nesting. -/
def parse? (s : String) : Option Value :=
  let chars := s.toList
  let fuel := 3 * chars.length + 3
  whole (do
    skipSpace
    let names ← readAttributes fuel
    let v ← readValue (names.contains bareOptions) fuel nestingLimit
    skipSpace
    return v) chars

/-! ### Views -/

/-- The fields of a record whose type name, if it carries one, is the one
expected. -/
def fieldsOf? (type : String) : Value → Option (List (String × Value))
  | .record found entries =>
      if found.all (· = type) then .some entries else .none
  | .tuple found [] => if found.all (· = type) then .some [] else .none
  | .unit => .some []
  | _ => .none

/-- The entries of a table whose keys are texts. -/
def textKeys? (entries : List (Value × Value)) :
    Option (List (String × Value)) :=
  entries.mapM fun e => match e.1 with
    | .text k => .some (k, e.2)
    | _ => .none

/-- The natural number that a lexeme writes without a sign. -/
def natural? (lexeme : List Char) : Option Nat :=
  match unsigned? lexeme with
  | .some (n, []) => .some n
  | _ => .none

/-- How RON documents are looked at: records are given by name only. -/
def dialect : Dialect Value where
  record type v := (fieldsOf? type v).map .named
  sequence v := match v with
    | .list items => .some items
    | _ => .none
  dictionary v := match v with
    | .map entries => textKeys? entries
    | _ => .none
  text v := match v with
    | .text s => .some s
    | _ => .none
  natural v := match v with
    | .number n => natural? n.lexeme
    | _ => .none
  scalar v := match v with
    | .boolean b => .some (.flag b)
    | .number n => .some n.value
    | .text s => .some (.text s)
    | _ => .none
  isUnit type v := match v with
    | .name found => found = type
    | .unit => true
    | _ => false
  refusesExtraItems := true

/-- More than the containers that can be opened within each other. -/
def budget : Nat := nestingLimit

end Ron

end Linkage
