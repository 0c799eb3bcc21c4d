import ContractAudit.Table
import ContractAudit.Text.Blank
import ContractAudit.Text.LineEnd

/-!
# Environment files

Lines of the form `NAME=value`. A line may begin with the word export, a name may stand in single
quotes, and a value in quotes of either kind, where it may go on over several lines. A value without
quotes ends before a comment, which is a number sign after a blank. A line that has another form is
passed over. In a value, a name in braces after a dollar sign stands for the value of that name in
the lines before or in the environment; a default may follow it.
-/

namespace ContractAudit.EnvFile

/-- A blank that does not end a line. -/
def isInlineBlank (c : Char) : Bool := Text.isBlank c && c != '\n'

def skipInline (cs : List Char) : List Char := cs.dropWhile isInlineBlank

/-- The text after the current line. -/
def skipLine (cs : List Char) : List Char := (cs.dropWhile (· != '\n')).drop 1

/-- The text after blanks and a line end, if nothing else stands before it. -/
def endOfLine? (cs : List Char) : Option (List Char) :=
  match skipInline cs with
  | [] => some []
  | c :: rest => if c = '\n' then some rest else none

/-- The text after a comment, if one begins here. -/
def skipComment (cs : List Char) : List Char :=
  match skipInline cs with
  | '#' :: rest => rest.dropWhile (· != '\n')
  | _ => cs

def skipExport (cs : List Char) : List Char :=
  let rest := cs.drop 6
  if "export".toList.isPrefixOf cs && rest.head?.any isInlineBlank then skipInline rest else cs

/-- The name at the start of a line and what follows it; a comment has no name. -/
def name? (cs : List Char) : Option (Option String × List Char) :=
  match cs with
  | '#' :: _ => some (none, cs)
  | '\'' :: rest =>
    let name := rest.takeWhile (· != '\'')
    let after := rest.dropWhile (· != '\'')
    if name.isEmpty || after.isEmpty then none else some (some (String.ofList name), after.drop 1)
  | _ =>
    let isPart (c : Char) : Bool := ! (c == '=' || c == '#' || Text.isBlank c)
    let name := cs.takeWhile isPart
    if name.isEmpty then none else some (some (String.ofList name), cs.dropWhile isPart)

/-- The text up to the closing quote and what follows it. A quote after a backslash does not close,
unless no other quote does. -/
def quoted? (mark : Char) : List Char → Option (List Char × List Char)
  | [] => none
  | '\\' :: c :: cs =>
    if c = mark then
      match quoted? mark cs with
      | some (v, rest) => some ('\\' :: c :: v, rest)
      | none => some (['\\'], cs)
    else (quoted? mark (c :: cs)).map fun (v, rest) => ('\\' :: v, rest)
  | c :: cs =>
    if c = mark then some ([], cs) else (quoted? mark cs).map fun (v, rest) => (c :: v, rest)

/-- Replaces the escapes of a table, which gives the character for a letter. -/
def unescape (escapes : List (Char × Char)) : List Char → List Char
  | [] => []
  | '\\' :: c :: cs =>
    match Table.get? escapes c with
    | some d => d :: unescape escapes cs
    | none => '\\' :: unescape escapes (c :: cs)
  | c :: cs => c :: unescape escapes cs

def singleEscapes : List (Char × Char) := [('\\', '\\'), ('\'', '\'')]

def doubleEscapes : List (Char × Char) :=
  [('\\', '\\'), ('\'', '\''), ('"', '"'), ('a', '\x07'), ('b', '\x08'), ('f', '\x0c'), ('n', '\n'),
   ('r', '\r'), ('t', '\t'), ('v', '\x0b')]

/-- The text before a comment, where `prev` is the character before it. -/
def beforeComment (prev : Option Char) : List Char → List Char
  | [] => []
  | c :: cs => if c == '#' && prev.any Text.isBlank then [] else c :: beforeComment (some c) cs

/-- The value after an equals sign and what follows it. -/
def value? (cs : List Char) : Option (String × List Char) :=
  match cs with
  | '\'' :: rest =>
    (quoted? '\'' rest).map fun (v, after) => (String.ofList (unescape singleEscapes v), after)
  | '"' :: rest =>
    (quoted? '"' rest).map fun (v, after) => (String.ofList (unescape doubleEscapes v), after)
  | _ =>
    let line := cs.takeWhile (· != '\n')
    some (String.ofList (Text.trimEnd (beforeComment none line)), cs.dropWhile (· != '\n'))

/-- A name with its value, if it has one. -/
abbrev Binding := String × Option String

/-- What follows a name: the value, if there is one, and the text after it. -/
def assignment? (cs : List Char) : Except (List Char) (Option String × List Char) :=
  match skipInline cs with
  | '=' :: rest =>
    match value? (skipInline rest) with
    | some (v, after) => .ok (some v, after)
    | none => .error (skipInline rest)
  | rest => .ok (none, rest)

/-- The first binding of a text that does not begin with a blank, and the text after it. -/
def binding (cs : List Char) : Option Binding × List Char :=
  let cs := skipExport cs
  match name? cs with
  | none => (none, skipLine cs)
  | some (name, rest) =>
    match assignment? rest with
    | .error stuck => (none, skipLine stuck)
    | .ok (value, after) =>
      let after := skipComment after
      match endOfLine? after with
      | some next => (name.map (·, value), next)
      | none => (none, skipLine after)

/-- The bindings of a text, in order. Every step takes at least one character. -/
def bindingsFrom : Nat → List Char → List Binding
  | 0, _ => []
  | steps + 1, cs =>
    match Text.trimStart cs with
    | [] => []
    | c :: rest =>
      let (found, next) := binding (c :: rest)
      found.toList ++ bindingsFrom steps next

def bindings (text : String) : List Binding :=
  let cs := Text.normalizeLineEnds text.toList
  bindingsFrom cs.length cs

/-! ## References in values -/

/-- A reference after its dollar sign and opening brace: the name, the default and the number of
characters taken. -/
def reference? (cs : List Char) : Option (String × String × Nat) :=
  let name := cs.takeWhile fun c => c != '\x7d' && c != ':'
  match cs.drop name.length with
  | '\x7d' :: _ => some (String.ofList name, "", name.length + 1)
  | ':' :: '-' :: rest =>
    let default := rest.takeWhile (· != '\x7d')
    if (rest.drop default.length).isEmpty then none
    else some (String.ofList name, String.ofList default, name.length + 2 + default.length + 1)
  | _ => none

/-- Replaces the references in a value. -/
def resolve (lookup : String → Option String) : List Char → List Char
  | [] => []
  | c :: cs =>
    match c, cs with
    | '$', '\x7b' :: rest =>
      match reference? rest with
      | some (name, default, taken) =>
        ((lookup name).getD default).toList ++ resolve lookup (rest.drop taken)
      | none => '$' :: resolve lookup ('\x7b' :: rest)
    | c, cs => c :: resolve lookup cs
termination_by cs => cs.length

/-- The values of a file when the environment is `env`. A later line for a name replaces an earlier
one, and a name without a value stands for an empty text in references. -/
def valuesFrom (env : Table String String) (done : Table String (Option String)) :
    List Binding → Table String (Option String)
  | [] => done
  | (name, value) :: rest =>
    let lookup (n : String) : Option String :=
      match done.get? n with
      | some v => some (v.getD "")
      | none => env.get? n
    let value := value.map fun v => String.ofList (resolve lookup v.toList)
    valuesFrom env (done.put name value) rest

def values (env : Table String String) (text : String) : Table String (Option String) :=
  valuesFrom env [] (bindings text)

end ContractAudit.EnvFile
