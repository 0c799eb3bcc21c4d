import ContractAudit.Decimal.Reading
import ContractAudit.Decimal.Scientific
import ContractAudit.Json.Literal
import ContractAudit.Table

/-!
# Message templates

A template holds directives that begin with a percent sign. Each takes the next argument and says how
it is written: as a text, in literal notation, as a whole number in base ten, sixteen or eight, as a
number with a fixed count of digits, or as a character, with an optional width, precision and
alignment. A single table as argument is also open to directives that name one of its keys.
-/

namespace ContractAudit.Template

inductive Failure where
  | incomplete
  | incompleteKey
  | unknownDirective (letter : Char) (position : Nat)
  | tooFewArguments
  | tooManyArguments
  | noTable
  | missingKey (key : String)
  | starNotWhole
  | starTooLarge (bits : Nat)
  | widthTooLarge
  | precisionTooLarge
  | notNumber (directive : Char) (kind : String)
  | notReal (kind : String)
  | notWhole (directive : Char) (kind : String)
  | notChar
  | charOutOfRange
  | tooLarge
  deriving DecidableEq, Repr

namespace Failure

def message : Failure → String
  | incomplete => "incomplete format"
  | incompleteKey => "incomplete format key"
  | unknownDirective c i =>
    let shown := if 31 ≤ c.toNat && c.toNat < 127 then c else '?'
    "unsupported format character '" ++ String.singleton shown ++ "' (0x" ++
      String.ofList (Nat.toDigits 16 c.toNat) ++ ") at index " ++ toString i
  | tooFewArguments => "not enough arguments for format string"
  | tooManyArguments => "not all arguments converted during string formatting"
  | noTable => "format requires a mapping"
  | missingKey key => Text.quoted key
  | starNotWhole => "* wants int"
  | starTooLarge bits => "* wants int of " ++ toString bits ++ " bits"
  | widthTooLarge => "width too big"
  | precisionTooLarge => "precision too big"
  | notNumber c kind =>
    "%" ++ String.singleton c ++ " format: a real number is required, not " ++ kind
  | notReal kind => "must be real number, not " ++ kind
  | notWhole c kind => "%" ++ String.singleton c ++ " format: an integer is required, not " ++ kind
  | notChar => "%c requires int or char"
  | charOutOfRange => "%c arg not in range(0x110000)"
  | tooLarge => "int too large to convert to float"

end Failure

/-! ## Arguments -/

/-- The arguments that are left. Of a table, one value at a time is at hand: the table itself at
first, and the value of a key after a directive has named it. -/
inductive Arguments where
  | listed (rest : List Json)
  | keyed (table : Table String Json) (atHand : Option Json)

namespace Arguments

/-- A table that is alone and not empty is open by its keys. -/
def ofList : List Json → Arguments
  | [.obj (e :: es)] => keyed (e :: es) (some (.obj (e :: es)))
  | args => listed args

def next : Arguments → Except Failure (Json × Arguments)
  | listed (arg :: rest) => .ok (arg, listed rest)
  | keyed table (some arg) => .ok (arg, keyed table none)
  | _ => .error .tooFewArguments

def select (key : String) : Arguments → Except Failure Arguments
  | listed _ => .error .noTable
  | keyed table _ =>
    match table.get? key with
    | some value => .ok (keyed table (some value))
    | none => .error (.missingKey key)

/-- Listed arguments have to be used up. -/
def isDone : Arguments → Bool
  | listed rest => rest.isEmpty
  | keyed .. => true

end Arguments

/-! ## Directives -/

structure Directive where
  left : Bool := false
  zero : Bool := false
  plus : Bool := false
  space : Bool := false
  alternate : Bool := false
  width : Nat := 0
  precision : Option Nat := none
  letter : Char := 's'

namespace Directive

/-- Fills a text up to the width, on the right side. -/
def padText (d : Directive) (s : String) : String :=
  let fill := String.ofList (List.replicate (d.width - s.length) ' ')
  if d.left then s ++ fill else fill ++ s

/-- Fills a number, given as sign, base mark and digits, up to the width. -/
def padNumber (d : Directive) (negative : Bool) (mark digits : String) : String :=
  let sign := if negative then "-" else if d.plus then "+" else if d.space then " " else ""
  let start := sign ++ mark
  if d.zero && ! d.left then
    start ++ String.ofList (List.replicate (d.width - start.length - digits.length) '0') ++ digits
  else d.padText (start ++ digits)

/-- A whole number in a base, with at least as many digits as the precision says. -/
def writeWhole (d : Directive) (base : Nat) (mark : String) (n : Int) : String :=
  let ds := Nat.toDigits base n.natAbs
  let ds := List.replicate (d.precision.getD 0 - ds.length) '0' ++ ds
  d.padNumber (n < 0) (if d.alternate then mark else "")
    (String.ofList (if d.letter == 'X' then ds.map Char.toUpper else ds))

/-- The directive wants a number but takes one with a fraction too. -/
def truncates (d : Directive) : Bool := ['d', 'i', 'u'].contains d.letter

end Directive

/-- A number without its fraction. -/
def truncated (x : Float) : Int :=
  match Binary64.ofFloat x with
  | .finite negative mantissa exponent =>
    let r := (Ratio.mk mantissa 1).scaleTwo exponent
    let n : Int := r.num / r.den
    if negative then -n else n
  | _ => 0

def Directive.wholeValue? (d : Directive) : Json → Except Failure Int
  | .int n => .ok n
  | .bool b => .ok (if b then 1 else 0)
  | .float x => if d.truncates then .ok (truncated x) else .error (.notWhole d.letter "float")
  | j =>
    if d.truncates then .error (.notNumber d.letter j.kindWord)
    else .error (.notWhole d.letter j.kindWord)

def realValue? : Json → Except Failure Float
  | .float x => .ok x
  | .int n => if (Float.ofInt n).isInf then .error .tooLarge else .ok (Float.ofInt n)
  | .bool b => .ok (if b then 1.0 else 0.0)
  | j => .error (.notReal j.kindWord)

/-- The character that an argument is or has the number of. -/
def charValue? : Json → Except Failure Char
  | .str s =>
    match s.toList with
    | [c] => .ok c
    | _ => .error .notChar
  | .int n => if 0 ≤ n ∧ n < 0x110000 then .ok (Char.ofNat n.toNat) else .error .charOutOfRange
  | .bool b => .ok (Char.ofNat (if b then 1 else 0))
  | _ => .error .notChar

namespace Directive

def cut (d : Directive) (s : String) : String :=
  match d.precision with
  | some n => String.ofList (s.toList.take n)
  | none => s

/-- The number as the letter says, in lower case. -/
def realText (d : Directive) (x : Float) : String :=
  let digits := d.precision.getD 6
  match d.letter.toLower with
  | 'e' => NumberLayout.plain.scientific digits d.alternate x
  | 'g' => NumberLayout.plain.general digits d.alternate x
  | _ => NumberLayout.plain.fixed digits x ++ if d.alternate && digits == 0 && x.isFinite then "." else ""

def writeReal (d : Directive) (x : Float) : String :=
  let cs := (d.realText x).toList
  let cs := if d.letter.isUpper then cs.map Char.toUpper else cs
  match cs with
  | '-' :: ds => d.padNumber true "" (String.ofList ds)
  | ds => d.padNumber false "" (String.ofList ds)

/-- Writes one argument. -/
def write (d : Directive) (position : Nat) (arg : Json) : Except Failure String :=
  match d.letter with
  | 's' => .ok (d.padText (d.cut arg.shown))
  | 'r' => .ok (d.padText (d.cut arg.literal))
  | 'a' => .ok (d.padText (d.cut (Text.asciiOnly arg.literal)))
  | 'd' | 'i' | 'u' => (d.wholeValue? arg).map (d.writeWhole 10 "")
  | 'x' => (d.wholeValue? arg).map (d.writeWhole 16 "0x")
  | 'X' => (d.wholeValue? arg).map (d.writeWhole 16 "0X")
  | 'o' => (d.wholeValue? arg).map (d.writeWhole 8 "0o")
  | 'e' | 'E' | 'f' | 'F' | 'g' | 'G' => (realValue? arg).map d.writeReal
  | 'c' => (charValue? arg).map fun c => d.padText (String.singleton c)
  | c => .error (.unknownDirective c position)

end Directive

/-! ## Reading directives -/

/-- What has been read of a directive: the directive, the arguments left, and the text after it. -/
structure Reading where
  directive : Directive := {}
  arguments : Arguments
  rest : List Char

/-- The key up to the parenthesis that closes the one before it, and the text after that. -/
def key? : (depth : Nat) → List Char → Option (List Char × List Char)
  | _, [] => none
  | 0, ')' :: cs => some ([], cs)
  | depth, c :: cs =>
    let deeper := if c = '(' then depth + 1 else if c = ')' then depth - 1 else depth
    (key? deeper cs).map fun (key, rest) => (c :: key, rest)

def readKey (r : Reading) : Except Failure Reading :=
  match r.rest with
  | '(' :: cs =>
    match r.arguments with
    | .listed _ => .error .noTable
    | .keyed .. =>
      match key? 0 cs with
      | none => .error .incompleteKey
      | some (key, rest) =>
        (r.arguments.select (String.ofList key)).map fun args =>
          { r with arguments := args, rest := rest }
  | _ => .ok r

def applyFlag (d : Directive) : Char → Option Directive
  | '-' => some { d with left := true }
  | '0' => some { d with zero := true }
  | '+' => some { d with plus := true }
  | ' ' => some { d with space := true }
  | '#' => some { d with alternate := true }
  | _ => none

def readFlags (d : Directive) : List Char → Directive × List Char
  | [] => (d, [])
  | c :: cs =>
    match applyFlag d c with
    | some d => readFlags d cs
    | none => (d, c :: cs)

/-- A measure of a directive: how many bits hold it beside the sign, and what is said of a larger one
that is written out. -/
structure Measure where
  bits : Nat
  tooLarge : Failure

namespace Measure

def width : Measure := ⟨63, .widthTooLarge⟩

def precision : Measure := ⟨31, .precisionTooLarge⟩

def limit (m : Measure) : Nat := Nat.pow 2 m.bits

/-- The whole number an argument gives for a star. -/
def ofArgument (m : Measure) (n : Int) : Except Failure Int :=
  if -m.limit ≤ n ∧ n < m.limit then .ok n else .error (.starTooLarge m.bits)

/-- A number that is written out, or taken from the arguments for a star. -/
def read (m : Measure) (args : Arguments) (cs : List Char) :
    Except Failure (Int × Arguments × List Char) :=
  match cs with
  | '*' :: rest => do
    match ← args.next with
    | (.int n, args) => return (← m.ofArgument n, args, rest)
    | (.bool b, args) => return (if b then 1 else 0, args, rest)
    | _ => throw .starNotWhole
  | _ =>
    let n := Decimal.digitsValue (cs.takeWhile Char.isDigit)
    if n < m.limit then .ok (n, args, cs.dropWhile Char.isDigit) else .error m.tooLarge

end Measure

def readWidth (r : Reading) : Except Failure Reading := do
  let (n, args, rest) ← Measure.width.read r.arguments r.rest
  return { arguments := args
           rest := rest
           directive := { r.directive with width := n.natAbs, left := r.directive.left || n < 0 } }

def readPrecision (r : Reading) : Except Failure Reading :=
  match r.rest with
  | '.' :: cs => do
    let (n, args, rest) ← Measure.precision.read r.arguments cs
    return { arguments := args
             rest := rest
             directive := { r.directive with precision := some n.toNat } }
  | _ => .ok r

/-- A letter for a size, which means nothing. -/
def skipSize : List Char → List Char
  | c :: cs => if ['h', 'l', 'L'].contains c then cs else c :: cs
  | [] => []

/-- Reads the directive after a percent sign. -/
def directive (args : Arguments) (cs : List Char) : Except Failure Reading := do
  let r ← readKey { arguments := args, rest := cs }
  let (d, rest) := readFlags {} r.rest
  let r ← readWidth { r with directive := d, rest := rest }
  let r ← readPrecision r
  match skipSize r.rest with
  | [] => throw .incomplete
  | c :: rest => return { r with directive := { r.directive with letter := c }, rest := rest }

/-! ## Filling in -/

/-- Fills in a template of so many characters, of which the text given is the end. Each step takes at
least one character. -/
def fill (length : Nat) : (steps : Nat) → Arguments → List Char → Except Failure (List Char)
  | 0, _, cs => .ok cs
  | steps + 1, args, cs =>
    match cs with
    | [] => if args.isDone then .ok [] else .error .tooManyArguments
    | '%' :: '%' :: cs => do return '%' :: (← fill length steps args cs)
    | '%' :: cs => do
      let r ← directive args cs
      let (arg, args) ← r.arguments.next
      let s ← r.directive.write (length - r.rest.length - 1) arg
      return s.toList ++ (← fill length steps args r.rest)
    | c :: cs => do return c :: (← fill length steps args cs)

/-- The message of a template with its arguments. Without arguments it stands as it is. -/
def text (template : String) (args : List Json) : Except Failure String :=
  if args.isEmpty then .ok template
  else
    let cs := template.toList
    (fill cs.length (cs.length + 1) (.ofList args) cs).map String.ofList

end ContractAudit.Template
