import ContractAudit.Text.Digit
import ContractAudit.Text.Quoted

/-!
# Command arguments

The words of a command are operands, options and a divider, after which every word is an operand.
An option may be shortened to any start of a long name that no other name shares, may carry its
value after an equals sign, and short options may stand together in one word.
-/

namespace ContractAudit.CommandLine

/-- An option as a command declares it. -/
structure Flag (ι : Type) where
  option : ι
  names : List String
  takesValue : Bool := false

def Flag.label (f : Flag ι) : String := String.intercalate "/" f.names

inductive ArgumentFault where
  | noValue
  | needlessValue (value : String)
  | notInteger (value : String)
  | notAmong (value : String) (choices : List String)
  deriving DecidableEq, Repr

inductive UsageError where
  | ambiguous (word : String) (candidates : List String)
  | argument (label : String) (fault : ArgumentFault)
  | missing (operands : List String)
  | unrecognized (words : List String)
  deriving DecidableEq, Repr

def ArgumentFault.message : ArgumentFault → String
  | noValue => "expected one argument"
  | needlessValue v => "ignored explicit argument " ++ Text.quoted v
  | notInteger v => "invalid int value: " ++ Text.quoted v
  | notAmong v choices =>
    "invalid choice: " ++ Text.quoted v ++ " (choose from " ++
      String.intercalate ", " (choices.map Text.quoted) ++ ")"

def UsageError.message : UsageError → String
  | ambiguous word candidates =>
    "ambiguous option: " ++ word ++ " could match " ++ String.intercalate ", " candidates
  | argument label fault => "argument " ++ label ++ ": " ++ fault.message
  | missing operands =>
    "the following arguments are required: " ++ String.intercalate ", " operands
  | unrecognized words => "unrecognized arguments: " ++ String.intercalate " " words

/-- A value that stands in the same word as its option, after an equals sign or directly. -/
structure Attached where
  afterEquals : Bool
  text : List Char

/-- An option as a word names it. -/
structure OptionUse (ι : Type) where
  flag : Flag ι
  name : String
  attached : Option Attached := none

inductive Mark (ι : Type) where
  | operand
  | divider
  | unknown
  | option (use : OptionUse ι)

/-- The names of all options, in the order of declaration. -/
def namesOf (flags : List (Flag ι)) : List (String × Flag ι) :=
  flags.flatMap fun f => f.names.map (·, f)

def named? (flags : List (Flag ι)) (name : String) : Option (Flag ι) :=
  (namesOf flags).lookup name

/-- A word before its first equals sign, and the value after it. -/
def splitEquals (word : List Char) : List Char × Option Attached :=
  match word.dropWhile (· != '=') with
  | [] => (word, none)
  | _ :: value => (word.takeWhile (· != '='), some ⟨true, value⟩)

/-- The options that a word can be short for. -/
def candidates (flags : List (Flag ι)) (word : List Char) : List (OptionUse ι) :=
  if "--".toList.isPrefixOf word then
    let (start, attached) := splitEquals word
    ((namesOf flags).filter (start.isPrefixOf ·.1.toList)).map fun (name, f) => ⟨f, name, attached⟩
  else
    (namesOf flags).filterMap fun (name, f) =>
      if name.toList = word.take 2 then some ⟨f, name, some ⟨false, word.drop 2⟩⟩
      else if word.isPrefixOf name.toList then some ⟨f, name, none⟩
      else none

/-- A minus sign and a number with or without a point; a newline may follow. -/
def isNegativeNumber : List Char → Bool
  | '-' :: cs =>
    let cs := if cs.getLast? = some '\n' then cs.dropLast else cs
    match cs.dropWhile Text.isDigit with
    | [] => ! cs.isEmpty
    | '.' :: fraction => ! fraction.isEmpty && fraction.all Text.isDigit
    | _ => false
  | _ => false

/-- What a word before the divider is. -/
def markOf (flags : List (Flag ι)) (word : String) : Except UsageError (Mark ι) :=
  let cs := word.toList
  if cs.head? != some '-' then .ok .operand
  else
    match named? flags word with
    | some f => .ok (.option ⟨f, word, none⟩)
    | none =>
      let (name, attached) := splitEquals cs
      match attached.bind fun a => (named? flags (String.ofList name)).map (·, a) with
      | some (f, a) => .ok (.option ⟨f, String.ofList name, some a⟩)
      | none =>
        if cs.length = 1 then .ok .operand
        else
          match candidates flags cs with
          | [use] => .ok (.option use)
          | [] => .ok (if isNegativeNumber cs || cs.contains ' ' then .operand else .unknown)
          | uses => .error (.ambiguous word (uses.map (·.name)))

/-- Says of every word what it is. -/
def markAll (flags : List (Flag ι)) : List String → Except UsageError (List (String × Mark ι))
  | [] => .ok []
  | word :: words =>
    if word = "--" then .ok ((word, .divider) :: words.map (·, .operand))
    else
      match markOf flags word with
      | .error e => .error e
      | .ok m => (markAll flags words).map ((word, m) :: ·)

/-- What a word or two words of a command say. -/
inductive Event (ι : Type) where
  | switch (option : ι)
  | setting (flag : Flag ι) (value : String)
  | operand (word : String)
  | extra (word : String)

/-- What an option word says, and the option that still wants its value from the next word. -/
structure Spread (ι : Type) where
  events : List (Event ι)
  awaits : Option (Flag ι) := none

def Spread.after (s : Spread ι) (option : ι) : Spread ι :=
  { s with events := .switch option :: s.events }

def needless (f : Flag ι) (value : List Char) : UsageError :=
  .argument f.label (.needlessValue (String.ofList value))

/-- An option that nothing is attached to. -/
def Spread.ofFlag (f : Flag ι) : Spread ι :=
  if f.takesValue then ⟨[], some f⟩ else ⟨[.switch f.option], none⟩

def Spread.ofSetting (f : Flag ι) (value : List Char) : Spread ι :=
  ⟨[.setting f (String.ofList value)], none⟩

/-- Reads what follows a short option without value directly: more short options, the last of which
may have a value. -/
def spreadShort (flags : List (Flag ι)) (f : Flag ι) : List Char → Except UsageError (Spread ι)
  | [] => .ok (.ofFlag f)
  | c :: cs =>
    if c = '-' then .error (needless f (c :: cs))
    else
      match named? flags (String.ofList ['-', c]) with
      | none => .ok ⟨[.switch f.option, .extra (String.ofList ('-' :: c :: cs))], none⟩
      | some next =>
        Except.map (·.after f.option) <|
          match cs with
          | '=' :: value =>
            if next.takesValue then .ok (.ofSetting next value) else .error (needless next value)
          | [] => .ok (.ofFlag next)
          | cs => if next.takesValue then .ok (.ofSetting next cs) else spreadShort flags next cs

def spread (flags : List (Flag ι)) (use : OptionUse ι) : Except UsageError (Spread ι) :=
  match use.attached with
  | none => .ok (.ofFlag use.flag)
  | some a =>
    if use.flag.takesValue then .ok (.ofSetting use.flag a.text)
    else if a.afterEquals || a.text.isEmpty || "--".toList.isPrefixOf use.name.toList then
      .error (needless use.flag a.text)
    else spreadShort flags use.flag a.text

/-- What the words of a command say, up to the first error. -/
structure Reading (ι : Type) where
  events : List (Event ι)
  error : Option UsageError := none

def Reading.after (r : Reading ι) (events : List (Event ι)) : Reading ι :=
  { r with events := events ++ r.events }

/-- Reads marked words. The first operand is the command's own if `wanted`, and a divider next to it
is dropped; all others are extra. -/
def readMarked (flags : List (Flag ι)) (wanted : Bool) : List (String × Mark ι) → Reading ι
  | [] => ⟨[], none⟩
  | (word, .unknown) :: rest => (readMarked flags wanted rest).after [.extra word]
  | (word, .operand) :: rest =>
    if wanted then
      match rest with
      | (_, .divider) :: rest => (readMarked flags false rest).after [.operand word]
      | rest => (readMarked flags false rest).after [.operand word]
    else (readMarked flags false rest).after [.extra word]
  | (word, .divider) :: rest =>
    match wanted, rest with
    | true, (operand, .operand) :: rest => (readMarked flags false rest).after [.operand operand]
    | _, rest => (readMarked flags wanted rest).after [.extra word]
  | (_, .option use) :: rest =>
    match spread flags use with
    | .error e => ⟨[], some e⟩
    | .ok ⟨events, none⟩ => (readMarked flags wanted rest).after events
    | .ok ⟨events, some f⟩ =>
      match rest with
      | (value, .operand) :: rest => (readMarked flags wanted rest).after (events ++ [.setting f value])
      | _ => ⟨[], some (.argument f.label .noValue)⟩

def extrasOf (events : List (Event ι)) : List String :=
  events.filterMap fun
    | .extra word => some word
    | _ => none

end ContractAudit.CommandLine
