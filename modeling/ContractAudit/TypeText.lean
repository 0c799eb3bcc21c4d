import ContractAudit.Text.Blank
import ContractAudit.Text.Digit

/-!
# Type expressions as text

What a declared type, as written, refers to. A mapping refers to what its value refers to and an
array to what its elements refer to; elementary types refer to nothing.

Two readings of a mapping are used. The innermost *reference* follows the arrow outside all inner
parentheses. The *value type*, which an indexed variable has, follows the first arrow.
-/

namespace ContractAudit.TypeText

open Text

/-- `pre` followed only by characters of a class. -/
def isPlain (pre : List Char) (p : Char → Bool) (s : List Char) : Bool :=
  pre.isPrefixOf s && (s.drop pre.length).all p

def isElementaryName (s : List Char) : Bool :=
  ["address".toList, "bool".toList, "string".toList, "byte".toList].contains s ||
  isPlain "bytes".toList isDigit s ||
  isPlain "int".toList isDigit s ||
  isPlain "uint".toList isDigit s ||
  isPlain "fixed".toList (fun c => isDigit c || c == 'x') s ||
  isPlain "ufixed".toList (fun c => isDigit c || c == 'x') s

/-- The name of an elementary type, blanks around it apart. -/
def isElementary (s : String) : Bool := isElementaryName (trim s.toList)

def isMapping (s : List Char) : Bool := "mapping".toList.isPrefixOf s

/-- Where the text before the last closing parenthesis ends; the last character is left out when
there is none. -/
def lastParen (s : List Char) : Nat :=
  match s.reverse.findIdx? (· == ')') with
  | some i => s.length - 1 - i
  | none => s.length - 1

/-- What follows the first arrow outside parentheses. -/
def afterArrow? : (depth : Int) → List Char → Option (List Char)
  | _, [] => none
  | depth, '(' :: cs => afterArrow? (depth + 1) cs
  | depth, ')' :: cs => afterArrow? (depth - 1) cs
  | depth, '=' :: cs =>
    match depth == 0, cs with
    | true, '>' :: rest => some rest
    | _, cs => afterArrow? depth cs
  | depth, _ :: cs => afterArrow? depth cs

theorem length_afterArrow? {depth : Int} {cs rest : List Char}
    (h : afterArrow? depth cs = some rest) : rest.length < cs.length := by
  fun_induction afterArrow? depth cs with
  | case1 => cases h
  | case2 depth cs ih => have := ih h; simp; omega
  | case3 depth cs ih => have := ih h; simp; omega
  | case4 => simp only [Option.some.injEq] at h; subst h; simp only [List.length_cons]; omega
  | case5 depth cs _ ih => have := ih h; simp; omega
  | case6 depth c cs _ _ _ ih => have := ih h; simp; omega

/-- The value of a mapping, as its innermost reference is read. -/
def mappingValue? (s : List Char) : Option (List Char) :=
  let start := match s.findIdx? (· == '(') with
    | some i => i + 1
    | none => 0
  (afterArrow? 0 ((s.take (lastParen s)).drop start)).map trim

theorem length_trim_le (s : List Char) : (trim s).length ≤ s.length := by
  have h1 := (List.dropWhile_sublist (l := s) isBlank).length_le
  have h2 := (List.dropWhile_sublist (l := (trimStart s).reverse) isBlank).length_le
  simp only [trim, trimEnd, List.length_reverse] at *
  exact Nat.le_trans h2 h1

theorem length_mappingValue? {s v : List Char} (h : mappingValue? s = some v) :
    v.length < s.length := by
  obtain ⟨w, hw, rfl⟩ := Option.map_eq_some_iff.mp h
  have h1 := length_afterArrow? hw
  have h2 := length_trim_le w
  simp only [List.length_drop, List.length_take] at h1
  omega

/-- Follows mappings to the type they finally hold. -/
def innermost (s : List Char) : Option (List Char) :=
  if isMapping s then
    match _h : mappingValue? s with
    | none => none
    | some v => innermost v
  else some s
termination_by s.length
decreasing_by exact length_mappingValue? _h

/-- The text without its bracketed subscripts; a bracket that is not closed stays. -/
def removeSubscripts : List Char → List Char
  | [] => []
  | c :: cs =>
    if c = '[' ∧ ']' ∈ cs then removeSubscripts ((cs.dropWhile (· != ']')).drop 1)
    else c :: removeSubscripts cs
termination_by cs => cs.length
decreasing_by
  · have := (List.dropWhile_sublist (l := cs) (· != ']')).length_le
    simp; omega
  · simp

/-- The user-defined name a declared type finally refers to. -/
def referencedName? (declared : String) : Option String := do
  let inner ← innermost (trim declared.toList)
  let name := firstWord (removeSubscripts inner)
  if name.isEmpty || isElementaryName name then none else some (String.ofList name)

/-- Where the text after the first arrow starts. -/
def arrowEnd? : List Char → Option Nat
  | [] => none
  | c :: cs =>
    match c == '=', cs with
    | true, '>' :: _ => some 2
    | _, cs => (arrowEnd? cs).map (· + 1)

theorem arrowEnd?_bounds {s : List Char} {n : Nat} (h : arrowEnd? s = some n) :
    2 ≤ n ∧ n ≤ s.length := by
  fun_induction arrowEnd? s generalizing n with
  | case1 => cases h
  | case2 => simp only [Option.some.injEq] at h; subst h; simp
  | case3 c cs _ ih =>
    obtain ⟨m, hm, rfl⟩ := Option.map_eq_some_iff.mp h
    have := ih hm
    simp; omega

/-- The value type of a mapping, as an index into it is read. -/
def valueOf? (s : List Char) : Option (List Char) :=
  (arrowEnd? s).map fun n => trim ((s.take (lastParen s)).drop n)

theorem length_valueOf? {s v : List Char} (h : valueOf? s = some v) : v.length < s.length := by
  obtain ⟨n, hn, rfl⟩ := Option.map_eq_some_iff.mp h
  have h1 := arrowEnd?_bounds hn
  have h2 := length_trim_le ((s.take (lastParen s)).drop n)
  simp only [List.length_drop, List.length_take] at h2
  omega

def valueFrom (s : List Char) : List Char :=
  if isMapping s then
    match _h : valueOf? s with
    | none => s
    | some v => valueFrom v
  else s
termination_by s.length
decreasing_by exact length_valueOf? _h

/-- The type an element of a variable of the declared type has, as written. -/
def valueType (declared : String) : String :=
  String.ofList (trim (removeSubscripts (valueFrom declared.toList)))

def isAddress (type : String) : Bool := firstWord type.toList == "address".toList

end ContractAudit.TypeText
