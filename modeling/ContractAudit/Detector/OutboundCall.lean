import ContractAudit.Detector
import ContractAudit.Text.Name
import ContractAudit.Text.Pattern
import ContractAudit.Token.Split

/-!
# Calls out of a contract

Detectors for delegate calls into code that shares the caller's storage, for low-level calls whose
success is ignored, and for entry points that let any caller choose the target of such a call.
-/

namespace ContractAudit.OutboundCall

open Text Pattern

def commaJoin (ss : List String) : String := String.intercalate ", " ss

/-- A call that is not checked against the type of its receiver. -/
def isRaw (s : CallSite) : Bool := s.kind != .highLevel

def isSelfCall (s : CallSite) : Bool := ["address(this)", "this"].contains s.receiver

def callEvidence (s : CallSite) : String := s.callee ++ "() at line " ++ toString s.line

/-! ## Delegate calls and storage -/

def storageProfile : DetectorProfile where
  id := "XC-DEP-001"
  name := "Delegatecall Storage Collision"
  description := "Delegatecall into code that shares this contract's storage layout"
  severity := .high
  category := "delegatecall-storage-collision"

/-- The variables that take a storage slot. -/
def slots (c : Contract) : List String :=
  (c.stateVariables.filter fun v => ! (v.isConstant || v.isImmutable)).map (·.name)

def storageFinding? (c : Contract) (f : Function) : Option Finding :=
  (f.callSites.find? fun s => s.kind == .delegateCall && ! isSelfCall s).map fun s =>
    { storageProfile.finding c f ("Delegatecall from " ++ c.name ++ " can corrupt its storage")
        (c.name ++ "." ++ f.name ++ " delegatecalls `" ++ s.receiver ++ "` while " ++ c.name ++
          " stores " ++ commaJoin (slots c) ++ " in sequential slots. The target writes through " ++
          "its own layout and overwrites them whenever the layouts differ.") s.line with
      impact := "Proxy state such as the owner or implementation address can be overwritten."
      recommendation := "Keep proxy state in EIP-1967 slots (or another unstructured storage " ++
        "pattern) and add storage gaps to upgradeable implementations."
      evidence := [callEvidence s, "storage slots: " ++ commaJoin (slots c)] }

/-- Libraries, and contracts without slots of their own, have nothing to corrupt. -/
def storageCollision : Detector :=
  .ofFindings storageProfile fun c =>
    if c.kind == .library || (slots c).isEmpty then []
    else c.implemented.filterMap (storageFinding? c)

/-! ## Calls whose success is ignored -/

def uncheckedProfile : DetectorProfile where
  id := "XC-DEP-002"
  name := "Unchecked Low-Level Call"
  description := "Low-level call return value not checked"
  severity := .medium
  category := "unchecked-low-level-call"
  confidence := .confirmed

/-- Members that report failure by their result. -/
def flagMembers : List String := ["call", "send", "delegatecall", "staticcall"]

/-- The part of a statement before some token: how many tokens it has, and what stands before each
bracket that encloses the token. -/
structure StatementStart where
  length : Nat
  callers : List Token
  deriving Repr

theorem length_closed {t : Token} {before : List Token} {e : Enclosed}
    (h : t.closer?.bind (·.enclosedBack? before) = some e) : e.rest.length < before.length + 1 := by
  obtain ⟨b, _, hb⟩ := Option.bind_eq_some_iff.mp h
  have := Bracket.enclosedBack?_length hb
  omega

/-- Reads a statement backwards, nearest token first. Brackets that are closed before the token are
passed over whole. -/
def statementStart : List Token → StatementStart
  | [] => ⟨0, []⟩
  | t :: before =>
    if t.isPunctIn [")", "]"] then
      match h : t.closer?.bind (·.enclosedBack? before) with
      | none => ⟨0, []⟩
      | some e =>
        have := length_closed h
        let s := statementStart e.rest
        ⟨s.length + e.inner.length + 2, s.callers⟩
    else if t.isPunctIn ["(", "["] then
      let s := statementStart before
      ⟨s.length + 1, before.head?.toList ++ s.callers⟩
    else if t.isPunctIn [";", "\x7b", "\x7d"] then ⟨0, []⟩
    else
      let s := statementStart before
      ⟨s.length + 1, s.callers⟩
termination_by before => before.length

/-- What stands before the first equals sign of a statement that is in no bracket. -/
def assigned? (depth : Int) : List Token → Option (List Token)
  | [] => none
  | t :: ts =>
    if t.text == "=" && decide (depth ≤ 0) then some []
    else (assigned? (depth + t.nesting) ts).map (t :: ·)

def lastName? (ts : List Token) : Option String := (Token.identifiers ts).getLast?

/-- The name that the left side of an assignment binds to the success of a call. -/
def flagName? : List Token → Option String
  | [] => none
  | t :: ts =>
    if t.isPunct "(" then
      match ts.dropLast with
      | [] => none
      | u :: inner =>
        if u.isPunct "," then none
        else lastName? ((Token.splitCommas (u :: inner)).headD [])
    else lastName? (t :: ts)

/-- The success of the call at a token is asked for: in a condition, by returning it, or by reading
the name it is bound to later on. -/
def isChecked (call : Focus) : Bool :=
  let s := statementStart call.before
  let statement := (call.before.take s.length).reverse
  s.callers.any (·.isOneOf ["require", "assert", "if", "while"]) ||
    statement.head?.any (·.isName "return") ||
    match (assigned? 0 statement).bind flagName? with
    | some name => call.after.any (·.isName name)
    | none => false

/-- The token of a call site that is not yet `taken`. -/
def siteToken? (body : List Focus) (s : CallSite) (taken : List Nat) : Option Focus :=
  body.find? fun spot =>
    ! taken.contains spot.index && spot.token.isName s.member && spot.token.line == s.line &&
      spot.prev?.any (·.isPunct ".")

/-- The first call site whose success is ignored. -/
def firstUnchecked? (body : List Focus) (taken : List Nat) : List CallSite → Option CallSite
  | [] => none
  | s :: sites =>
    if isRaw s && flagMembers.contains s.member then
      match siteToken? body s taken with
      | none => firstUnchecked? body taken sites
      | some spot =>
        if isChecked spot then firstUnchecked? body (spot.index :: taken) sites else some s
    else firstUnchecked? body taken sites

def uncheckedFinding? (c : Contract) (f : Function) : Option Finding :=
  (firstUnchecked? (Focus.all f.bodyTokens) [] f.callSites).map fun s =>
    { uncheckedProfile.finding c f ("Unchecked return value of low-level " ++ s.member)
        (c.name ++ "." ++ f.name ++ " ignores whether `" ++ s.callee ++ "` succeeded. A failed " ++
          "call does not revert, so execution continues as if it had.") s.line with
      impact := "Transfers or calls can fail silently while state records them as done."
      recommendation := "Capture the result and revert on failure: (bool success, ) = " ++
        "target.call(data); require(success, \"call failed\");"
      evidence := [callEvidence s] }

def uncheckedCall : Detector :=
  .ofFindings uncheckedProfile fun c => c.implemented.filterMap (uncheckedFinding? c)

/-! ## Access control -/

def accessProfile : DetectorProfile where
  id := "XC-DEP-003"
  name := "Missing Access Control on Cross-Contract Call"
  description := "Unrestricted entry point making a privileged external call"
  severity := .high
  category := "missing-access-control"

/-- A modifier or helper that restricts who may call. -/
def isGuardName : Pattern :=
  oneOf [chain [start, joint, folded "only"],
    words ["auth", "restricted", "admin", "owner", "role", "governance", "guardian", "keeper"]]

/-- A condition on the caller. -/
def isGuardCheck : Pattern :=
  oneOf [exactly "msg.sender", words ["owner", "admin", "role", "auth", "signer"]]

/-- Members that pass on the data they are handed. -/
def forwardingMembers : List String := ["call", "functionCall", "functionCallWithValue"]

def isPayload : Pattern := chain [exactly "bytes", oneOf [exactly "[", stop]]

/-- The receiver of a call mentions a parameter of the function. -/
def isCallerChosen (f : Function) (s : CallSite) : Bool :=
  let names := Text.names (fun c => isWord c || c == '$') s.receiver
  f.parameters.any fun p => ! p.name.isEmpty && names.contains p.name

/-- A delegate call, or a call of a chosen target with chosen data. -/
def isPrivileged (f : Function) (s : CallSite) : Bool :=
  isRaw s && ! isSelfCall s && s.receiver != "msg.sender" &&
    (s.kind == .delegateCall ||
      (forwardingMembers.contains s.member &&
        (f.parameters.any fun p => isPayload.begins p.typeName) && isCallerChosen f s))

def isGuarded (f : Function) : Bool :=
  f.modifiers.any isGuardName.foundIn || f.checks.any isGuardCheck.foundIn ||
    f.effects.any fun e =>
      match e with
      | .internalCall callee _ => ! callee.isEmpty && isGuardName.foundIn callee
      | _ => false

/-- Known bases and the modifier that each brings. -/
def accessBases : List (String × String) :=
  [("Ownable", "onlyOwner"), ("Ownable2Step", "onlyOwner"), ("OwnableUpgradeable", "onlyOwner"),
   ("AccessControl", "onlyRole"), ("AccessControlUpgradeable", "onlyRole"),
   ("AccessControlEnumerable", "onlyRole")]

def accessAdvice (c : Contract) : String :=
  match c.bases.findSome? fun b => accessBases.find? (·.1 == b) with
  | some (base, modifier) =>
    "Apply the " ++ modifier ++ " modifier inherited from " ++ base ++ " to this function."
  | none =>
    match c.modifierNames.filter isGuardName.foundIn with
    | [] => "Restrict the function with an access-control modifier (e.g., onlyOwner from " ++
        "OpenZeppelin Ownable) or validate msg.sender before the call."
    | guards => "Apply one of " ++ c.name ++ "'s guards (" ++ commaJoin guards ++
        ") to this function."

def accessFinding? (c : Contract) (f : Function) : Option Finding :=
  if ! f.isEntryPoint || ! f.isMutating || ["fallback", "receive"].contains f.name ||
      isGuarded f then none
  else
    (f.callSites.find? (isPrivileged f)).map fun s =>
      { accessProfile.finding c f ("Unrestricted " ++ s.member ++ " in " ++ c.name ++ "." ++ f.name)
          ("Anyone can call " ++ c.name ++ "." ++ f.name ++ ", which makes `" ++ s.callee ++
            "` with no access check on the caller.") s.line with
        impact :=
          if s.kind == .delegateCall then "Callers can run arbitrary code in this contract's context"
          else "Callers can make this contract call any target with its funds and approvals"
        recommendation := accessAdvice c
        evidence := [callEvidence s] }

def missingAccess : Detector :=
  .ofFindings accessProfile fun c => c.implemented.filterMap (accessFinding? c)

def detectors : List Detector := [storageCollision, uncheckedCall, missingAccess]

end ContractAudit.OutboundCall
