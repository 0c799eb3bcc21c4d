import ContractAudit.Detector.Bridge
import ContractAudit.Text.Name
import ContractAudit.Text.Order
import ContractAudit.Token.Render

/-!
# Signatures

A signature can be replayed when the digest that was signed binds no nonce, no chain or no deadline.
The digest is what a function hashes, together with the constants and helpers that the hashed text
names. A helper that recovers a signer from a digest it is handed is judged at its callers.
-/

namespace ContractAudit.Signature

open Text Pattern

/-- Calls that recover or check a signer. -/
def recoveryCalls : List String :=
  ["ecrecover", "recover", "tryRecover", "isValidSignatureNow", "isValidSignature"]

/-- Calls that build a digest. -/
def digestCalls : List String :=
  ["keccak256", "_hashTypedDataV4", "toEthSignedMessageHash", "toTypedDataHash"]

/-! ## What is signed -/

/-- The text of a digest call, given what follows its opening parenthesis: up to the closing one, or
to the end if there is none. -/
def callText (name opening : Token) (after : List Token) : String :=
  match Bracket.paren.enclosed? after with
  | some e => Token.render (name :: opening :: e.inner ++ [e.close])
  | none => Token.render (name :: opening :: after)

/-- The hashed texts of a body, in order. A builder that adds a domain of its own is named beside its
text. -/
def hashed : List Token → List String
  | t :: u :: after =>
    let rest := hashed (u :: after)
    if t.isOneOf digestCalls && u.isPunct "(" then
      callText t u after :: if t.text == "keccak256" then rest else t.text :: rest
    else rest
  | _ => []

/-- The hashed texts of a function, or its whole body where it hashes nothing. -/
def spans (f : Function) : List String :=
  match hashed f.bodyTokens with
  | [] => [Token.render f.bodyTokens]
  | ss => ss

/-- The function names entered so far and the text gathered. -/
structure Gathering where
  seen : List String
  parts : List String

/-- Adds what the names in a digest stand for: the initial value of a variable and the digest of a
helper that was not entered before. -/
def gatherNames (enter : Function → List String → Gathering) (c : Contract) :
    List String → List String → Gathering
  | [], seen => ⟨seen, []⟩
  | name :: names, seen =>
    let value := match c.findVariable? name with
      | some v => if v.initialValue.isEmpty then [] else [v.initialValue]
      | none => []
    let inner : Gathering := match c.function? name with
      | some h => if h.hasBody && ! seen.contains name then enter h seen else ⟨seen, []⟩
      | none => ⟨seen, []⟩
    let rest := gatherNames enter c names inner.seen
    ⟨rest.seen, value ++ inner.parts ++ rest.parts⟩

def gather (c : Contract) : Nat → Function → List String → Gathering
  | 0, _, seen => ⟨seen, []⟩
  | depth + 1, f, seen =>
    let own := spans f
    let names := sortedSet (Text.names isAsciiNamePart (String.intercalate " " own))
    let more := gatherNames (gather c depth) c names (f.name :: seen)
    ⟨more.seen, own ++ more.parts⟩

/-- The text of the digest that a function signs. No name is entered twice, so the number of functions
bounds the depth. -/
def digestText (c : Contract) (f : Function) : String :=
  String.intercalate " " (gather c (c.functions.length + 1) f []).parts

/-! ## Where the digest is built -/

/-- The function names met so far and the functions that build the digest, each with a line. -/
structure Contexts where
  seen : List String
  found : List (Function × Nat)

/-- The line on which a function calls another of its contract. -/
def callLine? (caller : Function) (callee : String) : Option Nat :=
  caller.effects.findSome? fun e =>
    match e with
    | .internalCall name line => if name == callee then some line else none
    | _ => none

def callerContexts (enter : Function → Nat → List String → Contexts) (callee : String) :
    List Function → List String → Contexts
  | [], seen => ⟨seen, []⟩
  | caller :: rest, seen =>
    let inner : Contexts :=
      if seen.contains caller.name then ⟨seen, []⟩
      else match callLine? caller callee with
        | some line => enter caller line seen
        | none => ⟨seen, []⟩
    let more := callerContexts enter callee rest inner.seen
    ⟨more.seen, inner.found ++ more.found⟩

/-- A helper that hashes nothing is handed its digest, so its callers count instead; where it has
none it counts itself. -/
def contexts (c : Contract) : Nat → Function → Nat → List String → Contexts
  | 0, f, line, seen => ⟨seen, [(f, line)]⟩
  | depth + 1, f, line, seen =>
    if f.isEntryPoint || ! (hashed f.bodyTokens).isEmpty then ⟨f.name :: seen, [(f, line)]⟩
    else
      let callers := callerContexts (contexts c depth) f.name c.implemented (f.name :: seen)
      if callers.found.isEmpty then ⟨callers.seen, [(f, line)]⟩ else callers

/-- The functions that build the digest recovered in `f`, each with the line to report. -/
def digestContexts (c : Contract) (f : Function) (line : Nat) : List (Function × Nat) :=
  (contexts c (c.functions.length + 1) f line []).found

/-! ## Replay -/

/-- What a digest should bind, and how its text shows it. -/
def bindings : List (String × Pattern) :=
  [("nonce", folded "nonce"),
   ("chain id", oneOf [folded "chainid", folded "_hashTypedDataV4", folded "_domainSeparatorV4",
      joined ["domain", "separator"], folded "toTypedDataHash"]),
   ("deadline", oneOf [folded "deadline", folded "expir", joined ["valid", "until"],
      joined ["valid", "before"]])]

/-- A record of spent digests does the work of a nonce. -/
def isSpentRecord : Pattern :=
  chain [joint, words ["used", "spent", "consumed", "executed", "processed"]]

/-- What the digest built in `f` and recovered in `recovering` does not bind. -/
def missing (c : Contract) (recovering f : Function) : List String :=
  let digest := digestText c f
  let absent := (bindings.filter fun b => ! b.2.foundIn digest).map (·.1)
  if (f.identifiers ++ recovering.identifiers).any isSpentRecord.begins then
    absent.filter (· != "nonce")
  else absent

def replayProfile : DetectorProfile where
  id := "XC-SIG-001"
  name := "Signature Replay"
  description := "Signature recovery whose digest omits nonce, chain id or deadline"
  severity := .high
  category := "signature-replay"
  confidence := .confirmed

def replaySample : String := Bridge.sample
  ["// Vulnerable signature verification",
   "function executeWithSignature(address target, bytes calldata data, bytes calldata signature) " ++
     "external \x7b",
   "    bytes32 messageHash = keccak256(abi.encodePacked(target, data));",
   "    address signer = ECDSA.recover(messageHash, signature);",
   "    require(signer == owner, \"Invalid signer\");",
   "    (bool success,) = target.call(data);",
   "\x7d",
   "",
   "// Attacker replays the same signature",
   "victim.executeWithSignature(target, data, signature);",
   "victim.executeWithSignature(target, data, signature);"]

def replayFinding? (c : Contract) (recovering : Function) (call : String)
    (context : Function × Nat) : Option Finding :=
  let (f, line) := context
  match missing c recovering f with
  | [] => none
  | lacking =>
    let total := lacking.length == bindings.length
    let list := String.intercalate ", " lacking
    let via := if recovering.name == f.name then "" else " through " ++ recovering.name
    some { replayProfile.finding c f
        (if total then "Signature replay: digest binds no nonce, chain id or deadline"
          else "Signature replay: digest omits " ++ list)
        (c.name ++ "." ++ f.name ++ " recovers a signer with " ++ call ++ "()" ++ via ++
          " but the signed digest does not include " ++ list ++
          ". A valid signature can be submitted again" ++
          (if lacking.contains "chain id" then " on another chain" else "") ++
          (if lacking.contains "deadline" then " or after it should have expired" else "") ++ ".")
        line with
      severity := if total then .high else .medium
      confidence := if total then .confirmed else .heuristic
      impact := "Signed authorizations can be replayed to repeat the authorized action."
      recommendation := "Hash an EIP-712 struct that includes a per-signer nonce (incremented on " ++
        "use) and a deadline checked against block.timestamp, under a domain separator that " ++
        "includes block.chainid."
      evidence := lacking.map ("digest lacks " ++ ·)
      economicImpact :=
        if lacking.contains "nonce" then some "Complete loss of signed authorizations" else none
      pocCode := if lacking.contains "nonce" then some replaySample else none }

def replayFindings (c : Contract) (f : Function) : List Finding :=
  match Token.calls recoveryCalls f.bodyTokens with
  | [] => []
  | t :: _ => (digestContexts c f t.line).filterMap (replayFinding? c f t.text)

def replay : Detector :=
  .ofFindings replayProfile fun c => c.implemented.flatMap (replayFindings c)

/-! ## Malleability -/

/-- A comparison of the second half of a signature with an upper bound. -/
def isUpperBound : Pattern :=
  chain [notAfter (fun c => isWord c || c == '$' || c == '.'), joint, exactly "s",
    opt (exactly ")"), run isBlank, oneOf [exactly "<", exactly "<="], run isBlank, char isWord]

def malleability : CoLocation where
  profile :=
    { id := "XC-SIG-002"
      name := "ECDSA Signature Malleability"
      description := "An upper bound on the signature's s value"
      severity := .medium
      category := "signature-malleability" }
  title := "ecrecover accepts malleable signatures"
  triggerCalls := ["ecrecover"]
  safeIdentifiers :=
    [chain [folded "half", joint, opt (chain [folded "curve", joint]), words ["n", "order"], stop],
     chain [start, joint, folded "max", joint, folded "s", stop],
     joined ["secp256k1", "n"]]
  safeChecks := [folded "0x7fffffff", isUpperBound]
  impact := "Attacker can derive a second valid signature for the same message."
  recommendation := "Use OpenZeppelin's ECDSA.recover, or reject s values above " ++
    "0x7FFFFFFFFFFFFFFFFFFFFFFFFFFFFFFF5D576E7357A4501DDFE92F46681B20A0 and v values other than " ++
    "27 or 28 before calling ecrecover."
  economicImpact := some "Can bypass replay protection keyed on signature bytes"

def detectors : List Detector := [replay, malleability.detector]

end ContractAudit.Signature
