import ContractAudit.Detector.CoLocation
import ContractAudit.Text.Lower
import ContractAudit.Token.Bracket

/-!
# Bridge messages

Detectors for contracts that take messages from other chains: signed approvals of guardians,
messages through an endpoint, and handlers that name the chain a message comes from.
-/

namespace ContractAudit.Bridge

open Text Pattern

/-- Sample code, line by line. -/
def sample (lines : List String) : String := String.join (lines.map (· ++ "\n"))

/-- Calls that parse or verify a guardian-signed message. -/
def approvalCalls : List String := ["parseAndVerifyVM", "parseVM", "verifyVM"]

def guardianCheck : CoLocation where
  profile :=
    { id := "XC-BRIDGE-001"
      name := "Wormhole Guardian Verification Missing"
      description := "A guardian-set or signature-quorum check"
      severity := .critical
      category := "bridge-guardian-verification" }
  title := "Wormhole message verified without guardian quorum check"
  triggerCalls := approvalCalls
  safeIdentifiers :=
    [folded "guardian", folded "quorum", chain [start, exactly "verifyVMSignatures", stop],
     chain [start, exactly "verifySignatures", stop]]
  safeChecks := [chain [boundary, exactly "valid", boundary]]
  impact := "Attackers can forge Wormhole messages and execute arbitrary cross-chain actions such " ++
    "as minting wrapped assets."
  recommendation := "Check the verification result and the guardian set (verifyVMSignatures " ++
    "against the current guardian set and quorum) before acting on a VAA."
  economicImpact := some "Total bridge funds at risk (e.g., $325M Wormhole hack)"
  pocCode := some (sample
    ["// Vulnerable Wormhole integration",
     "function processWormholeMessage(bytes memory encodedVM) external \x7b",
     "    (IWormhole.VM memory vm, bool valid, string memory reason) = " ++
       "wormhole.parseAndVerifyVM(encodedVM);",
     "",
     "    // Missing: guardian signature / quorum verification",
     "    // require(valid, reason);",
     "",
     "    executeAction(vm.payload);",
     "\x7d",
     "",
     "// Attacker submits a crafted VAA",
     "bytes memory fakeVAA = craftFakeWormholeVAA(...);",
     "victim.processWormholeMessage(fakeVAA);"])

def emitterValidation : CoLocation where
  profile :=
    { id := "XC-BRIDGE-002"
      name := "Wormhole Emitter Validation Missing"
      description := "Validation of the emitter chain and emitter address"
      severity := .high
      category := "bridge-emitter-validation" }
  title := "Wormhole emitter not validated"
  triggerCalls := approvalCalls
  safeChecks := [exactly "emitterAddress", exactly "emitterChainId"]
  requireAll := true
  impact := "Any contract on any chain can send messages that are treated as trusted."
  recommendation := "Require vm.emitterChainId and vm.emitterAddress to match a registered, " ++
    "trusted emitter before processing the payload."

def messageReplay : CoLocation where
  profile :=
    { id := "XC-BRIDGE-003"
      name := "Bridge Message Replay"
      description := "Tracking of consumed messages"
      severity := .high
      category := "bridge-message-replay" }
  title := "Bridge message can be replayed"
  triggerCalls := approvalCalls ++ ["receiveWormholeMessages"]
  safeIdentifiers :=
    ["consumed", "processed", "completed", "executed", "delivered"].map folded
  impact := "The same message can be processed repeatedly, releasing funds each time."
  recommendation := "Record the VAA hash in a mapping(bytes32 => bool) of consumed messages and " ++
    "reject hashes that were already processed."
  economicImpact :=
    some "Multiple fund transfers from a single message (e.g., $190M Nomad bridge hack)"

/-- An equality or inequality sign. -/
def comparison : Pattern := chain [char fun c => c == '!' || c == '=', char (· == '=')]

/-- Anything on one line. -/
def anything : Pattern := run (· != '\n')

def endpointCheck : CoLocation where
  profile :=
    { id := "XC-BRIDGE-004"
      name := "LayerZero lzReceive Exposed"
      description := "A check that the caller is the LayerZero endpoint"
      severity := .high
      category := "bridge-lz-endpoint-validation" }
  title := "LayerZero lzReceive callable by anyone"
  triggerFunctions := ["lzReceive"]
  safeModifiers :=
    [chain [start, folded "only", joint, opt (chain [folded "lz", joint]), folded "endpoint", stop]]
  safeChecks :=
    [chain [exactly "msg.sender", run isBlank, comparison, anything, folded "endpoint"],
     chain [folded "endpoint", anything, comparison, run isBlank, exactly "msg.sender"]]
  impact := "Anyone can call lzReceive directly with a crafted source and payload."
  recommendation := "Require msg.sender to be the LayerZero endpoint (or apply an onlyEndpoint " ++
    "modifier), or inherit the OApp receiver and implement _lzReceive instead."
  economicImpact := some "Can bypass cross-chain message validation"
  pocCode := some (sample
    ["// Vulnerable receiver: no endpoint check",
     "function lzReceive(uint16 _srcChainId, bytes calldata _srcAddress, uint64 _nonce, " ++
       "bytes calldata _payload) external \x7b",
     "    (address to, uint256 amount) = abi.decode(_payload, (address, uint256));",
     "    _mint(to, amount);",
     "\x7d",
     "",
     "// Attacker skips the endpoint entirely",
     "victim.lzReceive(101, trustedRemote, 1, abi.encode(attacker, 1_000_000 ether));"])

/-! ## The chain a message comes from -/

def isReceiver : Pattern := words ["receive", "execute", "handle"]

/-- A parameter that names the chain a message comes from. -/
def isSourceName : Pattern :=
  chain [joint, words ["src", "source", "origin"], joint, words ["chain", "eid", "domain"]]

/-- A helper that validates what it is handed. -/
def isValidator : Pattern := words ["valid", "check", "verify", "trusted", "allowed", "only"]

def isSourceParameter (p : Parameter) : Bool :=
  isSourceName.begins p.name ||
    (lower (String.ofList (p.name.toList.dropWhile (· == '_'))) == "origin" &&
      "uint".toList.isPrefixOf p.typeName.toList)

def isNamePart (c : Char) : Bool := isWord c || c == '$'

/-- The name `name`, not as part of a longer one. -/
def wholeName (name : String) : Pattern :=
  chain [notAfter isNamePart, exactly name, notBefore isNamePart]

/-- The tokens handed to a call, given what follows its opening parenthesis. A call that is not
closed has all that follows but the last token. -/
def arguments (after : List Token) : List Token :=
  match Bracket.paren.enclosed? after with
  | some e => e.inner
  | none => after.dropLast

/-- The parameter stands in a condition or is handed to a validator. -/
def isValidated (f : Function) (name : String) : Bool :=
  f.checks.any (wholeName name).foundIn ||
    (Focus.all f.bodyTokens).any fun spot =>
      match spot.after with
      | u :: after =>
        spot.token.isIdent && isValidator.foundIn spot.token.text && u.isPunct "(" &&
          (arguments after).any (·.isName name)
      | [] => false

def sourceProfile : DetectorProfile where
  id := "XC-BRIDGE-005"
  name := "Source Chain Validation Missing"
  description := "Cross-chain handler that accepts messages from any source chain"
  severity := .high
  category := "bridge-source-chain-validation"

def uncheckedSources (f : Function) : List Parameter :=
  if isReceiver.foundIn f.name then
    f.parameters.filter fun p => isSourceParameter p && ! isValidated f p.name
  else []

def sourceFinding? (c : Contract) (f : Function) : Option Finding :=
  match uncheckedSources f with
  | [] => none
  | ps =>
    let names := String.intercalate ", " (ps.map fun p => "`" ++ p.name ++ "`")
    some { sourceProfile.finding c f "Cross-chain message source chain not validated"
        (c.name ++ "." ++ f.name ++ " takes " ++ names ++ " but never checks it against a " ++
          "trusted source, so messages from any chain are accepted.") 0 with
      impact := "Messages sent from an untrusted chain or remote are processed as trusted."
      recommendation := "Keep a mapping of trusted remotes per source chain and require the source " ++
        "chain and sender to match it before decoding the payload."
      evidence := ps.map fun p => p.typeName ++ " " ++ p.name ++ " is never checked"
      economicImpact := some "Can enable cross-chain replay attacks" }

def sourceValidation : Detector :=
  .ofFindings sourceProfile fun c => c.implemented.filterMap (sourceFinding? c)

def detectors : List Detector :=
  [guardianCheck.detector, emitterValidation.detector, messageReplay.detector,
   endpointCheck.detector, sourceValidation]

end ContractAudit.Bridge
