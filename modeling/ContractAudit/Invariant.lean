import ContractAudit.Finding
import ContractAudit.Flow
import ContractAudit.Text.Pattern
import ContractAudit.Text.Search
import ContractAudit.Token.Render

/-!
# Structural invariants

An invariant pattern says which contracts it concerns and how to judge one of them. The catalogue
holds three: balances agree with their total, a share price cannot be moved by a donation, and a swap
has a bound on its output.
-/

namespace ContractAudit

/-- What the judgement of a contract says. -/
structure Verdict where
  violated : Bool
  evidence : List String
  functions : List String
  deriving DecidableEq, Repr

/-- Violated when some function is at fault, with one piece of evidence for each. -/
def Verdict.ofOffenders (offenders : List (String × String)) : Verdict :=
  ⟨! offenders.isEmpty, offenders.map (·.2), offenders.map (·.1)⟩

structure InvariantPattern where
  id : String
  title : String
  description : String
  severity : Severity
  impact : String
  recommendation : String
  applies : Contract → Bool
  /-- Nothing if no judgement was reached. -/
  evaluate : Contract → Option Verdict

/-- An invariant judged on one contract. -/
structure JudgedInvariant where
  id : String
  contract : String
  description : String
  title : String
  verdict : Verdict
  deriving DecidableEq, Repr

namespace Invariant

open Text Pattern

/-- The conditions of a function and of the helpers that it calls itself. -/
def localChecks (c : Contract) (f : Function) : List String :=
  f.checks ++ f.effects.flatMap fun e =>
    match e with
    | .internalCall callee _ => ((c.function? callee).map (·.checks)).getD []
    | _ => []

/-! ## Balances and totals -/

def perAccount (c : Contract) : List String :=
  (c.stateVariables.filter fun v => v.isMapping && (words ["balance", "share"]).foundIn v.name).map
    (·.name)

def isTotal : Pattern := oneOf [chain [start, joint, folded "total"], folded "supply"]

def totals (c : Contract) : List String :=
  (c.stateVariables.filter fun v => ! v.isMapping && ! v.isConstant && isTotal.foundIn v.name).map
    (·.name)

def writes (c : Contract) (f : Function) : List String :=
  (c.inlined f).filterMap fun (_, e) =>
    match e with
    | .write name _ => some name
    | _ => none

/-- The two sides are written together, or a map is written twice as in a transfer between accounts,
or some condition relates the two sides. -/
def isReconciled (c : Contract) (f : Function) : Bool :=
  let accounts := perAccount c
  let totals := totals c
  let written := writes c f
  let someAccount := accounts.any written.contains
  let someTotal := totals.any written.contains
  someAccount == someTotal ||
    (someAccount && accounts.any fun a => decide (2 ≤ written.count a)) ||
    (localChecks c f).any fun check =>
      accounts.any (Text.contains check ·) && totals.any (Text.contains check ·)

def commaList (ss : List String) : String := String.intercalate ", " ss

def unreconciledText (c : Contract) (f : Function) : String :=
  let written := writes c f
  let accounts := (perAccount c).filter written.contains
  let (touched, missing) :=
    if accounts.isEmpty then ((totals c).filter written.contains, perAccount c)
    else (accounts, totals c)
  f.name ++ " updates " ++ commaList (sortedSet touched) ++ " without updating " ++
    commaList (sortedSet missing)

def accounting : InvariantPattern where
  id := "INV-ACCOUNTING-RECONCILIATION"
  title := "Per-account balances and aggregate total can diverge"
  description := "A contract tracking both per-account balances and an aggregate total must keep " ++
    "them reconciled on every mutating function."
  severity := .high
  impact := "Supply mismatch leads to accounting errors, insolvency or locked funds."
  recommendation := "Update the aggregate together with every per-account change, or assert their " ++
    "relation after the update."
  applies c := ! (perAccount c).isEmpty && ! (totals c).isEmpty
  evaluate c := some <| .ofOffenders <|
    (c.functions.filter fun f => f.isEntryPoint && f.isMutating && ! isReconciled c f).map fun f =>
      (f.name, unreconciledText c f)

/-! ## Share prices -/

def isRatio : Pattern :=
  words ["price", "rate", "ratio", "convert", "preview", "totalassets", "pershare"]

def isDonationGuard : Pattern :=
  oneOf [folded "virtual", folded "offset", joined ["minimum", "liquidity"],
    joined ["min", "liquidity"], joined ["dead", "shares"]]

/-- How source asks for a contract's own holdings. -/
def ownHoldings : List String := ["balanceOf(address(this))", "address(this).balance"]

def ownHoldingFrom? : List Char → Option String
  | [] => none
  | c :: cs =>
    (ownHoldings.find? fun h => h.toList.isPrefixOf (c :: cs)).or (ownHoldingFrom? cs)

/-- The first place where a text asks for the contract's own holdings. -/
def ownHolding? (text : String) : Option String := ownHoldingFrom? text.toList

def hasDonationGuard (c : Contract) : Bool :=
  (c.stateVariables.map (·.name) ++ c.functions.flatMap (·.identifiers)).any isDonationGuard.foundIn

/-- The bodies of a function and of the helpers that it calls itself. -/
def localBodies (c : Contract) (f : Function) : List String :=
  Token.render f.bodyTokens :: f.effects.filterMap fun e =>
    match e with
    | .internalCall callee _ => (c.function? callee).map fun h => Token.render h.bodyTokens
    | _ => none

def sharePrice : InvariantPattern where
  id := "INV-SHARE-PRICE-DONATION"
  title := "Share price can be moved by direct balance donation"
  description := "A vault exposing a share-price-like ratio must not let a direct token transfer " ++
    "change that ratio without matching share issuance."
  severity := .high
  impact := "Donation / inflation attacks let the first depositor steal later deposits."
  recommendation := "Track deposited assets internally, or use virtual shares and a decimals " ++
    "offset, or lock a minimum liquidity on first deposit."
  applies c :=
    (c.stateVariables.any fun v =>
      Text.contains (lower v.name) "share" || Text.contains (lower v.name) "totalsupply") &&
    c.functions.any fun f => f.hasBody && isRatio.foundIn f.name
  evaluate c := some <| .ofOffenders <|
    if hasDonationGuard c then []
    else
      (c.functions.filter fun f => f.hasBody && isRatio.foundIn f.name).filterMap fun f =>
        ((localBodies c f).findSome? ownHolding?).map fun h =>
          (f.name, f.name ++ " derives its ratio from " ++ h)

/-! ## Swaps -/

def isSwap (f : Function) : Bool := f.isEntryPoint && Text.contains (lower f.name) "swap"

def hasOutputBound (c : Contract) (f : Function) : Bool :=
  (f.parameters.any fun p => (words ["min", "limit", "slippage"]).foundIn p.name) ||
    (localChecks c f).any (words ["min", "slippage", "reserve"]).foundIn

def swapSlippage : InvariantPattern where
  id := "INV-SWAP-SLIPPAGE"
  title := "Swap without slippage protection"
  description := "A pool swap entry point must let the caller bound the minimum output."
  severity := .medium
  impact := "Users are exposed to sandwich attacks and MEV extraction."
  recommendation :=
    "Accept a minimum output amount (and deadline) and revert when it is not met."
  applies c :=
    (c.stateVariables.any fun v => Text.contains (lower v.name) "reserve") && c.functions.any isSwap
  evaluate c := some <| .ofOffenders <|
    (c.functions.filter fun f => isSwap f && ! hasOutputBound c f).map fun f =>
      (f.name, f.name ++ " takes no minimum-output bound and checks none")

def catalogue : List InvariantPattern := [accounting, sharePrice, swapSlippage]

/-! ## Judging contracts -/

def judge? (p : InvariantPattern) (c : Contract) : Option JudgedInvariant :=
  if p.applies c then
    (p.evaluate c).map fun v => ⟨p.id, c.name, p.description, p.title, v⟩
  else none

/-- Judges every contract by every entry that concerns it; interfaces and libraries are left out. -/
def check (patterns : List InvariantPattern) (cs : List Contract) : List JudgedInvariant :=
  (cs.filter (·.kind == .contract)).flatMap fun c => patterns.filterMap (judge? · c)

def finding (p : InvariantPattern) (g : Option DependencyGraph) (i : JudgedInvariant) : Finding where
  title := p.title
  severity := p.severity
  description := p.description ++ " In " ++ i.contract ++ ": " ++
    String.intercalate "; " i.verdict.evidence ++ "."
  impact := p.impact
  locations := (if i.verdict.functions.isEmpty then [""] else i.verdict.functions).map fun f =>
    { contract := i.contract
      function := f
      filePath := ((g.bind (·.node? i.contract)).map (·.sourcePath)).getD "" }
  recommendation := p.recommendation
  confidence := .heuristic
  vulnerabilityClass := lower i.id
  detectorId := i.id
  evidence := i.verdict.evidence

/-- The findings on the violated invariants. Of two entries with one id the later one speaks. -/
def findings (patterns : List InvariantPattern) (g : Option DependencyGraph)
    (judged : List JudgedInvariant) : List Finding :=
  (judged.filter (·.verdict.violated)).filterMap fun i =>
    (patterns.reverse.find? (·.id == i.id)).map fun p => finding p g i

end Invariant

end ContractAudit
