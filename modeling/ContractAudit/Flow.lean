import ContractAudit.Dependency.Graph
import ContractAudit.Finding

/-!
# Flows through several contracts

A flow is the trace of effects that one entry point causes when one of its external calls is followed
into the contract it lands in. Helpers of the same contract are walked where they are called. Inside
the followed callee every further call that lands in the batch is followed too. A function of a
contract is entered at most once in a flow, and the number of frames on the way is bounded: a frame
beyond the bound is refused and noted, and the walk goes on behind it.
-/

namespace ContractAudit

inductive FlowAction where
  | read (name : String)
  | write (name : String)
  | call (label : String) (movesValue : Bool)
  deriving DecidableEq, Repr

/-- One effect on a flow; the depth counts the contract boundaries crossed. -/
structure FlowStep where
  contract : String
  function : String
  action : FlowAction
  line : Nat
  depth : Nat
  deriving DecidableEq, Repr

def FlowStep.isCall (s : FlowStep) : Bool :=
  match s.action with
  | .call .. => true
  | _ => false

/-- The helper that a call inside a contract runs: a function with a body. -/
def Contract.helper? (c : Contract) (name : String) : Option Function :=
  (c.function? name).filter (·.hasBody)

/-! ## Effects with helpers in place -/

/-- The names entered so far and the effects met, each with the function it stands in. -/
structure Inlining where
  visited : List String
  effects : List (Function × Effect)

namespace Inlining

/-- The effects of `f`, with a helper's own effects in the place of its call unless it was entered
before. -/
def follow (enter : Function → List String → Inlining) (c : Contract) (f : Function) :
    List Effect → List String → Inlining
  | [], visited => ⟨visited, []⟩
  | .internalCall callee _ :: es, visited =>
    let inner : Inlining := match c.helper? callee with
      | some h => if visited.contains h.name then ⟨visited, []⟩ else enter h visited
      | none => ⟨visited, []⟩
    let rest := follow enter c f es inner.visited
    ⟨rest.visited, inner.effects ++ rest.effects⟩
  | e :: es, visited =>
    let rest := follow enter c f es visited
    ⟨rest.visited, (f, e) :: rest.effects⟩

def enter (c : Contract) : Nat → Function → List String → Inlining
  | 0, _, visited => ⟨visited, []⟩
  | depth + 1, f, visited => follow (enter c depth) c f f.effects (f.name :: visited)

end Inlining

/-- The effects of a function with the helpers of its contract in place, each helper once. No name is
entered twice, so the number of functions bounds the depth. -/
def Contract.inlined (c : Contract) (f : Function) : List (Function × Effect) :=
  (Inlining.enter c (c.functions.length + 1) f []).effects

/-! ## Walking a flow -/

/-- A function of a contract being walked. -/
structure Frame where
  contract : Contract
  function : Function
  depth : Nat

abbrev FrameKey := String × String

def Frame.key (f : Frame) : FrameKey := (f.contract.name, f.function.name)

/-- The call of an entry contract that a flow follows. -/
structure CallPosition where
  contract : String
  function : String
  site : Nat
  deriving DecidableEq, Repr

/-- What an effect does on a flow: the step it leaves and the frame it leads to. -/
structure Moment where
  step? : Option FlowStep
  descent? : Option Frame

/-- How a call is named: by the contract it lands in, or as written. -/
def CallSite.label (site : CallSite) : Option Contract → String
  | some d => d.name ++ "." ++ site.member
  | none => site.callee

namespace Frame

def step (f : Frame) (action : FlowAction) (line : Nat) : FlowStep :=
  ⟨f.contract.name, f.function.name, action, line, f.depth⟩

/-- A call at depth zero is followed if it is the target, a deeper one always. -/
def isFollowed (f : Frame) (target : CallPosition) (site : Nat) : Bool :=
  f.depth != 0 || target == ⟨f.contract.name, f.function.name, site⟩

def moment (g : DependencyGraph) (target : CallPosition) (f : Frame) : Effect → Moment
  | .read name line => ⟨some (f.step (.read name) line), none⟩
  | .write name line => ⟨some (f.step (.write name) line), none⟩
  | .internalCall callee _ =>
    ⟨none, (f.contract.helper? callee).map fun h => ⟨f.contract, h, f.depth⟩⟩
  | .externalCall i line =>
    match f.function.callSites[i]? with
    | none => ⟨none, none⟩
    | some site =>
      let landing := g.resolveCall? f.contract.name site
      ⟨some (f.step (.call (site.label landing) site.movesValue) line),
        if f.isFollowed target i then
          landing.bind fun d => (d.helper? site.member).map fun h => ⟨d, h, f.depth + 1⟩
        else none⟩

def moments (g : DependencyGraph) (target : CallPosition) (f : Frame) : List Moment :=
  f.function.effects.map (f.moment g target)

end Frame

/-- The frames entered so far, the steps met and the frames refused. -/
structure Trace where
  visited : List FrameKey
  steps : List FlowStep
  refused : List FrameKey
  deriving Repr

namespace Trace

def follow (enter : Frame → List FrameKey → Trace) : List Moment → List FrameKey → Trace
  | [], visited => ⟨visited, [], []⟩
  | m :: ms, visited =>
    let inner : Trace := match m.descent? with
      | some f => if visited.contains f.key then ⟨visited, [], []⟩ else enter f visited
      | none => ⟨visited, [], []⟩
    let rest := follow enter ms inner.visited
    ⟨rest.visited, m.step?.toList ++ inner.steps ++ rest.steps, inner.refused ++ rest.refused⟩

/-- Walks a frame when so many frames may still be opened. -/
def walk (g : DependencyGraph) (target : CallPosition) : Nat → Frame → List FrameKey → Trace
  | 0, f, visited => ⟨visited, [], [f.key]⟩
  | frames + 1, f, visited =>
    follow (walk g target frames) (f.moments g target) (f.key :: visited)

end Trace

structure Flow where
  entryContract : String
  entryFunction : String
  entryModifiers : List String
  targetCall : String
  steps : List FlowStep
  refused : List FrameKey
  deriving DecidableEq, Repr

namespace Flow

/-- Some frame was refused. -/
def isTruncated (f : Flow) : Bool := ! f.refused.isEmpty

/-- Why a flow is not complete. -/
def truncation? (f : Flow) : Option DiagnosticCode :=
  if f.isTruncated then some .recursionLimitExceeded else none

/-- The contracts walked through, in order. -/
def contracts (f : Flow) : List String := (f.steps.map (·.contract)).eraseDups

/-- The calls of an entry point that land in the batch, with their labels. -/
def targets (g : DependencyGraph) (c : Contract) (f : Function) : List (CallPosition × String) :=
  (c.inlined f).filterMap fun (owner, e) =>
    match e with
    | .externalCall i _ =>
      owner.callSites[i]?.bind fun site =>
        (g.resolveCall? c.name site).map fun d =>
          (⟨c.name, owner.name, i⟩, site.label (some d))
    | _ => none

def follow (g : DependencyGraph) (maxDepth : Int) (c : Contract) (f : Function)
    (target : CallPosition × String) : Flow :=
  let trace := Trace.walk g target.1 maxDepth.toNat ⟨c, f, 0⟩ []
  { entryContract := c.name
    entryFunction := f.name
    entryModifiers := f.modifiers
    targetCall := target.2
    steps := trace.steps
    refused := trace.refused }

/-- One flow for each call that lands in the batch, entry point by entry point. -/
def all (g : DependencyGraph) (maxDepth : Int) (cs : List Contract) : List Flow :=
  cs.flatMap fun c =>
    (c.functions.filter (·.isEntryPoint)).flatMap fun f =>
      (targets g c f).map (follow g maxDepth c f)

end Flow

end ContractAudit
