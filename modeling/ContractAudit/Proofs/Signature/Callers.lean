import ContractAudit.Proofs.Parts
import ContractAudit.Proofs.Signature.Digest

/-!
# Where a digest is judged

A function that recovers a signer and is handed its digest is judged at its callers, and so on up to the functions
that build the digest. The search for them is depth-first, and no function is entered twice: a function counts
itself where no caller of it is left, so the functions that are judged are the leaves of the search.

A function that builds the digest, or that no other one calls, is judged in every order of the functions; a
function with a caller that is come to through it alone is judged in no order. Between these the order decides: a
function whose callers were all entered from elsewhere is judged itself, and which function comes last depends on
where the functions stand.
-/

namespace ContractAudit

/-- The contract with these functions instead. -/
def Contract.rearranged (c : Contract) (fs : List Function) : Contract := { c with functions := fs }

namespace Signature

open Text

/-- The function builds the digest itself, or is where a transaction starts. -/
def builds (f : Function) : Bool := f.isEntryPoint || ! (hashed f.bodyTokens).isEmpty

/-- The functions among `fs` that call the named one. -/
def callersAmong (fs : List Function) (name : String) : List String :=
  (fs.filter fun g => (callLine? g name).isSome).map (·.name)

/-- The functions that are judged instead of the named one. -/
def callers (c : Contract) (name : String) : List String :=
  if (c.helper? name).any builds then [] else callersAmong c.implemented name

/-! ## The search -/

/-- The search has entered the nodes of the forest, and what it found are the leaves. -/
structure Enters (c : Contract) (seen : List String) (t : Forest String) (r : Contexts) : Prop where
  seen_eq : r.seen = t.nodes.reverse ++ seen
  found_eq : r.found.map (·.1.name) = t.leaves
  implemented : ∀ p ∈ r.found, p.1 ∈ c.implemented

section Search

variable {c : Contract} {f : Function} {enter : Function → Nat → List String → Contexts} {callee : String}
  {fs : List Function} {seen : List String}

theorem mem_callers {m n : String} :
    n ∈ callers c m ↔
      (c.helper? m).any builds = false ∧ ∃ g ∈ c.implemented, (callLine? g m).isSome = true ∧ g.name = n := by
  simp [callers, callersAmong, and_assoc]

theorem callers_of_builds (hf : c.helper? f.name = some f) (h : builds f = true) : callers c f.name = [] := by
  simp [callers, hf, h]

theorem callers_of_not_builds (hf : c.helper? f.name = some f) (h : builds f = false) :
    callers c f.name = callersAmong c.implemented f.name := by
  simp [callers, hf, h]

theorem callersAmong_cons_of_none (h : callLine? f callee = none) :
    callersAmong (f :: fs) callee = callersAmong fs callee := by
  simp [callersAmong, h]

theorem callersAmong_cons_of_some {line : Nat} (h : callLine? f callee = some line) :
    callersAmong (f :: fs) callee = f.name :: callersAmong fs callee := by
  simp [callersAmong, h]

theorem callerContexts_pass (h : f.name ∈ seen ∨ callLine? f callee = none) :
    callerContexts enter callee (f :: fs) seen = callerContexts enter callee fs seen := by
  by_cases hseen : f.name ∈ seen
  · simp [callerContexts, hseen]
  · have hline := h.resolve_left hseen
    simp [callerContexts, hseen, hline]

theorem callerContexts_enter {line : Nat} (hseen : f.name ∉ seen) (hline : callLine? f callee = some line) :
    callerContexts enter callee (f :: fs) seen =
      ⟨(callerContexts enter callee fs (enter f line seen).seen).seen,
        (enter f line seen).found ++ (callerContexts enter callee fs (enter f line seen).seen).found⟩ := by
  simp [callerContexts, hseen, hline]

theorem contexts_of_builds (h : builds f = true) (depth line : Nat) :
    contexts c (depth + 1) f line seen = ⟨f.name :: seen, [(f, line)]⟩ := by
  rw [builds] at h
  rw [contexts, if_pos h]

theorem contexts_of_not_builds (h : builds f = false) (depth line : Nat) :
    contexts c (depth + 1) f line seen =
      let callers := callerContexts (contexts c depth) f.name c.implemented (f.name :: seen)
      if callers.found.isEmpty then ⟨callers.seen, [(f, line)]⟩ else callers := by
  rw [builds] at h
  rw [contexts, if_neg (by simp [h])]

namespace Enters

variable {x : String} {t t' : Forest String} {r r' : Contexts}

theorem leaf (hf : f ∈ c.implemented) (line : Nat) :
    Enters c seen (.node f.name .nil .nil) ⟨f.name :: seen, [(f, line)]⟩ where
  seen_eq := by simp [Forest.nodes]
  found_eq := by simp [Forest.leaves]
  implemented := List.forall_mem_singleton.mpr hf

theorem found_eq_nil_iff (h : Enters c seen t r) : r.found = [] ↔ t = .nil := by
  rw [← Forest.leaves_eq_nil_iff, ← h.found_eq, List.map_eq_nil_iff]

/-- What was entered below a node, together with the node. -/
theorem inner (h : Enters c (x :: seen) t r) (hne : t ≠ .nil) : Enters c seen (.node x t .nil) r where
  seen_eq := by simp [h.seen_eq, Forest.nodes]
  found_eq := by rw [h.found_eq, Forest.leaves_node_of_ne_nil x hne]
  implemented := h.implemented

theorem append (h : Enters c seen (.node x t .nil) r) (h' : Enters c r.seen t' r') :
    Enters c seen (.node x t t') ⟨r'.seen, r.found ++ r'.found⟩ where
  seen_eq := by
    rw [h'.seen_eq, h.seen_eq]
    simp [Forest.nodes]
  found_eq := by rw [List.map_append, h.found_eq, h'.found_eq, ← Forest.leaves_node]
  implemented := List.forall_mem_append.mpr ⟨h.implemented, h'.implemented⟩

end Enters

/-- One function is entered: it is a leaf if it builds the digest or if no caller of it is left. -/
theorem enters_contexts (hf : c.helper? f.name = some f) (hmem : f ∈ c.implemented) {depth : Nat} (line : Nat)
    (h : ∃ t, DepthFirst (callers c) (callersAmong c.implemented f.name) (f.name :: seen) t ∧
      Enters c (f.name :: seen) t (callerContexts (contexts c depth) f.name c.implemented (f.name :: seen))) :
    ∃ t, DepthFirst (callers c) (callers c f.name) (f.name :: seen) t ∧
      Enters c seen (.node f.name t .nil) (contexts c (depth + 1) f line seen) := by
  cases hb : builds f with
  | true =>
    rw [callers_of_builds hf hb, contexts_of_builds hb]
    exact ⟨.nil, .nil, .leaf hmem line⟩
  | false =>
    obtain ⟨t, ht, he⟩ := h
    rw [callers_of_not_builds hf hb, contexts_of_not_builds hb]
    refine ⟨t, ht, ?_⟩
    by_cases hempty : t = .nil
    · subst hempty
      have hseen : (callerContexts (contexts c depth) f.name c.implemented (f.name :: seen)).seen = f.name :: seen :=
        he.seen_eq
      simpa [he.found_eq_nil_iff, hseen] using Enters.leaf hmem line
    · simpa [he.found_eq_nil_iff, hempty] using he.inner hempty

variable (hnames : (c.functions.map (·.name)).Nodup)

include hnames

/-- With room for all functions that are not entered yet, the callers are searched to the end. -/
theorem enters_callerContexts {depth : Nat} (hroom : room (c.functions.map (·.name)) seen ≤ depth)
    (hfs : fs ⊆ c.implemented) (callee : String) :
    ∃ t, DepthFirst (callers c) (callersAmong fs callee) seen t ∧
      Enters c seen t (callerContexts (contexts c depth) callee fs seen) := by
  induction depth generalizing callee fs seen with
  | zero =>
    induction fs with
    | nil => exact ⟨.nil, .nil, rfl, rfl, by simp [callerContexts]⟩
    | cons f fs ih =>
      obtain ⟨hf, hfs⟩ := List.cons_subset.mp hfs
      -- There is no room for another function, so every caller has been entered.
      have hseen : f.name ∈ seen := by
        by_contra hseen
        have hless := room_enter_lt (List.mem_filter.mp hf).1 hseen
        omega
      obtain ⟨t, ht, he⟩ := ih hfs
      rw [callerContexts_pass (.inl hseen)]
      cases hline : callLine? f callee with
      | none =>
        rw [callersAmong_cons_of_none hline]
        exact ⟨t, ht, he⟩
      | some line =>
        rw [callersAmong_cons_of_some hline]
        exact ⟨t, .skip hseen ht, he⟩
  | succ depth ihd =>
    induction fs generalizing seen with
    | nil => exact ⟨.nil, .nil, rfl, rfl, by simp [callerContexts]⟩
    | cons f fs ih =>
      obtain ⟨hf, hfs⟩ := List.cons_subset.mp hfs
      cases hline : callLine? f callee with
      | none =>
        rw [callerContexts_pass (.inr hline), callersAmong_cons_of_none hline]
        exact ih hroom hfs
      | some line =>
        rw [callersAmong_cons_of_some hline]
        by_cases hseen : f.name ∈ seen
        · obtain ⟨t, ht, he⟩ := ih hroom hfs
          rw [callerContexts_pass (.inl hseen)]
          exact ⟨t, .skip hseen ht, he⟩
        · have hless := room_enter_lt (List.mem_filter.mp hf).1 hseen
          have hinner : room (c.functions.map (·.name)) (f.name :: seen) ≤ depth := by omega
          have hself := (Contract.helper?_eq_some_iff hnames).mpr ⟨hf, rfl⟩
          obtain ⟨t, ht, he⟩ := enters_contexts hself hf line (ihd hinner (List.Subset.refl _) f.name)
          have hleft : room (c.functions.map (·.name)) (contexts c (depth + 1) f line seen).seen ≤ depth + 1 := by
            refine Nat.le_trans (room_mono _ ?_) hroom
            rw [he.seen_eq]
            exact List.subset_append_right _ _
          obtain ⟨t', ht', he'⟩ := ih hleft hfs
          rw [callerContexts_enter hseen hline]
          refine ⟨.node f.name t t', .enter hseen ht ?_, he.append he'⟩
          simpa [he.seen_eq, Forest.nodes] using ht'

/-- The functions that are judged are the leaves of a search from the function that recovers. -/
theorem exists_forest_digestContexts (hf : f ∈ c.implemented) (line : Nat) :
    ∃ t, DepthFirst (callers c) [f.name] [] t ∧ (digestContexts c f line).map (·.1.name) = t.leaves ∧
      ∀ p ∈ digestContexts c f line, p.1 ∈ c.implemented := by
  have hself := (Contract.helper?_eq_some_iff hnames).mpr ⟨hf, rfl⟩
  have hcallers := enters_callerContexts hnames (room_enter_le c f.name) (List.Subset.refl _) f.name
  obtain ⟨t, ht, he⟩ := enters_contexts hself hf line hcallers
  exact ⟨.node f.name t .nil, .enter List.not_mem_nil ht .nil, he.found_eq, he.implemented⟩

theorem judged_of_mem_digestContexts (hf : f ∈ c.implemented) {line : Nat} {p : Function × Nat}
    (hp : p ∈ digestContexts c f line) :
    p.1 ∈ c.implemented ∧ Leads (callers c) f.name p.1.name ∧ ¬ IsPassed (callers c) f.name p.1.name := by
  obtain ⟨t, ht, hleaves, himplemented⟩ := exists_forest_digestContexts hnames hf line
  have hleaf : p.1.name ∈ t.leaves := hleaves ▸ List.mem_map_of_mem (f := (·.1.name)) hp
  refine ⟨himplemented p hp, ht.mem_nodes_iff_leads.mp (t.leaves_subset_nodes hleaf), ?_⟩
  refine ht.not_isPassed ?_ ?_ hleaf
  · exact fun y hy => absurd hy List.not_mem_nil
  · exact List.forall_mem_singleton.mpr (.inl rfl)

theorem exists_mem_digestContexts (hf : f ∈ c.implemented) (line : Nat) {g : Function} (hg : g ∈ c.implemented)
    (hleads : Leads (callers c) f.name g.name) (hend : IsEnd (callers c) g.name) :
    ∃ line', (g, line') ∈ digestContexts c f line := by
  obtain ⟨t, ht, hleaves, himplemented⟩ := exists_forest_digestContexts hnames hf line
  have hleaf : g.name ∈ t.leaves := ht.mem_leaves (ht.mem_nodes_iff_leads.mpr hleads) hend
  obtain ⟨p, hp, hname⟩ := List.mem_map.mp (hleaves ▸ hleaf)
  have heq : p.1 = g := by
    refine List.inj_on_of_nodup_map hnames ?_ (List.mem_filter.mp hg).1 hname
    exact (List.mem_filter.mp (himplemented p hp)).1
  exact ⟨p.2, heq ▸ hp⟩

end Search

/-! ## Verdicts -/

/-- What a finding says: of which function, and what its digest lacks. -/
def verdict (x : Finding) : String × List String := (x.key.function, x.evidence)

/-- What is said of `g` as the function that builds the digest recovered in `f`. -/
def verdictOn (c : Contract) (f g : Function) : String × List String :=
  (g.name, (missing c f g).map ("digest lacks " ++ ·))

/-- `f` recovers a signer, callers lead from it to `g`, and the digest of `g` lacks a binding. -/
structure Suspects (c : Contract) (f g : Function) : Prop where
  recovering : f ∈ c.implemented
  recovers : Token.calls recoveryCalls f.bodyTokens ≠ []
  implemented : g ∈ c.implemented
  leads : Leads (callers c) f.name g.name
  lacks : missing c f g ≠ []

/-- Of the functions that callers lead to, the findings take in all that build the digest or that no other one
calls, and none with a caller that is come to through it alone. -/
structure Judges (c : Contract) (found : List Finding) : Prop where
  complete : ∀ f g, Suspects c f g → IsEnd (callers c) g.name → verdictOn c f g ∈ found.map verdict
  sound : ∀ v ∈ found.map verdict,
    ∃ f g, Suspects c f g ∧ ¬ IsPassed (callers c) f.name g.name ∧ verdictOn c f g = v

section Verdicts

variable {c : Contract} {f g : Function} {v : String × List String}

theorem replayFinding?_of_nil (h : missing c f g = []) (call : String) (line : Nat) :
    replayFinding? c f call (g, line) = none := by
  simp [replayFinding?, h]

theorem exists_replayFinding? (h : missing c f g ≠ []) (call : String) (line : Nat) :
    ∃ x, replayFinding? c f call (g, line) = some x ∧ verdict x = verdictOn c f g := by
  cases hm : missing c f g with
  | nil => exact absurd hm h
  | cons b bs =>
    simp only [replayFinding?, hm]
    exact ⟨_, rfl, by simp [verdict, verdictOn, hm, Finding.key, Finding.primaryLocation?, DetectorProfile.finding]⟩

theorem analyze_replay (c : Contract) :
    replay.analyze c = .ok (c.implemented.flatMap (replayFindings c)) := rfl

/-- The verdicts are those on the functions that are judged and lack a binding. -/
theorem mem_verdicts_iff :
    v ∈ (c.implemented.flatMap (replayFindings c)).map verdict ↔
      ∃ f ∈ c.implemented, ∃ t ∈ (Token.calls recoveryCalls f.bodyTokens).head?,
        ∃ p ∈ digestContexts c f t.line, missing c f p.1 ≠ [] ∧ verdictOn c f p.1 = v := by
  simp only [List.mem_map, List.mem_flatMap]
  constructor
  · rintro ⟨x, ⟨f, hf, hx⟩, rfl⟩
    cases hcalls : Token.calls recoveryCalls f.bodyTokens with
    | nil => simp [replayFindings, hcalls] at hx
    | cons t ts =>
      simp only [replayFindings, hcalls] at hx
      obtain ⟨p, hp, hsome⟩ := List.mem_filterMap.mp hx
      by_cases hlacks : missing c f p.1 = []
      · rw [replayFinding?_of_nil hlacks] at hsome
        cases hsome
      · obtain ⟨y, hy, hverdict⟩ := exists_replayFinding? hlacks t.text p.2
        obtain rfl : y = x := Option.some.inj (hy.symm.trans hsome)
        exact ⟨f, hf, t, by simp [hcalls], p, hp, hlacks, hverdict.symm⟩
  · rintro ⟨f, hf, t, ht, p, hp, hlacks, rfl⟩
    obtain ⟨ts, hcalls⟩ := List.head?_eq_some_iff.mp ht
    obtain ⟨x, hx, hverdict⟩ := exists_replayFinding? hlacks t.text p.2
    refine ⟨x, ⟨f, hf, ?_⟩, hverdict⟩
    simp only [replayFindings, hcalls]
    exact List.mem_filterMap.mpr ⟨p, hp, hx⟩

theorem judges_replay (hnames : (c.functions.map (·.name)).Nodup) :
    Judges c (c.implemented.flatMap (replayFindings c)) where
  complete f g h hend := by
    obtain ⟨t, ts, hcalls⟩ := List.exists_cons_of_ne_nil h.recovers
    obtain ⟨line, hp⟩ := exists_mem_digestContexts hnames h.recovering t.line h.implemented h.leads hend
    exact mem_verdicts_iff.mpr ⟨f, h.recovering, t, by simp [hcalls], (g, line), hp, h.lacks, rfl⟩
  sound v hv := by
    obtain ⟨f, hf, t, ht, p, hp, hlacks, rfl⟩ := mem_verdicts_iff.mp hv
    obtain ⟨himplemented, hleads, hpassed⟩ := judged_of_mem_digestContexts hnames hf hp
    have hrecovers : Token.calls recoveryCalls f.bodyTokens ≠ [] := List.ne_nil_of_mem (List.mem_of_mem_head? ht)
    exact ⟨f, p.1, ⟨hf, hrecovers, himplemented, hleads, hlacks⟩, hpassed, rfl⟩

/-- If every function that is led to is of one of the two kinds, those that build or that no other one calls are
judged and no others. -/
theorem Judges.mem_iff {found : List Finding} (h : Judges c found)
    (hkinds : ∀ f g, Suspects c f g → IsEnd (callers c) g.name ∨ IsPassed (callers c) f.name g.name) :
    v ∈ found.map verdict ↔ ∃ f g, Suspects c f g ∧ IsEnd (callers c) g.name ∧ verdictOn c f g = v := by
  constructor
  · intro hv
    obtain ⟨f, g, hs, hpassed, rfl⟩ := h.sound v hv
    exact ⟨f, g, hs, (hkinds f g hs).resolve_right hpassed, rfl⟩
  · rintro ⟨f, g, hs, hend, rfl⟩
    exact h.complete f g hs hend

end Verdicts

/-- Of the bindings only the nonce can be made up for. -/
theorem mem_missing {c : Contract} {f g : Function} {b : String × Pattern} (hb : b ∈ bindings) (hne : b.1 ≠ "nonce")
    (h : b.2.foundIn (digestText c g) = false) : b.1 ∈ missing c f g := by
  have habsent : b.1 ∈ (bindings.filter fun b => ! b.2.foundIn (digestText c g)).map (·.1) :=
    List.mem_map_of_mem (List.mem_filter.mpr ⟨hb, by simp [h]⟩)
  unfold missing
  split
  · exact List.mem_filter.mpr ⟨habsent, by simpa using hne⟩
  · exact habsent

/-! ## Other orders -/

section Order

variable {c : Contract} {fs : List Function} (hnames : (c.functions.map (·.name)).Nodup)
  (hperm : fs.Perm c.functions)

include hperm

theorem mem_implemented_rearranged {f : Function} : f ∈ (c.rearranged fs).implemented ↔ f ∈ c.implemented := by
  simp [Contract.implemented, Contract.rearranged, hperm.mem_iff]

include hnames

theorem function?_rearranged (name : String) : (c.rearranged fs).function? name = c.function? name := by
  have hsame : SameParts (·.name) c.functions fs := .of_perm hperm.symm hnames
  simp only [Contract.function?, Contract.rearranged, hsame.find?_and_eq, hsame.find?_eq]

theorem mem_callers_rearranged {m n : String} : n ∈ callers (c.rearranged fs) m ↔ n ∈ callers c m := by
  have hhelper : (c.rearranged fs).helper? m = c.helper? m := by
    rw [Contract.helper?, Contract.helper?, function?_rearranged hnames hperm]
  simp only [mem_callers, hhelper, mem_implemented_rearranged hperm]

theorem gatherNames_rearranged (enter : Function → List String → Gathering) (names seen : List String) :
    gatherNames enter (c.rearranged fs) names seen = gatherNames enter c names seen := by
  induction names generalizing seen with
  | nil => rfl
  | cons name names ih =>
    have hvariable : (c.rearranged fs).findVariable? name = c.findVariable? name := rfl
    simp only [gatherNames, hvariable, function?_rearranged hnames hperm, ih]

theorem gather_rearranged (depth : Nat) (f : Function) (seen : List String) :
    gather (c.rearranged fs) depth f seen = gather c depth f seen := by
  induction depth generalizing f seen with
  | zero => rfl
  | succ depth ih =>
    have henter : gather (c.rearranged fs) depth = gather c depth := funext fun f => funext fun seen => ih f seen
    simp only [gather, henter, gatherNames_rearranged hnames hperm]

theorem missing_rearranged (f g : Function) : missing (c.rearranged fs) f g = missing c f g := by
  have hlength : (c.rearranged fs).functions.length = c.functions.length := hperm.length_eq
  have htext : digestText (c.rearranged fs) g = digestText c g := by
    rw [digestText, digestText, hlength, gather_rearranged hnames hperm]
  rw [missing, missing, htext]

theorem suspects_rearranged {f g : Function} : Suspects (c.rearranged fs) f g ↔ Suspects c f g := by
  have hleads : Leads (callers (c.rearranged fs)) f.name g.name ↔ Leads (callers c) f.name g.name := by
    simp only [Leads, mem_callers_rearranged hnames hperm]
  constructor
  · rintro ⟨hf, hcalls, hg, hl, hm⟩
    exact ⟨(mem_implemented_rearranged hperm).mp hf, hcalls, (mem_implemented_rearranged hperm).mp hg,
      hleads.mp hl, missing_rearranged hnames hperm f g ▸ hm⟩
  · rintro ⟨hf, hcalls, hg, hl, hm⟩
    exact ⟨(mem_implemented_rearranged hperm).mpr hf, hcalls, (mem_implemented_rearranged hperm).mpr hg,
      hleads.mpr hl, (missing_rearranged hnames hperm f g).symm ▸ hm⟩

theorem verdictOn_rearranged (f g : Function) : verdictOn (c.rearranged fs) f g = verdictOn c f g := by
  rw [verdictOn, verdictOn, missing_rearranged hnames hperm]

/-- What the findings have to take in does not depend on the order. -/
theorem Judges.of_rearranged {found : List Finding} (h : Judges (c.rearranged fs) found) : Judges c found where
  complete f g hs hend := by
    have hend' : IsEnd (callers (c.rearranged fs)) g.name := by
      simpa only [IsEnd, mem_callers_rearranged hnames hperm] using hend
    have hmem := h.complete f g ((suspects_rearranged hnames hperm).mpr hs) hend'
    rwa [verdictOn_rearranged hnames hperm] at hmem
  sound v hv := by
    obtain ⟨f, g, hs, hpassed, rfl⟩ := h.sound v hv
    simp only [IsPassed, mem_callers_rearranged hnames hperm] at hpassed
    exact ⟨f, g, (suspects_rearranged hnames hperm).mp hs, hpassed, (verdictOn_rearranged hnames hperm f g).symm⟩

end Order

/-- In two orders of the functions the findings judge every function that builds a recovered digest, or that no
other one calls, alike, and no function with a caller that is come to through it alone. If every function that is
led to is of one of these kinds, the verdicts are the same in both orders. -/
theorem replay_verdicts_of_perm {c : Contract} (hnames : (c.functions.map (·.name)).Nodup) {fs : List Function}
    (hperm : fs.Perm c.functions) :
    ∃ found found', replay.analyze c = .ok found ∧ replay.analyze (c.rearranged fs) = .ok found' ∧
      Judges c found ∧ Judges c found' ∧
      ((∀ f g, Suspects c f g → IsEnd (callers c) g.name ∨ IsPassed (callers c) f.name g.name) →
        ∀ v, v ∈ found.map verdict ↔ v ∈ found'.map verdict) := by
  have hnames' : (fs.map (·.name)).Nodup := (hperm.map (·.name)).nodup_iff.mpr hnames
  have hj := judges_replay hnames
  have hj' := (@judges_replay (c.rearranged fs) hnames').of_rearranged hnames hperm
  refine ⟨_, _, analyze_replay c, analyze_replay (c.rearranged fs), hj, hj', fun hkinds v => ?_⟩
  rw [hj.mem_iff hkinds, hj'.mem_iff hkinds]

/-- Two entry points that hand their digests to one helper. -/
def handedRelay : SourceUnit where
  name := "Relay.sol"
  path := ""
  text := "contract Relay \x7b address owner; function verify(bytes32 h, bytes memory s) internal \x7b " ++
    "require(ECDSA.recover(h, s) == owner); \x7d " ++
    "function deposit(bytes memory s) external \x7b verify(keccak256(s), s); \x7d " ++
    "function withdraw(bytes memory s) external \x7b verify(keccak256(abi.encode(nonce, s)), s); \x7d \x7d"

set_option maxRecDepth 4000 in
/-- Both entry points are judged instead of the helper, in whatever order they stand. -/
theorem replay_verdicts_of_perm_handedRelay :
    ∃ c ∈ handedRelay.declared, (c.functions.map (·.name)).Nodup ∧ c.functions.reverse.Perm c.functions ∧
      ∃ found found', replay.analyze c = .ok found ∧
        replay.analyze (c.rearranged c.functions.reverse) = .ok found' ∧ found.map verdict ≠ [] ∧
        ∀ v, v ∈ found.map verdict ↔ v ∈ found'.map verdict := by
  obtain ⟨c, hc, hnames, f, hf, hrecovers, g, hg, hcaller, hne, honly, hends, b, hb, hbne, hlacks⟩ :
      ∃ c ∈ handedRelay.declared, (c.functions.map (·.name)).Nodup ∧
        ∃ f ∈ c.implemented, Token.calls recoveryCalls f.bodyTokens ≠ [] ∧
        ∃ g ∈ c.implemented, g.name ∈ callers c f.name ∧ g.name ≠ f.name ∧
          (∀ h ∈ c.implemented, Token.calls recoveryCalls h.bodyTokens ≠ [] → h = f) ∧
          (∀ h ∈ c.implemented, h = f ∨ IsEnd (callers c) h.name) ∧
          ∃ b ∈ bindings, b.1 ≠ "nonce" ∧ Lacks c b.2 [g] := by
    have hs : handedRelay.text = String.ofList _ :=
      append_eq_ofList (append_eq_ofList (append_eq_ofList rfl rfl) rfl) rfl
    rw [SourceUnit.declared, SourceUnit.contracts, tokenize, hs, String.toList_ofList]
    decide +kernel
  have hmissing : b.1 ∈ missing c f g :=
    mem_missing hb hbne (hlacks.found_eq_false hnames (bindings_avoid_blank b hb) (List.mem_singleton_self g))
  have hsuspects : Suspects c f g := ⟨hf, hrecovers, hg, .single hcaller, List.ne_nil_of_mem hmissing⟩
  have hpassed : IsPassed (callers c) f.name f.name := by
    refine ⟨g.name, hcaller, hne, fun hway => ?_⟩
    obtain heq | ⟨_, ⟨hself, -⟩, -⟩ := hway.cases_head
    · exact hne heq.symm
    · exact hself rfl
  obtain ⟨found, found', hok, hok', hj, -, hagree⟩ := replay_verdicts_of_perm hnames c.functions.reverse_perm
  refine ⟨c, hc, hnames, c.functions.reverse_perm, found, found', hok, hok', ?_, hagree fun f' h hs => ?_⟩
  · have hend := (hends g hg).resolve_left fun heq => hne (heq ▸ rfl)
    exact List.ne_nil_of_mem (hj.complete f g hsuspects hend)
  · obtain rfl := honly f' hs.recovering hs.recovers
    rcases hends h hs.implemented with rfl | hend
    · exact .inr hpassed
    · exact .inl hend

/-- Two helpers between an entry point and the helper that recovers. -/
def sharedRelay : SourceUnit where
  name := "Relay.sol"
  path := ""
  text := "contract Relay \x7b address owner; " ++
    "function first(bytes32 h, bytes memory s) internal \x7b verify(h, s); \x7d " ++
    "function second(bytes32 h, bytes memory s) internal \x7b verify(h, s); \x7d " ++
    "function verify(bytes32 h, bytes memory s) internal \x7b require(ECDSA.recover(h, s) == owner); \x7d " ++
    "function execute(bytes memory s) external \x7b bytes32 h = keccak256(abi.encode(nonce, chainid, deadline)); " ++
    "first(h, s); second(h, s); \x7d \x7d"

set_option maxRecDepth 4000 in
/-- The entry point is entered from one of the helpers, so that the other is judged itself; which of them comes
first depends on the order. -/
theorem replay_verdicts_ne_sharedRelay :
    ∃ c ∈ sharedRelay.declared, (c.functions.map (·.name)).Nodup ∧
      ∃ found found', replay.analyze c = .ok found ∧
        replay.analyze (c.rearranged c.functions.reverse) = .ok found' ∧
        ∃ v ∈ found'.map verdict, v ∉ found.map verdict ∧
          ∃ h ∈ c.implemented, builds h = true ∧ h.name ∈ callers c v.1 := by
  obtain ⟨c, hc, hnames, f, hf, t, ht, p, hp, hcaller, hnone, b, hb, hbne, hlacks, hpmem⟩ :
      ∃ c ∈ sharedRelay.declared, (c.functions.map (·.name)).Nodup ∧
        ∃ f ∈ c.implemented, ∃ t ∈ (Token.calls recoveryCalls f.bodyTokens).head?,
        ∃ p ∈ digestContexts (c.rearranged c.functions.reverse) f t.line,
          (∃ h ∈ c.implemented, builds h = true ∧ h.name ∈ callers c p.1.name) ∧
          (∀ f ∈ c.implemented, ∀ t ∈ (Token.calls recoveryCalls f.bodyTokens).head?,
            ∀ q ∈ digestContexts c f t.line, q.1.name ≠ p.1.name) ∧
          ∃ b ∈ bindings, b.1 ≠ "nonce" ∧ Lacks c b.2 (c.implemented.filter (! builds ·)) ∧
            p.1 ∈ c.implemented.filter (! builds ·) := by
    have hs : sharedRelay.text = String.ofList _ :=
      append_eq_ofList (append_eq_ofList (append_eq_ofList
        (append_eq_ofList (append_eq_ofList rfl rfl) rfl) rfl) rfl) rfl
    rw [SourceUnit.declared, SourceUnit.contracts, tokenize, hs, String.toList_ofList]
    decide +kernel
  have hperm := c.functions.reverse_perm
  have hmissing : b.1 ∈ missing (c.rearranged c.functions.reverse) f p.1 := by
    rw [missing_rearranged hnames hperm]
    exact mem_missing hb hbne (hlacks.found_eq_false hnames (bindings_avoid_blank b hb) hpmem)
  refine ⟨c, hc, hnames, _, _, analyze_replay c, analyze_replay _, verdictOn (c.rearranged c.functions.reverse) f p.1,
    ?_, fun hv => ?_, hcaller⟩
  · exact mem_verdicts_iff.mpr
      ⟨f, (mem_implemented_rearranged hperm).mpr hf, t, ht, p, hp, List.ne_nil_of_mem hmissing, rfl⟩
  · obtain ⟨f', hf', t', ht', q, hq, -, heq⟩ := mem_verdicts_iff.mp hv
    exact hnone f' hf' t' ht' q hq (congrArg Prod.fst heq)

end Signature

end ContractAudit
