import ContractAudit.Detector.Signature
import ContractAudit.Proofs.Batch
import ContractAudit.Proofs.DepthFirst
import ContractAudit.Proofs.Flow.Inlining
import ContractAudit.Proofs.Text.Joined
import Mathlib.Data.List.Nodup

/-!
# The text of a digest

`Gathers c names seen g` is the recursion that gathers the text of a digest, without a bound on its depth. A
derivation of it is finite, so it stands for a recursion that ends. It is a depth-first search of the helpers
that the hashed texts name, so it comes to every helper that can be reached by names. The parts are joined by
blanks and no binding has a blank in it, so a binding is found in the digest if it is found in one of the parts.
-/

namespace ContractAudit

namespace Contract

/-- The last state variable of its name. -/
def IsCurrent (c : Contract) (v : StateVariable) : Prop :=
  ∃ before after, c.stateVariables = before ++ v :: after ∧ ∀ w ∈ after, w.name ≠ v.name

theorem findVariable?_eq_some_iff {c : Contract} {name : String} {v : StateVariable} :
    c.findVariable? name = some v ↔ v.name = name ∧ c.IsCurrent v := by
  rw [findVariable?, List.find?_eq_some_iff_append, beq_iff_eq]
  refine and_congr_right fun hname => ?_
  constructor
  · rintro ⟨after, before, heq, hafter⟩
    refine ⟨before.reverse, after.reverse, ?_, fun w hw => ?_⟩
    · simpa using congrArg List.reverse heq
    · simpa [hname] using hafter w (List.mem_reverse.mp hw)
  · rintro ⟨before, after, heq, hafter⟩
    refine ⟨after.reverse, before.reverse, by simp [heq], fun w hw => ?_⟩
    simpa [hname] using hafter w (List.mem_reverse.mp hw)

/-- Where the functions have distinct names, the helpers are the implemented functions. -/
theorem helper?_eq_some_iff {c : Contract} (hnames : (c.functions.map (·.name)).Nodup) {name : String}
    {f : Function} : c.helper? name = some f ↔ f ∈ c.implemented ∧ f.name = name := by
  constructor
  · intro h
    have hbody := (Option.filter_eq_some_iff.mp h).2
    exact ⟨List.mem_filter.mpr ⟨mem_of_helper? h, hbody⟩, name_of_helper? h⟩
  · rintro ⟨hf, rfl⟩
    obtain ⟨hmem, hbody⟩ := List.mem_filter.mp hf
    have hfind : c.functions.find? (fun g => g.name == f.name && g.hasBody) = some f := by
      cases hg : c.functions.find? (fun g => g.name == f.name && g.hasBody) with
      | none =>
        have hnone := List.find?_eq_none.mp hg f hmem
        simp [hbody] at hnone
      | some g =>
        have hname := List.find?_some hg
        simp only [Bool.and_eq_true, beq_iff_eq] at hname
        rw [List.inj_on_of_nodup_map hnames (List.mem_of_find?_eq_some hg) hmem hname.1]
    simp [helper?, function?, hfind, hbody]

end Contract

namespace Signature

open Text

/-- The names in what a function hashes, each once. -/
def digestNames (f : Function) : List String :=
  sortedSet (names isAsciiNamePart (String.intercalate " " (spans f)))

/-- What a name adds to a digest as the name of a variable. -/
def initialText (c : Contract) (name : String) : List String :=
  ((c.findVariable? name).map (·.initialValue)).toList.filter (! ·.isEmpty)

/-- With the functions `seen` entered, the names add the parts of `g` to a digest and leave its functions
entered. -/
inductive Gathers (c : Contract) : List String → List String → Gathering → Prop where
  | nil {seen} : Gathers c [] seen ⟨seen, []⟩
  | pass {name names seen g} (h : ∀ f, c.helper? name = some f → f.name ∈ seen)
      (rest : Gathers c names seen g) :
      Gathers c (name :: names) seen ⟨g.seen, initialText c name ++ g.parts⟩
  | enter {name names seen f g g'} (hf : c.helper? name = some f) (hseen : f.name ∉ seen)
      (inner : Gathers c (digestNames f) (f.name :: seen) g) (rest : Gathers c names g.seen g') :
      Gathers c (name :: names) seen ⟨g'.seen, initialText c name ++ (spans f ++ g.parts) ++ g'.parts⟩

/-! ## The bound is never reached -/

section Bound

variable {c : Contract} {enter : Function → List String → Gathering} {name : String} {names seen : List String}

theorem initialText_of_none (h : c.findVariable? name = none) : initialText c name = [] := by
  simp [initialText, h]

theorem initialText_of_some {v : StateVariable} (h : c.findVariable? name = some v) :
    initialText c name = if v.initialValue.isEmpty then [] else [v.initialValue] := by
  by_cases he : v.initialValue.isEmpty = true
  · simp [initialText, h, he]
  · simp [initialText, h, he]

theorem gatherNames_pass (h : ∀ f, c.helper? name = some f → f.name ∈ seen) :
    gatherNames enter c (name :: names) seen =
      ⟨(gatherNames enter c names seen).seen, initialText c name ++ (gatherNames enter c names seen).parts⟩ := by
  have hskip : ∀ f, c.function? name = some f → ¬ (f.hasBody = true ∧ name ∉ seen) := by
    rintro f hf ⟨hbody, hseen⟩
    have hmem := h f (by simp [Contract.helper?, hf, hbody])
    exact hseen (Contract.name_of_function? hf ▸ hmem)
  cases hf : c.function? name with
  | none =>
    cases hv : c.findVariable? name with
    | none => simp [gatherNames, hf, hv, initialText_of_none hv]
    | some v => simp [gatherNames, hf, hv, initialText_of_some hv]
  | some f =>
    cases hv : c.findVariable? name with
    | none => simp [gatherNames, hf, hv, initialText_of_none hv, hskip f hf]
    | some v => simp [gatherNames, hf, hv, initialText_of_some hv, hskip f hf]

theorem gatherNames_enter {f : Function} (hf : c.helper? name = some f) (hseen : f.name ∉ seen) :
    gatherNames enter c (name :: names) seen =
      ⟨(gatherNames enter c names (enter f seen).seen).seen,
        initialText c name ++ (enter f seen).parts ++ (gatherNames enter c names (enter f seen).seen).parts⟩ := by
  have hbody : f.hasBody = true := by
    simp only [Contract.helper?, Option.filter_eq_some_iff] at hf
    exact hf.2
  rw [Contract.name_of_helper? hf] at hseen
  cases hv : c.findVariable? name with
  | none =>
    simp [gatherNames, Contract.function?_of_helper? hf, hv, initialText_of_none hv, hbody, hseen]
  | some v =>
    simp [gatherNames, Contract.function?_of_helper? hf, hv, initialText_of_some hv, hbody, hseen]

theorem Gathers.seen_subset {g : Gathering} (h : Gathers c names seen g) : seen ⊆ g.seen := by
  induction h with
  | nil => exact List.Subset.refl _
  | pass _ _ ih => exact ih
  | enter _ _ _ _ ih ih' => exact fun n hn => ih' (ih (List.mem_cons_of_mem _ hn))

/-- Entering a function takes up room. -/
theorem room_enter_lt {f : Function} (hf : f ∈ c.functions) (hseen : f.name ∉ seen) :
    room (c.functions.map (·.name)) (f.name :: seen) < room (c.functions.map (·.name)) seen :=
  room_cons_lt (List.mem_map_of_mem hf) hseen

theorem room_enter_le (c : Contract) (name : String) :
    room (c.functions.map (·.name)) [name] ≤ c.functions.length := by
  have hle := room_mono (c.functions.map (·.name)) (List.nil_subset [name])
  simpa [room_nil] using hle

/-- With room for all functions that are not entered yet, the bounded recursion is the one without a bound. -/
theorem gathers_gatherNames {depth : Nat} (hroom : room (c.functions.map (·.name)) seen ≤ depth) :
    Gathers c names seen (gatherNames (gather c depth) c names seen) := by
  induction depth generalizing names seen with
  | zero =>
    induction names with
    | nil => exact .nil
    | cons name names ih =>
      obtain hpass | ⟨f, hf, hseen⟩ := c.helper?_mem_or name seen
      · rw [gatherNames_pass hpass]
        exact .pass hpass ih
      · have hless := room_enter_lt (Contract.mem_of_helper? hf) hseen
        omega
  | succ depth ihd =>
    induction names generalizing seen with
    | nil => exact .nil
    | cons name names ih =>
      obtain hpass | ⟨f, hf, hseen⟩ := c.helper?_mem_or name seen
      · rw [gatherNames_pass hpass]
        exact .pass hpass (ih hroom)
      · have hless := room_enter_lt (Contract.mem_of_helper? hf) hseen
        have inner : Gathers c (digestNames f) (f.name :: seen)
            (gatherNames (gather c depth) c (digestNames f) (f.name :: seen)) := ihd (by omega)
        have hleft := room_mono (c.functions.map (·.name)) inner.seen_subset
        rw [gatherNames_enter hf hseen]
        exact .enter hf hseen inner (ih (Nat.le_trans hleft (by omega)))

end Bound

/-- The recursion ends, and the text of a digest is what it gathers. -/
theorem exists_gathers (c : Contract) (f : Function) :
    ∃ g, Gathers c (digestNames f) [f.name] g ∧
      digestText c f = String.intercalate " " (spans f ++ g.parts) :=
  ⟨_, gathers_gatherNames (room_enter_le c f.name), rfl⟩

/-! ## A search of the helpers -/

/-- The helpers that the digest of the function of a name refers to. -/
def referred (c : Contract) (name : String) : List String :=
  (((c.helper? name).map digestNames).getD []).filter fun n => (c.helper? n).isSome

/-- What the helper of a name adds to a digest by itself. -/
def helperText (c : Contract) (name : String) : List String :=
  ((c.helper? name).map fun f => spans f ++ (digestNames f).flatMap (initialText c)).getD []

section Search

variable {c : Contract} {f : Function}

theorem referred_of_helper? (h : c.helper? f.name = some f) :
    referred c f.name = (digestNames f).filter fun n => (c.helper? n).isSome := by
  simp [referred, h]

theorem helperText_of_helper? (h : c.helper? f.name = some f) :
    helperText c f.name = spans f ++ (digestNames f).flatMap (initialText c) := by
  simp [helperText, h]

/-- The functions that are entered are those of a depth-first search, and each of them adds its own text. -/
theorem Gathers.exists_forest {names seen : List String} {g : Gathering} (h : Gathers c names seen g) :
    ∃ t, DepthFirst (referred c) (names.filter fun n => (c.helper? n).isSome) seen t ∧
      g.seen = t.nodes.reverse ++ seen ∧
      ∀ s, s ∈ g.parts ↔ s ∈ names.flatMap (initialText c) ++ t.nodes.flatMap (helperText c) := by
  induction h with
  | nil => exact ⟨.nil, .nil, rfl, by simp [Forest.nodes]⟩
  | @pass name names seen g h _ ih =>
    obtain ⟨t, ht, hseen, hparts⟩ := ih
    refine ⟨t, ?_, hseen, fun s => by simp [hparts]⟩
    cases hf : c.helper? name with
    | none => simpa [hf] using ht
    | some f =>
      have hmem := Contract.name_of_helper? hf ▸ h f hf
      simpa [hf] using DepthFirst.skip hmem ht
  | @enter name names seen f g g' hf hnew _ _ ih ih' =>
    obtain ⟨t, ht, hseen, hparts⟩ := ih
    obtain ⟨t', ht', hseen', hparts'⟩ := ih'
    obtain rfl := Contract.name_of_helper? hf
    refine ⟨.node f.name t t', ?_, by simp [hseen', hseen, Forest.nodes], fun s => ?_⟩
    · rw [← referred_of_helper? hf] at ht
      rw [hseen] at ht'
      simpa [hf] using DepthFirst.enter hnew ht ht'
    · simp only [Forest.nodes, List.flatMap_cons, List.flatMap_append, List.mem_append, hparts, hparts',
        helperText_of_helper? hf]
      grind

/-- The parts of a digest are the texts of the helpers that the search comes to. -/
theorem Gathers.mem_parts (h : c.helper? f.name = some f) {g : Gathering}
    (hg : Gathers c (digestNames f) [f.name] g) {s : String} :
    s ∈ spans f ++ g.parts ↔ ∃ n, Leads (referred c) f.name n ∧ s ∈ helperText c n := by
  obtain ⟨t, ht, -, hparts⟩ := hg.exists_forest
  rw [← referred_of_helper? h] at ht
  have hall : s ∈ spans f ++ g.parts ↔ s ∈ (f.name :: t.nodes).flatMap (helperText c) := by
    simp only [List.mem_append, List.flatMap_cons, hparts, helperText_of_helper? h, or_assoc]
  rw [hall, List.mem_flatMap]
  simp only [ht.mem_iff_leads]

end Search

/-! ## What the names stand for -/

/-- The name stands in the text: it is as long as it can be there, and was not begun before. -/
def Mentions (text name : String) : Prop :=
  ∃ before after, text.toList = before ++ name.toList ++ after ∧
    IsNameAt isAsciiNamePart before name.toList after

/-- What `g` hashes mentions the implemented function `h`. -/
def Refers (c : Contract) (g h : Function) : Prop :=
  h ∈ c.implemented ∧ ∃ s ∈ spans g, Mentions s h.name

theorem mentions_iff {text name : String} : Mentions text name ↔ name ∈ names isAsciiNamePart text :=
  (mem_names_iff fun c hc => by simp [isAsciiNamePart, hc]).symm

instance (text name : String) : Decidable (Mentions text name) := decidable_of_iff _ mentions_iff.symm

instance (c : Contract) (g h : Function) : Decidable (Refers c g h) :=
  inferInstanceAs (Decidable (h ∈ c.implemented ∧ ∃ s ∈ spans g, Mentions s h.name))

theorem mem_digestNames {f : Function} {name : String} :
    name ∈ digestNames f ↔ ∃ s ∈ spans f, Mentions s name := by
  have hjoin : names isAsciiNamePart (String.intercalate " " (spans f)) =
      (spans f).flatMap (names isAsciiNamePart) :=
    @names_intercalate isAsciiNamePart ' ' (by decide) (by decide) (spans f)
  rw [digestNames, sortedSet, sort, List.mem_mergeSort, List.mem_eraseDups, hjoin, List.mem_flatMap]
  simp only [mentions_iff]

theorem mem_initialText {c : Contract} {name s : String} :
    s ∈ initialText c name ↔ s ≠ "" ∧ ∃ v, c.IsCurrent v ∧ v.name = name ∧ v.initialValue = s := by
  simp only [initialText, List.mem_filter, Option.mem_toList, Option.map_eq_some_iff,
    Contract.findVariable?_eq_some_iff]
  constructor
  · rintro ⟨⟨v, ⟨hname, hv⟩, rfl⟩, hne⟩
    exact ⟨by simpa using hne, v, hv, hname, rfl⟩
  · rintro ⟨hne, v, hv, hname, rfl⟩
    exact ⟨⟨v, ⟨hname, hv⟩, rfl⟩, by simpa using hne⟩

/-- Every function that can be reached by mentions is implemented, if the first is. -/
theorem mem_implemented_of_reach {c : Contract} {f g : Function} (hf : f ∈ c.implemented)
    (h : Relation.ReflTransGen (Refers c) f g) : g ∈ c.implemented := by
  cases h with
  | refl => exact hf
  | tail _ hrefers => exact hrefers.1

section Distinct

variable {c : Contract} {f : Function} {name : String} (hnames : (c.functions.map (·.name)).Nodup)

include hnames

theorem mem_referred (hf : f ∈ c.implemented) :
    name ∈ referred c f.name ↔ ∃ h, h.name = name ∧ Refers c f h := by
  have hself : c.helper? f.name = some f := (Contract.helper?_eq_some_iff hnames).mpr ⟨hf, rfl⟩
  rw [referred_of_helper? hself, List.mem_filter, mem_digestNames, Option.isSome_iff_exists]
  simp only [Contract.helper?_eq_some_iff hnames, Refers]
  constructor
  · rintro ⟨hspan, h, hh, rfl⟩
    exact ⟨h, rfl, hh, hspan⟩
  · rintro ⟨h, rfl, hh, hspan⟩
    exact ⟨hspan, h, hh, rfl⟩

/-- The search comes to the functions that can be reached by mentions. -/
theorem leads_iff (hf : f ∈ c.implemented) :
    Leads (referred c) f.name name ↔ ∃ g, g.name = name ∧ Relation.ReflTransGen (Refers c) f g := by
  constructor
  · intro h
    induction h with
    | refl => exact ⟨f, rfl, .refl⟩
    | tail _ hnext ih =>
      obtain ⟨g, rfl, hreach⟩ := ih
      obtain ⟨h, rfl, hrefers⟩ := (mem_referred hnames (mem_implemented_of_reach hf hreach)).mp hnext
      exact ⟨h, rfl, hreach.tail hrefers⟩
  · rintro ⟨g, rfl, hreach⟩
    induction hreach with
    | refl => exact .refl
    | tail hreach hrefers ih =>
      exact ih.tail ((mem_referred hnames (mem_implemented_of_reach hf hreach)).mpr ⟨_, rfl, hrefers⟩)

/-- A part of a digest is a hashed text of a function that it refers to, or the initial value of a variable that
such a text mentions. -/
theorem mem_helperText (hf : f ∈ c.implemented) {s : String} :
    s ∈ helperText c f.name ↔
      s ∈ spans f ∨
        s ≠ "" ∧ ∃ v, c.IsCurrent v ∧ (∃ t ∈ spans f, Mentions t v.name) ∧ v.initialValue = s := by
  rw [helperText_of_helper? ((Contract.helper?_eq_some_iff hnames).mpr ⟨hf, rfl⟩), List.mem_append,
    List.mem_flatMap]
  simp only [mem_digestNames, mem_initialText]
  refine or_congr_right ?_
  constructor
  · rintro ⟨_, hmentions, hne, v, hv, rfl, hvalue⟩
    exact ⟨hne, v, hv, hmentions, hvalue⟩
  · rintro ⟨hne, v, hv, hmentions, hvalue⟩
    exact ⟨v.name, hmentions, hne, v, hv, rfl, hvalue⟩

end Distinct

/-! ## Bindings -/

theorem bindings_avoid_blank : ∀ b ∈ bindings, b.2.avoids ' ' = true := by
  decide +kernel

theorem bindings_not_found_empty : ∀ b ∈ bindings, b.2.foundIn "" = false := by
  decide +kernel

theorem spans_ne_nil (f : Function) : spans f ≠ [] := by
  unfold spans
  split
  · exact List.cons_ne_nil _ _
  · assumption

/-- A pattern that avoids the blank is found in a digest if it is found in what one of the helpers adds that the
search comes to. -/
theorem found_digestText_iff {c : Contract} {f : Function} (h : c.helper? f.name = some f) {p : Pattern}
    (hp : p.avoids ' ' = true) :
    p.foundIn (digestText c f) = true ↔
      ∃ n, Leads (referred c) f.name n ∧ ∃ s ∈ helperText c n, p.foundIn s = true := by
  obtain ⟨g, hg, htext⟩ := exists_gathers c f
  have hparts : spans f ++ g.parts ≠ [] := List.append_ne_nil_of_left_ne_nil (spans_ne_nil f) _
  have hfound : p.foundIn (digestText c f) = true ↔ ∃ s ∈ spans f ++ g.parts, p.foundIn s = true := by
    rw [htext]
    exact Pattern.foundIn_intercalate hp hparts
  rw [hfound]
  constructor
  · rintro ⟨s, hs, hs'⟩
    obtain ⟨n, hn, hs⟩ := (hg.mem_parts h).mp hs
    exact ⟨n, hn, s, hs, hs'⟩
  · rintro ⟨n, hn, s, hs, hs'⟩
    exact ⟨s, (hg.mem_parts h).mpr ⟨n, hn, hs⟩, hs'⟩

/-- The implemented functions `fs` refer to no others, and the pattern is found in nothing that they hash and in
the initial value of no variable. -/
def Lacks (c : Contract) (p : Pattern) (fs : List Function) : Prop :=
  (∀ g ∈ fs, g ∈ c.implemented) ∧ (∀ g ∈ fs, ∀ h ∈ c.implemented, Refers c g h → h ∈ fs) ∧
    (∀ g ∈ fs, ∀ s ∈ spans g, p.foundIn s = false) ∧
    ∀ v ∈ c.stateVariables, c.findVariable? v.name = some v → p.foundIn v.initialValue = false

instance (c : Contract) (p : Pattern) (fs : List Function) : Decidable (Lacks c p fs) :=
  inferInstanceAs (Decidable ((∀ g ∈ fs, g ∈ c.implemented) ∧ (∀ g ∈ fs, ∀ h ∈ c.implemented, Refers c g h → h ∈ fs) ∧
    (∀ g ∈ fs, ∀ s ∈ spans g, p.foundIn s = false) ∧
    ∀ v ∈ c.stateVariables, c.findVariable? v.name = some v → p.foundIn v.initialValue = false))

theorem Lacks.found_eq_false {c : Contract} (hnames : (c.functions.map (·.name)).Nodup) {p : Pattern}
    {fs : List Function} (h : Lacks c p fs) (hp : p.avoids ' ' = true) {f : Function} (hf : f ∈ fs) :
    p.foundIn (digestText c f) = false := by
  obtain ⟨himplemented, hclosed, hspans, hvalues⟩ := h
  have hself := (Contract.helper?_eq_some_iff hnames).mpr ⟨himplemented f hf, rfl⟩
  refine Bool.eq_false_iff.mpr fun hfound => ?_
  obtain ⟨_, hleads, s, hs, hs'⟩ := (found_digestText_iff hself hp).mp hfound
  obtain ⟨g, rfl, hreach⟩ := (leads_iff hnames (himplemented f hf)).mp hleads
  have hg : g ∈ fs := by
    clear hleads hs
    induction hreach with
    | refl => exact hf
    | tail _ hrefers ih => exact hclosed _ ih _ hrefers.1 hrefers
  rcases (mem_helperText hnames (himplemented g hg)).mp hs with hs | ⟨-, v, hv, -, rfl⟩
  · simp [hspans g hg s hs] at hs'
  · have hcurrent := Contract.findVariable?_eq_some_iff.mpr ⟨rfl, hv⟩
    obtain ⟨before, after, hvars, -⟩ := hv
    simp [hvalues v (by simp [hvars]) hcurrent] at hs'

/-- The recursion that gathers a digest ends, and a binding is found in its text exactly if it is found in a
hashed text of a function that the digest refers to, itself included, or in the initial value of the state
variable that is the last of a name which such a text mentions. -/
theorem digestText_found_iff {c : Contract} (hnames : (c.functions.map (·.name)).Nodup) {f : Function}
    (hf : f ∈ c.implemented) :
    (∃ g, Gathers c (digestNames f) [f.name] g ∧
      digestText c f = String.intercalate " " (spans f ++ g.parts)) ∧
    ∀ b ∈ bindings, b.2.foundIn (digestText c f) = true ↔
      ∃ g, Relation.ReflTransGen (Refers c) f g ∧ ∃ s ∈ spans g, b.2.foundIn s = true ∨
        ∃ v, c.IsCurrent v ∧ Mentions s v.name ∧ b.2.foundIn v.initialValue = true := by
  refine ⟨exists_gathers c f, fun b hb => ?_⟩
  have hself : c.helper? f.name = some f := (Contract.helper?_eq_some_iff hnames).mpr ⟨hf, rfl⟩
  simp only [found_digestText_iff hself (bindings_avoid_blank b hb), leads_iff hnames hf]
  constructor
  · rintro ⟨_, ⟨g, rfl, hreach⟩, s, hs, hs'⟩
    obtain hs | ⟨-, v, hv, ⟨t, ht, hmentions⟩, rfl⟩ :=
      (mem_helperText hnames (mem_implemented_of_reach hf hreach)).mp hs
    · exact ⟨g, hreach, s, hs, .inl hs'⟩
    · exact ⟨g, hreach, t, ht, .inr ⟨v, hv, hmentions, hs'⟩⟩
  · rintro ⟨g, hreach, s, hs, h⟩
    have hmem := @mem_helperText c g hnames (mem_implemented_of_reach hf hreach)
    rcases h with h | ⟨v, hv, hmentions, h⟩
    · exact ⟨g.name, ⟨g, rfl, hreach⟩, s, hmem.mpr (.inl hs), h⟩
    · have hne : v.initialValue ≠ "" := fun he => by simp [he, bindings_not_found_empty b hb] at h
      have hpart := hmem.mpr (.inr ⟨hne, v, hv, ⟨s, hs, hmentions⟩, rfl⟩)
      exact ⟨g.name, ⟨g, rfl, hreach⟩, v.initialValue, hpart, h⟩

/-- A relay whose digest is built by two helpers that name each other. -/
def ringRelay : SourceUnit where
  name := "Relay.sol"
  path := ""
  text := "contract Relay \x7b bytes32 TYPE = keccak256(\"Order(uint deadline)\"); " ++
    "function execute(bytes memory s) external \x7b bytes32 h = keccak256(order(s)); \x7d " ++
    "function order(bytes memory s) internal \x7b return keccak256(TYPE, rest(s)); \x7d " ++
    "function rest(bytes memory s) internal \x7b return keccak256(nonce, order(s)); \x7d \x7d"

set_option maxRecDepth 4000 in
/-- The nonce is found in the digest of the entry point, which comes to it through both helpers. -/
theorem digestText_found_iff_ringRelay :
    ∃ c ∈ ringRelay.declared, (c.functions.map (·.name)).Nodup ∧
      ∃ f ∈ c.implemented, ∃ nonce ∈ bindings, (∀ s ∈ spans f, nonce.2.foundIn s = false) ∧
        (∃ g, Gathers c (digestNames f) [f.name] g ∧
          digestText c f = String.intercalate " " (spans f ++ g.parts)) ∧
        nonce.2.foundIn (digestText c f) = true := by
  obtain ⟨c, hc, hnames, f, hf, g, -, h, -, hfg, hgh, -, nonce, hnonce, hown, s, hs, hfound⟩ :
      ∃ c ∈ ringRelay.declared, (c.functions.map (·.name)).Nodup ∧
        ∃ f ∈ c.implemented, ∃ g ∈ c.implemented, ∃ h ∈ c.implemented,
          Refers c f g ∧ Refers c g h ∧ Refers c h g ∧
          ∃ nonce ∈ bindings, (∀ s ∈ spans f, nonce.2.foundIn s = false) ∧
            ∃ s ∈ spans h, nonce.2.foundIn s = true := by
    have hs : ringRelay.text = String.ofList _ :=
      append_eq_ofList (append_eq_ofList (append_eq_ofList rfl rfl) rfl) rfl
    rw [SourceUnit.declared, SourceUnit.contracts, tokenize, hs, String.toList_ofList]
    decide +kernel
  obtain ⟨hends, hiff⟩ := digestText_found_iff hnames hf
  have hreach : Relation.ReflTransGen (Refers c) f h := .tail (.single hfg) hgh
  have hdigest := (hiff nonce hnonce).mpr ⟨h, hreach, s, hs, .inl hfound⟩
  exact ⟨c, hc, hnames, f, hf, nonce, hnonce, hown, hends, hdigest⟩

/-- A relay that declares its type twice. -/
def twiceTypedRelay : SourceUnit where
  name := "Relay.sol"
  path := ""
  text := "contract Relay \x7b address owner; bytes32 constant TYPE = keccak256(\"nonce\"); " ++
    "bytes32 constant TYPE = 0; function execute(bytes memory s) external \x7b " ++
    "bytes32 h = keccak256(abi.encode(TYPE, chainid, deadline)); " ++
    "require(ECDSA.recover(h, s) == owner); \x7d \x7d"

set_option maxRecDepth 4000 in
/-- Only the last variable of a name counts: the nonce stands in the initial value of a variable whose name is
hashed, and is not found in the digest. -/
theorem digestText_passes_over_twiceTypedRelay :
    ∃ c ∈ twiceTypedRelay.declared, (c.functions.map (·.name)).Nodup ∧
      ∃ f ∈ c.implemented, ∃ nonce ∈ bindings, nonce.2.foundIn (digestText c f) = false ∧
        ∃ s ∈ spans f, ∃ v ∈ c.stateVariables, Mentions s v.name ∧
          nonce.2.foundIn v.initialValue = true := by
  obtain ⟨c, hc, hnames, f, hf, nonce, hnonce, hlacks, hpassed⟩ :
      ∃ c ∈ twiceTypedRelay.declared, (c.functions.map (·.name)).Nodup ∧
        ∃ f ∈ c.implemented, ∃ nonce ∈ bindings, Lacks c nonce.2 [f] ∧
          ∃ s ∈ spans f, ∃ v ∈ c.stateVariables, Mentions s v.name ∧
            nonce.2.foundIn v.initialValue = true := by
    have hs : twiceTypedRelay.text = String.ofList _ :=
      append_eq_ofList (append_eq_ofList (append_eq_ofList rfl rfl) rfl) rfl
    rw [SourceUnit.declared, SourceUnit.contracts, tokenize, hs, String.toList_ofList]
    decide +kernel
  have hfound := hlacks.found_eq_false hnames (bindings_avoid_blank nonce hnonce) (List.mem_singleton_self f)
  exact ⟨c, hc, hnames, f, hf, nonce, hnonce, hfound, hpassed⟩

end Signature

end ContractAudit
