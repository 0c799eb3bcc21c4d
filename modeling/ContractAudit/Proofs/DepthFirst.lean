import Mathlib.Logic.Relation

/-!
# Depth-first search

`DepthFirst next xs seen t`: a search that has entered the nodes `seen` and goes on from the nodes `xs`, in this
order, enters the nodes of the forest `t`, in its order. Under each node stand the nodes that were entered from
it. The nodes that were seen are shared by all branches, so what stands under a node depends on the order of the
search; which nodes are entered does not. A node is a leaf if all that it leads to was seen before. In every order
a node that leads nowhere is one, and a node that leads to some node that cannot be come to without it is none.
-/

namespace ContractAudit

/-- Trees in a row: the first with its children, then the rest. -/
inductive Forest (α : Type) where
  | nil
  | node (x : α) (children rest : Forest α)

namespace Forest

variable {α : Type}

/-- All nodes, each before what stands under it. -/
def nodes : Forest α → List α
  | nil => []
  | node x children rest => x :: (children.nodes ++ rest.nodes)

/-- The nodes without children. -/
def leaves : Forest α → List α
  | nil => []
  | node x nil rest => x :: rest.leaves
  | node _ (node y ys zs) rest => (node y ys zs).leaves ++ rest.leaves

theorem leaves_subset_nodes (t : Forest α) : t.leaves ⊆ t.nodes := by
  fun_induction leaves t with
  | case1 => exact List.Subset.refl _
  | case2 x rest ih =>
    rw [nodes, nodes, List.nil_append]
    exact List.cons_subset_cons x ih
  | case3 x y ys zs rest ih ih' =>
    rw [nodes]
    refine List.append_subset.mpr ⟨fun a ha => ?_, fun a ha => ?_⟩
    · exact List.mem_cons_of_mem _ (List.mem_append_left _ (ih ha))
    · exact List.mem_cons_of_mem _ (List.mem_append_right _ (ih' ha))

theorem leaves_eq_nil_iff {t : Forest α} : t.leaves = [] ↔ t = nil := by
  refine ⟨fun h => ?_, fun h => h ▸ rfl⟩
  fun_induction leaves t with
  | case1 => rfl
  | case2 x rest ih => cases h
  | case3 x y ys zs rest ih ih' => cases ih (List.append_eq_nil_iff.mp h).1

theorem leaves_node (x : α) (t rest : Forest α) : (node x t rest).leaves = (node x t nil).leaves ++ rest.leaves := by
  cases t with
  | nil => rfl
  | node y ys zs => simp [leaves]

theorem leaves_node_of_ne_nil (x : α) {t : Forest α} (h : t ≠ nil) : (node x t nil).leaves = t.leaves := by
  cases t with
  | nil => exact absurd rfl h
  | node y ys zs => simp [leaves]

end Forest

variable {α : Type}

/-- A node that was entered before is skipped. Any other is entered, and all that it leads to is searched
before the next node. -/
inductive DepthFirst (next : α → List α) : List α → List α → Forest α → Prop where
  | nil {seen} : DepthFirst next [] seen .nil
  | skip {x xs seen t} (hx : x ∈ seen) (rest : DepthFirst next xs seen t) :
      DepthFirst next (x :: xs) seen t
  | enter {x xs seen t t'} (hx : x ∉ seen) (inner : DepthFirst next (next x) (x :: seen) t)
      (rest : DepthFirst next xs (t.nodes.reverse ++ x :: seen) t') :
      DepthFirst next (x :: xs) seen (.node x t t')

/-- A way from one node to another. -/
abbrev Leads (next : α → List α) : α → α → Prop := Relation.ReflTransGen fun x y => y ∈ next x

namespace DepthFirst

variable {next : α → List α} {xs seen : List α} {t : Forest α} {x y z : α}

/-- Every node that the search starts from has been seen when it ends. -/
theorem covers (h : DepthFirst next xs seen t) (hx : x ∈ xs) : x ∈ seen ∨ x ∈ t.nodes := by
  induction h with
  | nil => cases hx
  | skip hy _ ih =>
    rcases List.mem_cons.mp hx with rfl | hx
    · exact .inl hy
    · exact ih hx
  | enter _ _ _ _ ih =>
    rcases List.mem_cons.mp hx with rfl | hx
    · exact .inr List.mem_cons_self
    · have := ih hx
      simp only [Forest.nodes, List.mem_append, List.mem_reverse, List.mem_cons] at this ⊢
      grind

/-- Whatever a node leads to has been seen as well: a node that was skipped was entered before. -/
theorem closed (h : DepthFirst next xs seen t) (hy : y ∈ t.nodes) (hz : z ∈ next y) :
    z ∈ seen ∨ z ∈ t.nodes := by
  induction h with
  | nil => cases hy
  | skip _ _ ih => exact ih hy
  | enter _ inner _ ih ih' =>
    simp only [Forest.nodes, List.mem_append, List.mem_cons] at hy ⊢
    rcases hy with rfl | hy | hy
    · have := inner.covers hz
      simp only [List.mem_cons] at this
      grind
    · have := ih hy
      simp only [List.mem_cons] at this
      grind
    · have := ih' hy
      simp only [List.mem_append, List.mem_reverse, List.mem_cons] at this
      grind

theorem leads_avoiding {p : α} {avoided : List α} (h : DepthFirst next xs seen t) (hxs : xs ⊆ next p)
    (ha : avoided ⊆ seen) (hy : y ∈ t.nodes) :
    Relation.ReflTransGen (fun a b => b ∈ next a ∧ b ∉ avoided) p y := by
  induction h generalizing p with
  | nil => cases hy
  | skip _ _ ih => exact ih (List.cons_subset.mp hxs).2 ha hy
  | enter hnew _ _ ih ih' =>
    obtain ⟨hx, hxs⟩ := List.cons_subset.mp hxs
    have hx' : _ ∉ avoided := fun hmem => hnew (ha hmem)
    simp only [Forest.nodes, List.mem_append, List.mem_cons] at hy
    rcases hy with rfl | hy | hy
    · exact .single ⟨hx, hx'⟩
    · exact .head ⟨hx, hx'⟩ (ih (List.Subset.refl _) (fun z hz => List.mem_cons_of_mem _ (ha hz)) hy)
    · exact ih' hxs (fun z hz => List.mem_append_right _ (List.mem_cons_of_mem _ (ha hz))) hy

/-- Under a node stand those that it leads to without the nodes seen before it. -/
theorem mem_iff_leads_avoiding (h : DepthFirst next (next x) (x :: seen) t) :
    y ∈ x :: t.nodes ↔ Relation.ReflTransGen (fun a b => b ∈ next a ∧ b ∉ seen) x y := by
  constructor
  · intro hy
    rcases List.mem_cons.mp hy with rfl | hy
    · exact .refl
    · exact h.leads_avoiding (List.Subset.refl _) (List.subset_cons_self _ _) hy
  · intro hy
    induction hy with
    | refl => exact List.mem_cons_self
    | @tail y z _ hz ih =>
      obtain ⟨hz, hnew⟩ := hz
      have hseen : z ∈ x :: seen ∨ z ∈ t.nodes := by
        rcases List.mem_cons.mp ih with rfl | hmem
        · exact h.covers hz
        · exact h.closed hmem hz
      simp only [List.mem_cons, hnew, or_false] at hseen ⊢
      exact hseen

/-- A search from one node enters exactly the nodes that it leads to. -/
theorem mem_iff_leads (h : DepthFirst next (next x) [x] t) : y ∈ x :: t.nodes ↔ Leads next x y := by
  simpa using h.mem_iff_leads_avoiding

theorem mem_nodes_iff_leads (h : DepthFirst next [x] [] t) : y ∈ t.nodes ↔ Leads next x y := by
  cases h with
  | skip hx => cases hx
  | enter _ inner rest =>
    cases rest
    simpa [Forest.nodes] using inner.mem_iff_leads

/-- The first node of the forest is one of those that the search goes on from. -/
theorem mem_of_node {zs rest : Forest α} (h : DepthFirst next xs seen (.node z zs rest)) : z ∈ xs ∧ z ∉ seen := by
  generalize ht : Forest.node z zs rest = t at h
  induction h with
  | nil => cases ht
  | skip _ _ ih => exact ⟨List.mem_cons_of_mem _ (ih ht).1, (ih ht).2⟩
  | enter hx _ _ _ _ =>
    cases ht
    exact ⟨List.mem_cons_self, hx⟩

end DepthFirst

/-! ## Leaves -/

/-- The node leads nowhere but to itself. -/
def IsEnd (next : α → List α) (x : α) : Prop := ∀ y ∈ next x, y = x

instance [DecidableEq α] (next : α → List α) (x : α) : Decidable (IsEnd next x) :=
  inferInstanceAs (Decidable (∀ y ∈ next x, y = x))

/-- From `r` the node leads to another that cannot be come to without it. -/
def IsPassed (next : α → List α) (r x : α) : Prop :=
  ∃ y ∈ next x, y ≠ x ∧ ¬ Relation.ReflTransGen (fun a b => a ≠ x ∧ b ∈ next a) r y

/-- The nodes seen by a search that began at `r`: each is come to through others that were seen. -/
def SeenFrom (next : α → List α) (r : α) (seen : List α) : Prop :=
  ∀ y ∈ seen, Relation.ReflTransGen (fun a b => a ∈ seen ∧ b ∈ next a) r y

/-- The nodes that a search goes on to: where it began, or what a node leads to that was seen. -/
def Awaits (next : α → List α) (r : α) (seen xs : List α) : Prop :=
  ∀ x ∈ xs, x = r ∨ ∃ p ∈ seen, x ∈ next p

section Leaves

variable {next : α → List α} {r x y : α} {xs seen seen' : List α} {t : Forest α}

theorem Awaits.mono (h : Awaits next r seen xs) (hs : seen ⊆ seen') : Awaits next r seen' xs := by
  intro x hx
  obtain rfl | ⟨p, hp, hxp⟩ := h x hx
  · exact .inl rfl
  · exact .inr ⟨p, hs hp, hxp⟩

theorem Awaits.children (next : α → List α) (r x : α) (seen : List α) : Awaits next r (x :: seen) (next x) :=
  fun _ hy => .inr ⟨x, List.mem_cons_self, hy⟩

theorem SeenFrom.cons (h : SeenFrom next r seen) (hx : Awaits next r seen [x]) : SeenFrom next r (x :: seen) := by
  have hmono : ∀ y, Relation.ReflTransGen (fun a b => a ∈ seen ∧ b ∈ next a) r y →
      Relation.ReflTransGen (fun a b => a ∈ x :: seen ∧ b ∈ next a) r y :=
    fun y hy => hy.lift id fun a b hab => ⟨List.mem_cons_of_mem _ hab.1, hab.2⟩
  refine List.forall_mem_cons.mpr ⟨?_, fun y hy => hmono y (h y hy)⟩
  obtain rfl | ⟨p, hp, hxp⟩ := hx x (List.mem_singleton_self x)
  · exact .refl
  · exact (hmono p (h p hp)).tail ⟨List.mem_cons_of_mem _ hp, hxp⟩

namespace DepthFirst

theorem seenFrom (h : DepthFirst next xs seen t) (hs : SeenFrom next r seen) (hxs : Awaits next r seen xs) :
    SeenFrom next r (t.nodes.reverse ++ seen) := by
  induction h with
  | nil => exact hs
  | skip _ _ ih => exact ih hs (List.forall_mem_cons.mp hxs).2
  | @enter x _ seen t t' _ _ _ ih ih' =>
    obtain ⟨hx, hxs⟩ := List.forall_mem_cons.mp hxs
    have hinner := ih (hs.cons (List.forall_mem_singleton.mpr hx)) (.children next r x seen)
    have hrest := ih' hinner (Awaits.mono hxs fun y hy => by simp [hy])
    simpa [Forest.nodes] using hrest

/-- A node that leads nowhere else is a leaf. -/
theorem mem_leaves (h : DepthFirst next xs seen t) (hy : y ∈ t.nodes) (hend : IsEnd next y) : y ∈ t.leaves := by
  induction h with
  | nil => cases hy
  | skip _ _ ih => exact ih hy
  | @enter x _ _ t _ _ inner _ ih ih' =>
    simp only [Forest.nodes, List.mem_append, List.mem_cons] at hy
    cases t with
    | nil =>
      rw [Forest.leaves, List.mem_cons]
      simp only [Forest.nodes, List.not_mem_nil, false_or] at hy
      exact hy.imp_right ih'
    | node z zs rest =>
      rw [Forest.leaves, List.mem_append]
      rcases hy with rfl | hy | hy
      · -- What was entered below the node is another node that it leads to.
        obtain ⟨hz, hnew⟩ := inner.mem_of_node
        exact absurd (hend z hz ▸ List.mem_cons_self) hnew
      · exact .inl (ih hy)
      · exact .inr (ih' hy)

/-- A leaf is not passed: whatever it leads to was seen before it was entered, so can be come to without it. -/
theorem not_isPassed (h : DepthFirst next xs seen t) (hs : SeenFrom next r seen) (hxs : Awaits next r seen xs)
    (hy : y ∈ t.leaves) : ¬ IsPassed next r y := by
  induction h with
  | nil => cases hy
  | skip _ _ ih => exact ih hs (List.forall_mem_cons.mp hxs).2 hy
  | @enter x _ seen t t' hnew inner _ ih ih' =>
    obtain ⟨hx, hxs⟩ := List.forall_mem_cons.mp hxs
    have hcons := hs.cons (List.forall_mem_singleton.mpr hx)
    have hinner := inner.seenFrom hcons (.children next r x seen)
    have hrest := ih' hinner (Awaits.mono hxs fun y hy => by simp [hy])
    cases t with
    | nil =>
      rcases List.mem_cons.mp hy with rfl | hy
      · rintro ⟨z, hz, hne, hz'⟩
        have hmem := (inner.covers hz).resolve_right List.not_mem_nil
        have hway := hs z ((List.mem_cons.mp hmem).resolve_left hne)
        exact hz' (hway.lift id fun a b hab => ⟨fun ha => hnew (ha ▸ hab.1), hab.2⟩)
      · exact hrest hy
    | node z zs rest =>
      rcases List.mem_append.mp hy with hy | hy
      · exact ih hcons (.children next r x seen) hy
      · exact hrest hy

end DepthFirst

end Leaves

end ContractAudit
