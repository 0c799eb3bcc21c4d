import ContractAudit.Proofs.DepthFirst
import Mathlib.Data.List.Nodup

/-!
# Where a node stands in a depth-first forest

`t.Stands above before x children`: in the forest `t` the node `x` stands under the nodes `above`, nearest first,
behind the nodes `before`, and has the forest `children` under it. When the search entered `x` it had seen exactly
the nodes `before`, so under `x` stand exactly the nodes that `x` leads to without them.
-/

namespace ContractAudit

variable {α : Type}

namespace Forest

inductive Stands : Forest α → (above before : List α) → α → (children : Forest α) → Prop where
  | here {x : α} {children rest : Forest α} : Stands (node x children rest) [] [] x children
  | under {x y : α} {children rest ys : Forest α} {above before : List α}
      (h : Stands children above before y ys) :
      Stands (node x children rest) (above ++ [x]) (x :: before) y ys
  | behind {x y : α} {children rest ys : Forest α} {above before : List α}
      (h : Stands rest above before y ys) :
      Stands (node x children rest) above (x :: (children.nodes ++ before)) y ys

variable {t c d : Forest α} {x y w : α} {above above' before before' : List α}

theorem exists_stands (h : x ∈ t.nodes) : ∃ above before c, t.Stands above before x c := by
  induction t with
  | nil => cases h
  | node y children rest ih ih' =>
    simp only [nodes, List.mem_cons, List.mem_append] at h
    rcases h with rfl | h | h
    · exact ⟨_, _, _, .here⟩
    · obtain ⟨above, before, c, hs⟩ := ih h
      exact ⟨_, _, c, .under hs⟩
    · obtain ⟨above, before, c, hs⟩ := ih' h
      exact ⟨_, _, c, .behind hs⟩

namespace Stands

theorem exists_nodes_eq (h : t.Stands above before x c) :
    ∃ after, t.nodes = before ++ x :: (c.nodes ++ after) := by
  induction h with
  | @here x children rest => exact ⟨rest.nodes, rfl⟩
  | @under z y children rest ys above before _ ih =>
    obtain ⟨after, ih⟩ := ih
    exact ⟨after ++ rest.nodes, by simp [nodes, ih]⟩
  | behind _ ih =>
    obtain ⟨after, ih⟩ := ih
    exact ⟨after, by simp [nodes, ih]⟩

theorem mem_nodes (h : t.Stands above before x c) : x ∈ t.nodes := by
  obtain ⟨after, he⟩ := h.exists_nodes_eq
  simp [he]

theorem trans (h : t.Stands above before x c) (h' : c.Stands above' before' y d) :
    t.Stands (above' ++ x :: above) (before ++ x :: before') y d := by
  induction h with
  | here => exact .under h'
  | under _ ih => simpa using Stands.under (ih h')
  | behind _ ih => simpa using Stands.behind (ih h')

/-- Every node above another stands in the forest, and the other stands under it. -/
theorem exists_of_above (h : t.Stands (above' ++ w :: above) before x c) :
    ∃ b b' d, t.Stands above b w d ∧ d.Stands above' b' x c := by
  generalize ha : above' ++ w :: above = a at h
  induction h generalizing above with
  | here => simp at ha
  | @under z y children rest ys a' before h ih =>
    -- The node is the root of the tree or stands above the other within the tree.
    rcases List.eq_nil_or_concat' above with rfl | ⟨above, z', rfl⟩
    · obtain ⟨rfl, hw⟩ := List.append_inj' ha rfl
      obtain rfl := List.singleton_inj.mp hw
      exact ⟨_, _, _, .here, h⟩
    · rw [← List.cons_append, ← List.append_assoc] at ha
      obtain ⟨rfl, hz⟩ := List.append_inj' ha rfl
      obtain rfl := List.singleton_inj.mp hz
      obtain ⟨b, b', d, hw, hx⟩ := ih rfl
      exact ⟨_, b', d, .under hw, hx⟩
  | behind _ ih =>
    obtain ⟨b, b', d, hw, hx⟩ := ih ha
    exact ⟨_, b', d, .behind hw, hx⟩

theorem exists_of_cons (h : t.Stands (w :: above) before x c) :
    ∃ b b' d, t.Stands above b w d ∧ d.Stands [] b' x c :=
  exists_of_above (show t.Stands ([] ++ w :: above) before x c from h)

/-- What stands at or under a node has the node at or above it. -/
theorem exists_under (h : t.Stands above before x c) (hy : y ∈ x :: c.nodes) :
    ∃ p above' before' d, t.Stands above' before' y d ∧ y :: above' = p ++ x :: above := by
  rcases List.mem_cons.mp hy with rfl | hy
  · exact ⟨[], above, before, c, h, rfl⟩
  · obtain ⟨a, b, d, hs⟩ := exists_stands hy
    exact ⟨y :: a, _, _, d, h.trans hs, rfl⟩

theorem exists_over {p : List α} (h : t.Stands above' before' y d) (he : y :: above' = p ++ x :: above) :
    ∃ before c, t.Stands above before x c ∧ y ∈ x :: c.nodes := by
  cases p with
  | nil =>
    cases he
    exact ⟨before', d, h, List.mem_cons_self⟩
  | cons z p =>
    obtain ⟨rfl, rfl⟩ := List.cons_eq_cons.mp he
    obtain ⟨b, b', c, hx, hy⟩ := h.exists_of_above
    exact ⟨b, c, hx, List.mem_cons_of_mem _ hy.mem_nodes⟩

theorem takeWhile_nodes [DecidableEq α] (h : t.Stands above before x c) (hn : t.nodes.Nodup) :
    t.nodes.takeWhile (· != x) = before := by
  obtain ⟨after, he⟩ := h.exists_nodes_eq
  have hx : x ∉ before := by
    rw [he] at hn
    exact fun hmem => List.disjoint_of_nodup_append hn hmem List.mem_cons_self
  rw [he, List.takeWhile_append_of_pos]
  · simp
  · intro y hy
    have hne : y ≠ x := fun heq => hx (heq ▸ hy)
    simp [hne]

end Stands

end Forest

namespace DepthFirst

variable {next : α → List α} {xs seen above before : List α} {t c : Forest α} {x y : α}

/-- No node is entered twice, and none that was seen. -/
theorem nodup_nodes (h : DepthFirst next xs seen t) : t.nodes.Nodup ∧ ∀ x ∈ t.nodes, x ∉ seen := by
  induction h with
  | nil => exact ⟨List.nodup_nil, fun _ hx => by cases hx⟩
  | skip _ _ ih => exact ih
  | enter hx _ _ ih ih' =>
    obtain ⟨hn, hd⟩ := ih
    obtain ⟨hn', hd'⟩ := ih'
    simp only [Forest.nodes, List.nodup_cons, List.nodup_append, List.mem_cons, List.mem_append,
      List.mem_reverse, not_or] at hd hd' ⊢
    refine ⟨⟨⟨fun hmem => (hd _ hmem).1 rfl, fun hmem => (hd' _ hmem).2.1 rfl⟩, hn, hn',
      fun a ha b hb hab => (hd' b hb).1 (hab ▸ ha)⟩, ?_⟩
    rintro y (rfl | hy | hy)
    · exact hx
    · exact (hd y hy).2
    · exact (hd' y hy).2.2

/-- Each node was entered with the nodes before it seen, and what stands under it is its own search. -/
theorem stands (h : DepthFirst next xs seen t) (hs : t.Stands above before x c) :
    x ∉ before.reverse ++ seen ∧ DepthFirst next (next x) (x :: (before.reverse ++ seen)) c := by
  induction h generalizing above before with
  | nil => cases hs
  | skip _ _ ih => exact ih hs
  | enter hx inner _ ih ih' =>
    cases hs with
    | here => exact ⟨hx, inner⟩
    | under hs => simpa using ih hs
    | behind hs => simpa using ih' hs

theorem mem_of_stands (h : DepthFirst next xs seen t) (hs : t.Stands [] before x c) : x ∈ xs := by
  generalize ha : ([] : List α) = above at hs
  induction h generalizing before with
  | nil => cases hs
  | skip _ _ ih => exact List.mem_cons_of_mem _ (ih hs)
  | enter _ _ _ _ ih' =>
    cases hs with
    | here => exact List.mem_cons_self
    | under => simp at ha
    | behind hs => exact List.mem_cons_of_mem _ (ih' hs)

/-- A node that stands right under another is one that the other leads to. -/
theorem mem_next_of_stands (h : DepthFirst next xs seen t) (hs : t.Stands (y :: above) before x c) :
    x ∈ next y := by
  obtain ⟨b, b', d, hy, hx⟩ := hs.exists_of_cons
  exact (h.stands hy).2.mem_of_stands hx

/-- The nodes above another are a way to it. -/
theorem isChain_of_stands (h : DepthFirst next xs seen t) (hs : t.Stands above before x c) :
    (x :: above).IsChain fun a b => a ∈ next b := by
  induction above generalizing before x c with
  | nil => exact .singleton x
  | cons y above ih =>
    obtain ⟨b, b', d, hy, -⟩ := hs.exists_of_cons
    exact .cons_cons (h.mem_next_of_stands hs) (ih hy)

/-- No node stands above itself, and those above it are different. -/
theorem nodup_of_stands (h : DepthFirst next xs seen t) (hs : t.Stands above before x c) :
    (x :: above).Nodup := by
  induction above generalizing before x c with
  | nil => exact List.nodup_singleton x
  | cons y above ih =>
    obtain ⟨b, b', d, hy, -⟩ := hs.exists_of_cons
    refine List.nodup_cons.mpr ⟨fun hmem => ?_, ih hy⟩
    obtain ⟨above₁, above₂, he⟩ := List.append_of_mem hmem
    rw [he] at hs
    obtain ⟨b₁, b₂, d', hx, hx'⟩ := hs.exists_of_above
    exact (h.stands hx).2.nodup_nodes.2 x hx'.mem_nodes List.mem_cons_self

end DepthFirst

end ContractAudit
