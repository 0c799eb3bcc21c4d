import ContractAudit.Proofs.DepthFirst.Standing
import Mathlib.Data.List.TakeWhile

/-!
# Ways back in a depth-first forest

A node leads back if it leads to a node that it stands under. The nodes between the two are on a cycle then, but
not every node on a cycle is met in this way. `LeadsLater next order x y` is a way from `x` to `y` without the nodes
before `x`. A node `x` stands on a way back exactly if there are such ways from some `w` to `x` and from `x` to some
`y`, and `y` leads to `w`. So every cycle has a node that stands on a way back, and if no node is entered by two
cycles from different sides, every node of a cycle does.
-/

namespace ContractAudit

variable {α : Type}

/-- A way from `x` on which no node comes before `x` in the given order. -/
def LeadsLater [DecidableEq α] (next : α → List α) (order : List α) (x : α) : α → Prop :=
  Relation.ReflTransGen (fun a b => b ∈ next a ∧ b ∉ order.takeWhile (· != x)) x

section Order

variable [DecidableEq α] {next : α → List α} {order : List α} {x y z : α}

theorem LeadsLater.not_mem (h : LeadsLater next order x y) : y ∉ order.takeWhile (· != x) := by
  cases h with
  | refl =>
    intro hmem
    have := List.mem_takeWhile_imp hmem
    simp at this
  | tail _ hy => exact hy.2

theorem LeadsLater.leads (h : LeadsLater next order x y) : Leads next x y := by
  induction h with
  | refl => exact .refl
  | tail _ hz ih => exact ih.tail hz.1

/-- What comes before a node comes before all nodes behind it. -/
theorem mem_takeWhile_trans (hy : y ∈ order.takeWhile (· != x)) (hz : z ∈ order.takeWhile (· != y)) :
    z ∈ order.takeWhile (· != x) := by
  induction order with
  | nil => cases hz
  | cons a order ih =>
    simp only [List.takeWhile_cons, bne_iff_ne, ne_eq] at hy hz ⊢
    by_cases hax : a = x
    · simp [hax] at hy
    · by_cases hay : a = y
      · simp [hay] at hz
      · simp only [hax, hay, not_false_eq_true, ↓reduceIte, List.mem_cons] at hy hz ⊢
        rcases hz with rfl | hz
        · exact .inl rfl
        · exact .inr (ih (hy.resolve_left (Ne.symm hay)) hz)

/-- Of the nodes with a property one comes first. -/
theorem exists_first_of_mem {p : α → Prop} (h : ∃ x ∈ order, p x) :
    ∃ w ∈ order, p w ∧ ∀ y ∈ order.takeWhile (· != w), ¬ p y := by
  induction order with
  | nil => obtain ⟨x, hx, -⟩ := h; cases hx
  | cons a order ih =>
    by_cases ha : p a
    · exact ⟨a, List.mem_cons_self, ha, by simp⟩
    · obtain ⟨x, hx, hp⟩ := h
      have hx' : x ∈ order := (List.mem_cons.mp hx).resolve_left fun he => ha (he ▸ hp)
      obtain ⟨w, hw, hpw, hfirst⟩ := ih ⟨x, hx', hp⟩
      have hne : a ≠ w := fun he => ha (he ▸ hpw)
      refine ⟨w, List.mem_cons_of_mem _ hw, hpw, fun y hy => ?_⟩
      rw [List.takeWhile_cons_of_pos (by simpa using hne)] at hy
      rcases List.mem_cons.mp hy with rfl | hy
      · exact ha
      · exact hfirst y hy

end Order

namespace DepthFirst

variable [DecidableEq α] {next : α → List α} {xs above before p q : List α} {t c : Forest α} {w x y : α}

theorem leadsLater_iff (h : DepthFirst next xs [] t) (hs : t.Stands above before x c) :
    LeadsLater next t.nodes x y ↔ y ∈ x :: c.nodes := by
  have hc := (h.stands hs).2
  rw [hc.mem_iff_leads_avoiding, LeadsLater, hs.takeWhile_nodes h.nodup_nodes.1]
  simp

/-- A node under another was entered from one that the other leads to as well. -/
theorem exists_parent (h : DepthFirst next xs [] t) (hw : w ∈ t.nodes) (hx : LeadsLater next t.nodes w x)
    (hne : x ≠ w) :
    ∃ y, LeadsLater next t.nodes w y ∧ x ∈ next y ∧ y ∈ t.nodes.takeWhile (· != x) := by
  obtain ⟨a, b, c, hs⟩ := Forest.exists_stands hw
  obtain ⟨p, above, before, d, hx, he⟩ := hs.exists_under ((h.leadsLater_iff hs).mp hx)
  cases p with
  | nil => exact absurd (List.cons_eq_cons.mp he).1 hne
  | cons z p =>
    rw [List.cons_append, List.cons_eq_cons] at he
    obtain ⟨rfl, rfl⟩ := he
    obtain ⟨y, above, he⟩ : ∃ y above, p ++ w :: a = y :: above := by
      cases p with
      | nil => exact ⟨w, a, rfl⟩
      | cons y p => exact ⟨y, p ++ w :: a, rfl⟩
    rw [he] at hx
    obtain ⟨b', b'', d', hy, hx'⟩ := hx.exists_of_cons
    obtain ⟨b₁, c₁, hs', hmem⟩ := hy.exists_over he.symm
    refine ⟨y, (h.leadsLater_iff hs').mpr hmem, h.mem_next_of_stands hx, ?_⟩
    rw [(hy.trans hx').takeWhile_nodes h.nodup_nodes.1]
    simp

end DepthFirst

/-- The nodes `p`, lowest first, stand under the node `w` one above the other, and the lowest of all leads back
to `w`. -/
def Forest.Returns (next : α → List α) (t : Forest α) (p : List α) (w : α) : Prop :=
  ∃ y above before c q, t.Stands above before y c ∧ w ∈ next y ∧ y :: above = p ++ w :: q

namespace DepthFirst

variable [DecidableEq α] {next : α → List α} {xs above before p q : List α} {t c : Forest α} {w x y : α}

/-- The nodes on the ways back are those under a node that leads to them and above one that leads back. -/
theorem exists_returns_iff (h : DepthFirst next xs [] t) (ht : ∀ y w, w ∈ next y → w ∈ t.nodes) :
    (∃ p w, t.Returns next p w ∧ x ∈ p ++ [w]) ↔
      ∃ w y, LeadsLater next t.nodes w x ∧ LeadsLater next t.nodes x y ∧ w ∈ next y := by
  constructor
  · rintro ⟨p, w, ⟨y, above, before, c, q, hy, hw, he⟩, hx⟩
    obtain ⟨p₁, p₂, hp⟩ := List.append_of_mem hx
    have hx : y :: above = p₁ ++ x :: (p₂ ++ q) := by
      rw [he, ← List.singleton_append, ← List.append_assoc, hp, List.append_assoc, List.cons_append]
    obtain ⟨b, d, hs, hmem⟩ := hy.exists_over hx
    refine ⟨w, y, ?_, (h.leadsLater_iff hs).mpr hmem, hw⟩
    -- `w` is `x` itself or the last of the nodes above it that are on the way.
    obtain ⟨p₃, he'⟩ : ∃ p₃, x :: (p₂ ++ q) = p₃ ++ w :: q := by
      rcases List.eq_nil_or_concat' p₂ with rfl | ⟨p₂, z, rfl⟩
      · obtain ⟨-, hx⟩ := List.append_inj' hp rfl
        exact ⟨[], by rw [List.singleton_inj.mp hx]; rfl⟩
      · rw [← List.cons_append, ← List.append_assoc] at hp
        obtain ⟨-, hz⟩ := List.append_inj' hp rfl
        exact ⟨x :: p₂, by rw [List.singleton_inj.mp hz]; simp⟩
    obtain ⟨b', d', hw, hmem⟩ := hs.exists_over he'
    exact (h.leadsLater_iff hw).mpr hmem
  · rintro ⟨w, y, hwx, hxy, hw⟩
    obtain ⟨a, b, c, hs⟩ := Forest.exists_stands (ht y w hw)
    obtain ⟨p, above, before, d, hx, he⟩ := hs.exists_under ((h.leadsLater_iff hs).mp hwx)
    obtain ⟨p', above', before', d', hy, he'⟩ := hx.exists_under ((h.leadsLater_iff hx).mp hxy)
    refine ⟨p' ++ p, w, ⟨y, above', before', d', a, hy, hw, ?_⟩, ?_⟩
    · rw [he', he, List.append_assoc]
    · have hmem : x ∈ p ++ [w] := by
        cases p with
        | nil => exact List.mem_singleton.mpr (List.cons_eq_cons.mp he).1
        | cons z p => exact List.mem_cons.mpr (.inl (List.cons_eq_cons.mp he).1)
      rw [List.append_assoc]
      exact List.mem_append_right p' hmem

/-! ## Nodes of a cycle -/

/-- The first node of a cycle that is entered leads to all others without what comes before it. -/
theorem exists_first (ht : ∀ y w, w ∈ next y → w ∈ t.nodes) (hx : Relation.TransGen (fun a b => b ∈ next a) x x) :
    ∃ w ∈ t.nodes, Leads next x w ∧ Leads next w x ∧
      ∀ y, Leads next w y → Leads next y x → LeadsLater next t.nodes w y := by
  have hmem : x ∈ t.nodes := by
    obtain ⟨y, -, hy⟩ := Relation.TransGen.tail'_iff.mp hx
    exact ht y x hy
  obtain ⟨w, hw, ⟨hxw, hwx⟩, hfirst⟩ :=
    exists_first_of_mem (p := fun w => Leads next x w ∧ Leads next w x) ⟨x, hmem, .refl, .refl⟩
  refine ⟨w, hw, hxw, hwx, fun y hwy => ?_⟩
  induction hwy with
  | refl => exact fun _ => .refl
  | @tail y z hwy hz ih =>
    intro hzx
    exact (ih (.head hz hzx)).tail ⟨hz, fun hb => hfirst z hb ⟨hxw.trans (hwy.tail hz), hzx⟩⟩

/-- The last node on the way round from the first one leads back to it. -/
theorem exists_later_return (ht : ∀ y w, w ∈ next y → w ∈ t.nodes)
    (hx : Relation.TransGen (fun a b => b ∈ next a) x x) :
    ∃ w y, Leads next x w ∧ Leads next w x ∧ LeadsLater next t.nodes w y ∧ w ∈ next y := by
  obtain ⟨w, -, hxw, hwx, hfirst⟩ := exists_first ht hx
  obtain ⟨y, hxy, hy⟩ := Relation.TransGen.tail'_iff.mp (hx.trans_left hxw)
  exact ⟨w, y, hxw, hwx, hfirst y (hwx.trans hxy) (.head hy hwx), hy⟩

/-- Where no two cycles enter a node from different sides, every node of a cycle is on a way back. -/
theorem exists_later_of_separate (h : DepthFirst next xs [] t) (ht : ∀ y w, w ∈ next y → w ∈ t.nodes)
    (hsep : ∀ a b z, z ∈ next a → z ∈ next b → Leads next z a → Leads next z b → a = b)
    (hx : Relation.TransGen (fun a b => b ∈ next a) x x) :
    ∃ w y, LeadsLater next t.nodes w x ∧ LeadsLater next t.nodes x y ∧ w ∈ next y := by
  obtain ⟨w, hw, hxw, hwx, hfirst⟩ := exists_first ht hx
  -- Going on from `x`, either nothing that comes before `x` has been met or `w` has been come to.
  have hway (y : α) (hxy : Leads next x y) (hyx : Leads next y x) :
      LeadsLater next t.nodes x y ∨ ∃ u, LeadsLater next t.nodes x u ∧ w ∈ next u := by
    induction hxy with
    | refl => exact .inl .refl
    | @tail y z hxy hz ih =>
      rcases ih (.head hz hyx) with hy | hu
      · by_cases hzw : z = w
        · exact .inr ⟨y, hy, hzw ▸ hz⟩
        · obtain ⟨u, hwu, hu, hbefore⟩ :=
            h.exists_parent hw (hfirst z (hwx.trans (hxy.tail hz)) hyx) hzw
          obtain rfl := hsep u y z hu hz (hyx.trans (hxw.trans hwu.leads)) (hyx.trans hxy)
          exact .inl (hy.tail ⟨hz, fun hb => hy.not_mem (mem_takeWhile_trans hb hbefore)⟩)
      · exact .inr hu
  obtain ⟨v, hxv, hv⟩ := Relation.TransGen.tail'_iff.mp (hx.trans_left hxw)
  rcases hway v hxv (.head hv hwx) with hv' | ⟨u, hu, hw'⟩
  · exact ⟨w, v, hfirst x hwx .refl, hv', hv⟩
  · exact ⟨w, u, hfirst x hwx .refl, hu, hw'⟩

end DepthFirst

end ContractAudit
