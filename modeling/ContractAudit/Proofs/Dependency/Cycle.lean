import ContractAudit.Dependency.Cycle
import ContractAudit.Proofs.DepthFirst.Return
import ContractAudit.Proofs.Parts
import Mathlib.Data.List.Cycle

/-!
# Cycles of dependency edges

The search for cycles goes on from a path of contracts. Without its bound on the depth it is the relation
`Searches`; where the edges lie between the given contracts the bound is never met, since the contracts of a path
are different. What the search enters is a depth-first forest, and the cycles that it reports are the ways back in
this forest, each written from its smallest member. So every cycle that is reported is one, and one is reported
if there is any.
-/

namespace ContractAudit.Dependency

variable {edges : List DependencyEdge} {names : List String}

/-- Some edge leads from the first contract to the second. -/
def Linked (edges : List DependencyEdge) (a b : String) : Prop :=
  ∃ e ∈ edges, e.source = a ∧ e.target = b

instance (edges : List DependencyEdge) (a b : String) : Decidable (Linked edges a b) :=
  inferInstanceAs (Decidable (∃ e ∈ edges, e.source = a ∧ e.target = b))

theorem mem_successors {a b : String} : b ∈ successors edges a ↔ Linked edges a b := by
  simp [successors, Linked, and_assoc]

theorem linked_eq (edges : List DependencyEdge) : Linked edges = fun a b => b ∈ successors edges a := by
  funext a b
  exact propext mem_successors.symm

/-- The edges lie between the given contracts. -/
def Within (edges : List DependencyEdge) (names : List String) : Prop :=
  ∀ e ∈ edges, e.source ∈ names ∧ e.target ∈ names

instance (edges : List DependencyEdge) (names : List String) : Decidable (Within edges names) :=
  inferInstanceAs (Decidable (∀ e ∈ edges, e.source ∈ names ∧ e.target ∈ names))

theorem Within.successors_subset (h : Within edges names) (n : String) : successors edges n ⊆ names := by
  intro m hm
  obtain ⟨e, he, -, rfl⟩ := mem_successors.mp hm
  exact (h e he).2

/-! ## The search without its bound -/

/-- The cycle that an edge to a contract of the path closes; the path has its last contract first. -/
def closed (path : List String) (n : String) : List String := rotate (path.reverse.dropWhile (· != n))

/-- `Searches edges path todo s s'`: a search that has come along `path` goes on to the contracts `todo`, in this
order, and comes from the state `s` to `s'`. A contract of the path closes a cycle, another one that was entered
is passed over, and any other is entered. -/
inductive Searches (edges : List DependencyEdge) :
    (path todo : List String) → Search → Search → Prop where
  | done {path : List String} {s : Search} : Searches edges path [] s s
  | back {n : String} {path todo : List String} {s s' : Search} (hn : n ∈ path)
      (rest : Searches edges path todo { s with cycles := closed path n :: s.cycles } s') :
      Searches edges path (n :: todo) s s'
  | pass {n : String} {path todo : List String} {s s' : Search} (hn : n ∉ path) (hv : n ∈ s.visited)
      (rest : Searches edges path todo s s') : Searches edges path (n :: todo) s s'
  | enter {n : String} {path todo : List String} {s t s' : Search} (hn : n ∉ path) (hv : n ∉ s.visited)
      (inner : Searches edges (n :: path) (successors edges n) { s with visited := n :: s.visited } t)
      (rest : Searches edges path todo t s') : Searches edges path (n :: todo) s s'

theorem searches_followEdges {enter : String → List String → Search → Search} {path todo : List String}
    (h : ∀ n ∈ todo, n ∉ path → ∀ s,
      Searches edges (n :: path) (successors edges n) { s with visited := n :: s.visited } (enter n path s))
    (s : Search) : Searches edges path todo s (followEdges enter path todo s) := by
  induction todo generalizing s with
  | nil => exact .done
  | cons n todo ih =>
    obtain ⟨hn, htodo⟩ := List.forall_mem_cons.mp h
    simp only [followEdges, List.contains_iff_mem]
    by_cases hp : n ∈ path
    · rw [if_pos hp]
      exact .back hp (ih htodo _)
    · rw [if_neg hp]
      by_cases hv : n ∈ s.visited
      · rw [if_pos hv]
        exact .pass hp hv (ih htodo s)
      · rw [if_neg hv]
        exact .enter hp hv (hn hp s) (ih htodo _)

/-- A path of different contracts leaves as much depth as there are contracts off the path. -/
theorem searches_enter (hw : Within edges names) {depth : Nat} {n : String} {path : List String}
    (hpath : (n :: path).Nodup) (hsub : n :: path ⊆ names) (hdepth : names.length ≤ depth + path.length)
    (s : Search) :
    Searches edges (n :: path) (successors edges n) { s with visited := n :: s.visited }
      (enter edges depth n path s) := by
  induction depth generalizing n path s with
  | zero =>
    have hlen := (List.subperm_of_subset hpath hsub).length_le
    rw [List.length_cons] at hlen
    omega
  | succ depth ih =>
    refine searches_followEdges (fun m hm hnew s => ?_) _
    refine ih (List.nodup_cons.mpr ⟨hnew, hpath⟩) ?_ ?_ s
    · exact List.cons_subset.mpr ⟨hw.successors_subset n hm, hsub⟩
    · rw [List.length_cons]
      omega

theorem search_eq (edges : List DependencyEdge) (names : List String) :
    search edges names =
      followEdges (enter edges names.length) [] (Text.sort names) ⟨[], []⟩ := by
  have hfold (ns : List String) (s : Search) :
      ns.foldl (fun s n => if s.visited.contains n then s else enter edges names.length n [] s) s =
        followEdges (enter edges names.length) [] ns s := by
    induction ns generalizing s with
    | nil => rfl
    | cons n ns ih => rw [List.foldl_cons, ih]; rfl
  exact hfold _ _

theorem mem_sort {ns : List String} {n : String} : n ∈ Text.sort ns ↔ n ∈ ns := List.mem_mergeSort

/-- The search ends before its bound. -/
theorem searches_search (hw : Within edges names) :
    Searches edges [] (Text.sort names) ⟨[], []⟩ (search edges names) := by
  rw [search_eq]
  refine searches_followEdges (fun n hn _ s => searches_enter hw (List.nodup_singleton n) ?_ ?_ s) _
  · exact List.cons_subset.mpr ⟨mem_sort.mp hn, List.nil_subset _⟩
  · exact Nat.le_add_right _ _

/-! ## The forest of the search -/

/-- The cycles that are closed below `path` by the contracts of a forest. -/
def Reports (edges : List DependencyEdge) (path : List String) (t : Forest String) (c : List String) : Prop :=
  ∃ n above before children m, t.Stands above before n children ∧ m ∈ successors edges n ∧
    m ∈ n :: (above ++ path) ∧ c = closed (n :: (above ++ path)) m

theorem not_reports_nil {path c : List String} : ¬ Reports edges path .nil c := by
  rintro ⟨n, above, before, children, m, hs, -⟩
  cases hs

theorem reports_node {path c : List String} {n : String} {t t' : Forest String} :
    Reports edges path (.node n t t') c ↔
      (∃ m ∈ successors edges n, m ∈ n :: path ∧ c = closed (n :: path) m) ∨
        Reports edges (n :: path) t c ∨ Reports edges path t' c := by
  constructor
  · rintro ⟨k, above, before, children, m, hs, hm, hmem, hc⟩
    cases hs with
    | here => exact .inl ⟨m, hm, hmem, hc⟩
    | under hs => exact .inr (.inl ⟨k, _, _, _, m, hs, hm, by simpa using hmem, by simpa using hc⟩)
    | behind hs => exact .inr (.inr ⟨k, _, _, _, m, hs, hm, hmem, hc⟩)
  · rintro (⟨m, hm, hmem, hc⟩ | ⟨k, above, before, children, m, hs, hm, hmem, hc⟩ |
      ⟨k, above, before, children, m, hs, hm, hmem, hc⟩)
    · exact ⟨n, _, _, _, m, .here, hm, hmem, hc⟩
    · exact ⟨k, _, _, _, m, .under hs, hm, by simpa using hmem, by simpa using hc⟩
    · exact ⟨k, _, _, _, m, .behind hs, hm, hmem, hc⟩

/-- A search enters the contracts of a depth-first forest and reports the cycles that they close. -/
theorem Searches.exists_forest {path todo : List String} {s s' : Search} (h : Searches edges path todo s s')
    (hp : path ⊆ s.visited) :
    ∃ t, DepthFirst (successors edges) todo s.visited t ∧ s'.visited = t.nodes.reverse ++ s.visited ∧
      ∀ c, c ∈ s'.cycles ↔ c ∈ s.cycles ∨ (∃ n ∈ todo, n ∈ path ∧ c = closed path n) ∨
        Reports edges path t c := by
  induction h with
  | done => exact ⟨.nil, .nil, rfl, fun c => by simp [not_reports_nil]⟩
  | back hn _ ih =>
    obtain ⟨t, ht, hv, hc⟩ := ih hp
    refine ⟨t, .skip (hp hn) ht, hv, fun c => ?_⟩
    rw [hc c]
    simp only [List.mem_cons, exists_eq_or_imp, hn, true_and]
    exact iff_of_eq (by ac_rfl)
  | pass hn hv _ ih =>
    obtain ⟨t, ht, hv', hc⟩ := ih hp
    refine ⟨t, .skip hv ht, hv', fun c => ?_⟩
    rw [hc c]
    simp [hn]
  | @enter n path todo s t s' hn hv _ _ ih ih' =>
    obtain ⟨t₁, ht₁, hv₁, hc₁⟩ := ih (List.cons_subset_cons n hp)
    have hp' : path ⊆ t.visited := by
      rw [hv₁]
      exact fun m hm => List.mem_append_right _ (List.mem_cons_of_mem _ (hp hm))
    obtain ⟨t₂, ht₂, hv₂, hc₂⟩ := ih' hp'
    rw [hv₁] at ht₂ hv₂
    refine ⟨.node n t₁ t₂, .enter hv ht₁ ht₂, by simp [hv₂, Forest.nodes], fun c => ?_⟩
    rw [hc₂ c, hc₁ c, reports_node]
    simp only [List.mem_cons, exists_eq_or_imp, hn, false_and, false_or]
    exact iff_of_eq (by ac_rfl)

/-! ## Cycles from their smallest member -/

theorem smallest_mem {c : List String} (h : c ≠ []) : smallest c ∈ c := by
  fun_induction smallest c with
  | case1 => exact absurd rfl h
  | case2 n => exact List.mem_singleton_self n
  | case3 n ns hns m hlt ih => exact List.mem_cons_of_mem _ (ih hns)
  | case4 n ns hns m hlt => exact List.mem_cons_self

theorem smallest_le {c : List String} {n : String} (h : n ∈ c) : smallest c ≤ n := by
  fun_induction smallest c with
  | case1 => cases h
  | case2 m => exact List.mem_singleton.mp h ▸ String.le_refl n
  | case3 m ns hns k hlt ih =>
    rcases List.mem_cons.mp h with rfl | h
    · exact String.not_lt.mp (String.lt_asymm hlt)
    · exact ih h
  | case4 m ns hns k hlt ih =>
    rcases List.mem_cons.mp h with rfl | h
    · exact String.le_refl n
    · exact String.le_trans (String.not_lt.mp hlt) (ih h)

theorem mem_rotate {c : List String} {n : String} : n ∈ rotate c ↔ n ∈ c := by
  have hc := List.takeWhile_append_dropWhile (p := (· != smallest c)) (l := c)
  rw [rotate, List.mem_append, or_comm, ← List.mem_append, hc]

/-- What stands in front of the smallest member is put behind the others. -/
theorem exists_rotate_eq {c : List String} (h : c ≠ []) :
    ∃ front rest, c = front ++ smallest c :: rest ∧ rotate c = smallest c :: (rest ++ front) := by
  obtain ⟨front, rest, hc, hnot⟩ := List.eq_append_cons_of_mem (smallest_mem h)
  refine ⟨front, rest, hc, ?_⟩
  simp only [rotate]
  generalize smallest c = m at hc hnot
  have hfront : ∀ n ∈ front, (n != m) = true := fun n hn => bne_iff_ne.mpr fun he => hnot (he ▸ hn)
  rw [hc, List.dropWhile_append_of_pos hfront, List.takeWhile_append_of_pos hfront]
  simp

/-- A cycle of edges from its smallest member on: each member has an edge to the next, and the last has one to the
first. -/
inductive IsCycle (edges : List DependencyEdge) : List String → Prop where
  | mk {first : String} {rest : List String} (distinct : (first :: rest).Nodup)
      (least : ∀ n ∈ rest, first ≤ n) (linked : (first :: (rest ++ [first])).IsChain (Linked edges)) :
      IsCycle edges (first :: rest)

theorem isCycle_rotate {c : List String} (h : c ≠ []) (hn : c.Nodup) (hc : Cycle.Chain (Linked edges) c) :
    IsCycle edges (rotate c) := by
  obtain ⟨front, rest, he, hr⟩ := exists_rotate_eq h
  have hrot : c ~r smallest c :: (rest ++ front) := by
    conv_lhs => rw [he]
    exact List.isRotated_append
  rw [hr]
  refine .mk (hrot.nodup_iff.mp hn) (fun n hmem => ?_) ?_
  · exact smallest_le (hrot.mem_iff.mpr (List.mem_cons_of_mem _ hmem))
  · rw [← Cycle.chain_coe_cons, ← Cycle.coe_eq_coe.mpr hrot]
    exact hc

theorem transGen_of_isChain {a b : String} {way : List String}
    (h : (a :: (way ++ [b])).IsChain (Linked edges)) : Relation.TransGen (Linked edges) a b := by
  induction way generalizing a with
  | nil => exact .single (List.isChain_cons_cons.mp h).1
  | cons n way ih =>
    obtain ⟨ha, hn⟩ := List.isChain_cons_cons.mp h
    exact .head ha (ih hn)

/-- A member of a cycle leads back to itself. -/
theorem IsCycle.exists_transGen {c : List String} (h : IsCycle edges c) :
    ∃ n, Relation.TransGen (Linked edges) n n := by
  obtain ⟨-, -, hc⟩ := h
  exact ⟨_, transGen_of_isChain hc⟩

/-! ## The cycles of the forest -/

theorem closed_eq {path p q : List String} {w : String} (he : path = p ++ w :: q) (hn : path.Nodup) :
    closed path w = rotate (w :: p.reverse) := by
  subst he
  have hq : ∀ n ∈ q.reverse, (n != w) = true := by
    intro n hmem
    have hw : w ∉ q := (List.nodup_cons.mp (List.nodup_append.mp hn).2.1).1
    exact bne_iff_ne.mpr fun he => hw (he ▸ List.mem_reverse.mp hmem)
  rw [closed, List.reverse_append, List.reverse_cons, List.append_assoc, List.dropWhile_append_of_pos hq]
  simp

section Forest

variable {todo p : List String} {w : String} {t : Forest String}

/-- The contracts on a way back, from the one that it comes back to on, make a cycle. -/
theorem isCycle_of_returns (h : DepthFirst (successors edges) todo [] t)
    (hr : t.Returns (successors edges) p w) : IsCycle edges (rotate (w :: p.reverse)) := by
  obtain ⟨n, above, before, children, q, hs, hw, he⟩ := hr
  have hsplit : n :: above = (p ++ [w]) ++ q := by simp [he]
  have hnodup : (p ++ [w]).Nodup := (List.nodup_append.mp (hsplit ▸ h.nodup_of_stands hs)).1
  have hchain : (p ++ [w]).IsChain fun a b => Linked edges b a := by
    have hall := h.isChain_of_stands hs
    rw [hsplit] at hall
    exact hall.left_of_append.imp fun a b hab => mem_successors.mp hab
  obtain ⟨rest, hrest⟩ : ∃ rest, p ++ [w] = n :: rest := by
    cases p with
    | nil => exact ⟨[], by rw [(List.cons_eq_cons.mp he).1]; rfl⟩
    | cons m p => exact ⟨p ++ [w], by rw [(List.cons_eq_cons.mp he).1]; rfl⟩
  have hback : w :: p.reverse = (p ++ [w]).reverse := by simp
  refine isCycle_rotate (List.cons_ne_nil _ _) (hback ▸ List.nodup_reverse.mpr hnodup) ?_
  -- Read backwards the cycle goes up from the contract that leads back.
  rw [Cycle.chain_coe_cons, ← List.cons_append, hback, ← List.reverse_cons, List.isChain_reverse]
  rw [hrest] at hchain ⊢
  exact .cons_cons (mem_successors.mp hw) hchain

theorem reports_iff (h : DepthFirst (successors edges) todo [] t) {c : List String} :
    Reports edges [] t c ↔ ∃ p w, t.Returns (successors edges) p w ∧ c = rotate (w :: p.reverse) := by
  constructor
  · rintro ⟨n, above, before, children, m, hs, hm, hmem, hc⟩
    rw [List.append_nil] at hmem hc
    obtain ⟨p, q, he⟩ := List.append_of_mem hmem
    exact ⟨p, m, ⟨n, above, before, children, q, hs, hm, he⟩, hc.trans (closed_eq he (h.nodup_of_stands hs))⟩
  · rintro ⟨p, w, ⟨n, above, before, children, q, hs, hw, he⟩, hc⟩
    refine ⟨n, above, before, children, w, hs, hw, ?_, ?_⟩
    · rw [List.append_nil, he]
      exact List.mem_append_right p List.mem_cons_self
    · rw [List.append_nil, closed_eq he (h.nodup_of_stands hs)]
      exact hc

end Forest

/-- The search enters every contract, and the cycles are the ways back in its forest. -/
theorem exists_forest_cycles (hw : Within edges names) :
    ∃ t, DepthFirst (successors edges) (Text.sort names) [] t ∧
      (search edges names).visited.reverse = t.nodes ∧ names ⊆ t.nodes ∧
      ∀ c, c ∈ cycles edges names ↔
        ∃ p w, t.Returns (successors edges) p w ∧ c = rotate (w :: p.reverse) := by
  obtain ⟨t, ht, hv, hc⟩ := (searches_search hw).exists_forest (List.nil_subset _)
  refine ⟨t, ht, by simp [hv], fun n hn => ?_, fun c => ?_⟩
  · exact (ht.covers (mem_sort.mpr hn)).resolve_left List.not_mem_nil
  · rw [cycles, List.mem_mergeSort, List.mem_eraseDups, hc c, reports_iff ht]
    simp

/-! ## The order of cycles -/

theorem listLe_iff {c d : List String} : listLe c d = true ↔ c = d ∨ c < d := by
  induction c generalizing d with
  | nil => cases d <;> simp [listLe]
  | cons a c ih =>
    cases d with
    | nil => simp [listLe]
    | cons b d =>
      simp only [listLe, Bool.or_eq_true, decide_eq_true_eq, Bool.and_eq_true, beq_iff_eq, ih,
        List.cons_eq_cons, List.cons_lt_cons_iff]
      grind

theorem listLe_total (c d : List String) : (listLe c d || listLe d c) = true := by
  induction c generalizing d with
  | nil => rfl
  | cons a c ih =>
    cases d with
    | nil => simp [listLe]
    | cons b d =>
      have hcd := ih d
      rcases String.le_total a b with hab | hab
      · grind [listLe]
      · grind [listLe]

theorem listLe_trans (c d e : List String) (hcd : listLe c d = true) (hde : listLe d e = true) :
    listLe c e = true := by
  rw [listLe_iff] at *
  rcases hcd with rfl | hcd
  · exact hde
  · rcases hde with rfl | hde
    · exact .inr hcd
    · exact .inr (List.lt_trans hcd hde)

theorem pairwise_cycles (edges : List DependencyEdge) (names : List String) :
    (cycles edges names).Pairwise (· < ·) := by
  have hsorted : (cycles edges names).Pairwise fun c d => listLe c d = true :=
    List.pairwise_mergeSort listLe_trans listLe_total _
  have hnodup : (cycles edges names).Nodup :=
    (List.mergeSort_perm _ _).nodup_iff.mpr (nodup_eraseDups _)
  refine (hsorted.and hnodup).imp fun h => ?_
  exact (listLe_iff.mp h.1).resolve_left h.2

/-- Every cycle that is reported is one, the cycles stand in strictly increasing order, and there is none to
report only if no contract leads back to itself. -/
theorem cycles_exact (hw : Within edges names) :
    Searches edges [] (Text.sort names) ⟨[], []⟩ (search edges names) ∧
      (cycles edges names).Pairwise (· < ·) ∧ (∀ c ∈ cycles edges names, IsCycle edges c) ∧
      (cycles edges names = [] ↔ ∀ n, ¬ Relation.TransGen (Linked edges) n n) := by
  obtain ⟨t, ht, -, hnames, hc⟩ := exists_forest_cycles hw
  have hcycle : ∀ c ∈ cycles edges names, IsCycle edges c := by
    intro c hmem
    obtain ⟨p, w, hr, rfl⟩ := (hc c).mp hmem
    exact isCycle_of_returns ht hr
  refine ⟨searches_search hw, pairwise_cycles edges names, hcycle, fun hnil n hn => ?_, fun h => ?_⟩
  · have htargets (y w : String) (h : w ∈ successors edges y) : w ∈ t.nodes :=
      hnames (hw.successors_subset y h)
    rw [linked_eq] at hn
    obtain ⟨w, y, -, -, hlater, hwy⟩ := DepthFirst.exists_later_return htargets hn
    obtain ⟨p, w', hr, -⟩ := (ht.exists_returns_iff htargets).mpr ⟨w, y, .refl, hlater, hwy⟩
    have hmem := (hc _).mpr ⟨p, w', hr, rfl⟩
    rw [hnil] at hmem
    cases hmem
  · refine List.eq_nil_iff_forall_not_mem.mpr fun c hmem => ?_
    obtain ⟨n, hn⟩ := (hcycle c hmem).exists_transGen
    exact h n hn

/-- A cycle of two contracts, a longer one through both, and an edge of a contract to itself. -/
def crossedEdges : List DependencyEdge :=
  [⟨"A", "B", "b", .declaredType⟩, ⟨"A", "C", "c", .declaredType⟩, ⟨"B", "A", "a", .declaredType⟩,
   ⟨"C", "B", "b", .declaredType⟩, ⟨"D", "D", "d", .declaredType⟩]

theorem cycles_exact_crossedEdges :
    Within crossedEdges ["A", "B", "C", "D"] ∧
      (search crossedEdges ["A", "B", "C", "D"]).cycles = [["D"], ["A", "B"]] ∧
      Searches crossedEdges [] (Text.sort ["A", "B", "C", "D"]) ⟨[], []⟩ (search crossedEdges ["A", "B", "C", "D"]) ∧
      (cycles crossedEdges ["A", "B", "C", "D"]).Pairwise (· < ·) ∧
      (∀ c ∈ cycles crossedEdges ["A", "B", "C", "D"], IsCycle crossedEdges c) ∧
      (cycles crossedEdges ["A", "B", "C", "D"] = [] ↔ ∀ n, ¬ Relation.TransGen (Linked crossedEdges) n n) := by
  have hw : Within crossedEdges ["A", "B", "C", "D"] := by decide
  have hsort : Text.sort ["A", "B", "C", "D"] = ["A", "B", "C", "D"] := List.mergeSort_of_pairwise (by decide)
  refine ⟨hw, ?_, cycles_exact hw⟩
  rw [search, hsort]
  decide +kernel

end ContractAudit.Dependency
