import ContractAudit.Text.Order

/-!
# Lists that agree part by part

`SameParts tag xs ys`: for each tag, `xs` and `ys` have the same elements of that tag in the same
order. It is what is left of the order of a batch when its units change places: the units have
distinct tags, everything derived from one unit keeps its order, and a look-up by tag finds the same.
-/

namespace ContractAudit

section Parts

variable {α β τ σ : Type} [DecidableEq τ] [DecidableEq σ] {tag : α → τ} {xs ys zs ws : List α}

def SameParts (tag : α → τ) (xs ys : List α) : Prop :=
  ∀ n, xs.filter (tag · == n) = ys.filter (tag · == n)

theorem filter_flatMap_of_tag {f : α → List β} {tag' : β → τ}
    (hf : ∀ x ∈ xs, ∀ y ∈ f x, tag' y = tag x) (n : τ) :
    (xs.flatMap f).filter (tag' · == n) = (xs.filter (tag · == n)).flatMap f := by
  induction xs with
  | nil => rfl
  | cons x xs ih =>
    obtain ⟨hx, hxs⟩ := List.forall_mem_cons.mp hf
    rw [List.flatMap_cons, List.filter_append, ih hxs]
    by_cases hn : tag x = n
    · rw [List.filter_eq_self.mpr fun y hy => by simp [hx y hy, hn],
        List.filter_cons_of_pos (by simp [hn]), List.flatMap_cons]
    · rw [List.filter_eq_nil_iff.mpr fun y hy => by simp [hx y hy, hn],
        List.filter_cons_of_neg (by simp [hn]), List.nil_append]

namespace SameParts

theorem refl (tag : α → τ) (xs : List α) : SameParts tag xs xs := fun _ => rfl

/-- Elements with distinct tags may change places. -/
theorem of_perm (h : xs.Perm ys) (hn : (xs.map tag).Nodup) : SameParts tag xs ys := by
  induction h with
  | nil => exact refl tag []
  | cons x _ ih =>
    intro n
    rw [List.map_cons, List.nodup_cons] at hn
    simp only [List.filter_cons, ih hn.2 n]
  | swap x y xs =>
    intro n
    have hxy : tag y ≠ tag x := by simp_all
    by_cases hx : tag x = n
    · have hy : tag y ≠ n := hx ▸ hxy
      simp [hx, hy]
    · simp [List.filter_cons, hx]
  | trans h _ ih ih' =>
    intro n
    rw [ih hn n, ih' ((h.map tag).nodup_iff.mp hn) n]

theorem append (h : SameParts tag xs ys) (h' : SameParts tag zs ws) :
    SameParts tag (xs ++ zs) (ys ++ ws) := by
  intro n
  rw [List.filter_append, List.filter_append, h n, h' n]

theorem mem_iff (h : SameParts tag xs ys) {x : α} : x ∈ xs ↔ x ∈ ys := by
  have hx := congrArg (x ∈ ·) (h (tag x))
  simpa using hx

/-- What is derived from each element and has its tag. -/
theorem flatMap (h : SameParts tag xs ys) {f : α → List β} {tag' : β → τ}
    (hf : ∀ x ∈ xs, ∀ y ∈ f x, tag' y = tag x) : SameParts tag' (xs.flatMap f) (ys.flatMap f) := by
  intro n
  rw [filter_flatMap_of_tag hf, filter_flatMap_of_tag fun x hx => hf x (h.mem_iff.mpr hx), h n]

/-- What is derived from each element may differ as far as it agrees part by part. -/
theorem flatMap_congr {us : List β} {f g : β → List α} (h : ∀ u ∈ us, SameParts tag (f u) (g u)) :
    SameParts tag (us.flatMap f) (us.flatMap g) := by
  induction us with
  | nil => exact refl tag []
  | cons u us ih =>
    obtain ⟨hu, hus⟩ := List.forall_mem_cons.mp h
    exact hu.append (ih hus)

theorem map (h : SameParts tag xs ys) {f : α → β} {tag' : β → τ}
    (hf : ∀ x ∈ xs, tag' (f x) = tag x) : SameParts tag' (xs.map f) (ys.map f) := by
  simp only [List.map_eq_flatMap]
  exact h.flatMap fun x hx y hy => List.mem_singleton.mp hy ▸ hf x hx

theorem filter (h : SameParts tag xs ys) (p : α → Bool) :
    SameParts tag (xs.filter p) (ys.filter p) := by
  intro n
  have hc := congrArg (List.filter p) (h n)
  rw [List.filter_filter, List.filter_filter] at hc ⊢
  simpa only [Bool.and_comm] using hc

/-- A tag that tells more. -/
theorem of_coarse (h : SameParts tag xs ys) {fine : α → σ} {coarse : σ → τ}
    (hf : ∀ x, coarse (fine x) = tag x) : SameParts fine xs ys := by
  intro n
  have part (zs : List α) :
      zs.filter (fine · == n) = (zs.filter (tag · == coarse n)).filter (fine · == n) := by
    rw [List.filter_filter]
    refine List.filter_congr fun x _ => ?_
    by_cases hx : fine x = n <;> simp [hx, ← hf]
  rw [part xs, part ys, h]

/-! ## What is found -/

theorem find?_eq (h : SameParts tag xs ys) (n : τ) :
    xs.find? (tag · == n) = ys.find? (tag · == n) := by
  rw [← List.head?_filter, ← List.head?_filter, h n]

theorem find?_and_eq (h : SameParts tag xs ys) (n : τ) (p : α → Bool) :
    xs.find? (fun x => tag x == n && p x) = ys.find? (fun x => tag x == n && p x) := by
  have hp (zs : List α) : zs.find? (fun x => tag x == n && p x) =
      (zs.filter (tag · == n)).find? p := by
    rw [List.find?_filter]
    simp only [Bool.decide_and, Bool.decide_eq_true]
  rw [hp, hp, h n]

theorem perm [DecidableEq α] (h : SameParts tag xs ys) : xs.Perm ys := by
  rw [List.perm_iff_count]
  intro a
  have ha : (tag a == tag a) = true := by simp
  rw [← List.count_filter (p := (tag · == tag a)) ha, h (tag a),
    List.count_filter (p := (tag · == tag a)) ha]

end SameParts

/-! ## What forgets the order -/

omit [DecidableEq τ] in
theorem nodup_eraseDups [BEq τ] [LawfulBEq τ] (ns : List τ) : ns.eraseDups.Nodup := by
  induction h : ns.length using Nat.strongRecOn generalizing ns with
  | _ k ih =>
    cases ns with
    | nil => simp
    | cons n ns =>
      rw [List.eraseDups_cons, List.nodup_cons, List.mem_eraseDups]
      have hlen := List.length_filter_le (fun m => ! m == n) ns
      rw [List.length_cons] at h
      exact ⟨by simp, ih _ (by omega) _ rfl⟩

theorem eraseDups_of_nodup {ns : List τ} (h : ns.Nodup) : ns.eraseDups = ns := by
  induction ns with
  | nil => rfl
  | cons n ns ih =>
    rw [List.nodup_cons] at h
    have hself : ns.filter (fun m => ! m == n) = ns := by
      refine List.filter_eq_self.mpr fun m hm => ?_
      have hne : m ≠ n := fun he => h.1 (he ▸ hm)
      simp [hne]
    rw [List.eraseDups_cons, hself, ih h.2]

theorem perm_eraseDups {ns ms : List τ} (h : ∀ n, n ∈ ns ↔ n ∈ ms) :
    ns.eraseDups.Perm ms.eraseDups := by
  rw [List.perm_ext_iff_of_nodup (nodup_eraseDups ns) (nodup_eraseDups ms)]
  simpa only [List.mem_eraseDups] using h

/-- Sorting forgets the order if the elements that rank alike are equal. -/
theorem mergeSort_eq_of_perm {le : α → α → Bool}
    (trans : ∀ a b c, le a b = true → le b c = true → le a c = true)
    (total : ∀ a b, (le a b || le b a) = true) (h : xs.Perm ys)
    (anti : ∀ a ∈ xs, ∀ b ∈ xs, le a b = true → le b a = true → a = b) :
    xs.mergeSort le = ys.mergeSort le := by
  have hp : (xs.mergeSort le).Perm (ys.mergeSort le) :=
    (List.mergeSort_perm xs le).trans (h.trans (List.mergeSort_perm ys le).symm)
  refine hp.eq_of_pairwise (fun a b ha hb => ?_) (List.pairwise_mergeSort trans total xs)
    (List.pairwise_mergeSort trans total ys)
  exact anti a (List.mem_mergeSort.mp ha) b (h.mem_iff.mpr (List.mem_mergeSort.mp hb))

end Parts

theorem Text.sort_eq_of_perm {ns ms : List String} (h : ns.Perm ms) : sort ns = sort ms := by
  refine mergeSort_eq_of_perm (fun a b c hab hbc => ?_) (fun a b => ?_) h fun a _ b _ hab hba => ?_
  · rw [decide_eq_true_eq] at hab hbc ⊢
    exact String.le_trans hab hbc
  · rw [← Bool.decide_or, decide_eq_true_eq]
    exact String.le_total a b
  · rw [decide_eq_true_eq] at hab hba
    exact String.le_antisymm hab hba

end ContractAudit
