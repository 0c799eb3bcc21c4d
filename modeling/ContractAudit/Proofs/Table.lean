import ContractAudit.Table
import Mathlib.Data.List.Nodup

/-!
# Entries of a table

What putting does to the entries of a table whose keys are distinct, and to the part of a table that
has some of the keys.
-/

namespace ContractAudit.Table

section Keys

variable {κ ν : Type}

@[simp] theorem keys_nil : keys ([] : Table κ ν) = [] := rfl

@[simp] theorem keys_cons (e : κ × ν) (t : Table κ ν) : keys (e :: t) = e.1 :: keys t := rfl

@[simp] theorem keys_append (t u : Table κ ν) : keys (t ++ u) = keys t ++ keys u :=
  List.map_append

theorem mem_keys {t : Table κ ν} {k : κ} : k ∈ t.keys ↔ ∃ x, (k, x) ∈ t := by
  simp [keys]

end Keys

variable {κ ν : Type} [BEq κ] [LawfulBEq κ] {t u : Table κ ν} {key k : κ} {value x : ν}

/-! ## Looking up -/

theorem get?_eq_none_iff : t.get? k = none ↔ k ∉ t.keys := by
  simp only [get?, Option.map_eq_none_iff, List.find?_eq_none, beq_iff_eq, keys, List.mem_map,
    not_exists, not_and]

theorem mem_of_get? (h : t.get? k = some x) : (k, x) ∈ t := by
  obtain ⟨e, he, rfl⟩ := Option.map_eq_some_iff.mp h
  have hk : e.1 = k := by simpa using List.find?_some he
  subst hk
  exact List.mem_of_find?_eq_some he

theorem get?_eq_some_iff (hn : t.keys.Nodup) : t.get? k = some x ↔ (k, x) ∈ t := by
  refine ⟨mem_of_get?, fun hx => ?_⟩
  cases hk : t.get? k with
  | none => exact absurd (mem_keys.mpr ⟨x, hx⟩) (get?_eq_none_iff.mp hk)
  | some y =>
    have he := List.inj_on_of_nodup_map hn (mem_of_get? hk) hx rfl
    rw [(Prod.mk.inj he).2]

/-! ## Putting -/

theorem put_of_not_mem (h : key ∉ t.keys) (value : ν) : t.put key value = t ++ [(key, value)] := by
  induction t with
  | nil => rfl
  | cons e rest ih =>
    rw [keys_cons, List.mem_cons, not_or] at h
    simp [put, Ne.symm h.1, ih h.2]

theorem nodup_keys_put (hn : t.keys.Nodup) (key : κ) (value : ν) : (t.put key value).keys.Nodup := by
  by_cases h : key ∈ t.keys
  · rw [keys_put_of_mem h]
    exact hn
  · rw [keys_put_of_not_mem h, List.nodup_append]
    refine ⟨hn, by simp, fun a ha b hb => ?_⟩
    rw [List.mem_singleton] at hb
    rintro rfl
    exact h (hb ▸ ha)

theorem mem_keys_put : k ∈ (t.put key value).keys ↔ k = key ∨ k ∈ t.keys := by
  by_cases h : key ∈ t.keys
  · rw [keys_put_of_mem h]
    exact ⟨.inr, fun hk => hk.elim (fun e => e ▸ h) id⟩
  · simp [keys_put_of_not_mem h, or_comm]

theorem mem_put (hn : t.keys.Nodup) :
    (k, x) ∈ t.put key value ↔ (k = key ∧ x = value) ∨ (k ≠ key ∧ (k, x) ∈ t) := by
  induction t with
  | nil => simp [put]
  | cons e rest ih =>
    rw [keys_cons, List.nodup_cons] at hn
    by_cases he : e.1 = key
    · have hk : (k, x) ∈ rest → k ≠ key := fun h hk => hn.1 (mem_keys.mpr ⟨x, by rw [he, ← hk]; exact h⟩)
      simp only [put, he, beq_self_eq_true, ↓reduceIte, List.mem_cons, Prod.mk.injEq]
      constructor
      · rintro (h | h)
        · exact .inl h
        · exact .inr ⟨hk h, .inr h⟩
      · rintro (h | ⟨hne, h | h⟩)
        · exact .inl h
        · exact absurd (congrArg Prod.fst h) (he ▸ hne)
        · exact .inr h
    · simp only [put, he, beq_iff_eq, ↓reduceIte, List.mem_cons, ih hn.2]
      constructor
      · rintro (rfl | h | ⟨hne, h⟩)
        · exact .inr ⟨he, .inl rfl⟩
        · exact .inl h
        · exact .inr ⟨hne, .inr h⟩
      · rintro (h | ⟨hne, h | h⟩)
        · exact .inr (.inl h)
        · exact .inl h
        · exact .inr (.inr ⟨hne, h⟩)

theorem mem_values_put (h : x ∈ (t.put key value).values) : x = value ∨ x ∈ t.values := by
  induction t with
  | nil => exact .inl (by simpa [put, values] using h)
  | cons e rest ih =>
    by_cases he : e.1 = key
    · simp only [put, he, beq_self_eq_true, ↓reduceIte, values, List.map_cons, List.mem_cons] at h ⊢
      exact h.imp_right .inr
    · simp only [put, he, beq_iff_eq, ↓reduceIte, values, List.map_cons, List.mem_cons] at h ⊢
      rcases h with h | h
      · exact .inr (.inl h)
      · exact (ih h).imp_right .inr

theorem get?_put (t : Table κ ν) (key k : κ) (value : ν) :
    (t.put key value).get? k = if key == k then some value else t.get? k := by
  induction t with
  | nil => by_cases hk : key = k <;> simp [put, get?, hk]
  | cons e rest ih =>
    obtain ⟨a, b⟩ := e
    by_cases ha : a = key
    · subst ha
      by_cases hk : a = k <;> simp [put, get?, hk]
    · by_cases hk : a = k
      · subst hk
        simp [put, get?, ha, Ne.symm ha]
      · simpa [put, get?, ha, hk] using ih

/-- Entries with new and distinct keys are put one behind the other. -/
theorem putAll_eq_append {es : List (κ × ν)} (hn : (keys (t ++ es)).Nodup) :
    t.putAll es = t ++ es := by
  induction es generalizing t with
  | nil => simp [putAll]
  | cons e es ih =>
    have he : e.1 ∉ t.keys := by
      rw [keys_append, List.nodup_append] at hn
      exact fun h => hn.2.2 _ h _ List.mem_cons_self rfl
    have hn' : (keys ((t ++ [e]) ++ es)).Nodup := by simpa using hn
    calc t.putAll (e :: es) = (t.put e.1 e.2).putAll es := rfl
      _ = (t ++ [e]).putAll es := by rw [put_of_not_mem he]
      _ = t ++ e :: es := by rw [ih hn']; simp

/-- Putting a key that is there changes no place, so another key may be put before or after. -/
theorem put_comm_of_mem {a b : κ} (ha : a ∈ t.keys) (hab : a ≠ b) (x y : ν) :
    (t.put a x).put b y = (t.put b y).put a x := by
  induction t with
  | nil => simp at ha
  | cons e rest ih =>
    rw [keys_cons, List.mem_cons] at ha
    by_cases hea : e.1 = a
    · simp [put, hea, hab]
    · have hrest := ih (ha.resolve_left (Ne.symm hea))
      by_cases heb : e.1 = b <;> simp [put, hea, heb, Ne.symm hab, hrest]

theorem putAll_put_of_mem {a : κ} {es : List (κ × ν)} (ha : a ∈ t.keys) (hes : a ∉ keys es) (x : ν) :
    (t.put a x).putAll es = (t.putAll es).put a x := by
  induction es generalizing t with
  | nil => rfl
  | cons e es ih =>
    rw [keys_cons, List.mem_cons, not_or] at hes
    calc (t.put a x).putAll (e :: es) = ((t.put a x).put e.1 e.2).putAll es := rfl
      _ = ((t.put e.1 e.2).put a x).putAll es := by rw [put_comm_of_mem ha hes.1]
      _ = (t.putAll (e :: es)).put a x := ih (mem_keys_put.mpr (.inr ha)) hes.2

/-! ## Part of a table -/

theorem get?_filter {p : κ → Bool} (hk : p k = true) (t : Table κ ν) :
    get? (t.filter fun e => p e.1) k = t.get? k := by
  induction t with
  | nil => rfl
  | cons e t ih =>
    by_cases he : e.1 = k
    · simp [get?, he, hk]
    · by_cases hp : p e.1 = true
      · simpa [get?, he, hp] using ih
      · simpa [get?, he, hp] using ih

theorem filter_put_of_pos {p : κ → Bool} (hk : p key = true) (t : Table κ ν) (value : ν) :
    (t.put key value).filter (fun e => p e.1) = put (t.filter fun e => p e.1) key value := by
  induction t with
  | nil => simp [put, hk]
  | cons e t ih =>
    by_cases he : e.1 = key
    · simp [put, he, hk]
    · by_cases hp : p e.1 = true
      · simp [put, he, hp, ih]
      · simp [put, he, hp, ih]

theorem filter_put_of_neg {p : κ → Bool} (hk : p key = false) (t : Table κ ν) (value : ν) :
    (t.put key value).filter (fun e => p e.1) = t.filter fun e => p e.1 := by
  induction t with
  | nil => simp [put, hk]
  | cons e t ih =>
    by_cases he : e.1 = key
    · simp [put, he, hk]
    · simp [put, he, List.filter_cons, ih]

end ContractAudit.Table
