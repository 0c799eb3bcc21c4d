import ContractAudit.Proofs.Contract.Events
import Mathlib.Data.List.Destutter
import Mathlib.Data.List.Sort

/-!
# Effects in sequence

Each effect of a function is recorded at a token of its body and takes place at a position of the body. `sequence`
holds what the tokens record in the order in which it takes place, and `performed` is what is left of it when
accesses that repeat the one before them are dropped: the effects of the function, each with its token. A call is
never dropped, and of the writes to a variable two are left exactly if something else takes place between two of them.
-/

namespace ContractAudit

open scoped List

/-! ## Lists without repetitions -/

section Destutter

variable {α : Type} {R : α → α → Prop} [DecidableRel R] {a x y z : α} {l front after : List α}

theorem destutter'_append_cons (h : R a x) (hx : ∀ y ∈ front, R y x) :
    (front ++ x :: after).destutter' R a = front.destutter' R a ++ after.destutter' R x := by
  induction front generalizing a with
  | nil => simp [h]
  | cons b front ih =>
    obtain ⟨hb, hfront⟩ := List.forall_mem_cons.mp hx
    by_cases hab : R a b
    · simp [hab, ih hb hfront]
    · simp [hab, ih h hfront]

/-- A list is cut in front of an element that repeats nothing. -/
theorem destutter_append_cons (hx : ∀ y ∈ front, R y x) :
    (front ++ x :: after).destutter R = front.destutter R ++ (x :: after).destutter R := by
  cases front with
  | nil => rfl
  | cons a front =>
    obtain ⟨ha, hfront⟩ := List.forall_mem_cons.mp hx
    exact destutter'_append_cons ha hfront

theorem exists_destutter'_eq_cons (a : α) (l : List α) : ∃ kept, l.destutter' R a = a :: kept := by
  induction l with
  | nil => exact ⟨[], rfl⟩
  | cons b l ih =>
    by_cases hab : R a b
    · exact ⟨_, List.destutter'_cons_pos _ hab⟩
    · rw [List.destutter'_cons_neg _ hab]
      exact ih

/-- Every element is kept or repeats one that is. -/
theorem exists_mem_destutter' (h : x ∈ a :: l) : ∃ k ∈ l.destutter' R a, k = x ∨ ¬ R k x := by
  induction l generalizing a with
  | nil => exact ⟨x, h, .inl rfl⟩
  | cons b l ih =>
    by_cases hab : R a b
    · rw [List.destutter'_cons_pos _ hab]
      rcases List.mem_cons.mp h with rfl | h
      · exact ⟨x, List.mem_cons_self, .inl rfl⟩
      · obtain ⟨k, hk, hkx⟩ := ih h
        exact ⟨k, List.mem_cons_of_mem _ hk, hkx⟩
    · rw [List.destutter'_cons_neg _ hab]
      rcases List.mem_cons.mp h with rfl | h
      · exact ⟨x, List.mem_destutter' .., .inl rfl⟩
      · rcases List.mem_cons.mp h with rfl | h
        · exact ⟨a, List.mem_destutter' .., .inr hab⟩
        · exact ih (List.mem_cons_of_mem a h)

/-! A class of elements that repeat each other and nothing else: of a list at least two of them are kept exactly if
one outside the class stands between two of them. -/

variable {p : α → Bool} (hout : ∀ a b, ¬ R a b → p a = p b) (hin : ∀ a b, p a = true → p b = true → ¬ R a b)

include hout in
theorem exists_class_mem_destutter' (h : x ∈ a :: l) (hx : p x = true) : ∃ k ∈ l.destutter' R a, p k = true := by
  obtain ⟨k, hk, rfl | hkx⟩ := exists_mem_destutter' (R := R) h
  · exact ⟨k, hk, hx⟩
  · exact ⟨k, hk, (hout k x hkx).trans hx⟩

include hout in
theorem exists_class_mem_tail_destutter' (h : [x, y] <+ l) (hx : p x = false) (hy : p y = true) :
    ∃ k ∈ (l.destutter' R a).tail, p k = true := by
  induction l generalizing a with
  | nil => cases h
  | cons b l ih =>
    by_cases hab : R a b
    · rw [List.destutter'_cons_pos _ hab]
      exact exists_class_mem_destutter' hout (h.subset (by simp)) hy
    · rw [List.destutter'_cons_neg _ hab]
      rcases List.sublist_cons_iff.mp h with h | ⟨rest, hrest, h⟩
      · exact ih h
      · cases hrest
        -- The element outside the class repeats the last one kept, which is then outside as well.
        have ha : p a = false := (hout a x hab).trans hx
        obtain ⟨k, hk, hpk⟩ := exists_class_mem_destutter' (R := R) hout
          (List.mem_cons_of_mem a (List.singleton_sublist.mp h)) hy
        obtain ⟨kept, hkept⟩ := exists_destutter'_eq_cons (R := R) a l
        rw [hkept] at hk ⊢
        rcases List.mem_cons.mp hk with rfl | hk
        · rw [ha] at hpk
          cases hpk
        · exact ⟨k, hk, hpk⟩

include hout in
theorem two_le_countP_destutter' (h : [x, y, z] <+ a :: l) (hx : p x = true) (hy : p y = false) (hz : p z = true) :
    2 ≤ (l.destutter' R a).countP p := by
  induction l generalizing a x with
  | nil =>
    have := h.length_le
    simp at this
  | cons b l ih =>
    rcases List.sublist_cons_iff.mp h with h | ⟨rest, hrest, h⟩
    · by_cases hab : R a b
      · rw [List.destutter'_cons_pos _ hab, List.countP_cons]
        exact Nat.le_add_right_of_le (ih h hx)
      · rw [List.destutter'_cons_neg _ hab]
        rcases List.sublist_cons_iff.mp h with h | ⟨rest, hrest, h⟩
        · exact ih (h.cons a) hx
        · cases hrest
          exact ih (h.cons_cons a) ((hout a b hab).trans hx)
    · cases hrest
      obtain ⟨kept, hkept⟩ := exists_destutter'_eq_cons (R := R) a (b :: l)
      have hlater := exists_class_mem_tail_destutter' (R := R) (a := a) hout h hy hz
      rw [hkept, List.tail_cons] at hlater
      have hpos := List.countP_pos_iff.mpr hlater
      rw [hkept, List.countP_cons_of_pos hx]
      omega

omit [DecidableRel R] in
include hin in
theorem exists_between_of_two_le (hl : l.IsChain R) (h : 2 ≤ l.countP p) :
    ∃ x y z, [x, y, z] <+ l ∧ p x = true ∧ p y = false ∧ p z = true := by
  induction l with
  | nil => simp at h
  | cons a l ih =>
    cases ha : p a with
    | false =>
      rw [List.countP_cons_of_neg (by simp [ha])] at h
      obtain ⟨x, y, z, hs, hp⟩ := ih hl.tail h
      exact ⟨x, y, z, hs.cons a, hp⟩
    | true =>
      rw [List.countP_cons_of_pos ha] at h
      cases l with
      | nil => simp at h
      | cons b l =>
        -- The next element cannot be of the class, and so the second one of the class comes later.
        have hb : p b = false := by
          rw [Bool.eq_false_iff]
          exact fun hb => hin a b ha hb hl.rel
        rw [List.countP_cons_of_neg (by simp [hb])] at h
        obtain ⟨z, hz, hpz⟩ := List.countP_pos_iff.mp (show 0 < l.countP p by omega)
        exact ⟨a, b, z, ((List.singleton_sublist.mpr hz).cons_cons b).cons_cons a, ha, hb, hpz⟩

include hout hin in
theorem two_le_countP_destutter_iff :
    2 ≤ (l.destutter R).countP p ↔ ∃ x y z, [x, y, z] <+ l ∧ p x = true ∧ p y = false ∧ p z = true := by
  constructor
  · intro h
    obtain ⟨x, y, z, hs, hp⟩ := exists_between_of_two_le hin (List.isChain_destutter R l) h
    exact ⟨x, y, z, hs.trans (List.destutter_sublist R l), hp⟩
  · rintro ⟨x, y, z, hs, hx, hy, hz⟩
    cases l with
    | nil => cases hs
    | cons a l => exact two_le_countP_destutter' hout hs hx hy hz

end Destutter

/-- Elements of a sorted list that are strictly in order stand in it in this order. -/
theorem sublist_of_pairwise {α : Type} {S : α → α → Prop} {l part : List α} (hrefl : ∀ a, S a a) (hl : l.Pairwise S)
    (hmem : ∀ a ∈ part, a ∈ l) (hpart : part.Pairwise fun a b => ¬ S b a) : part <+ l := by
  induction l generalizing part with
  | nil => rw [List.eq_nil_iff_forall_not_mem.mpr fun a ha => List.not_mem_nil (hmem a ha)]
  | cons x l ih =>
    obtain ⟨hx, htail⟩ := List.pairwise_cons.mp hl
    cases part with
    | nil => exact List.nil_sublist _
    | cons a part =>
      obtain ⟨ha, hrest⟩ := List.pairwise_cons.mp hpart
      have hmem' (b : α) (hb : b ∈ part) (hne : b ≠ x) : b ∈ l :=
        (List.mem_cons.mp (hmem b (List.mem_cons_of_mem a hb))).resolve_left hne
      rcases List.mem_cons.mp (hmem a List.mem_cons_self) with rfl | hal
      · exact (ih htail (fun b hb => hmem' b hb fun hba => ha b hb (hba ▸ hrefl a)) hrest).cons_cons a
      · refine (ih htail (fun b hb => ?_) hpart).cons x
        rcases List.mem_cons.mp hb with rfl | hb
        · exact hal
        · exact hmem' b hb fun hbx => ha b hb (hbx ▸ hx a hal)

/-! ## What an effect does -/

namespace Effect

variable {a b : Effect} {name : String}

/-- A call, out of the contract or inside it. -/
def isCall (e : Effect) : Bool := e.accessed?.isNone

/-- The variable that an effect writes. -/
def written? : Effect → Option String
  | write name _ => some name
  | _ => none

/-- A write to the variable `name`. -/
def writes (name : String) (e : Effect) : Bool := e.written? == some name

theorem writes_iff : a.writes name = true ↔ ∃ line, a = .write name line := by
  cases a <;> simp [writes, written?]

/-- Only accesses repeat each other. -/
theorem not_isCall_of_repeats (h : a.repeats b = true) : a.isCall = false ∧ b.isCall = false := by
  obtain ⟨name, line, line'⟩ | ⟨name, line, line'⟩ := repeats_iff.mp h <;> exact ⟨rfl, rfl⟩

theorem not_repeats_of_isCall (h : b.isCall = true) (a : Effect) : a.repeats b = false := by
  rw [Bool.eq_false_iff]
  intro hr
  rw [(not_isCall_of_repeats hr).2] at h
  cases h

theorem writes_of_repeats (h : a.repeats b = true) (name : String) : a.writes name = b.writes name := by
  obtain ⟨n, line, line'⟩ | ⟨n, line, line'⟩ := repeats_iff.mp h <;> rfl

theorem repeats_of_writes (ha : a.writes name = true) (hb : b.writes name = true) : a.repeats b = true := by
  obtain ⟨line, rfl⟩ := writes_iff.mp ha
  obtain ⟨line', rfl⟩ := writes_iff.mp hb
  exact repeats_iff.mpr (.write name line line')

end Effect

/-! ## Sorting and collapsing as library functions -/

theorem sortByPosition_eq (es : List (Nat × Effect)) : sortByPosition es = es.insertionSort fun a b => a.1 ≤ b.1 := by
  have hinsert (e : Nat × Effect) (es : List (Nat × Effect)) :
      insertByPosition e es = es.orderedInsert (fun a b => a.1 ≤ b.1) e := by
    induction es with
    | nil => rfl
    | cons d es ih => rw [insertByPosition, ih, List.orderedInsert_cons]
  induction es with
  | nil => rfl
  | cons e es ih =>
    rw [sortByPosition, List.foldr_cons, ← sortByPosition, hinsert, ih]
    rfl

theorem collapse_eq (es : List Effect) : collapse es = es.destutter fun a b => a.repeats b = false := by
  have hafter (last : Effect) (es : List Effect) :
      last :: collapseAfter last es = es.destutter' (fun a b => a.repeats b = false) last := by
    induction es generalizing last with
    | nil => rfl
    | cons e es ih =>
      rw [collapseAfter, List.destutter'_cons]
      cases last.repeats e with
      | true => simpa using ih last
      | false => simpa using ih e
  cases es with
  | nil => rfl
  | cons e es => exact hafter e es

/-! ## Recorded effects -/

/-- An effect with the token that records it and the position at which it takes place. -/
structure Recorded where
  token : Nat
  position : Nat
  effect : Effect
  deriving DecidableEq, Repr

namespace Contract

variable (c : Contract) (f : Function)

/-- How many call sites are recorded in front of the token `i`. -/
def sitesBefore (i : Nat) : Nat := ((List.range i).flatMap (c.sitesAt f)).length

/-- What the token `i` of the body records. -/
def recordedAt (i : Nat) : List Recorded :=
  (numberEvents (c.sitesBefore f i) (c.eventsAt f i)).map fun p => ⟨i, p.1, p.2⟩

/-- What the body records, token by token. -/
def recorded : List Recorded := (List.range f.bodyTokens.length).flatMap (c.recordedAt f)

/-- What the body records, in the order in which it takes place. -/
def sequence : List Recorded := (c.recorded f).insertionSort fun a b => a.position ≤ b.position

/-- The effects of a function, each with its token. -/
def performed : List Recorded := (c.sequence f).destutter fun a b => a.effect.repeats b.effect = false

end Contract

theorem numberEvents_append (first : Nat) (xs ys : List Positioned) :
    numberEvents first (xs ++ ys) =
      numberEvents first xs ++ numberEvents (first + (callSitesOf xs).length) ys := by
  induction xs generalizing first with
  | nil => rfl
  | cons x xs ih =>
    obtain ⟨position, event⟩ := x
    rw [List.cons_append, numberEvents_cons, numberEvents_cons, ih, callSitesOf_cons, List.length_append,
      Nat.add_assoc, List.cons_append]

namespace Contract

variable {c : Contract} {f : Function} {r w x : Recorded}

/-- Numbered token by token the events have the numbers that they have in the whole body. -/
theorem numberEvents_range (c : Contract) (f : Function) (n : Nat) :
    numberEvents 0 ((List.range n).flatMap (c.eventsAt f)) =
      ((List.range n).flatMap (c.recordedAt f)).map fun r => (r.position, r.effect) := by
  induction n with
  | zero => rfl
  | succ n ih =>
    have hsites : (callSitesOf ((List.range n).flatMap (c.eventsAt f))).length = c.sitesBefore f n := by
      rw [callSitesOf_flatMap]
      rfl
    have hlast : numberEvents (c.sitesBefore f n) (c.eventsAt f n) =
        (c.recordedAt f n).map fun r => (r.position, r.effect) := by
      rw [recordedAt, List.map_map]
      exact (List.map_id _).symm
    rw [List.range_succ, List.flatMap_append, List.flatMap_append, numberEvents_append, ih, List.map_append,
      List.flatMap_singleton, List.flatMap_singleton, Nat.zero_add, hsites, hlast]

theorem map_effect_performed (h : f.ReadIn c) : (c.performed f).map (·.effect) = f.effects := by
  have hsequence : (c.sequence f).map (fun r => (r.position, r.effect)) =
      sortByPosition (numberEvents 0 ((List.range f.bodyTokens.length).flatMap (c.eventsAt f))) := by
    rw [sortByPosition_eq, numberEvents_range, sequence, recorded]
    exact List.map_insertionSort _ _ _ _ fun _ _ _ _ => Iff.rfl
  have heffects := congrArg (List.map Prod.snd) hsequence
  rw [List.map_map] at heffects
  rw [h.effects, effectsOf, collapse_eq, ← heffects, performed]
  exact List.map_destutter fun _ _ _ _ => Iff.rfl

theorem mem_sequence : r ∈ c.sequence f ↔ r ∈ c.recorded f := List.mem_insertionSort _

theorem mem_recorded {i : Nat} (h : r ∈ c.recordedAt f i) : r ∈ c.recorded f := by
  obtain ⟨p, hp, -⟩ := List.mem_map.mp h
  obtain ⟨event, -, he, -⟩ := exists_event_of_mem_numberEvents hp
  exact List.mem_flatMap.mpr ⟨i, List.mem_range.mpr (lt_of_mem_eventsAt he), h⟩

theorem pairwise_sequence (c : Contract) (f : Function) :
    (c.sequence f).Pairwise fun a b => a.position ≤ b.position := by
  have : Std.Total fun a b : Recorded => a.position ≤ b.position := ⟨fun a b => Nat.le_total ..⟩
  have : IsTrans Recorded fun a b => a.position ≤ b.position := ⟨fun a b d => Nat.le_trans⟩
  exact List.pairwise_insertionSort _ _

/-- What takes place at increasing positions stands in sequence. -/
theorem sublist_sequence {part : List Recorded} (hmem : ∀ r ∈ part, r ∈ c.recorded f)
    (hpart : part.Pairwise fun a b => a.position < b.position) : part <+ c.sequence f :=
  sublist_of_pairwise (fun _ => Nat.le_refl _) (c.pairwise_sequence f) (fun r hr => mem_sequence.mpr (hmem r hr))
    (hpart.imp Nat.not_le.mpr)

/-- Behind a call the effects are what is left of what takes place behind it. -/
theorem performed_of_call {front after : List Recorded} (h : c.sequence f = front ++ r :: after)
    (hcall : r.effect.isCall = true) :
    c.performed f = front.destutter (fun a b => a.effect.repeats b.effect = false) ++
      after.destutter' (fun a b => a.effect.repeats b.effect = false) r := by
  rw [performed, h, destutter_append_cons fun y _ => Effect.not_repeats_of_isCall hcall y.effect,
    List.destutter_cons']

/-- What takes place behind a call, or an access that it repeats, is an effect behind the call. -/
theorem exists_performed_behind (hr : r ∈ c.recorded f) (hx : x ∈ c.recorded f) (hcall : r.effect.isCall = true)
    (h : r.position < x.position) :
    ∃ k, [r, k] <+ c.performed f ∧ (k = x ∨ k.effect.repeats x.effect = true) := by
  have hpair : [r, x] <+ c.sequence f := sublist_sequence (by simp [hr, hx]) (List.pairwise_pair.mpr h)
  obtain ⟨front, after, hseq, hfront, hafter⟩ := List.cons_sublist_iff.mp hpair
  obtain ⟨start, mid, rfl⟩ := List.append_of_mem hfront
  rw [List.append_assoc, List.cons_append] at hseq
  have hmem : x ∈ r :: (mid ++ after) :=
    List.mem_cons_of_mem _ (List.mem_append_right _ (List.singleton_sublist.mp hafter))
  obtain ⟨k, hk, hkx⟩ := exists_mem_destutter' (R := fun a b : Recorded => a.effect.repeats b.effect = false) hmem
  obtain ⟨kept, hkept⟩ := exists_destutter'_eq_cons (R := fun a b : Recorded => a.effect.repeats b.effect = false)
    r (mid ++ after)
  rw [hkept] at hk
  refine ⟨k, ?_, hkx.imp id Bool.eq_true_of_not_eq_false⟩
  rw [performed_of_call hseq hcall, hkept]
  rcases List.mem_cons.mp hk with rfl | hk
  · -- The call stands for nothing but itself, and takes place earlier.
    rcases hkx with rfl | hkx
    · exact absurd h (Nat.lt_irrefl _)
    · rw [(Effect.not_isCall_of_repeats (Bool.eq_true_of_not_eq_false hkx)).1] at hcall
      cases hcall
  · exact ((List.singleton_sublist.mpr hk).cons_cons r).trans (List.sublist_append_right _ _)

/-- Two calls at increasing positions are effects in this order. -/
theorem pair_sublist_performed (hr : r ∈ c.recorded f) (hx : x ∈ c.recorded f) (hcall : r.effect.isCall = true)
    (hcall' : x.effect.isCall = true) (h : r.position < x.position) : [r, x] <+ c.performed f := by
  obtain ⟨k, hk, rfl | hkx⟩ := exists_performed_behind hr hx hcall h
  · exact hk
  · rw [(Effect.not_isCall_of_repeats hkx).2] at hcall'
    cases hcall'

/-- Something else takes place between two writes to the variable. -/
def WritesApart (c : Contract) (f : Function) (name : String) : Prop :=
  ∃ w x w', [w, x, w'] <+ c.sequence f ∧ w.effect.writes name = true ∧ x.effect.writes name = false ∧
    w'.effect.writes name = true

/-- Of the writes to a variable two are left exactly if something else takes place between two of them. -/
theorem two_le_countP_effects_iff (h : f.ReadIn c) (name : String) :
    2 ≤ f.effects.countP (·.writes name) ↔ c.WritesApart f name := by
  rw [← map_effect_performed h, List.countP_map]
  refine two_le_countP_destutter_iff (fun a b hab => ?_) fun a b ha hb hab => ?_
  · exact Effect.writes_of_repeats (Bool.eq_true_of_not_eq_false hab) name
  · rw [Effect.repeats_of_writes ha hb] at hab
    cases hab

end Contract

end ContractAudit
