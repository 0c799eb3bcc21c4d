import ContractAudit.Contract.Error

/-!
# Reading by position

The readers of contracts take a list of tokens apart from its front. Here they are set against readers that
hold a position in the list, look ahead of it and behind it under tests of their own, and jump. Each access
says whether anything stands at its position, and each loop whether its turn gets further. Where not, that is
a fault of the reader and no refusal of the source. Only its own tests keep such a reader from a fault; that
it agrees with the reader that takes the list apart says that the tests are enough.

A position is an integer, and `-1` stands for none. `Stands xs i before after` ties a position to the two
parts of the list at it. Loops are treated once, by `loop_spec`: it is enough to say what one turn does.
-/

namespace ContractAudit.Position

/-- What can go wrong in a reader, whatever its source. -/
inductive Fault where
  | outOfRange
  | emptyList
  | missing
  | stuck
  deriving DecidableEq, Repr

/-- Why a reader gives no result. -/
inductive Failure where
  | refused (error : ParseError)
  | fault (fault : Fault)
  deriving DecidableEq, Repr

abbrev Attempt (α : Type) : Type := Except Failure α

namespace Attempt

variable {α β : Type}

def refuse (e : ParseError) : Attempt α := .error (.refused e)

/-- What is there, or a fault. -/
def known (f : Fault) : Option α → Attempt α
  | some a => .ok a
  | none => .error (.fault f)

@[simp] theorem ok_bind (a : α) (f : α → Attempt β) : ((.ok a : Attempt α) >>= f) = f a := rfl

@[simp] theorem error_bind (e : Failure) (f : α → Attempt β) :
    ((.error e : Attempt α) >>= f) = .error e := rfl

@[simp] theorem pure_eq (a : α) : (pure a : Attempt α) = .ok a := rfl

@[simp] theorem known_some (f : Fault) (a : α) : known f (some a) = .ok a := rfl

theorem mapM_eq {xs : List α} {f : α → Attempt β} {g : α → β} (h : ∀ x ∈ xs, f x = .ok (g x)) :
    xs.mapM f = .ok (xs.map g) := by
  induction xs with
  | nil => rfl
  | cons x xs ih =>
    obtain ⟨hx, hxs⟩ := List.forall_mem_cons.mp h
    simp [List.mapM_cons, hx, ih hxs]

end Attempt

open Attempt

variable {α σ ρ : Type}

/-! ## Access -/

def elementAt (xs : List α) (i : Int) : Attempt α :=
  known .outOfRange (if i < 0 then none else xs[i.toNat]?)

def first (xs : List α) : Attempt α := known .emptyList xs.head?

def last (xs : List α) : Attempt α := known .emptyList xs.getLast?

/-- The elements from `i` on and before `j`; no bound may be negative. -/
def slice (xs : List α) (i j : Int) : Attempt (List α) :=
  known .outOfRange (if i < 0 ∨ j < 0 then none else some ((xs.take j.toNat).drop i.toNat))

theorem slice_natCast (xs : List α) (i j : Nat) : slice xs i j = .ok ((xs.take j).drop i) := by
  rw [slice, if_neg (by omega)]
  rfl

/-- The element at a position, asked for only if the guard holds. -/
def peek (guard : Bool) (xs : List α) (i : Int) : Attempt (Option α) :=
  if guard then do return some (← elementAt xs i) else return none

/-- A test of the element at a position, made only if the guard holds. -/
def test (guard : Bool) (xs : List α) (i : Int) (p : α → Bool) : Attempt Bool := do
  return ((← peek guard xs i).map p).getD false

@[simp] theorem test_false (xs : List α) (i : Int) (p : α → Bool) : test false xs i p = .ok false := rfl

/-! ## Loops -/

/-- What a turn of a loop decides. -/
inductive Turn (σ ρ : Type) where
  | again (s : σ)
  | done (r : ρ)

/-- Turns until one is the last. A turn that does not make the state smaller is a fault. -/
def loop (size : σ → Nat) (turn : σ → Attempt (Turn σ ρ)) (s : σ) : Attempt ρ :=
  match turn s with
  | .error e => .error e
  | .ok (.done r) => .ok r
  | .ok (.again s') =>
    if size s' < size s then loop size turn s' else .error (.fault .stuck)
termination_by size s

/-- What a turn may do from a state that stands at `k`: give a result that is right for `k`, or lead to a
smaller state that stands at some `k'` from where every right result is right for `k` too. -/
inductive Leads {ι : Type} (size : σ → Nat) (turn : σ → Attempt (Turn σ ρ)) (inv : ι → σ → Prop)
    (post : ι → Attempt ρ → Prop) (k : ι) (s : σ) : Prop where
  | done (r : ρ) (h : turn s = .ok (.done r)) (hr : post k (.ok r))
  | failed (e : Failure) (h : turn s = .error e) (he : post k (.error e))
  | again (s' : σ) (k' : ι) (h : turn s = .ok (.again s')) (hs : size s' < size s) (hi : inv k' s')
      (hr : ∀ r, post k' r → post k r)

theorem loop_spec {ι : Type} {size : σ → Nat} {turn : σ → Attempt (Turn σ ρ)} (inv : ι → σ → Prop)
    (post : ι → Attempt ρ → Prop) (hturn : ∀ k s, inv k s → Leads size turn inv post k s) (k : ι) {s : σ}
    (h : inv k s) : post k (loop size turn s) := by
  induction hn : size s using Nat.strongRecOn generalizing k s with
  | ind n ih =>
    rw [loop.eq_def]
    cases hturn k s h with
    | done r ht hr =>
      rw [ht]
      exact hr
    | failed e ht he =>
      rw [ht]
      exact he
    | again s' k' ht hs hi hr =>
      rw [ht]
      simp only [hs, ↓reduceIte]
      exact hr _ (ih _ (hn ▸ hs) k' hi rfl)

/-- How many elements stand at a position or behind it. -/
def ahead (xs : List α) (i : Int) : Nat := (xs.length - i).toNat

/-! ## Positions and lists -/

/-- The position `i` of a list stands between `before`, which is read from right to left, and `after`. -/
structure Stands (xs : List α) (i : Int) (before after : List α) : Prop where
  run : before.reverse ++ after = xs
  position : i = before.length

namespace Stands

variable {xs before before' after after' front : List α} {i j : Int} {x : α}

theorem start (xs : List α) : Stands xs 0 [] xs := ⟨rfl, rfl⟩

theorem next (h : Stands xs i before (x :: after)) : Stands xs (i + 1) (x :: before) after :=
  ⟨by simpa using h.run, by simp [h.position]⟩

theorem next_next {y : α} (h : Stands xs i before (x :: y :: after)) :
    Stands xs (i + 2) (y :: x :: before) after := by
  rw [show i + 2 = i + 1 + 1 by omega]
  exact h.next.next

theorem back (h : Stands xs i (x :: before) after) : Stands xs (i - 1) before (x :: after) :=
  ⟨by simpa using h.run, by simp [h.position]⟩

theorem advance (h : Stands xs i before (front ++ after)) :
    Stands xs (i + front.length) (front.reverse ++ before) after :=
  ⟨by simpa using h.run, by simp [h.position, Int.add_comm]⟩

theorem nonneg (h : Stands xs i before after) : 0 ≤ i := by
  rw [h.position]
  omega

theorem ne_none (h : Stands xs i before after) : i ≠ -1 := by
  have := h.nonneg
  omega

theorem length (h : Stands xs i before after) : (xs.length : Int) = i + after.length := by
  rw [← h.run, h.position]
  simp

theorem ahead_eq (h : Stands xs i before after) : ahead xs i = after.length := by
  have := h.length
  unfold ahead
  omega

theorem ahead_lt (h : Stands xs i before after) (h' : Stands xs j before' after')
    (hl : after'.length < after.length) : ahead xs j < ahead xs i := by
  rwa [h.ahead_eq, h'.ahead_eq]

theorem lt_iff (h : Stands xs i before after) : i < xs.length ↔ after ≠ [] := by
  have := h.length
  rw [← List.length_pos_iff]
  omega

theorem lt (h : Stands xs i before (x :: after)) : i < xs.length :=
  h.lt_iff.mpr (List.cons_ne_nil _ _)

theorem not_lt (h : Stands xs i before []) : ¬ i < xs.length := fun hi => h.lt_iff.mp hi rfl

theorem not_add_lt (h : Stands xs i before after) {n : Nat} (hn : after.length ≤ n) :
    ¬ i + n < xs.length := by
  have := h.length
  omega

theorem getElem?_eq (h : Stands xs i before after) : xs[i.toNat]? = after.head? := by
  have hi : i.toNat = before.reverse.length := by
    have := h.position
    rw [List.length_reverse]
    omega
  rw [← h.run, hi, List.getElem?_append_right (Nat.le_refl _), Nat.sub_self, List.head?_eq_getElem?]

theorem elementAt_eq (h : Stands xs i before (x :: after)) : elementAt xs i = .ok x := by
  have hi : ¬ i < 0 := by
    have := h.nonneg
    omega
  rw [elementAt, if_neg hi, h.getElem?_eq]
  rfl

theorem peek_eq (h : Stands xs i before after) : peek (i < xs.length) xs i = .ok after.head? := by
  cases after with
  | nil => simp [peek, h.not_lt]
  | cons x after => simp [peek, h.lt, h.elementAt_eq]

theorem peek_back (h : Stands xs i before after) : peek (0 < i) xs (i - 1) = .ok before.head? := by
  cases before with
  | nil => simp [peek, h.position]
  | cons x before =>
    have hi : 0 < i := by
      have := h.position
      rw [List.length_cons] at this
      omega
    simp [peek, hi, h.back.elementAt_eq]

theorem test_eq (h : Stands xs i before after) (p : α → Bool) :
    test (i < xs.length) xs i p = .ok ((after.head?.map p).getD false) := by
  rw [test, h.peek_eq]
  rfl

theorem test_back (h : Stands xs i before after) (p : α → Bool) :
    test (0 < i) xs (i - 1) p = .ok ((before.head?.map p).getD false) := by
  rw [test, h.peek_back]
  rfl

/-- A test whose guard holds, whatever it asks for. -/
theorem test_of_guard (h : Stands xs i before (x :: after)) {guard : Bool} (hg : guard = true)
    (p : α → Bool) : test guard xs i p = .ok (p x) := by
  simp [test, peek, hg, h.elementAt_eq]

/-- The elements between two positions. -/
theorem slice_eq (h : Stands xs i before after) (h' : Stands xs j (front.reverse ++ before) after') :
    slice xs i j = .ok front := by
  have hi : ¬ (i < 0 ∨ j < 0) := by
    have := h.nonneg
    have := h'.nonneg
    omega
  have hbefore : i.toNat = before.reverse.length := by
    have := h.position
    rw [List.length_reverse]
    omega
  have hfront : j.toNat = (before.reverse ++ front).length := by
    have := h'.position
    simp only [List.length_append, List.length_reverse] at *
    omega
  have hrun : xs = (before.reverse ++ front) ++ after' := by
    rw [← h'.run]
    simp
  rw [slice, if_neg hi, hbefore, hfront, hrun, List.take_left, List.drop_left]
  rfl

theorem slice_rest (h : Stands xs i before after) : slice xs i xs.length = .ok after := by
  have hend : Stands xs xs.length (after.reverse ++ before) [] :=
    ⟨by simpa using h.run, by rw [← h.run]; simp [Nat.add_comm]⟩
  exact h.slice_eq hend

end Stands

/-- The position that a search gives: the end of what it takes, or `-1` if it takes nothing. -/
def Finds (xs before : List α) (r : Attempt Int) : Option (List α × List α) → Prop
  | none => r = .ok (-1)
  | some (taken, rest) => ∃ j, r = .ok j ∧ Stands xs j (taken.reverse ++ before) rest

theorem finds_some {xs before : List α} {r : Attempt Int} {p : List α × List α} :
    Finds xs before r (some p) ↔ ∃ j, r = .ok j ∧ Stands xs j (p.1.reverse ++ before) p.2 := Iff.rfl

theorem finds_map {xs before : List α} {r : Attempt Int} {o : Option (List α × List α)} (front : List α) :
    Finds xs before r (o.map fun p => (front ++ p.1, p.2)) ↔ Finds xs (front.reverse ++ before) r o := by
  cases o with
  | none => rfl
  | some p => simp [Finds]

/-- What a reader gives from a position on, compared with one that takes the list apart: the same refusal, or
the same value and the position of the rest. -/
inductive Reads {β : Type} (xs : List α) : Attempt (β × Int) → Except ParseError (β × List α) → Prop where
  | refused (e : ParseError) : Reads xs (.error (.refused e)) (.error e)
  | read {b : β} {j : Int} {before rest : List α} (h : Stands xs j before rest) :
      Reads xs (.ok (b, j)) (.ok (b, rest))

theorem Reads.of_error {β : Type} {xs : List α} {r : Attempt (β × Int)} {e : ParseError}
    (h : Reads xs r (.error e)) : r = .error (.refused e) := by
  cases h
  rfl

theorem Reads.of_ok {β : Type} {xs rest : List α} {r : Attempt (β × Int)} {b : β}
    (h : Reads xs r (.ok (b, rest))) : ∃ j before, r = .ok (b, j) ∧ Stands xs j before rest := by
  cases h with
  | read h => exact ⟨_, _, rfl, h⟩

end ContractAudit.Position
