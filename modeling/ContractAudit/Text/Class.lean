/-!
# Character classes

A class of characters is a sorted list of closed ranges of code points. Membership walks the list
and stops at the first range that begins above the character, so common characters, which lie in
the first ranges, are decided after a few comparisons.
-/

namespace ContractAudit.Text

/-- Closed ranges of code points, in increasing order. -/
abbrev Ranges := List (Nat × Nat)

namespace Ranges

def contains : Ranges → Nat → Bool
  | [], _ => false
  | (lo, hi) :: rest, n =>
    bif Nat.blt n lo then false else bif Nat.ble n hi then true else contains rest n

theorem mem_of_contains {r : Ranges} {n : Nat} (h : r.contains n = true) :
    ∃ p ∈ r, p.1 ≤ n ∧ n ≤ p.2 := by
  induction r with
  | nil => cases h
  | cons p rest ih =>
    obtain ⟨lo, hi⟩ := p
    simp only [contains] at h
    cases hlo : Nat.blt n lo with
    | true => simp [hlo] at h
    | false =>
      have hlo' : lo ≤ n := by
        have : ¬ n < lo := by rw [← Nat.blt_eq, hlo]; simp
        omega
      cases hhi : Nat.ble n hi with
      | true => exact ⟨(lo, hi), by simp, hlo', Nat.ble_eq.mp hhi⟩
      | false =>
        simp only [hlo, hhi, cond_false] at h
        obtain ⟨q, hq, hn⟩ := ih h
        exact ⟨q, by simp [hq], hn⟩

end Ranges

end ContractAudit.Text
