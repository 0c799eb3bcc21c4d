/-!
# Line ends
-/

namespace ContractAudit.Text

/-- Turns a carriage return, alone or before a newline, into a newline. -/
def normalizeLineEnds : List Char → List Char
  | [] => []
  | '\r' :: '\n' :: cs => '\n' :: normalizeLineEnds cs
  | c :: cs => (if c = '\r' then '\n' else c) :: normalizeLineEnds cs

theorem not_mem_normalizeLineEnds (cs : List Char) : '\r' ∉ normalizeLineEnds cs := by
  fun_induction normalizeLineEnds cs with
  | case1 => simp
  | case2 cs ih => simp [ih]
  | case3 c cs _ ih =>
    by_cases h : c = '\r' <;> simp [h, ih, Ne.symm]

end ContractAudit.Text
