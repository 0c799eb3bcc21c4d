import ContractAudit.Report.Page

/-!
# Texts of a report leave no marks on its page

The characters that open and close tags and attribute values come from the markup of a page alone: a text is
escaped, so it has none of them. `masked` forgets all free text of a report but whether it is empty, which is
all that the choice of fragments looks at. So a report and its masked form have the same marks on their pages.
-/

namespace ContractAudit

/-- Forgets a text but for whether it is empty. -/
def mask (s : String) : String := if s.isEmpty then "" else "*"

@[simp] theorem isEmpty_mask (s : String) : (mask s).isEmpty = s.isEmpty := by
  unfold mask
  cases h : s.isEmpty with
  | true => rfl
  | false => rfl

def Location.masked (l : Location) : Location :=
  { l with contract := mask l.contract, function := mask l.function, filePath := mask l.filePath }

def Finding.masked (f : Finding) : Finding :=
  { f with
    id := mask f.id
    title := mask f.title
    description := mask f.description
    impact := mask f.impact
    locations := f.locations.map (·.masked)
    recommendation := mask f.recommendation
    evidence := f.evidence.map mask
    flags := f.flags.map mask
    economicImpact := f.economicImpact.map mask
    pocCode := f.pocCode.map mask }

def Diagnostic.masked (d : Diagnostic) : Diagnostic :=
  { d with message := mask d.message, source := mask d.source }

/-- The report without its free texts. -/
def Report.masked (r : Report) : Report :=
  { r with findings := r.findings.map (·.masked), diagnostics := r.diagnostics.map (·.masked) }

namespace Page

/-- The characters that delimit tags and attribute values. -/
def isMark (c : Char) : Bool := c == '<' || c == '>' || c == '"' || c == '\''

/-- The marks in a text, in order. -/
def marks (s : String) : List Char := s.toList.filter isMark

/-! ## Marks of fragments -/

theorem filter_escapeChar (c : Char) : (escapeChar c).filter isMark = [] := by
  fun_cases escapeChar c with
  | case1 => decide
  | case2 => decide
  | case3 => decide
  | case4 => decide
  | case5 => decide
  | case6 c _ hlt hgt hquote hapostrophe =>
    simpa [isMark] using ⟨⟨⟨hlt, hgt⟩, hquote⟩, hapostrophe⟩

theorem marks_escape (s : String) : marks (escape s) = [] := by
  simp only [marks, escape, String.toList_ofList, List.filter_flatMap, List.flatMap_eq_nil_iff]
  exact fun c _ => filter_escapeChar c

theorem marks_append (s t : String) : marks (s ++ t) = marks s ++ marks t := by
  simp [marks]

/-- A page without the contents of its texts. -/
def skeleton : List Fragment → List Fragment
  | [] => []
  | .markup s :: page => .markup s :: skeleton page
  | .text _ :: page => .text "" :: skeleton page

@[simp] theorem skeleton_nil : skeleton [] = [] := rfl

@[simp] theorem skeleton_markup (s : String) (page : List Fragment) :
    skeleton (.markup s :: page) = .markup s :: skeleton page := rfl

@[simp] theorem skeleton_text (s : String) (page : List Fragment) :
    skeleton (.text s :: page) = .text "" :: skeleton page := rfl

@[simp] theorem skeleton_append (page page' : List Fragment) :
    skeleton (page ++ page') = skeleton page ++ skeleton page' := by
  induction page with
  | nil => rfl
  | cons f page ih =>
    cases f with
    | markup s => simp [ih]
    | text s => simp [ih]

theorem skeleton_flatMap {α : Type} (xs : List α) (f : α → List Fragment) :
    skeleton (xs.flatMap f) = xs.flatMap fun x => skeleton (f x) := by
  induction xs with
  | nil => rfl
  | cons x xs ih => simp [ih]

/-- The marks of a page come from its markup. -/
theorem marks_render (page : List Fragment) : marks (render page) = marks (render (skeleton page)) := by
  have hcons : ∀ f page, render (f :: page) = f.render ++ render page := by
    intro f page
    simp [render]
  induction page with
  | nil => rfl
  | cons f page ih =>
    cases f with
    | markup s => rw [skeleton_markup, hcons, hcons, marks_append, marks_append, ih]
    | text s =>
      rw [skeleton_text, hcons, hcons, marks_append, marks_append, ih, Fragment.render, Fragment.render,
        marks_escape, marks_escape]

/-! ## Masking a text leaves the skeleton -/

theorem skeleton_paragraph_mask (label value : String) :
    skeleton (paragraph label (mask value)) = skeleton (paragraph label value) := by
  unfold paragraph
  rw [isEmpty_mask]
  split
  · rfl
  · rfl

theorem skeleton_evidenceList_mask (evidence : List String) :
    skeleton (evidenceList (evidence.map mask)) = skeleton (evidenceList evidence) := by
  unfold evidenceList
  rw [List.isEmpty_map]
  split
  · rfl
  · simp [skeleton_flatMap, List.flatMap_map]

theorem skeleton_findingBlock_masked (f : Finding) :
    skeleton (findingBlock f.masked) = skeleton (findingBlock f) := by
  have heconomic : (f.economicImpact.map mask).getD "" = mask (f.economicImpact.getD "") := by
    cases f.economicImpact with
    | none => rfl
    | some s => rfl
  cases hcode : f.pocCode <;>
    simp only [findingBlock, Finding.masked, skeleton_append, skeleton_markup, skeleton_text, skeleton_nil,
      heconomic, skeleton_paragraph_mask, skeleton_evidenceList_mask, apply_ite skeleton, List.isEmpty_map,
      hcode, Option.map_none, Option.map_some, isEmpty_mask]

theorem skeleton_severitySection_masked (s : Severity) (fs : List Finding) :
    skeleton (severitySection s (fs.map (·.masked))) = skeleton (severitySection s fs) := by
  simp only [severitySection, skeleton_append, List.isEmpty_map]
  split
  · rfl
  · simp [skeleton_flatMap, List.flatMap_map, skeleton_findingBlock_masked]

theorem skeleton_diagnosticList_masked (ds : List Diagnostic) :
    skeleton (diagnosticList (ds.map (·.masked))) = skeleton (diagnosticList ds) := by
  have hitem : ∀ d : Diagnostic, skeleton (diagnosticItem d.masked) = skeleton (diagnosticItem d) :=
    fun _ => rfl
  simp only [diagnosticList, List.isEmpty_map]
  split
  · rfl
  · simp [skeleton_flatMap, List.flatMap_map, hitem]

theorem filter_severity_masked (s : Severity) (fs : List Finding) :
    (fs.map (·.masked)).filter (·.severity == s) = (fs.filter (·.severity == s)).map (·.masked) :=
  List.filter_map

/-- The page of a report and that of its masked form differ in their texts only. -/
theorem skeleton_ofReport_masked (project : String) (r : Report) :
    skeleton (ofReport (mask project) r.masked) = skeleton (ofReport project r) := by
  have hhead : skeleton (head (mask project)) = skeleton (head project) := rfl
  have hsummary : skeleton (summary (mask project) r.masked) = skeleton (summary project r) := by
    simp only [summary, skeleton_append]
    rfl
  have hfindings : ∀ s, skeleton (severitySection s (r.masked.findings.filter (·.severity == s))) =
      skeleton (severitySection s (r.findings.filter (·.severity == s))) := by
    intro s
    rw [Report.masked, filter_severity_masked, skeleton_severitySection_masked]
  have hdiagnostics : skeleton (diagnosticList r.masked.diagnostics) = skeleton (diagnosticList r.diagnostics) :=
    skeleton_diagnosticList_masked r.diagnostics
  simp only [ofReport, skeleton_append, skeleton_flatMap, hhead, hsummary, hfindings, hdiagnostics]

/-- Two reports that differ only in their free texts, and in none of them by one being empty and the other
not, have the same marks on their pages. -/
theorem html_marks_eq {project project' : String} {r r' : Report} (hproject : mask project = mask project')
    (hreport : r.masked = r'.masked) : marks (html project r) = marks (html project' r') := by
  have hskeleton : skeleton (ofReport project r) = skeleton (ofReport project' r') := by
    rw [← skeleton_ofReport_masked project r, hproject, hreport, skeleton_ofReport_masked]
  rw [html, html, marks_render, hskeleton, ← marks_render]

/-- A report on one function, with a given text wherever free text stands that is not empty. -/
def reportOf (text : String) : Report where
  findings :=
    [{ id := text
       title := text
       severity := .high
       description := text
       locations := [{ contract := text, function := text, line := some 3 }]
       evidence := [text, ""]
       flags := [text]
       economicImpact := some ""
       pocCode := some text }]
  riskScore := 50.0
  summary := ⟨1, [(.high, 1)]⟩
  diagnostics := [{ code := .parseWarning, message := text }]
  metadata := []

/-- A text that tries to close what it stands in and to run a script. -/
def injection : String := "\"'></code><script>alert(1)</script>"

theorem html_marks_eq_injection :
    mask "Vault" = mask injection ∧ (reportOf "Vault").masked = (reportOf injection).masked ∧
      marks (html "Vault" (reportOf "Vault")) = marks (html injection (reportOf injection)) :=
  ⟨rfl, rfl, html_marks_eq rfl rfl⟩

end Page

end ContractAudit
