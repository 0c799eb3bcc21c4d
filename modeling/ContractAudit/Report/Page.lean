import ContractAudit.Decimal.Layout
import ContractAudit.Report

/-!
# Reports as pages

A page is a list of fragments, each of them either markup, written as it is, or text, in which the
five characters that mean something in markup are replaced by their entities.
-/

namespace ContractAudit.Page

inductive Fragment where
  | markup (s : String)
  | text (s : String)
  deriving DecidableEq, Repr

def escapeChar : Char → List Char
  | '&' => "&amp;".toList
  | '<' => "&lt;".toList
  | '>' => "&gt;".toList
  | '"' => "&#34;".toList
  | '\'' => "&#39;".toList
  | c => [c]

def escape (s : String) : String := String.ofList (s.toList.flatMap escapeChar)

def Fragment.render : Fragment → String
  | markup s => s
  | text s => escape s

def render (page : List Fragment) : String := String.join (page.map (·.render))

open Fragment

def severityColor : Severity → String
  | .critical => "#dc2626"
  | .high => "#ea580c"
  | .medium => "#ca8a04"
  | .low => "#2563eb"
  | .informational => "#6b7280"

def severityTitle : Severity → String
  | .critical => "Critical"
  | .high => "High"
  | .medium => "Medium"
  | .low => "Low"
  | .informational => "Informational"

def riskColor (score : Float) : String :=
  if score ≥ 75.0 then "#dc2626"
  else if score ≥ 50.0 then "#ea580c"
  else if score ≥ 25.0 then "#ca8a04"
  else "#16a34a"

def style : String := String.join (List.map (· ++ "\n")
  ["  <style>",
   "    body \x7b font-family: -apple-system, \"Segoe UI\", Helvetica, Arial, sans-serif; " ++
     "margin: 2rem auto; max-width: 960px; color: #111827; \x7d",
   "    h1 \x7b margin-bottom: 0.25rem; \x7d",
   "    .score \x7b font-size: 2.5rem; font-weight: 700; \x7d",
   "    .summary td \x7b padding: 0.25rem 1rem 0.25rem 0; \x7d",
   "    .finding \x7b border: 1px solid #e5e7eb; border-left-width: 6px; border-radius: 6px; " ++
     "padding: 1rem; margin: 1rem 0; \x7d",
   "    .badge \x7b display: inline-block; color: #fff; border-radius: 4px; padding: 0 0.5rem; " ++
     "font-size: 0.8rem; text-transform: uppercase; \x7d",
   "    .meta \x7b color: #6b7280; font-size: 0.9rem; \x7d",
   "    pre \x7b background: #f3f4f6; padding: 0.75rem; overflow-x: auto; \x7d",
   "  </style>"])

def head (project : String) : List Fragment :=
  [markup "<!DOCTYPE html>\n<html lang=\"en\">\n<head>\n  <meta charset=\"utf-8\">\n  <title>",
   markup "xcaudit report: ", text project, markup "</title>\n", markup style,
   markup "</head>\n<body>\n"]

def summaryRow (s : Severity) (count : Nat) : List Fragment :=
  [markup ("\n    <tr><td><span class=\"badge\" style=\"background: " ++ severityColor s ++ "\">"),
   text s.word, markup "</span></td><td>", text (toString count), markup "</td></tr>\n    "]

def summary (project : String) (r : Report) : List Fragment :=
  [markup "  <h1>", text project, markup "</h1>\n",
   markup "  <p class=\"meta\">Cross-contract static analysis report</p>\n\n",
   markup ("  <p>Risk score: <span class=\"score\" style=\"color: " ++ riskColor r.riskScore ++ "\">"),
   text (NumberLayout.plain.text r.riskScore), markup "</span> / 100</p>\n\n",
   markup "  <table class=\"summary\">\n    <tr><td>Total findings</td><td>",
   text (toString r.summary.total), markup "</td></tr>\n    "] ++
  (r.summary.bySeverity.flatMap fun (s, n) => summaryRow s n) ++
  [markup "\n  </table>\n\n  "]

/-- A labelled paragraph, left out when the text is empty. -/
def paragraph (label value : String) : List Fragment :=
  if value.isEmpty then []
  else [markup ("<p><strong>" ++ label ++ ":</strong> "), text value, markup "</p>"]

def indent : Fragment := markup "\n      "

def evidenceList (evidence : List String) : List Fragment :=
  if evidence.isEmpty then []
  else
    [markup "\n      <ul>"] ++
    (evidence.flatMap fun e => [markup "<li>", text e, markup "</li>"]) ++
    [markup "</ul>\n      "]

def findingBlock (f : Finding) : List Fragment :=
  [markup ("\n    <div class=\"finding\" style=\"border-left-color: " ++ severityColor f.severity ++
      "\">\n      <h3>"),
   text f.id, markup ": ", text f.title, markup "</h3>\n      <p class=\"meta\">",
   text ((f.primaryLocation?.map (·.label)).getD ""), markup " &middot; confidence: ",
   text f.confidence.word] ++
  (if f.flags.isEmpty then []
    else [markup " &middot; ", text (String.intercalate ", " f.flags)]) ++
  [markup "</p>\n      <p>", text f.description, markup "</p>"] ++
  [indent] ++ paragraph "Impact" f.impact ++
  [indent] ++ paragraph "Economic impact" (f.economicImpact.getD "") ++
  [indent] ++ paragraph "Recommendation" f.recommendation ++
  [indent] ++ evidenceList f.evidence ++
  [indent] ++
  (match f.pocCode with
    | some code => if code.isEmpty then [] else [markup "<pre>", text code, markup "</pre>"]
    | none => []) ++
  [markup "\n    </div>\n    "]

def severitySection (s : Severity) (fs : List Finding) : List Fragment :=
  [markup "\n    "] ++
  (if fs.isEmpty then []
    else
      [markup ("\n    <h2>" ++ severityTitle s ++ "</h2>\n    ")] ++ fs.flatMap findingBlock ++
      [markup "\n    "]) ++
  [markup "\n  "]

def diagnosticItem (d : Diagnostic) : List Fragment :=
  [markup "\n    <li><code>", text d.code.word, markup "</code> ", text d.source, markup ": ",
   text d.message, markup "</li>\n    "]

def diagnosticList (ds : List Diagnostic) : List Fragment :=
  if ds.isEmpty then []
  else
    [markup "\n  <h2>Diagnostics</h2>\n  <ul>\n    "] ++ ds.flatMap diagnosticItem ++
    [markup "\n  </ul>\n  "]

/-- The page of a report. -/
def ofReport (project : String) (r : Report) : List Fragment :=
  head project ++ summary project r ++
  (Severity.all.flatMap fun s => severitySection s (r.findings.filter (·.severity == s))) ++
  [markup "\n\n  "] ++ diagnosticList r.diagnostics ++ [markup "\n</body>\n</html>"]

def html (project : String) (r : Report) : String := render (ofReport project r)

end ContractAudit.Page
