import ContractAudit.Finding
import ContractAudit.Schema

/-!
# Findings and diagnostics from documents
-/

namespace ContractAudit

open Schema

def Location.schema : Schema Location :=
  record fun r =>
    Location.mk <$> required "contract" text r <*> optional "function" "" text r <*>
      optional "line" none (nullable whole) r <*> optional "file_path" "" text r

def Finding.schema : Schema Finding :=
  record fun r =>
    Finding.mk <$> optional "id" "" text r <*> required "title" text r <*>
      required "severity" (member Severity.ofWord? .notMember) r <*>
      required "description" text r <*> optional "impact" "" text r <*>
      optional "locations" [] (list Location.schema .notSequence) r <*>
      optional "recommendation" "" text r <*>
      optional "confidence" .heuristic (member Confidence.ofWord? .notMember) r <*>
      optional "vulnerability_class" "" text r <*> optional "detector_id" "" text r <*>
      optional "evidence" [] (list text .notSequence) r <*>
      optional "flags" [] (list text .notSequence) r <*>
      optional "economic_impact" none (nullable text) r <*>
      optional "poc_code" none (nullable text) r

def Diagnostic.schema : Schema Diagnostic :=
  record fun r =>
    Diagnostic.mk <$> required "code" (member DiagnosticCode.ofWord? .notMember) r <*>
      required "message" text r <*> optional "source" "" text r <*>
      optional "confidence" .heuristic (member Confidence.ofWord? .notMember) r

end ContractAudit
