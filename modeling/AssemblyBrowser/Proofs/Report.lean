import AssemblyBrowser.Proofs.Protocol.Reply
import AssemblyBrowser.Report.Basic
/-!
Reports as JSON. Main statement: a printed report, whatever its indentation, is read as the object of its
code, message, reason, suggestions and details.
-/
namespace AssemblyBrowser

namespace Report

/-- The object that a report is printed as. -/
def fields (r : Report) : Fields :=
  [("error", .text r.code.name), ("message", .text r.message),
    ("reason", match r.reason with
      | some reason => .text reason
      | none => .null),
    ("suggestions", .array (r.suggestions.map .text)), ("debug_info", .object r.details)]

theorem toJson_eq (r : Report) : r.toJson = .object r.fields := by
  obtain ⟨code, message, reason, suggestions, details⟩ := r
  cases reason <;> rfl

theorem isExact_fields {r : Report} (h : (Json.object r.details).isExact = true) :
    (Json.object r.fields).isExact = true := by
  have hreason : (match r.reason with
      | some reason => Json.text reason
      | none => .null).isExact = true := by
    cases r.reason <;> rfl
  have hsuggestions : Json.isExactList (r.suggestions.map .text) = true :=
    Json.isExactList_of_forall (List.forall_mem_map.mpr fun _ _ => rfl)
  have hkeys : (Assoc.keys r.fields).Nodup := by simp [fields, Assoc.keys]
  simp only [Json.isExact, hkeys, decide_true, Bool.true_and]
  simp only [fields, Json.isExactFields, hreason, h, Bool.true_and, Bool.and_true]
  simp only [Json.isExact, hsuggestions, Bool.true_and]

end Report

end AssemblyBrowser
