import AssemblyBrowser.Protocol.Message
import AssemblyBrowser.Proofs.Json.RoundTrip
/-!
Messages on the wire. Main statement: a request is one line of printable ASCII, and what is read from
the line is the request.
-/
namespace AssemblyBrowser

open Json.Parser (isSpace document_print)

theorem Request.isExact_toJson {r : Request} (hid : (Json.integer r.id).isExact = true)
    (harguments : (Json.object r.arguments).isExact = true) : r.toJson.isExact = true := by
  have hkeys (id command arguments : Json) :
      (Assoc.keys [("id", id), ("command", command), ("arguments", arguments)]).Nodup := by
    simp [Assoc.keys]
  simp only [toJson, Json.isExact, Json.isExactFields, hkeys, hid, decide_true, Bool.true_and,
    Bool.and_true]
  exact harguments

/-- A printed object is read from its line, with blanks behind it or not. -/
theorem decodeLine_print (l : Json.Layout) {fields : Fields}
    (h : (Json.object fields).isExact = true) {behind : String}
    (hbehind : ∀ c ∈ behind.toList, isSpace c = true) :
    decodeLine ((Json.object fields).print l ++ behind) = .ok fields := by
  have hdocument : Json.Parser.document ([] ++ (Json.Printer.value l 0 (.object fields) ++
      behind.toList)) = .ok (.object fields) := document_print h (by simp) hbehind
  rw [decodeLine, Json.parse, Json.print, String.toList_append, String.toList_ofList]
  rw [List.nil_append] at hdocument
  rw [hdocument]

/-- A request whose arguments hold no floating-point number, no integer of more than 4300 digits and no
field twice is written as printable ASCII and one line end. With the line end or without it, the line is
read as the object of the id, the command and the arguments. -/
theorem Request.decodeLine_encode (r : Request) (hid : (Json.integer r.id).isExact = true)
    (harguments : (Json.object r.arguments).isExact = true) :
    ∃ line, r.encode = line ++ "\n" ∧
      (∀ c ∈ line.toList, 0x20 ≤ c.toNat ∧ c.toNat ≤ 0x7E) ∧
      decodeLine line = .ok [("id", .integer r.id), ("command", .text r.command.name),
        ("arguments", .object r.arguments)] ∧
      decodeLine (line ++ "\n") = .ok [("id", .integer r.id), ("command", .text r.command.name),
        ("arguments", .object r.arguments)] := by
  have hexact := isExact_toJson hid harguments
  refine ⟨r.toJson.print .compact, rfl, ?_, ?_, ?_⟩
  · rw [Json.print, String.toList_ofList]
    exact (Json.Printer.line (by simp)).holds r.toJson hexact 0
  · have hnone : ∀ c ∈ "".toList, isSpace c = true := by simp
    have hline := decodeLine_print .compact hexact hnone
    rwa [String.append_empty] at hline
  · have hend : ∀ c ∈ "\n".toList, isSpace c = true := List.forall_mem_singleton.mpr rfl
    exact decodeLine_print .compact hexact hend

/-- A quote, a backslash, control characters, the line separator U+2028 and a character beyond the basic
plane, inside nested values. -/
theorem Request.decodeLine_encode_escapes :
    ∃ line, Request.encode ⟨7, .decompile, [("key", .text "\"\\\n\x00\u2028😀"),
        ("list", .array [.null, .object [("", .bool true)], .integer (-12)])]⟩ = line ++ "\n" ∧
      (∀ c ∈ line.toList, 0x20 ≤ c.toNat ∧ c.toNat ≤ 0x7E) ∧
      decodeLine line = .ok [("id", .integer 7), ("command", .text "decompile"),
        ("arguments", .object [("key", .text "\"\\\n\x00\u2028😀"),
          ("list", .array [.null, .object [("", .bool true)], .integer (-12)])])] ∧
      decodeLine (line ++ "\n") = .ok [("id", .integer 7), ("command", .text "decompile"),
        ("arguments", .object [("key", .text "\"\\\n\x00\u2028😀"),
          ("list", .array [.null, .object [("", .bool true)], .integer (-12)])])] :=
  Request.decodeLine_encode ⟨7, .decompile, _⟩ (by decide) (by decide)

end AssemblyBrowser
