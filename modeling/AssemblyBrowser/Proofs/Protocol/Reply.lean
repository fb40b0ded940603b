import AssemblyBrowser.Engine.Channel
import AssemblyBrowser.Proofs.Protocol
import AssemblyBrowser.Proofs.Text.Blank
/-!
Replies on the wire. A response has one object that reports it, and so have a member, a list of members
and a text. Main statement: what is read from a line on which the object of a response is printed, with
blanks around it, is the response, and the members or the text in its body are those that were put there.
-/
namespace AssemblyBrowser

/-! ## What is printed -/

namespace Member

/-- The object that describes a member. A token that is not known is left out. -/
def toFields (m : Member) : Fields :=
  [("key", .text m.key), ("name", .text m.name), ("kind", .text m.kind.name)] ++
    m.token.toList.map fun n => ("token", .integer n)

def toJson (m : Member) : Json := .object m.toFields

/-- The body of the answer to an enumeration. -/
def listBody (ms : List Member) : Fields := [("members", .array (ms.map toJson))]

/-- The body of the answer to a decompilation. -/
def codeBody (code : String) : Fields := [("code", .text code)]

end Member

namespace Response

/-- What the error object of a failure holds. -/
def failureFields (code : Option String) (message : String) : Fields :=
  (code.toList.map fun c => ("code", .text c)) ++ [("message", .text message)]

/-- The object that reports a response. -/
def toFields (r : Response) : Fields :=
  match r.answer with
  | .success body => [("id", .integer r.id), ("success", .bool true), ("body", .object body)]
  | .failure code message =>
    [("id", .integer r.id), ("success", .bool false),
      ("error", .object (failureFields code message))]

def toJson (r : Response) : Json := .object r.toFields

/-- A failure says something: neither its code nor its message is an empty text. -/
def SaysWhy (r : Response) : Prop :=
  ∀ code message, r.answer = .failure code message → code ≠ some "" ∧ message ≠ ""

end Response

/-! ## What is read -/

theorem MemberKind.ofName?_name (k : MemberKind) : ofName? k.name = some k := by
  cases k <;> rfl

namespace Member

/-- A member that has a key is read from its object. -/
theorem ofJson_toJson {m : Member} (h : m.key ≠ "") : ofJson m.toJson = .ok m := by
  obtain ⟨key, name, kind, token⟩ := m
  have hkey : ¬key = "" := h
  cases token <;>
    simp [ofJson, toJson, toFields, Assoc.find?, Json.integer, kindOf?, tokenOf?, hkey,
      MemberKind.ofName?_name]

theorem listOfBody_listBody {ms : List Member} (h : ∀ m ∈ ms, m.key ≠ "") :
    listOfBody (listBody ms) = .ok ms := by
  have hread : (ms.map toJson).mapM ofJson = .ok ms := by
    induction ms with
    | nil => rfl
    | cons m ms ih =>
      obtain ⟨hm, hms⟩ := List.forall_mem_cons.mp h
      rw [List.map_cons, List.mapM_cons, ofJson_toJson hm, ih hms]
      rfl
  exact hread

theorem codeOfBody_codeBody (code : String) : codeOfBody (codeBody code) = .ok code := rfl

end Member

namespace Response

theorem failureText?_code {code : Option String} (h : code ≠ some "") (message : String) :
    failureText? (failureFields code message) "code" = code := by
  cases code with
  | none => simp [failureText?, failureFields, Assoc.find?]
  | some c =>
    have hc : ¬c = "" := fun e => h (congrArg some e)
    simp [failureText?, failureFields, Assoc.find?, Json.plain, hc]

theorem failureText?_message (code : Option String) {message : String} (h : message ≠ "") :
    failureText? (failureFields code message) "message" = some message := by
  cases code <;> simp [failureText?, failureFields, Assoc.find?, Json.plain, h]

/-- A response is read from its object. -/
theorem ofMessage_toFields {r : Response} (h : r.SaysWhy) : ofMessage r.toFields = .ok r := by
  obtain ⟨id, answer⟩ := r
  cases answer with
  | success body => simp [ofMessage, toFields, id?, Assoc.find?, Json.integer]
  | failure code message =>
    obtain ⟨hcode, hmessage⟩ := h code message rfl
    simp [ofMessage, toFields, id?, Assoc.find?, Json.integer, failureText?_code hcode,
      failureText?_message code hmessage]

theorem not_isEvent_toFields (r : Response) : isEvent r.toFields = false := by
  obtain ⟨id, answer⟩ := r
  cases answer <;> simp [isEvent, toFields, Assoc.find?]

end Response

/-! ## From line to reply -/

/-- The braces of a printed object are its ends. -/
theorem Json.print_object_bare (l : Json.Layout) (fields : Fields) :
    Text.Bare Text.isBlank ((Json.object fields).print l).toList := by
  have hends : ∃ inside, Json.Printer.value l 0 (.object fields) = '{' :: (inside ++ ['}']) := by
    cases fields with
    | nil => exact ⟨[], rfl⟩
    | cons e fields =>
      obtain ⟨key, x⟩ := e
      exact ⟨_, rfl⟩
  obtain ⟨inside, heq⟩ := hends
  have hlast : ('{' :: (inside ++ ['}'])).getLast? = some '}' := by
    rw [← List.cons_append, List.getLast?_concat]
  rw [Json.print, String.toList_ofList, heq]
  constructor
  · intro c hc
    obtain rfl : '{' = c := Option.some.inj hc
    rfl
  · intro c hc
    obtain rfl : '}' = c := Option.some.inj (hlast.symm.trans hc)
    rfl

/-- An object printed on a line is read from it, with blanks around it or not. -/
theorem decodeLine_trim_print (l : Json.Layout) {fields : Fields}
    (h : (Json.object fields).isExact = true) {before behind : String}
    (hbefore : ∀ c ∈ before.toList, Text.isBlank c = true)
    (hbehind : ∀ c ∈ behind.toList, Text.isBlank c = true) :
    decodeLine (Text.trim (before ++ (Json.object fields).print l ++ behind)) = .ok fields := by
  have hprint : decodeLine ((Json.object fields).print l ++ "") = .ok fields :=
    decodeLine_print l h (by simp)
  rw [String.append_empty] at hprint
  have hne : (Json.object fields).print l ≠ "" := by
    intro hempty
    rw [hempty] at hprint
    cases hprint
  rw [Text.trim_append (Json.print_object_bare l fields) hne hbefore hbehind, hprint]

/-- A printed response is read as it is. -/
theorem Response.readLine_print {r : Response} (h : r.toJson.isExact = true) (hwhy : r.SaysWhy)
    (l : Json.Layout) {before behind : String}
    (hbefore : ∀ c ∈ before.toList, Text.isBlank c = true)
    (hbehind : ∀ c ∈ behind.toList, Text.isBlank c = true) :
    Channel.readLine (Text.trim (before ++ r.toJson.print l ++ behind)) = .ok (.response r) := by
  have hline := decodeLine_trim_print l h hbefore hbehind
  rw [Channel.readLine, toJson, hline]
  simp only [Channel.readMessage, not_isEvent_toFields, ofMessage_toFields hwhy, Bool.false_eq_true,
    if_false]

/-! ## What can be printed and read -/

theorem Json.isExactList_of_forall {xs : List Json} (h : ∀ x ∈ xs, x.isExact = true) :
    isExactList xs = true := by
  induction xs with
  | nil => rfl
  | cons x xs ih =>
    obtain ⟨hx, hxs⟩ := List.forall_mem_cons.mp h
    rw [isExactList, hx, ih hxs]
    rfl

theorem Member.isExact_toJson {m : Member} (h : ∀ n ∈ m.token, (Json.integer n).isExact = true) :
    m.toJson.isExact = true := by
  obtain ⟨key, name, kind, token⟩ := m
  cases token with
  | none => simp [toJson, toFields, Json.isExact, Json.isExactFields, Assoc.keys]
  | some n =>
    have hn : (Json.integer n).isExact = true := h n rfl
    simp [toJson, toFields, Json.isExact, Json.isExactFields, Assoc.keys, hn]

theorem Member.isExact_listBody {ms : List Member}
    (h : ∀ m ∈ ms, ∀ n ∈ m.token, (Json.integer n).isExact = true) :
    (Json.object (listBody ms)).isExact = true := by
  have hmembers : Json.isExactList (ms.map toJson) = true :=
    Json.isExactList_of_forall (List.forall_mem_map.mpr fun m hm => isExact_toJson (h m hm))
  simp [listBody, Json.isExact, Json.isExactFields, Assoc.keys, hmembers]

theorem Response.isExact_success {id : Int} {body : Fields}
    (hid : (Json.integer id).isExact = true) (hbody : (Json.object body).isExact = true) :
    (toJson ⟨id, .success body⟩).isExact = true := by
  simp only [toJson, toFields, Json.isExact, Json.isExactFields, hid, Bool.true_and, Bool.and_true]
    at hbody ⊢
  rw [hbody]
  simp [Assoc.keys]

/-- A line on which a response is printed, with blanks around it, is read as that response; and if its
body lists members that have keys, or holds a text, these members in their order, or that text, are
found in what is read. No floating-point number, no integer of more than 4300 digits and no field given
twice may stand in what is printed; the layout does not matter. -/
theorem Response.found_as_printed (l : Json.Layout) {before behind : String}
    (hbefore : ∀ c ∈ before.toList, Text.isBlank c = true)
    (hbehind : ∀ c ∈ behind.toList, Text.isBlank c = true) :
    (∀ r : Response, r.toJson.isExact = true → r.SaysWhy →
      Channel.readLine (Text.trim (before ++ r.toJson.print l ++ behind)) = .ok (.response r)) ∧
    (∀ (id : Int) (ms : List Member), (Json.integer id).isExact = true →
      (∀ m ∈ ms, m.key ≠ "" ∧ ∀ n ∈ m.token, (Json.integer n).isExact = true) →
      ∃ body, Channel.readLine (Text.trim
          (before ++ (toJson ⟨id, .success (Member.listBody ms)⟩).print l ++ behind)) =
            .ok (.response ⟨id, .success body⟩) ∧
        Member.listOfBody body = .ok ms) ∧
    (∀ (id : Int) (code : String), (Json.integer id).isExact = true →
      ∃ body, Channel.readLine (Text.trim
          (before ++ (toJson ⟨id, .success (Member.codeBody code)⟩).print l ++ behind)) =
            .ok (.response ⟨id, .success body⟩) ∧
        Member.codeOfBody body = .ok code) := by
  have hsuccess : ∀ id body, SaysWhy ⟨id, .success body⟩ := fun id body code message h => by cases h
  refine ⟨fun r h hwhy => readLine_print h hwhy l hbefore hbehind, ?_, ?_⟩
  · intro id ms hid hms
    have hbody := Member.isExact_listBody fun m hm => (hms m hm).2
    exact ⟨_, readLine_print (isExact_success hid hbody) (hsuccess _ _) l hbefore hbehind,
      Member.listOfBody_listBody fun m hm => (hms m hm).1⟩
  · intro id code hid
    have hbody : (Json.object (Member.codeBody code)).isExact = true := by
      simp [Member.codeBody, Json.isExact, Json.isExactFields, Assoc.keys]
    exact ⟨_, readLine_print (isExact_success hid hbody) (hsuccess _ _) l hbefore hbehind,
      Member.codeOfBody_codeBody code⟩

/-- A failure that quotes, members with and without tokens, and a text with line ends and a character
beyond the basic plane, between blanks of several kinds. -/
theorem Response.found_as_printed_between_blanks :
    let failure : Response := ⟨7, .failure (some "UnknownMember") "no \"é\"\x00"⟩
    let members : List Member := [⟨"N|T", "", .event, some (-3)⟩, ⟨"\\", "n", .nameSpace, none⟩]
    let text := "a\r\n\u2028😀"
    (∀ c ∈ " \t".toList, Text.isBlank c = true) ∧ (∀ c ∈ "\u2003\r\n".toList, Text.isBlank c = true) ∧
      Channel.readLine (Text.trim (" \t" ++ failure.toJson.print .spaced ++ "\u2003\r\n")) =
        .ok (.response failure) ∧
      (∃ body, Channel.readLine (Text.trim (" \t" ++
          (toJson ⟨-1, .success (Member.listBody members)⟩).print .spaced ++ "\u2003\r\n")) =
            .ok (.response ⟨-1, .success body⟩) ∧
        Member.listOfBody body = .ok members) ∧
      ∃ body, Channel.readLine (Text.trim (" \t" ++
          (toJson ⟨0, .success (Member.codeBody text)⟩).print .spaced ++ "\u2003\r\n")) =
            .ok (.response ⟨0, .success body⟩) ∧
        Member.codeOfBody body = .ok text := by
  intro failure members text
  have hbefore : ∀ c ∈ " \t".toList, Text.isBlank c = true := List.all_eq_true.mp (by decide)
  have hbehind : ∀ c ∈ "\u2003\r\n".toList, Text.isBlank c = true := List.all_eq_true.mp (by decide)
  obtain ⟨hresponse, hlist, hcode⟩ := Response.found_as_printed .spaced hbefore hbehind
  refine ⟨hbefore, hbehind, hresponse failure (by decide) ?_, hlist (-1) members (by decide) ?_,
    hcode 0 text (by decide)⟩
  · intro code message h
    cases h
    decide
  · decide

end AssemblyBrowser
