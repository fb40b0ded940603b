import AssemblyBrowser.Proofs.OrderedMap
import AssemblyBrowser.Proofs.Protocol.Description
/-!
Null and absence in what the engine sends. Main statement: a null token counts as no token, whatever
else a description holds; a null body, a null code of a failure and a null message of a failure never
count as absent in a reply that is read as far as them.
-/
namespace AssemblyBrowser

/-- A field that is changed and one that is missing make no difference for the others. -/
theorem Assoc.find?_put_eq_erase {key key' : String} (h : key' ≠ key) (v : Json) (fields : Fields) :
    find? key' (put key v fields) = find? key' (erase key fields) := by
  rw [find?_put_ne h, find?_erase, if_neg h]

/-! ## Tokens -/

namespace Member

theorem ofJson_null_token (fields : Fields) :
    ofJson (.object (Assoc.put "token" .null fields)) =
      ofJson (.object (Assoc.erase "token" fields)) := by
  refine ofJson_congr (Assoc.find?_put_eq_erase (by decide) _ _)
    (Assoc.find?_put_eq_erase (by decide) _ _) (Assoc.find?_put_eq_erase (by decide) _ _) ?_
  rw [Assoc.find?_put_self, Assoc.find?_erase, if_pos rfl]
  rfl

theorem token_of_erase {fields : Fields} {m : Member}
    (h : ofJson (.object (Assoc.erase "token" fields)) = .ok m) : m.token = none := by
  obtain ⟨fields', hfields, -, -, -, -, htoken⟩ := ofJson_eq_ok.mp h
  obtain rfl := Json.object.inj hfields
  rw [Assoc.find?_erase, if_pos rfl] at htoken
  exact Option.some.inj ((tokenOf?_eq_some.mpr htoken).symm)

end Member

/-! ## Parts of replies -/

namespace Response

/-- The parts of a reply that may be missing: the body of a success, the code and the message of a
failure. -/
inductive Part
  | body
  | code
  | message
deriving DecidableEq, Repr

namespace Part

def name : Part → String
  | .body => "body"
  | .code => "code"
  | .message => "message"

/-- The field of a reply that a part is or lies in. -/
def field : Part → String
  | .body => "body"
  | .code | .message => "error"

/-- Changes the object that a part stands in: the reply itself, or its error if that is an object. -/
def edit (p : Part) (change : Fields → Fields) (reply : Fields) : Fields :=
  match p with
  | .body => change reply
  | .code | .message =>
    match Assoc.find? "error" reply with
    | some (.object error) => Assoc.put "error" (.object (change error)) reply
    | _ => reply

/-- The reply without the part. -/
def without (p : Part) (reply : Fields) : Fields := p.edit (Assoc.erase p.name) reply

/-- The reply with null for the part. -/
def withNull (p : Part) (reply : Fields) : Fields := p.edit (Assoc.put p.name .null) reply

/-- A reply is read as far as the part: it has an id, and it reports a success, or a failure with an error
object. -/
def IsRead (p : Part) (reply : Fields) : Prop :=
  (id? reply).isSome ∧
    match p with
    | .body => Assoc.find? "success" reply = some (.bool true)
    | .code | .message =>
      Assoc.find? "success" reply = some (.bool false) ∧
        ∃ error, Assoc.find? "error" reply = some (.object error)

/-- What an answer has for the part when it is missing. -/
def IsDefault (p : Part) (answer : Answer) : Prop :=
  match p with
  | .body => answer = .success []
  | .code => ∃ text, answer = .failure none text
  | .message => ∃ code?, answer = .failure code? defaultFailure

/-- What becomes of a reply that lacks the part when the part is null. -/
def misread (p : Part) (r : Response) : Except ProtocolError Response :=
  match p, r.answer with
  | .code, .failure _ text => .ok ⟨r.id, .failure (some "None") text⟩
  | .message, .failure code? _ => .ok ⟨r.id, .failure code? "None"⟩
  | _, _ => .error .bodyNotObject

/-- The other two parts lie in the error. -/
theorem of_ne_body {p : Part} (hp : p ≠ .body) : p = .code ∨ p = .message := by
  cases p with
  | body => exact absurd rfl hp
  | code => exact .inl rfl
  | message => exact .inr rfl

theorem field_of_ne_body {p : Part} (hp : p ≠ .body) : p.field = "error" := by
  rcases of_ne_body hp with rfl | rfl <;> rfl

theorem isRead_of_ne_body {p : Part} (hp : p ≠ .body) (reply : Fields) :
    p.IsRead reply ↔ (id? reply).isSome ∧ Assoc.find? "success" reply = some (.bool false) ∧
      ∃ error, Assoc.find? "error" reply = some (.object error) := by
  rcases of_ne_body hp with rfl | rfl <;> rfl

theorem edit_of_error {p : Part} (hp : p ≠ .body) {reply error : Fields}
    (h : Assoc.find? "error" reply = some (.object error)) (change : Fields → Fields) :
    p.edit change reply = Assoc.put "error" (.object (change error)) reply := by
  rcases of_ne_body hp with rfl | rfl <;> simp only [edit, h]

theorem edit_of_no_error {p : Part} (hp : p ≠ .body) {reply : Fields}
    (h : ¬∃ error, Assoc.find? "error" reply = some (.object error)) (change : Fields → Fields) :
    p.edit change reply = reply := by
  have hsame : (match Assoc.find? "error" reply with
      | some (.object error) => Assoc.put "error" (.object (change error)) reply
      | _ => reply) = reply := by
    split
    · rename_i error herror
      exact absurd ⟨error, herror⟩ h
    · rfl
  rcases of_ne_body hp with rfl | rfl <;> exact hsame

/-- A change of the object that a part stands in leaves the other fields of the reply. -/
theorem find?_edit {p : Part} {change : Fields → Fields}
    (hchange : ∀ fields key, key ≠ p.name → Assoc.find? key (change fields) = Assoc.find? key fields)
    (reply : Fields) {key : String} (hkey : key ≠ p.field) :
    Assoc.find? key (p.edit change reply) = Assoc.find? key reply := by
  by_cases hp : p = .body
  · subst hp
    exact hchange reply key hkey
  · by_cases herror : ∃ error, Assoc.find? "error" reply = some (.object error)
    · obtain ⟨error, herror⟩ := herror
      rw [edit_of_error hp herror]
      exact Assoc.find?_put_ne (field_of_ne_body hp ▸ hkey) _ _
    · rw [edit_of_no_error hp herror]

theorem find?_without (p : Part) (reply : Fields) {key : String} (hkey : key ≠ p.field) :
    Assoc.find? key (p.without reply) = Assoc.find? key reply :=
  find?_edit (fun fields _ h => by rw [Assoc.find?_erase, if_neg h]) reply hkey

theorem find?_withNull (p : Part) (reply : Fields) {key : String} (hkey : key ≠ p.field) :
    Assoc.find? key (p.withNull reply) = Assoc.find? key reply :=
  find?_edit (fun fields _ h => Assoc.find?_put_ne h .null fields) reply hkey

theorem field_ne_id (p : Part) : "id" ≠ p.field := by cases p <;> decide

theorem field_ne_success (p : Part) : "success" ≠ p.field := by cases p <;> decide

end Part

/-! ## What replies are read from -/

theorem id?_congr {reply reply' : Fields} (h : Assoc.find? "id" reply = Assoc.find? "id" reply') :
    id? reply = id? reply' := by
  rw [id?, h, id?]

/-- A reply is read from its id, its success and, as that says, from its body or its error. -/
theorem ofMessage_congr {reply reply' : Fields}
    (hid : Assoc.find? "id" reply = Assoc.find? "id" reply')
    (hsuccess : Assoc.find? "success" reply = Assoc.find? "success" reply')
    (hbody : Part.body.IsRead reply → Assoc.find? "body" reply = Assoc.find? "body" reply')
    (herror : (id? reply).isSome → Assoc.find? "success" reply = some (.bool false) →
      Assoc.find? "error" reply = Assoc.find? "error" reply') :
    ofMessage reply = ofMessage reply' := by
  simp only [ofMessage, ← id?_congr hid, ← hsuccess]
  split
  · rfl
  · rename_i id hsome
    have hsome : (id? reply).isSome := by rw [hsome, Option.isSome_some]
    split
    · rename_i h
      rw [hbody ⟨hsome, h⟩]
    · rename_i h
      rw [herror hsome h]
    · rfl

theorem ofMessage_of_failure {reply error : Fields} {id : Int} (hid : id? reply = some id)
    (hsuccess : Assoc.find? "success" reply = some (.bool false))
    (herror : Assoc.find? "error" reply = some (.object error)) :
    ofMessage reply = .ok ⟨id, .failure (failureText? error "code")
      ((failureText? error "message").getD defaultFailure)⟩ := by
  simp only [ofMessage, hid, hsuccess, herror]

theorem failureText?_put_null (error : Fields) (key : String) :
    failureText? (Assoc.put key .null error) key = some "None" := by
  simp [failureText?, Json.plain, Json.display]

theorem failureText?_erase (error : Fields) (key : String) :
    failureText? (Assoc.erase key error) key = none := by
  simp [failureText?, Assoc.find?_erase]

/-- What a failure says at one key does not depend on whether another key is null or missing. -/
theorem failureText?_put_null_ne {key key' : String} (h : key' ≠ key) (error : Fields) :
    failureText? (Assoc.put key .null error) key' = failureText? (Assoc.erase key error) key' := by
  rw [failureText?, failureText?, Assoc.find?_put_eq_erase h]

/-! ## Null and absence -/

namespace Part

/-- A failure with an error object is read from that object, whatever is changed in it. -/
theorem ofMessage_edit {p : Part} (hp : p ≠ .body) {reply error : Fields} {id : Int}
    (hid : id? reply = some id) (hsuccess : Assoc.find? "success" reply = some (.bool false))
    (herror : Assoc.find? "error" reply = some (.object error)) (change : Fields → Fields) :
    ofMessage (p.edit change reply) = .ok ⟨id, .failure (failureText? (change error) "code")
      ((failureText? (change error) "message").getD defaultFailure)⟩ := by
  rw [edit_of_error hp herror]
  refine ofMessage_of_failure ?_ ?_ (Assoc.find?_put_self _ _ _)
  · rw [← hid]
    exact id?_congr (Assoc.find?_put_ne (by decide) _ _)
  · rw [← hsuccess]
    exact Assoc.find?_put_ne (by decide) _ _

/-- In a reply that is read as far as a part, absence is the default and null is misread. -/
theorem misread_of_isRead {p : Part} {reply : Fields} (h : p.IsRead reply) :
    ∃ r, ofMessage (p.without reply) = .ok r ∧ p.IsDefault r.answer ∧
      ofMessage (p.withNull reply) = p.misread r := by
  obtain ⟨hsome, hpart⟩ := h
  obtain ⟨id, hid⟩ := Option.isSome_iff_exists.mp hsome
  cases p with
  | body =>
    have hid₁ : id? (without .body reply) = some id := by
      rw [← hid]; exact id?_congr (find?_without _ _ (field_ne_id _))
    have hid₂ : id? (withNull .body reply) = some id := by
      rw [← hid]; exact id?_congr (find?_withNull _ _ (field_ne_id _))
    have hsuccess₁ := (find?_without .body reply (field_ne_success _)).trans hpart
    have hsuccess₂ := (find?_withNull .body reply (field_ne_success _)).trans hpart
    have hnone : Assoc.find? "body" (without .body reply) = none := by
      simp [without, edit, name, Assoc.find?_erase]
    have hnull : Assoc.find? "body" (withNull .body reply) = some .null := by
      simp [withNull, edit, name]
    refine ⟨⟨id, .success []⟩, ?_, rfl, ?_⟩
    · simp only [ofMessage, hid₁, hsuccess₁, hnone]
    · simp only [ofMessage, hid₂, hsuccess₂, hnull]
      rfl
  | code =>
    obtain ⟨hsuccess, error, herror⟩ := hpart
    refine ⟨_, ofMessage_edit (by decide) hid hsuccess herror _, ?_, ?_⟩
    · exact ⟨_, by rw [show name .code = "code" from rfl, failureText?_erase]⟩
    · rw [withNull, ofMessage_edit (by decide) hid hsuccess herror]
      simp only [name, misread, failureText?_put_null]
      rw [failureText?_put_null_ne (by decide)]
  | message =>
    obtain ⟨hsuccess, error, herror⟩ := hpart
    refine ⟨_, ofMessage_edit (by decide) hid hsuccess herror _, ?_, ?_⟩
    · exact ⟨_, by rw [show name .message = "message" from rfl, failureText?_erase]; rfl⟩
    · rw [withNull, ofMessage_edit (by decide) hid hsuccess herror]
      simp only [name, misread, failureText?_put_null]
      rw [failureText?_put_null_ne (by decide)]
      rfl

/-- A reply that is not read as far as a part is read the same with null for it as without it. -/
theorem ofMessage_withNull_of_unread {p : Part} {reply : Fields} (h : ¬p.IsRead reply) :
    ofMessage (p.withNull reply) = ofMessage (p.without reply) := by
  have hsame {key : String} (hkey : key ≠ p.field) :
      Assoc.find? key (p.withNull reply) = Assoc.find? key (p.without reply) := by
    rw [find?_withNull p reply hkey, find?_without p reply hkey]
  have hid : id? (p.withNull reply) = id? reply := id?_congr (find?_withNull p reply (field_ne_id p))
  have hsuccess := find?_withNull p reply (field_ne_success p)
  by_cases hp : p = .body
  · subst hp
    refine ofMessage_congr (hsame (field_ne_id _)) (hsame (field_ne_success _)) ?_ fun _ _ =>
      hsame (by decide)
    rintro ⟨hsome, htrue⟩
    exact absurd ⟨hid ▸ hsome, hsuccess ▸ htrue⟩ h
  · rw [isRead_of_ne_body hp] at h
    refine ofMessage_congr (hsame (field_ne_id p)) (hsame (field_ne_success p))
      (fun _ => hsame (by rw [field_of_ne_body hp]; decide)) ?_
    intro hsome hfalse
    have herror : ¬∃ error, Assoc.find? "error" reply = some (.object error) :=
      fun herror => h ⟨hid ▸ hsome, hsuccess ▸ hfalse, herror⟩
    rw [withNull, without, edit_of_no_error hp herror, edit_of_no_error hp herror]

/-- What is misread is not what a missing part stands for. -/
theorem misread_ne_ok {p : Part} {r : Response} (h : p.IsDefault r.answer) : p.misread r ≠ .ok r := by
  obtain ⟨id, answer⟩ := r
  cases p with
  | body =>
    obtain rfl : answer = .success [] := h
    simp [misread]
  | code =>
    obtain ⟨text, rfl⟩ : ∃ text, answer = .failure none text := h
    simp [misread]
  | message =>
    obtain ⟨code?, rfl⟩ : ∃ code?, answer = .failure code? defaultFailure := h
    simp [misread, defaultFailure]

end Part

/-- Null in the place of a part of a reply comes to the same as no such part exactly if the reply is not
read as far as the part, for the lack of an id or because of what it reports. Otherwise the missing part
has its default, but a null body is refused and a null code or message of a failure is read as the text
`None`. In a description null and absence of the token come to the same, whatever else it holds, and there
is no token then. -/
theorem null_as_absent_iff_unread (p : Part) (reply fields : Fields) :
    (ofMessage (p.withNull reply) = ofMessage (p.without reply) ↔ ¬p.IsRead reply) ∧
    (p.IsRead reply → ∃ r, ofMessage (p.without reply) = .ok r ∧ p.IsDefault r.answer ∧
      ofMessage (p.withNull reply) = p.misread r) ∧
    Member.ofJson (.object (Assoc.put "token" .null fields)) =
      Member.ofJson (.object (Assoc.erase "token" fields)) ∧
    ∀ m, Member.ofJson (.object (Assoc.erase "token" fields)) = .ok m → m.token = none := by
  refine ⟨⟨?_, Part.ofMessage_withNull_of_unread⟩, Part.misread_of_isRead,
    Member.ofJson_null_token fields, fun _ => Member.token_of_erase⟩
  intro hsame hread
  obtain ⟨r, hwithout, hdefault, hnull⟩ := Part.misread_of_isRead hread
  rw [hnull, hwithout] at hsame
  exact Part.misread_ne_ok hdefault hsame

/-- A failure that says nothing, whose code and message are then null, and a success with a null body. -/
theorem null_as_absent_not_of_failure :
    (∃ r, ofMessage (Part.message.without [("id", .integer 1), ("success", .bool false),
        ("error", .object [("message", .null)])]) = .ok r ∧ Part.message.IsDefault r.answer ∧
      ofMessage (Part.message.withNull [("id", .integer 1), ("success", .bool false),
        ("error", .object [("message", .null)])]) = Part.message.misread r) ∧
    ofMessage [("id", .integer 1), ("success", .bool false), ("error", .object [])] =
      .ok ⟨1, .failure none defaultFailure⟩ ∧
    ofMessage [("id", .integer 1), ("success", .bool false),
      ("error", .object [("code", .null), ("message", .null)])] = .ok ⟨1, .failure (some "None") "None"⟩ ∧
    ofMessage [("id", .integer 1), ("success", .bool true)] = .ok ⟨1, .success []⟩ ∧
    ofMessage [("id", .integer 1), ("success", .bool true), ("body", .null)] = .error .bodyNotObject :=
  ⟨(null_as_absent_iff_unread .message _ []).2.1 ⟨rfl, rfl, [("message", .null)], rfl⟩, rfl, rfl, rfl,
    rfl⟩

end Response

end AssemblyBrowser
