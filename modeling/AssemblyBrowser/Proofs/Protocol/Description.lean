import AssemblyBrowser.Proofs.Protocol.Reply
import Mathlib.Data.List.Forall2
/-!
Descriptions of members. A value describes a member if it is an object with the key, the name, the kind
and the token of the member; what else it holds is of no account. Main statement: members are read from
the body of an answer exactly if every element of its list is a description, and they are those that the
elements describe, one for each, in their order.
-/
namespace AssemblyBrowser

namespace MemberKind

/-- The kinds that the protocol knows, as they are written. -/
def names : List String := ["assembly", "namespace", "type", "method", "field", "property", "event"]

theorem mem_names_iff {s : String} : s ∈ names ↔ ∃ k : MemberKind, k.name = s := by
  constructor
  · intro h
    simp only [names, List.mem_cons, List.not_mem_nil, or_false] at h
    obtain rfl | rfl | rfl | rfl | rfl | rfl | rfl := h
    · exact ⟨.assembly, rfl⟩
    · exact ⟨.nameSpace, rfl⟩
    · exact ⟨.type, rfl⟩
    · exact ⟨.method, rfl⟩
    · exact ⟨.field, rfl⟩
    · exact ⟨.property, rfl⟩
    · exact ⟨.event, rfl⟩
  · rintro ⟨k, rfl⟩
    cases k <;> decide

theorem ofName?_eq_some {s : String} {k : MemberKind} : ofName? s = some k ↔ k.name = s := by
  refine ⟨fun h => ?_, fun h => h ▸ ofName?_name k⟩
  simpa using List.find?_some h

end MemberKind

namespace Member

/-! ## What a value describes -/

/-- What stands for a token: nothing or null for none, an integer for itself. -/
def IsToken (v : Option Json) : Option Int → Prop
  | none => v = none ∨ v = some .null
  | some n => v = some (.integer n)

/-- An object with the key, the name, the kind and the token of a member. -/
def Describes (v : Json) (m : Member) : Prop :=
  ∃ fields, v = .object fields ∧
    Assoc.find? "key" fields = some (.text m.key) ∧ m.key ≠ "" ∧
    Assoc.find? "name" fields = some (.text m.name) ∧
    Assoc.find? "kind" fields = some (.text m.kind.name) ∧
    IsToken (Assoc.find? "token" fields) m.token

/-- An object with a key that is not empty, a name, one of the kinds and, as its token, nothing, null or
an integer. -/
def IsDescription (v : Json) : Prop :=
  ∃ fields, v = .object fields ∧
    (∃ key, Assoc.find? "key" fields = some (.text key) ∧ key ≠ "") ∧
    (∃ name, Assoc.find? "name" fields = some (.text name)) ∧
    (∃ kind ∈ MemberKind.names, Assoc.find? "kind" fields = some (.text kind)) ∧
    (Assoc.find? "token" fields = none ∨ Assoc.find? "token" fields = some .null ∨
      ∃ n, Assoc.find? "token" fields = some (.integer n))

theorem isDescription_iff {v : Json} : IsDescription v ↔ ∃ m, Describes v m := by
  constructor
  · rintro ⟨fields, rfl, ⟨key, hkey, hne⟩, ⟨name, hname⟩, ⟨s, hs, hkind⟩, htoken⟩
    obtain ⟨kind, rfl⟩ := MemberKind.mem_names_iff.mp hs
    have hread : ∃ token, IsToken (Assoc.find? "token" fields) token := by
      rcases htoken with h | h | ⟨n, h⟩
      · exact ⟨none, .inl h⟩
      · exact ⟨none, .inr h⟩
      · exact ⟨some n, h⟩
    obtain ⟨token, htoken⟩ := hread
    exact ⟨⟨key, name, kind, token⟩, fields, rfl, hkey, hne, hname, hkind, htoken⟩
  · rintro ⟨⟨key, name, kind, token⟩, fields, rfl, hkey, hne, hname, hkind, htoken⟩
    refine ⟨fields, rfl, ⟨key, hkey, hne⟩, ⟨name, hname⟩,
      ⟨kind.name, MemberKind.mem_names_iff.mpr ⟨kind, rfl⟩, hkind⟩, ?_⟩
    cases token with
    | none => exact htoken.imp_right .inl
    | some n => exact .inr (.inr ⟨n, htoken⟩)

/-! ## What is read -/

theorem tokenOf?_eq_some {v : Option Json} {token : Option Int} :
    tokenOf? v = some token ↔ IsToken v token := by
  constructor
  · intro h
    unfold tokenOf? at h
    split at h
    · cases h; exact .inl rfl
    · cases h; exact .inr rfl
    · cases h; exact rfl
    · cases h
  · intro h
    cases token with
    | none =>
      obtain rfl | rfl := h
      · rfl
      · rfl
    | some n =>
      obtain rfl : v = some (.integer n) := h
      rfl

theorem kindOf?_eq_some {v : Option Json} {k : MemberKind} :
    kindOf? v = some k ↔ v = some (.text k.name) := by
  constructor
  · intro h
    unfold kindOf? at h
    split at h
    · rw [MemberKind.ofName?_eq_some.mp h]
    · cases h
  · rintro rfl
    exact MemberKind.ofName?_name k

theorem ofJson_eq_ok {v : Json} {m : Member} : ofJson v = .ok m ↔ Describes v m := by
  constructor
  · intro h
    unfold ofJson at h
    split at h
    · rename_i fields
      split at h
      · rename_i key hkey
        split at h
        · cases h
        · rename_i hne
          split at h
          · rename_i name hname
            split at h
            · cases h
            · rename_i kind hkind
              split at h
              · cases h
              · rename_i token htoken
                cases h
                exact ⟨fields, rfl, hkey, hne, hname, kindOf?_eq_some.mp hkind,
                  tokenOf?_eq_some.mp htoken⟩
          · cases h
      · cases h
    · cases h
  · rintro ⟨fields, rfl, hkey, hne, hname, hkind, htoken⟩
    have hkind := kindOf?_eq_some.mpr hkind
    have htoken := tokenOf?_eq_some.mpr htoken
    simp only [ofJson, hkey, hne, if_false, hname, hkind, htoken]

/-- Readings succeed together exactly if each does, and then in their order. -/
theorem mapM_ofJson_eq_ok {xs : List Json} {ms : List Member} :
    xs.mapM ofJson = .ok ms ↔ List.Forall₂ Describes xs ms := by
  induction xs generalizing ms with
  | nil =>
    rw [List.mapM_nil, List.forall₂_nil_left_iff]
    exact ⟨fun h => (Except.ok.inj h).symm, fun h => h ▸ rfl⟩
  | cons x xs ih =>
    rw [List.mapM_cons, List.forall₂_cons_left_iff]
    constructor
    · intro h
      cases hx : ofJson x with
      | error e =>
        rw [hx] at h
        cases h
      | ok m =>
        cases hxs : xs.mapM ofJson with
        | error e =>
          rw [hx, hxs] at h
          cases h
        | ok rest =>
          rw [hx, hxs] at h
          exact ⟨m, rest, ofJson_eq_ok.mp hx, ih.mp hxs, (Except.ok.inj h).symm⟩
    · rintro ⟨m, rest, hx, hxs, rfl⟩
      rw [ofJson_eq_ok.mpr hx, ih.mpr hxs]
      rfl

/-- The body has a list of members whose elements describe the members. -/
def IsListOf (ms : List Member) (body : Fields) : Prop :=
  ∃ xs, Assoc.find? "members" body = some (.array xs) ∧ List.Forall₂ Describes xs ms

/-- The body has a list of members, of which every element is a description. -/
def IsList (body : Fields) : Prop :=
  ∃ xs, Assoc.find? "members" body = some (.array xs) ∧ ∀ x ∈ xs, IsDescription x

theorem listOfBody_eq_ok {body : Fields} {ms : List Member} :
    listOfBody body = .ok ms ↔ IsListOf ms body := by
  unfold listOfBody IsListOf
  split
  · rename_i xs hxs
    rw [mapM_ofJson_eq_ok]
    constructor
    · exact fun h => ⟨xs, hxs, h⟩
    · rintro ⟨xs', hxs', h⟩
      obtain rfl : xs = xs' := by simpa [hxs] using hxs'
      exact h
  · rename_i hnone
    constructor
    · intro h
      cases h
    · rintro ⟨xs, hxs, -⟩
      exact absurd hxs (hnone xs)

theorem isList_iff {body : Fields} : IsList body ↔ ∃ ms, IsListOf ms body := by
  constructor
  · rintro ⟨xs, hxs, hall⟩
    have hms : ∃ ms, List.Forall₂ Describes xs ms := by
      clear hxs
      induction xs with
      | nil => exact ⟨[], .nil⟩
      | cons x xs ih =>
        obtain ⟨hx, hrest⟩ := List.forall_mem_cons.mp hall
        obtain ⟨m, hm⟩ := isDescription_iff.mp hx
        obtain ⟨ms, hms⟩ := ih hrest
        exact ⟨m :: ms, .cons hm hms⟩
    obtain ⟨ms, hms⟩ := hms
    exact ⟨ms, xs, hxs, hms⟩
  · rintro ⟨ms, xs, hxs, hms⟩
    refine ⟨xs, hxs, fun x hx => ?_⟩
    clear hxs
    induction hms with
    | nil => cases hx
    | cons hm _ ih =>
      rcases List.mem_cons.mp hx with rfl | hx
      · exact isDescription_iff.mpr ⟨_, hm⟩
      · exact ih hx

/-! ## What is ignored -/

/-- A description is read from four of its fields. -/
theorem ofJson_congr {fields fields' : Fields}
    (hkey : Assoc.find? "key" fields = Assoc.find? "key" fields')
    (hname : Assoc.find? "name" fields = Assoc.find? "name" fields')
    (hkind : Assoc.find? "kind" fields = Assoc.find? "kind" fields')
    (htoken : tokenOf? (Assoc.find? "token" fields) = tokenOf? (Assoc.find? "token" fields')) :
    ofJson (.object fields) = ofJson (.object fields') := by
  simp only [ofJson, hkey, hname, hkind, htoken]

/-- Values that agree in the fields of descriptions, or are the same. -/
def Alike (v w : Json) : Prop :=
  v = w ∨ ∃ fields fields', v = .object fields ∧ w = .object fields' ∧
    ∀ key ∈ ["key", "name", "kind", "token"], Assoc.find? key fields = Assoc.find? key fields'

theorem Alike.ofJson {v w : Json} (h : Alike v w) : ofJson v = Member.ofJson w := by
  obtain rfl | ⟨fields, fields', rfl, rfl, hsame⟩ := h
  · rfl
  · exact ofJson_congr (hsame _ (by decide)) (hsame _ (by decide)) (hsame _ (by decide))
      (congrArg tokenOf? (hsame _ (by decide)))

/-- Of an element nothing but the four fields counts, and of the body nothing but the list. -/
theorem listOfBody_of_alike {body body' : Fields} {xs ys : List Json}
    (hxs : Assoc.find? "members" body = some (.array xs))
    (hys : Assoc.find? "members" body' = some (.array ys)) (h : List.Forall₂ Alike xs ys) :
    listOfBody body = listOfBody body' := by
  have hread : xs.mapM ofJson = ys.mapM ofJson := by
    clear hxs hys
    induction h with
    | nil => rfl
    | cons hx _ ih => rw [List.mapM_cons, List.mapM_cons, hx.ofJson, ih]
  simp only [listOfBody, hxs, hys, hread]

end Member

end AssemblyBrowser
