import AssemblyBrowser.OrderedMap
import AssemblyBrowser.Number.Basic
/-!
Values of the JSON data model. Objects keep their fields in order; a field given twice keeps the
first place and the last value.
-/
namespace AssemblyBrowser

inductive Json
  | null
  | bool (b : Bool)
  | number (n : Number)
  | text (s : String)
  | array (xs : List Json)
  | object (fields : List (String × Json))
deriving Repr

namespace Json

instance : Inhabited Json := ⟨.null⟩

mutual
/-- Structural equality. -/
def decEq : (a b : Json) → Decidable (a = b)
  | .null, .null => isTrue rfl
  | .bool a, .bool b =>
    if h : a = b then isTrue (h ▸ rfl) else isFalse (fun e => h (Json.bool.inj e))
  | .number a, .number b =>
    if h : a = b then isTrue (h ▸ rfl) else isFalse (fun e => h (Json.number.inj e))
  | .text a, .text b =>
    if h : a = b then isTrue (h ▸ rfl) else isFalse (fun e => h (Json.text.inj e))
  | .array a, .array b =>
    match decEqList a b with
    | isTrue h => isTrue (h ▸ rfl)
    | isFalse h => isFalse (fun e => h (Json.array.inj e))
  | .object a, .object b =>
    match decEqFields a b with
    | isTrue h => isTrue (h ▸ rfl)
    | isFalse h => isFalse (fun e => h (Json.object.inj e))
  | .null, .bool _ | .null, .number _ | .null, .text _ | .null, .array _ | .null, .object _
  | .bool _, .null | .bool _, .number _ | .bool _, .text _ | .bool _, .array _ | .bool _, .object _
  | .number _, .null | .number _, .bool _ | .number _, .text _ | .number _, .array _
  | .number _, .object _ | .text _, .null | .text _, .bool _ | .text _, .number _
  | .text _, .array _ | .text _, .object _ | .array _, .null | .array _, .bool _
  | .array _, .number _ | .array _, .text _ | .array _, .object _ | .object _, .null
  | .object _, .bool _ | .object _, .number _ | .object _, .text _ | .object _, .array _ =>
    isFalse (fun e => by cases e)

def decEqList : (a b : List Json) → Decidable (a = b)
  | [], [] => isTrue rfl
  | [], _ :: _ => isFalse (fun e => by cases e)
  | _ :: _, [] => isFalse (fun e => by cases e)
  | a :: as, b :: bs =>
    match decEq a b, decEqList as bs with
    | isTrue h, isTrue h' => isTrue (h ▸ h' ▸ rfl)
    | isFalse h, _ => isFalse (fun e => h (List.cons.inj e).1)
    | _, isFalse h => isFalse (fun e => h (List.cons.inj e).2)

def decEqFields : (a b : List (String × Json)) → Decidable (a = b)
  | [], [] => isTrue rfl
  | [], _ :: _ => isFalse (fun e => by cases e)
  | _ :: _, [] => isFalse (fun e => by cases e)
  | (k, a) :: as, (l, b) :: bs =>
    match decEq a b, decEqFields as bs with
    | isTrue h, isTrue h' =>
      if hk : k = l then isTrue (h ▸ h' ▸ hk ▸ rfl)
      else isFalse (fun e => hk (Prod.mk.inj (List.cons.inj e).1).1)
    | isFalse h, _ => isFalse (fun e => h (Prod.mk.inj (List.cons.inj e).1).2)
    | _, isFalse h => isFalse (fun e => h (List.cons.inj e).2)
end

instance : DecidableEq Json := decEq

def integer (n : Int) : Json := .number (.integer n)

/-- A text, or null. -/
def ofText? : Option String → Json
  | some s => .text s
  | none => .null

def ofInteger? : Option Int → Json
  | some n => integer n
  | none => .null

def texts (ss : List String) : Json := .array (ss.map .text)

mutual
/-- Applies a function to every text in a value, the names of fields included. -/
def mapTexts (f : String → String) : Json → Json
  | .text s => .text (f s)
  | .array xs => .array (mapTextsList f xs)
  | .object fields => .object (mapTextsFields f fields)
  | v => v

def mapTextsList (f : String → String) : List Json → List Json
  | [] => []
  | x :: xs => mapTexts f x :: mapTextsList f xs

def mapTextsFields (f : String → String) : List (String × Json) → List (String × Json)
  | [] => []
  | (key, v) :: fields => (f key, mapTexts f v) :: mapTextsFields f fields
end

/-- The value of a field of an object; other values have no fields. -/
def get? (v : Json) (key : String) : Option Json :=
  match v with
  | .object fields => Assoc.find? key fields
  | _ => none

end Json

end AssemblyBrowser
