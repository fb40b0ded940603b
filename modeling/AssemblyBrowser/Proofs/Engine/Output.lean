import AssemblyBrowser.Proofs.Engine.Report
import Mathlib.Data.List.TakeWhile
/-!
The output of a child: what it does is a list of acts, and these tell its lines, whether the output has
ended, and the calls of an owner that they lead to.
-/
namespace AssemblyBrowser

/-- A call of the owner. -/
inductive Notice
  | line (generation : Nat) (text : String)
  | ended (generation : Nat) (exitCode : Option Int)
deriving DecidableEq, Repr

namespace Notice

def generation : Notice → Nat
  | line g _ | ended g _ => g

/-- What an owner becomes by a call. -/
def tell {ρ : Type} (heard : ρ → Nat → String → ρ) (ended : ρ → Nat → Option Int → ρ) (o : ρ) :
    Notice → ρ
  | line g text => heard o g text
  | .ended g exitCode => ended o g exitCode

end Notice

/-- An owner who can take every line. -/
def Listener.taking {ρ : Type} (heard : ρ → Nat → String → ρ) (ended : ρ → Nat → Option Int → ρ) :
    Listener ρ := ⟨fun o g line => some (heard o g line), ended⟩

/-! ## The output of a child -/

namespace Act

variable {as bs : List Act}

def text? : Act → Option String
  | print line => some line
  | closeOutput | exit _ => none

def isPrint (a : Act) : Bool := a.text?.isSome

def exitCode? : Act → Option Int
  | exit code => some code
  | print _ | closeOutput => none

/-- The lines of an output, trimmed; blank ones do not count, nor what is printed after its end. -/
def lines (as : List Act) : List String :=
  (((as.takeWhile isPrint).filterMap text?).map Text.trim).filter (· ≠ "")

/-- The end of an output, if it has come, with the exit code if that is why. -/
def ending? (as : List Act) : Option (Option Int) := (as.find? (!·.isPrint)).map exitCode?

/-- The calls that the acts of a child lead to: the first line is its greeting. -/
def notices (g : Nat) (as : List Act) : List Notice :=
  (lines as).tail.map (.line g) ++ (ending? as).toList.map (.ended g)

theorem ending?_append (as bs : List Act) : ending? (as ++ bs) = (ending? as).or (ending? bs) := by
  simp only [ending?, List.find?_append]
  cases as.find? (!·.isPrint) <;> rfl

theorem ending?_eq_none_iff : ending? as = none ↔ ∀ a ∈ as, a.isPrint = true := by
  simp [ending?]

/-- An output that is open goes on. -/
theorem lines_append (h : ending? as = none) (bs : List Act) :
    lines (as ++ bs) = lines as ++ lines bs := by
  have hall := ending?_eq_none_iff.mp h
  have hself : as.takeWhile isPrint = as := List.takeWhile_eq_self_iff.mpr hall
  simp only [lines, List.takeWhile_append_of_pos hall, hself, List.filterMap_append,
    List.map_append, List.filter_append]

/-- An output that has ended stays as it is. -/
theorem lines_append_of_ended {e : Option Int} (h : ending? as = some e) (bs : List Act) :
    lines (as ++ bs) = lines as := by
  have hshort : (as.takeWhile isPrint).length ≠ as.length := by
    intro hlength
    have hself := (List.takeWhile_prefix isPrint (l := as)).eq_of_length hlength
    have hall : ∀ a ∈ as, a.isPrint = true := by
      rw [← hself]
      exact List.all_eq_true.mp List.all_takeWhile
    rw [ending?_eq_none_iff.mpr hall] at h
    cases h
  simp only [lines, List.takeWhile_append, hshort, if_false]

/-- What is no line ends the output, if that has not ended before. -/
theorem lines_append_other {a : Act} (ha : a.isPrint = false) (as : List Act) :
    lines (as ++ [a]) = lines as := by
  cases h : ending? as with
  | none =>
    have hno : lines [a] = [] := by simp [lines, ha]
    rw [lines_append h, hno, List.append_nil]
  | some e => exact lines_append_of_ended h [a]

theorem notices_append_of_ended {e : Option Int} (h : ending? as = some e) (g : Nat)
    (bs : List Act) : notices g (as ++ bs) = notices g as := by
  rw [notices, lines_append_of_ended h, ending?_append, h, notices, h]
  rfl

theorem notices_append_other (h : ending? as = none) (g : Nat) {a : Act} (ha : a.isPrint = false) :
    notices g (as ++ [a]) = notices g as ++ [.ended g a.exitCode?] := by
  have hend : ending? [a] = some a.exitCode? := by simp [ending?, ha]
  rw [notices, lines_append_other ha, ending?_append, h, Option.none_or, hend, notices, h]
  simp

theorem lines_print (line : String) :
    lines [.print line] = if Text.trim line = "" then [] else [Text.trim line] := by
  by_cases hb : Text.trim line = "" <;> simp [lines, List.takeWhile_cons, isPrint, text?, hb]

/-- A line is passed on unless it is blank or the first. -/
theorem notices_append_print (h : ending? as = none) (g : Nat) (line : String) :
    notices g (as ++ [.print line]) = notices g as ++
      if Text.trim line = "" ∨ lines as = [] then [] else [.line g (Text.trim line)] := by
  have hend : ending? [.print line] = none := by simp [ending?, isPrint, text?]
  rw [notices, lines_append h, ending?_append, h, Option.none_or, hend, lines_print, notices, h]
  by_cases hb : Text.trim line = ""
  · simp [hb]
  · cases hl : lines as <;> simp [hb]

end Act

/-- The acts of one child among those of all. -/
def actsOf (g : Nat) (deeds : List (Nat × Act)) : List Act :=
  deeds.filterMap fun d => if d.1 = g then some d.2 else none

theorem actsOf_append (g : Nat) (ds es : List (Nat × Act)) :
    actsOf g (ds ++ es) = actsOf g ds ++ actsOf g es := List.filterMap_append

theorem actsOf_map (g : Nat) (as : List Act) : actsOf g (as.map (g, ·)) = as := by
  have hsome : (fun d : Nat × Act => if d.1 = g then some d.2 else none) ∘ (g, ·) = some := by
    funext a
    simp
  rw [actsOf, List.filterMap_map, hsome, List.filterMap_some]

theorem actsOf_snoc (g : Nat) (ds : List (Nat × Act)) (g' : Nat) (a : Act) :
    actsOf g (ds ++ [(g', a)]) = if g' = g then actsOf g ds ++ [a] else actsOf g ds := by
  rw [actsOf_append]
  by_cases hg : g' = g <;> simp [actsOf, hg]

/-- A child as its acts have made it. -/
structure Child.Fits (c : Child) (as : List Act) : Prop where
  greeting : c.greeting = (Act.lines as).head?
  reading : c.reading = (Act.ending? as).isNone
  exitCode : c.reading = true → c.exitCode = none

namespace Child

variable {c d : Child} {as : List Act}

theorem IsNew.fits (h : c.IsNew) : c.Fits [] where
  greeting := h.greeting
  reading := h.reading
  exitCode _ := Option.isNone_iff_eq_none.mp h.alive

/-- After the end of its output a child keeps its greeting. -/
theorem Fits.closed (h : c.Fits as) {a : Act}
    (ha : (∃ e, Act.ending? as = some e) ∨ a.isPrint = false) (hg : d.greeting = c.greeting)
    (hr : d.reading = false) : d.Fits (as ++ [a]) where
  greeting := by
    rw [hg, h.greeting]
    rcases ha with ⟨e, he⟩ | ha
    · rw [Act.lines_append_of_ended he]
    · rw [Act.lines_append_other ha]
  reading := by
    rw [hr, Act.ending?_append]
    rcases ha with ⟨e, he⟩ | ha
    · rw [he]
      rfl
    · cases Act.ending? as <;> simp [Act.ending?, ha]
  exitCode hreading := by
    rw [hr] at hreading
    cases hreading

end Child

end AssemblyBrowser
