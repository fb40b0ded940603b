import AssemblyBrowser.Engine.Supervisor
import AssemblyBrowser.Text.Replace
/-!
Engines that follow a script: how each attempt to start goes, and rules for what a request leads to.
The first rule that fits a request applies; a rule may be used up.
-/
namespace AssemblyBrowser

/-- A thing that a rule makes the engine do. -/
inductive Script.Effect
  | succeed (body : Json)
  | fail (error : Json)
  | print (line : String)
  | exit (code : Int)
  | closeOutput
  | writeError (text : String)
deriving Repr

structure Script.Rule where
  command : Option Json := none
  arguments : Fields := []
  attempt : Option Nat := none
  times : Option Int := none
  effects : List Script.Effect

structure Script where
  /-- What becomes of the attempts to come. -/
  launches : List Launch := []
  /-- What becomes of all further attempts. -/
  usual : Launch
  rules : List Script.Rule := []
  attempts : Nat := 0
  /-- The attempts that started the children, one a generation. -/
  started : List Nat := []

namespace Script

/-- The first rule that fits, and the rules with that one used. -/
def pick {ρ : Type} (fits : ρ → Bool) (use : ρ → ρ) : List ρ → Option ρ × List ρ
  | [] => (none, [])
  | r :: rest =>
    if fits r then (some r, use r :: rest)
    else
      let (found, rest) := pick fits use rest
      (found, r :: rest)

/-- Whether a rule is not used up. -/
def isLeft : (times : Option Int) → Bool
  | some n => n ≠ 0
  | none => true

/-- Whether what a rule asks for, if anything, is there. -/
def agrees {α : Type} [DecidableEq α] (wanted found : Option α) : Bool :=
  wanted.isNone || wanted = found

def includes (arguments wanted : Fields) : Bool :=
  wanted.all fun (key, v) => Assoc.find? key arguments = some v

/-- Whether a rule fits a request to a child. -/
def Rule.fits (r : Rule) (attempt : Nat) (message : Fields) : Bool :=
  let arguments := match Assoc.find? "arguments" message with
    | some (.object fs) => fs
    | _ => []
  agrees r.command (Assoc.find? "command" message) && includes arguments r.arguments &&
    agrees r.attempt (some attempt) && isLeft r.times

def Rule.use (r : Rule) : Rule := { r with times := r.times.map (· - 1) }

/-- The mark in a printed line that stands for the id of the request. -/
def idMark : String := "$ID"

def success (id body : Json) : String :=
  Json.print .spaced (.object [("id", id), ("success", .bool true), ("body", body)])

def failure (id error : Json) : String :=
  Json.print .spaced (.object [("id", id), ("success", .bool false), ("error", error)])

/-- Adds an effect to a reaction; nothing happens after an error of writing. -/
def extend (id : Json) (r : Reaction) (e : Effect) : Reaction :=
  match r.error with
  | some _ => r
  | none =>
    match e with
    | .succeed body => { r with acts := r.acts ++ [.print (success id body)] }
    | .fail error => { r with acts := r.acts ++ [.print (failure id error)] }
    | .print line =>
      { r with acts := r.acts ++ [.print (Text.replace idMark id.plain line)] }
    | .exit code => { r with acts := r.acts ++ [.exit code] }
    | .closeOutput => { r with acts := r.acts ++ [.closeOutput] }
    | .writeError text => { r with error := some text }

def react (s : Script) (generation : Nat) (line : String) : Reaction × Script :=
  match decodeLine line with
  | .error _ => (⟨[], none⟩, s)
  | .ok message =>
    let attempt := (s.started[generation - 1]?).getD 0
    let (found, rules) := pick (·.fits attempt message) Rule.use s.rules
    let id := (Assoc.find? "id" message).getD .null
    match found with
    | none => (⟨[], none⟩, s)
    | some r => (r.effects.foldl (extend id) ⟨[], none⟩, { s with rules })

def launch (s : Script) : Launch × Script :=
  let next := s.launches.headD s.usual
  let attempts := s.attempts + 1
  (next, { s with
    launches := s.launches.tail
    attempts
    started := match next with
      | .started .. => s.started ++ [attempts]
      | .failed _ => s.started })

def program : Program Script := ⟨launch, react⟩

end Script

end AssemblyBrowser
