import AssemblyBrowser.Engine.Script
import AssemblyBrowser.Tree.Forest
/-!
Engines of a tree that follow a script. The first rule that fits a call decides what happens during
the call and how it ends; a call that no rule fits gets a plain answer.
-/
namespace AssemblyBrowser

/-- How a call fails; some failures say what was asked for. -/
inductive TreeScript.Fault
  | load (reason : String) (code : Option String)
  | decompile (reason : String) (code : Option String)
  | unavailable (reason : String)
  | other (reason : String)
deriving DecidableEq, Repr

/-- How a call ends. -/
inductive TreeScript.Ending
  | plain
  | fails (f : TreeScript.Fault)
  | member (m : Member)
  | members (ms : List Member)
  | code (text : String)
deriving DecidableEq, Repr

/-- A rule; `during` is what others do while the engine works. -/
structure TreeScript.Rule (δ : Type) where
  call : Option String := none
  key : Option String := none
  assembly : Option String := none
  times : Option Int := none
  during : List δ := []
  ending : TreeScript.Ending := .plain

structure TreeScript (δ : Type) where
  rules : List (TreeScript.Rule δ) := []
  /-- The calls so far. -/
  calls : List Call := []

namespace TreeScript

def name : Call → String
  | .load _ => "load"
  | .enumerate .. => "enumerate"
  | .decompile .. => "decompile"
  | .unload _ => "unload"
  | .stop => "stop"

/-- The path or key that a call is about. -/
def subject : Call → String
  | .load path | .unload path => path
  | .enumerate key _ | .decompile key .. => key
  | .stop => ""

def assembly? : Call → Option String
  | .enumerate _ assembly | .decompile _ _ assembly => some assembly
  | _ => none

variable {δ : Type}

/-- Stopping is not subject to rules. -/
def Rule.fits (r : Rule δ) (c : Call) : Bool :=
  c ≠ .stop && Script.agrees r.call (some (name c)) && Script.agrees r.key (some (subject c)) &&
    Script.agrees r.assembly (assembly? c) && Script.isLeft r.times

def Rule.use (r : Rule δ) : Rule δ := { r with times := r.times.map (· - 1) }

def Fault.failure (c : Call) : Fault → Failure
  | .load reason code => .engine (.load (subject c) reason code)
  | .decompile reason code => .engine (.decompile (subject c) (name c) reason code)
  | .unavailable reason => .engine (.unavailable (name c) (some reason) none)
  | .other reason => .general .runtime [.text reason]

/-- The answer to a call that no rule is about. -/
def plainReply : (c : Call) → c.Reply
  | .load path => ⟨path, path, .assembly, none⟩
  | .enumerate .. => ([] : List Member)
  | .decompile key language assembly => language.name ++ ":" ++ assembly ++ ":" ++ key
  | .unload _ | .stop => ()

def reply (e : Ending) (c : Call) : Except Failure c.Reply :=
  match c, e with
  | c, .fails f => .error (f.failure c)
  | .load _, .member m => .ok m
  | .enumerate .., .members ms => .ok ms
  | .decompile .., .code text => .ok text
  | c, _ => .ok (plainReply c)

/-- Takes down a call: what happens during it and how it ends. -/
def take (s : TreeScript δ) (c : Call) : (List δ × Ending) × TreeScript δ :=
  let (found, rules) := Script.pick (·.fits c) Rule.use s.rules
  (match found with
    | some r => (r.during, r.ending)
    | none => ([], .plain),
    { rules, calls := s.calls ++ [c] })

end TreeScript

end AssemblyBrowser
