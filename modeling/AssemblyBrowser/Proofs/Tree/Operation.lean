import AssemblyBrowser.Proofs.Attempt
import AssemblyBrowser.Tree.Forest
/-!
The operations of a tree, carried out one after another over an engine that leaves the tree alone.
Every call to the engine is laid down: during which operation it was made and whether it succeeded.
-/
namespace AssemblyBrowser

inductive TreeOperation
  | add (path : String)
  | remove (path : String)
  | refresh
  | setLanguage (name : String)
  | children (id : NodeId)
  | code (id : NodeId)
deriving DecidableEq, Repr

namespace TreeOperation

abbrev Answer : TreeOperation → Type
  | .add _ | .remove _ | .setLanguage _ => Bool
  | .refresh => Unit
  | .children _ => List NodeId
  | .code _ => String

variable {σ : Type}

def perform (engine : Engine σ) : (o : TreeOperation) → Attempt (Forest σ) o.Answer
  | .add path => Forest.add engine path
  | .remove path => Forest.remove engine path
  | .refresh => Forest.refresh
  | .setLanguage name => Forest.setLanguage name
  | .children id => Forest.children engine id
  | .code id => Forest.code engine id

end TreeOperation

/-- An engine that knows nothing of the tree. -/
abbrev Backend (σ : Type) := (c : Call) → Attempt σ c.Reply

/-- A call, the operation that made it, and whether it succeeded. -/
structure Asked where
  during : TreeOperation
  call : Call
  succeeded : Bool
deriving DecidableEq, Repr

namespace Backend

variable {σ : Type}

def engine (b : Backend σ) : Engine σ := fun c => Forest.lift (b c)

/-- Lays down the calls that are made during an operation. -/
def watched (b : Backend σ) (o : TreeOperation) : Backend (σ × List Asked) := fun c s =>
  let (r, w) := (b c).runFrom s.1
  (r, (w, s.2 ++ [⟨o, c, r.isOk⟩]))

end Backend

namespace Forest

variable {σ : Type}

/-- A tree to which nothing has been added, over an engine that has not been called. -/
def fresh (l : Language) (w : σ) : Forest (σ × List Asked) := ⟨{ language := l }, (w, [])⟩

def calls (s : Forest (σ × List Asked)) : List Asked := s.world.2

/-- An operation on a tree: the answer or failure, and what there is then. -/
def request (b : Backend σ) (o : TreeOperation) (s : Forest (σ × List Asked)) :
    Except Failure o.Answer × Forest (σ × List Asked) :=
  (o.perform (b.watched o).engine).runFrom s

/-- What there is after operations, those that fail included. -/
def after (b : Backend σ) (os : List TreeOperation) (s : Forest (σ × List Asked)) :
    Forest (σ × List Asked) :=
  os.foldl (fun s o => (s.request b o).2) s

end Forest

/-- An engine whose answers depend on the questions alone. -/
structure Oracle where
  load : String → Except Failure Member
  enumerate : (key assembly : String) → Except Failure (List Member)
  decompile : (key : String) → Language → (assembly : String) → Except Failure String

namespace Oracle

/-- The members below a node; only some kinds of members have any. -/
def membersOf (o : Oracle) (n : Node) : Except Failure (List Member) :=
  if n.isExpandable then o.enumerate n.key n.assembly else .ok []

def textOf (o : Oracle) (l : Language) (n : Node) : Except Failure String :=
  o.decompile n.key l n.assembly

/-- An answer is the oracle's. Of some calls nothing is asked but that they are made. -/
def Says (o : Oracle) : (c : Call) → Except Failure c.Reply → Prop
  | .load path, r => r = o.load path
  | .enumerate key assembly, r => r = o.enumerate key assembly
  | .decompile key l assembly, r => r = o.decompile key l assembly
  | .unload _, _ | .stop, _ => True

end Oracle

/-- The engine gives the answers of an oracle, whatever its state. -/
def Backend.Answers {σ : Type} (b : Backend σ) (o : Oracle) : Prop :=
  ∀ c w, o.Says c ((b c).runFrom w).1

theorem Backend.runFrom_watched {σ : Type} (b : Backend σ) (p : TreeOperation) (c : Call)
    (s : σ × List Asked) :
    (b.watched p c).runFrom s =
      (((b c).runFrom s.1).1,
        (((b c).runFrom s.1).2, s.2 ++ [⟨p, c, ((b c).runFrom s.1).1.isOk⟩])) := rfl

theorem Backend.Answers.watched {σ : Type} {b : Backend σ} {o : Oracle} (h : b.Answers o)
    (p : TreeOperation) : (b.watched p).Answers o := fun c w => h c w.1

/-! ## One call at most -/

/-- How an operation fares when nobody else uses the tree: it ends by itself, or it makes one call
and ends as the answer says. -/
inductive Tree.Plan (α : Type)
  | settled (r : Except Failure α) (t : Tree)
  | asks (c : Call) (finish : Except Failure c.Reply → Except Failure α × Tree)

namespace Tree

/-- What to do for something that is to be kept on a node. -/
def planFetch {α : Type} (t : Tree) (id : NodeId) (kept : Node → Option α) (ask : Node → Plan α) :
    Plan α :=
  match t.node? id with
  | none => .settled (.error (.staleNode "")) t
  | some n =>
    match kept n with
    | some v => .settled (.ok v) t
    | none => if t.isAttached id then ask n else .settled (.error (.staleNode n.key)) t

def plan (t : Tree) : (p : TreeOperation) → Plan p.Answer
  | .add path =>
    if t.roots.contains path then .settled (.ok false) t
    else .asks (.load path) fun r => finishAdd path r t
  | .remove path =>
    if t.roots.contains path then
      .asks (.unload path) fun r =>
        (r.map fun _ => true,
          if r.isOk then (t.uproot path).tell (.removed path) else t.uproot path)
    else .settled (.ok false) t
  | .refresh => .settled (.ok ()) t.refresh
  | .setLanguage name =>
    match Language.parse name with
    | .error e => .settled (.error (.language e)) t
    | .ok l => .settled (.ok (t.setLanguage l).1) (t.setLanguage l).2
  | .children id =>
    t.planFetch id Node.children fun n =>
      if n.isExpandable then .asks (.enumerate n.key n.assembly) fun r => finishChildren id r t
      else .settled (finishChildren id (.ok []) t).1 (finishChildren id (.ok []) t).2
  | .code id =>
    t.planFetch id Node.code fun n =>
      .asks (.decompile n.key t.language n.assembly) fun r => finishCode id r t

variable {t : Tree}

theorem land_of_idle (h : t.flights = []) (f : Flight) : t.land f = t := by
  cases t
  simp_all [land]

theorem board_of_idle {α : Type} (h : t.flights = []) (f : Flight) :
    t.board f = ((.owner : Entry α), { t with flights := [f] }) := by
  simp [board, h]

theorem land_board (h : t.flights = []) (f : Flight) :
    ({ t with flights := [f] } : Tree).land f = t := by
  cases t
  simp_all [land]

theorem finishAdd_board (h : t.flights = []) (path : String) (r : Except Failure Member) :
    finishAdd path r { t with flights := [.add path] } = finishAdd path r t := by
  simp only [finishAdd, land_board h, land_of_idle h]

theorem finishChildren_board (h : t.flights = []) (id : NodeId) (r : Except Failure (List Member)) :
    finishChildren id r { t with flights := [.children id] } = finishChildren id r t := by
  simp only [finishChildren, land_board h, land_of_idle h]

theorem finishCode_board (h : t.flights = []) (id : NodeId) (r : Except Failure String) :
    finishCode id r { t with flights := [.code id] } = finishCode id r t := by
  simp only [finishCode, land_board h, land_of_idle h]

end Tree

namespace Forest

variable {σ α β : Type}

theorem runFrom_lift (a : Attempt σ α) (s : Forest σ) :
    (lift a).runFrom s = ((a.runFrom s.world).1, { s with world := (a.runFrom s.world).2 }) := rfl

/-- Carries out a plan. -/
def follow (b : Backend σ) (s : Forest σ) : Tree.Plan α → Except Failure α × Forest σ
  | .settled r tree => (r, { s with tree })
  | .asks c finish =>
    let (r, world) := (b c).runFrom s.world
    ((finish r).1, ⟨(finish r).2, world⟩)

theorem consult_settled {enter : Tree → Tree.Entry α × Tree} {ask : Attempt (Forest σ) β}
    {finish : Except Failure β → Tree → Except Failure α × Tree} {s : Forest σ}
    {r : Except Failure α} {t : Tree} (h : enter s.tree = (.settled r, t)) :
    (consult enter ask finish).runFrom s = (r, { s with tree := t }) := by
  simp only [Attempt.runFrom, ExceptT.run, consult, h]

theorem consult_owner {enter : Tree → Tree.Entry α × Tree} {ask : Attempt (Forest σ) β}
    {finish : Except Failure β → Tree → Except Failure α × Tree} {s s' : Forest σ}
    {r : Except Failure β} {t : Tree} (h : enter s.tree = (.owner, t))
    (ha : ask.runFrom { s with tree := t } = (r, s')) :
    (consult enter ask finish).runFrom s =
      ((finish r s'.tree).1, { s' with tree := (finish r s'.tree).2 }) := by
  simp only [Attempt.runFrom, ExceptT.run] at ha
  simp only [Attempt.runFrom, ExceptT.run, consult, h, ha, onTree]

variable (b : Backend σ) {s : Forest σ}

theorem add_run (h : s.tree.flights = []) (path : String) :
    (add b.engine path).runFrom s = follow b s (s.tree.plan (.add path)) := by
  unfold add
  simp only [Tree.plan]
  split
  · rename_i hc
    exact consult_settled (by simp only [Tree.beginAdd, hc, if_true])
  · rename_i hc
    have hb : s.tree.beginAdd path = (.owner, { s.tree with flights := [.add path] }) := by
      simp only [Tree.beginAdd, hc, if_false, Tree.board_of_idle h, Bool.false_eq_true]
    refine Eq.trans (consult_owner hb (runFrom_lift (b (.load path)) _)) ?_
    simp only [Tree.finishAdd_board h, follow]

theorem remove_run (path : String) :
    (remove b.engine path).runFrom s = follow b s (s.tree.plan (.remove path)) := by
  unfold remove
  rw [Attempt.runFrom_bind_ok (Attempt.runFrom_get s)]
  simp only [Tree.plan]
  split
  · simp only [Attempt.runFrom_bind, Attempt.runFrom_set, follow, Backend.engine, runFrom_lift]
    cases h : ((b (.unload path)).runFrom s.world).1 with
    | error f => simp [Except.map, Except.isOk, Except.toBool]
    | ok u => simp [Except.map, Except.isOk, Except.toBool, onTree, Attempt.runFrom, ExceptT.run]
  · rfl

theorem setLanguage_run (name : String) :
    (setLanguage name).runFrom s = follow b s (s.tree.plan (.setLanguage name)) := by
  unfold setLanguage
  simp only [Tree.plan, Attempt.runFrom_bind, Attempt.runFrom_ofExcept]
  cases Language.parse name with
  | error e => rfl
  | ok l => rfl

theorem askChildren_run {id : NodeId} {n : Node} (hn : s.tree.node? id = some n)
    (he : n.isExpandable = true) :
    (askChildren b.engine id).runFrom s =
      (lift (b (.enumerate n.key n.assembly))).runFrom s := by
  unfold askChildren
  rw [Attempt.runFrom_bind_ok (Attempt.runFrom_get s)]
  simp only [hn, he, if_true, Backend.engine]

theorem askChildren_leaf {id : NodeId} {n : Node} (hn : s.tree.node? id = some n)
    (he : ¬n.isExpandable = true) : (askChildren b.engine id).runFrom s = (.ok [], s) := by
  unfold askChildren
  rw [Attempt.runFrom_bind_ok (Attempt.runFrom_get s)]
  simp only [hn, he, if_false, Bool.false_eq_true]
  rfl

theorem askCode_run {id : NodeId} {n : Node} (hn : s.tree.node? id = some n) :
    (askCode b.engine id).runFrom s =
      (lift (b (.decompile n.key s.tree.language n.assembly))).runFrom s := by
  unfold askCode
  rw [Attempt.runFrom_bind_ok (Attempt.runFrom_get s)]
  simp only [hn, Backend.engine]

/-- What is to be kept on a node is asked for only if it is not kept yet and the node is
attached. -/
theorem fetch_run (h : s.tree.flights = []) (f : Flight) (id : NodeId) (kept : Node → Option α)
    {ask : Attempt (Forest σ) β}
    {finish : Except Failure β → Tree → Except Failure α × Tree} {plan : Node → Tree.Plan α}
    (hask : ∀ n, s.tree.node? id = some n →
      let r := ask.runFrom { s with tree := { s.tree with flights := [f] } }
      ((finish r.1 r.2.tree).1, { r.2 with tree := (finish r.1 r.2.tree).2 }) =
        follow b s (plan n)) :
    (consult (·.beginFetch f id kept) ask finish).runFrom s =
      follow b s (s.tree.planFetch id kept plan) := by
  unfold Tree.planFetch
  cases hn : s.tree.node? id with
  | none => exact consult_settled (by simp only [Tree.beginFetch, hn])
  | some n =>
    simp only
    cases hk : kept n with
    | some v => exact consult_settled (by simp only [Tree.beginFetch, hn, hk])
    | none =>
      simp only
      cases ha : s.tree.isAttached id with
      | false =>
        refine consult_settled ?_
        simp only [Tree.beginFetch, hn, hk, ha, Bool.false_eq_true, if_false]
      | true =>
        rw [if_pos rfl, ← hask n hn]
        refine consult_owner ?_ rfl
        simp only [Tree.beginFetch, hn, hk, ha, if_true, Tree.board_of_idle h]

theorem children_run (h : s.tree.flights = []) (id : NodeId) :
    (children b.engine id).runFrom s = follow b s (s.tree.plan (.children id)) := by
  refine fetch_run b h (.children id) id Node.children fun n hn => ?_
  have hn' : ({ s.tree with flights := [.children id] } : Tree).node? id = some n := hn
  split
  · rename_i he
    rw [askChildren_run b (s := { s with tree := _ }) hn' he, runFrom_lift]
    simp only [Tree.finishChildren_board h, follow]
  · rename_i he
    rw [askChildren_leaf b (s := { s with tree := _ }) hn' he]
    simp only [Tree.finishChildren_board h, follow]

theorem code_run (h : s.tree.flights = []) (id : NodeId) :
    (code b.engine id).runFrom s = follow b s (s.tree.plan (.code id)) := by
  refine fetch_run b h (.code id) id Node.code fun n hn => ?_
  have hn' : ({ s.tree with flights := [.code id] } : Tree).node? id = some n := hn
  rw [askCode_run b (s := { s with tree := _ }) hn', runFrom_lift]
  simp only [Tree.finishCode_board h, follow]

/-- An operation follows its plan. -/
theorem perform_run (h : s.tree.flights = []) (p : TreeOperation) :
    (p.perform b.engine).runFrom s = follow b s (s.tree.plan p) := by
  cases p with
  | add path => exact add_run b h path
  | remove path => exact remove_run b path
  | refresh => rfl
  | setLanguage name => exact setLanguage_run b name
  | children id => exact children_run b h id
  | code id => exact code_run b h id

end Forest

end AssemblyBrowser
