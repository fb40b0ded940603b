import AssemblyBrowser.Engine.Script
import AssemblyBrowser.Proofs.Engine.Tracing
import AssemblyBrowser.Proofs.Protocol.Description
import AssemblyBrowser.Proofs.Tree.Harmless
import AssemblyBrowser.Proofs.Tree.Session
import AssemblyBrowser.Proofs.Tree.Shape
/-!
Lists of members on their way from the answer of an engine into the tree. Main statement: a list is read as
a whole or not at all; a session whose engine answers with one that cannot be read reports the answer as
malformed, and the tree above it is then as it was.
-/
namespace AssemblyBrowser

variable {σ : Type}

/-! ## Sessions -/

namespace Session

variable (program : Program σ)

/-- What a session says about the children of a member is what its engine has answered, read. -/
theorem children_result (key : String) (assembly : Option String) (s : Session σ) :
    ((children program key assembly).runFrom s).1 =
      ((request program .enumerate (memberArguments key assembly)).runFrom s).1 >>=
        childrenResult key := by
  have hnotes := (notes_request program .enumerate (memberArguments key assembly) s).bind
    fun answer => silent_ofExcept (childrenResult key answer)
  have hrun := hnotes.traced_runFrom .children (Text.quoted key :: assembly.toList.map Text.quoted)
    displayMembers s.trace
  have hresult := congrArg Prod.fst hrun
  dsimp only at hresult
  refine Eq.trans hresult ?_
  rw [Attempt.runFrom_bind]
  cases (request program .enumerate (memberArguments key assembly)).runFrom s with
  | mk r t => cases r <;> rfl

end Session

/-! ## Trees -/

namespace Tree

variable {t : Tree} {id : NodeId} {n : Node}

/-- A node has children: new nodes for members, in their order. The other nodes are as they were. -/
structure Populates (t t' : Tree) (id : NodeId) (n : Node) (ms : List Member) (ids : List NodeId) :
    Prop where
  kept : t'.node? id = some { n with children := some ids }
  made : ids.map t'.node? = ms.map fun m => some (n.child m)
  others : ∀ j c, t.node? j = some c → j ≠ id → t'.node? j = some c

theorem populates_populate (hn : t.node? id = some n) (ms : List Member) :
    t.Populates (t.populate id n ms) id n ms (t.create (ms.map n.child)).1 where
  kept := by rw [node?_populate_old hn, if_pos rfl]
  made := by
    refine List.ext_getElem (by simp [create]) fun k hk hk' => ?_
    have hlt : k < ms.length := by simpa using hk'
    have hborn : t.Born ms (t.nodes.length + k) ms[k] := ⟨k, List.getElem?_eq_getElem hlt, rfl⟩
    have hnode := node?_populate_born hn hborn
    simpa [create, List.getElem_range'] using hnode
  others j c hj hne := by rw [node?_populate_old hj, if_neg (Ne.symm hne)]

/-- What the one who asked for the children of an attached node leaves in the tree. -/
theorem finishChildren_boarded (hf : Flight.children id ∉ t.flights) (hn : t.node? id = some n)
    (ha : t.isAttached id = true) (r : Except Failure (List Member)) :
    finishChildren id r { t with flights := t.flights ++ [.children id] } =
      match r with
      | .error f => (.error f, t)
      | .ok ms => (.ok (t.create (ms.map n.child)).1, t.populate id n ms) := by
  cases r with
  | error f => simp only [finishChildren, erase_board hf]
  | ok ms =>
    have hn' : (t.create (ms.map n.child)).2.node? id = some n :=
      node?_append_old (l := ms.map n.child) rfl hn
    have ha' : (t.create (ms.map n.child)).2.isAttached id = true := by
      simp only [isAttached, hn] at ha
      simp only [isAttached, hn']
      exact ha
    simp only [finishChildren, erase_board hf, hn, ha', if_true, populate]

end Tree

namespace Forest

/-- For the children of an attached node that has none yet the engine is asked once. -/
theorem children_asked (b : Backend σ) {s : Forest σ} {id : NodeId} {n : Node}
    (hf : Flight.children id ∉ s.tree.flights) (hn : s.tree.node? id = some n)
    (ha : s.tree.isAttached id = true) (he : n.isExpandable = true) (hc : n.children = none) :
    let r := (b (.enumerate n.key n.assembly)).runFrom s.world
    (children b.engine id).runFrom s =
      match r.1 with
      | .error f => (.error f, ⟨s.tree, r.2⟩)
      | .ok ms => (.ok (s.tree.create (ms.map n.child)).1, ⟨s.tree.populate id n ms, r.2⟩) := by
  intro r
  have henter : s.tree.beginChildren id =
      (.owner, { s.tree with flights := s.tree.flights ++ [.children id] }) := by
    simp only [Tree.beginChildren, Tree.beginFetch, hn, hc, ha, if_true, Tree.board, hf, if_false]
  have hask := (askChildren_run b
    (s := ⟨{ s.tree with flights := s.tree.flights ++ [.children id] }, s.world⟩) hn he).trans
    (runFrom_lift _ _)
  rw [children, consult_owner henter hask, Tree.finishChildren_boarded hf hn ha]
  dsimp only
  cases r.1 <;> rfl

def untypedBody : Fields :=
  [("members", .array [
    .object [("key", .text "n"), ("name", .text "N"), ("kind", .text "type")],
    .object [("key", .text "m"), ("name", .text "M"), ("kind", .text "type"), ("token", .bool true)]])]

/-- An engine that answers its first request with `untypedBody`. -/
def untyped : Program Unit where
  launch w := (.started {} [.print "\x7b\"event\":\"ready\"\x7d"], w)
  react w _ _ := (⟨[.print ("\x7b\"id\":1,\"success\":true,\"body\":\x7b\"members\":[" ++
    "\x7b\"key\":\"n\",\"name\":\"N\",\"kind\":\"type\"\x7d," ++
    "\x7b\"key\":\"m\",\"name\":\"M\",\"kind\":\"type\",\"token\":true\x7d]\x7d\x7d")], none⟩, w)

/-- A tree with one assembly over the engine, which has not been started. -/
def untypedForest : Forest (Session Unit) :=
  ⟨({} : Tree).plant "a.dll" ⟨"r", "A", .assembly, none⟩, .new plainSettings none ∅ () false⟩

theorem untypedForest_answer :
    ((Session.request untyped .enumerate
      (Session.memberArguments "r" (some "a.dll"))).runFrom untypedForest.world).1 =
        .ok (.success untypedBody) := by
  decide +kernel

end Forest

end AssemblyBrowser
