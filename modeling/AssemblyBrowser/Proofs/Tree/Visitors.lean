import AssemblyBrowser.Proofs.Tree.Detached
import AssemblyBrowser.Proofs.Tree.Paths
import Mathlib.Logic.Function.Basic
/-!
Many callers in one tree. Callers that want the same thing keep company: one of them asks the engine,
and those who come before it is done wait for what it gets. A caller goes through the tree in turns,
between which any of the others may take theirs: it looks under the lock whether the tree knows the
answer or somebody asks already, hears the engine, leaves its findings in the tree under the lock and
only then tells those who wait. A caller alone goes through the tree as its operation does.
-/
namespace AssemblyBrowser

namespace Flight

/-- What a caller gets. -/
abbrev Answer : Flight → Type
  | .add _ => Bool
  | .children _ => List NodeId
  | .code _ => String

/-- What the engine says. -/
abbrev Reply : Flight → Type
  | .add _ => Member
  | .children _ => List Member
  | .code _ => String

def enter : (f : Flight) → Tree → Tree.Entry f.Answer × Tree
  | .add path, t => t.beginAdd path
  | .children id, t => t.beginChildren id
  | .code id, t => t.beginCode id

def finish : (f : Flight) → Except Failure f.Reply → Tree → Except Failure f.Answer × Tree
  | .add path => Tree.finishAdd path
  | .children id => Tree.finishChildren id
  | .code id => Tree.finishCode id

/-- The call by which a caller asks the engine; it read the language when it came. Members of some
kinds have no children, for which nobody is asked. -/
def call? : (f : Flight) → Language → Tree → Option Call
  | .add path, _, _ => some (.load path)
  | .children id, _, t =>
    (t.node? id).bind fun n => if n.isExpandable then some (.enumerate n.key n.assembly) else none
  | .code id, l, t => (t.node? id).map fun n => .decompile n.key l n.assembly

/-- What a caller makes of a reply. -/
def heed : (f : Flight) → Tree → Except Failure f.Reply → Except Failure f.Reply
  | .children id, t, r => if (t.node? id).any Node.isExpandable then r else .ok []
  | .add _, _, r | .code _, _, r => r

/-- What those get who waited; an assembly has been added by one caller only. -/
def share : (f : Flight) → f.Answer → f.Answer
  | .add _, _ => false
  | .children _, ids => ids
  | .code _, text => text

end Flight

/-- What an engine says about the members of an assembly. -/
inductive Finding
  | root (assembly : String) (m : Member)
  | members (assembly parent : String) (ms : List Member)

/-- What is learned from a reply. -/
def Flight.findings : (f : Flight) → Tree → Except Failure f.Reply → List Finding
  | .add path, _, .ok m => [.root path m]
  | .children id, t, .ok ms =>
    match t.node? id with
    | some n => if n.isExpandable then [.members n.assembly n.key ms] else []
    | none => []
  | _, _, _ => []

/-! ## Callers of one flight -/

/-- In what part a caller got its answer. -/
inductive Part
  /-- The tree knew. -/
  | alone
  | owner
  | guest (owner : Nat)
deriving DecidableEq

/-- How far a caller has come. -/
inductive Stage (f : Flight)
  | outside
  | asking
  | answered (r : Except Failure f.Reply)
  /-- The tree has it; those who wait do not know yet. -/
  | landed (r : Except Failure f.Answer)
  | waiting (owner : Nat)
  | gone (part : Part) (r : Except Failure f.Answer)

namespace Stage

variable {f : Flight}

/-- The caller is the one for whom the flight is in the table. -/
def isFlying : Stage f → Bool
  | .asking | .answered _ => true
  | _ => false

/-- The caller has asked the engine for all. -/
def isOwner : Stage f → Bool
  | .asking | .answered _ | .landed _ | .gone .owner _ => true
  | _ => false

/-- The caller is between its first look at the tree and its return. -/
def isInside : Stage f → Bool
  | .asking | .answered _ | .landed _ | .waiting _ => true
  | .outside | .gone .. => false

end Stage

structure Visit (f : Flight) where
  /-- The language when the caller came. -/
  language : Language
  stage : Stage f := .outside

structure Company (f : Flight) where
  visits : List (Visit f) := []
  /-- The caller that owns the flight in the table, if there is one. -/
  future : Option Nat := none

inductive Turn (f : Flight)
  | arrive
  | enter (i : Nat)
  | reply (i : Nat) (r : Except Failure f.Reply)
  | finish (i : Nat)
  | wake (i : Nat)
  | leave (i : Nat)

namespace Company

variable {f : Flight}

def stage? (c : Company f) (i : Nat) : Option (Stage f) := c.visits[i]?.map Visit.stage

def bring (c : Company f) (i : Nat) (s : Stage f) : Company f :=
  { c with visits := c.visits.modify i fun v => { v with stage := s } }

/-- A turn; one that is not due changes nothing. -/
def take (t : Tree) (c : Company f) : Turn f → Tree × Company f
  | .arrive => (t, { c with visits := c.visits ++ [⟨t.language, .outside⟩] })
  | .enter i =>
    match c.stage? i with
    | some .outside =>
      match f.enter t, c.future with
      | (.settled r, t), _ => (t, c.bring i (.gone .alone r))
      | (.joined, t), some j => (t, c.bring i (.waiting j))
      | (.joined, t), none => (t, c)
      | (.owner, t), _ => (t, { c.bring i .asking with future := some i })
    | _ => (t, c)
  | .reply i r =>
    match c.stage? i with
    | some .asking => (t, c.bring i (.answered (f.heed t r)))
    | _ => (t, c)
  | .finish i =>
    match c.stage? i with
    | some (.answered r) =>
      let (r, t) := f.finish r t
      (t, { c.bring i (.landed r) with future := none })
    | _ => (t, c)
  | .wake i =>
    match c.stage? i with
    | some (.landed r) => (t, c.bring i (.gone .owner r))
    | _ => (t, c)
  | .leave i =>
    match c.stage? i with
    | some (.waiting j) =>
      match c.stage? j with
      | some (.gone .owner r) => (t, c.bring i (.gone (.guest j) (r.map f.share)))
      | _ => (t, c)
    | _ => (t, c)

/-- What the engine says in a turn. -/
def hears (t : Tree) (c : Company f) : Turn f → List Finding
  | .reply i r =>
    match c.stage? i with
    | some .asking => f.findings t r
    | _ => []
  | _ => []

end Company

/-! ## All callers -/

/-- What else is done to a tree: by the removal of an assembly, by a refresh, by another language and
by listeners. -/
inductive Meddling
  | uproot (path : String)
  | speak (l : Language)
  | refresh
  | tell (e : TreeEvent)
  | subscribe (l : Listening)
  | unsubscribe (l : Listening)

def Tree.suffer (t : Tree) : Meddling → Tree
  | .uproot path => t.uproot path
  | .speak l => { t with language := l }
  | .refresh => t.refresh
  | .tell e => t.tell e
  | .subscribe l => t.subscribe l
  | .unsubscribe l => t.unsubscribe l

structure Visitors where
  tree : Tree
  company : (f : Flight) → Company f := fun _ => {}
  /-- What the engine has said so far. -/
  heard : List Finding := []

inductive Incident
  | turn (f : Flight) (x : Turn f)
  | meddle (m : Meddling)

namespace Visitors

def happen (s : Visitors) : Incident → Visitors
  | .turn f x =>
    let (t, c) := (s.company f).take s.tree x
    ⟨t, Function.update s.company f c, s.heard ++ (s.company f).hears s.tree x⟩
  | .meddle m => { s with tree := s.tree.suffer m }

def after (s : Visitors) (xs : List Incident) : Visitors := xs.foldl happen s

theorem after_append (s : Visitors) (xs ys : List Incident) :
    s.after (xs ++ ys) = (s.after xs).after ys := List.foldl_append

/-- An empty tree that nobody has visited. -/
def fresh (l : Language) : Visitors := { tree := { language := l } }

def stage? (s : Visitors) (f : Flight) (i : Nat) : Option (Stage f) := (s.company f).stage? i

/-- The call to the engine for which a caller waits. -/
def call? (s : Visitors) (f : Flight) (i : Nat) : Option Call :=
  match (s.company f).visits[i]? with
  | some ⟨l, .asking⟩ => f.call? l s.tree
  | _ => none

end Visitors

/-! ## Steps -/

namespace Flight

/-- What a flight is for is not in the tree. -/
def Wanted (t : Tree) : Flight → Prop
  | .add path => path ∉ t.paths
  | .children id => ∃ n, t.node? id = some n ∧ n.children = none
  | .code id => ∃ n, t.node? id = some n ∧ n.code = none

theorem board_cases {α : Type} (t : Tree) (f : Flight) :
    (f ∈ t.flights ∧ (t.board f : Tree.Entry α × Tree) = (.joined, t)) ∨
    (f ∉ t.flights ∧
      (t.board f : Tree.Entry α × Tree) = (.owner, { t with flights := t.flights ++ [f] })) := by
  unfold Tree.board
  by_cases h : f ∈ t.flights <;> simp [h]

theorem beginFetch_cases {α : Type} (t : Tree) (f : Flight) (id : NodeId) (kept : Node → Option α) :
    (∃ r, t.beginFetch f id kept = (.settled r, t)) ∨
    (∃ n, t.node? id = some n ∧ kept n = none ∧ t.isAttached id = true ∧
      t.beginFetch f id kept = t.board f) := by
  unfold Tree.beginFetch
  cases hn : t.node? id with
  | none => exact .inl ⟨_, rfl⟩
  | some n =>
    cases hk : kept n with
    | some v => exact .inl ⟨.ok v, by simp [hk]⟩
    | none =>
      cases ha : t.isAttached id with
      | false => exact .inl ⟨.error (.staleNode n.key), by simp [hk]⟩
      | true => exact .inr ⟨n, rfl, hk, rfl, by simp [hk]⟩

/-- A caller that comes in is told, or joins, or has to ask for what is not in the tree. -/
theorem enter_cases (f : Flight) (t : Tree) :
    (∃ r, f.enter t = (.settled r, t)) ∨
    (f ∈ t.flights ∧ f.enter t = (.joined, t)) ∨
    (f ∉ t.flights ∧ f.Wanted t ∧
      f.enter t = (.owner, { t with flights := t.flights ++ [f] })) := by
  cases f with
  | add path =>
    by_cases hc : t.roots.contains path = true
    · exact .inl ⟨.ok false, by simp [enter, Tree.beginAdd, hc]⟩
    · have hpath : path ∉ t.paths := fun h => hc ((t.roots.contains_iff path).mpr h)
      have hb : Flight.enter (.add path) t = t.board (.add path) := by
        simp [enter, Tree.beginAdd, hc]
      rw [hb]
      rcases board_cases t (.add path) with h | ⟨hf, h⟩
      · exact .inr (.inl h)
      · exact .inr (.inr ⟨hf, hpath, h⟩)
  | children id =>
    rcases beginFetch_cases t (.children id) id Node.children with h | ⟨n, hn, hk, -, h⟩
    · exact .inl h
    · simp only [enter, Tree.beginChildren, h]
      rcases board_cases t (.children id) with hb | ⟨hf, hb⟩
      · exact .inr (.inl hb)
      · exact .inr (.inr ⟨hf, ⟨n, hn, hk⟩, hb⟩)
  | code id =>
    rcases beginFetch_cases t (.code id) id Node.code with h | ⟨n, hn, hk, -, h⟩
    · exact .inl h
    · simp only [enter, Tree.beginCode, h]
      rcases board_cases t (.code id) with hb | ⟨hf, hb⟩
      · exact .inr (.inl hb)
      · exact .inr (.inr ⟨hf, ⟨n, hn, hk⟩, hb⟩)

end Flight

namespace Company

variable {f : Flight} {t : Tree} {c : Company f}

/-- What a turn can do to a tree and to those who share a flight. -/
inductive Step (t : Tree) (c : Company f) : Turn f → Tree → Company f → Prop
  | rest (x : Turn f) : Step t c x t c
  | arrive : Step t c .arrive t { c with visits := c.visits ++ [⟨t.language, .outside⟩] }
  | settle {i : Nat} {r : Except Failure f.Answer} (hi : c.stage? i = some .outside)
      (he : f.enter t = (.settled r, t)) : Step t c (.enter i) t (c.bring i (.gone .alone r))
  | join {i j : Nat} (hi : c.stage? i = some .outside) (hf : f ∈ t.flights)
      (hj : c.future = some j) : Step t c (.enter i) t (c.bring i (.waiting j))
  | board {i : Nat} (hi : c.stage? i = some .outside) (hf : f ∉ t.flights) (hw : f.Wanted t) :
      Step t c (.enter i) { t with flights := t.flights ++ [f] }
        { c.bring i .asking with future := some i }
  | reply {i : Nat} {r : Except Failure f.Reply} (hi : c.stage? i = some .asking) :
      Step t c (.reply i r) t (c.bring i (.answered (f.heed t r)))
  | finish {i : Nat} {r : Except Failure f.Reply} (hi : c.stage? i = some (.answered r)) :
      Step t c (.finish i) (f.finish r t).2
        { c.bring i (.landed (f.finish r t).1) with future := none }
  | wake {i : Nat} {r : Except Failure f.Answer} (hi : c.stage? i = some (.landed r)) :
      Step t c (.wake i) t (c.bring i (.gone .owner r))
  | leave {i j : Nat} {r : Except Failure f.Answer} (hi : c.stage? i = some (.waiting j))
      (hj : c.stage? j = some (.gone .owner r)) :
      Step t c (.leave i) t (c.bring i (.gone (.guest j) (r.map f.share)))

theorem take_enter (t : Tree) (c : Company f) (i : Nat) :
    Step t c (.enter i) (c.take t (.enter i)).1 (c.take t (.enter i)).2 := by
  unfold take
  dsimp only
  split
  · rename_i hi
    rcases f.enter_cases t with ⟨r, he⟩ | ⟨hf, he⟩ | ⟨hf, hw, he⟩
    · rw [he]
      exact .settle hi he
    · rw [he]
      cases hj : c.future with
      | none => exact .rest _
      | some j => exact .join hi hf hj
    · rw [he]
      exact .board hi hf hw
  · exact .rest _

theorem take_step (t : Tree) (c : Company f) (x : Turn f) :
    Step t c x (c.take t x).1 (c.take t x).2 := by
  cases x with
  | arrive => exact .arrive
  | enter i => exact take_enter t c i
  | reply i r =>
    unfold take
    dsimp only
    split
    · rename_i hi
      exact .reply hi
    · exact .rest _
  | finish i =>
    unfold take
    dsimp only
    split
    · rename_i r hi
      exact .finish hi
    · exact .rest _
  | wake i =>
    unfold take
    dsimp only
    split
    · rename_i r hi
      exact .wake hi
    · exact .rest _
  | leave i =>
    unfold take
    dsimp only
    split
    · rename_i j hi
      split
      · rename_i r hj
        exact .leave hi hj
      · exact .rest _
    · exact .rest _

theorem stage?_bring {i : Nat} {st : Stage f} (hi : c.stage? i = some st) (st' : Stage f) (k : Nat) :
    (c.bring i st').stage? k = if i = k then some st' else c.stage? k := by
  simp only [stage?, bring, List.getElem?_modify]
  split
  · rename_i hk
    subst hk
    obtain ⟨v, hv, -⟩ := Option.map_eq_some_iff.mp hi
    simp [hv]
  · simp

theorem stage?_arrive (c : Company f) (l : Language) (k : Nat) :
    ({ c with visits := c.visits ++ [⟨l, .outside⟩] } : Company f).stage? k =
      if c.visits.length = k then some .outside else c.stage? k := by
  simp only [stage?, List.getElem?_append]
  rcases Nat.lt_trichotomy k c.visits.length with h | h | h
  · simp [h, Nat.ne_of_gt h]
  · simp [h]
  · have : c.visits.length ≤ k := by omega
    simp [Nat.not_lt.mpr this, Nat.ne_of_lt h]
    omega

end Company

namespace Visitors

variable {s : Visitors} {f : Flight} {r : Except Failure f.Reply} {j : Nat}

/-- The stages of those who share a flight after a turn of one of them. -/
theorem stage?_turn (s : Visitors) (f : Flight) (x : Turn f) (k : Nat) :
    (s.happen (.turn f x)).stage? f k = ((s.company f).take s.tree x).2.stage? k := by
  simp [Visitors.happen, stage?]

theorem stage?_reply (hj : s.stage? f j = some .asking) (r : Except Failure f.Reply) (k : Nat) :
    (s.happen (.turn f (.reply j r))).stage? f k =
      if j = k then some (.answered (f.heed s.tree r)) else s.stage? f k := by
  have hc : (s.company f).stage? j = some .asking := hj
  rw [stage?_turn, Company.take, hc]
  exact Company.stage?_bring hc _ k

theorem stage?_finish (hj : s.stage? f j = some (.answered r)) (k : Nat) :
    (s.happen (.turn f (.finish j))).stage? f k =
      if j = k then some (.landed (f.finish r s.tree).1) else s.stage? f k := by
  have hc : (s.company f).stage? j = some (.answered r) := hj
  rw [stage?_turn, Company.take, hc]
  exact Company.stage?_bring hc _ k

theorem tree_finish (hj : s.stage? f j = some (.answered r)) :
    (s.happen (.turn f (.finish j))).tree = (f.finish r s.tree).2 := by
  have hc : (s.company f).stage? j = some (.answered r) := hj
  simp [happen, Company.take, hc]

theorem stage?_wake {a : Except Failure f.Answer} (hj : s.stage? f j = some (.landed a)) (k : Nat) :
    (s.happen (.turn f (.wake j))).stage? f k =
      if j = k then some (.gone .owner a) else s.stage? f k := by
  have hc : (s.company f).stage? j = some (.landed a) := hj
  rw [stage?_turn, Company.take, hc]
  exact Company.stage?_bring hc _ k

theorem stage?_leave {i : Nat} {a : Except Failure f.Answer} (hi : s.stage? f i = some (.waiting j))
    (hj : s.stage? f j = some (.gone .owner a)) (k : Nat) :
    (s.happen (.turn f (.leave i))).stage? f k =
      if i = k then some (.gone (.guest j) (a.map f.share)) else s.stage? f k := by
  have hc : (s.company f).stage? i = some (.waiting j) := hi
  have hc' : (s.company f).stage? j = some (.gone .owner a) := hj
  simp only [stage?_turn, Company.take, hc, hc']
  exact Company.stage?_bring hc _ k

/-! ## A caller alone -/

/-- A caller that comes alone and to which the engine says a certain thing. -/
def visit (f : Flight) (i : Nat) (r : Except Failure f.Reply) : List Incident :=
  [.turn f .arrive, .turn f (.enter i), .turn f (.reply i r), .turn f (.finish i),
    .turn f (.wake i)]

/-- A caller that has gone takes no more turns. -/
theorem happen_gone {p : Part} {a : Except Failure f.Answer} (hj : s.stage? f j = some (.gone p a))
    {x : Turn f} (hx : (∃ r, x = .reply j r) ∨ x = .finish j ∨ x = .wake j) :
    (s.happen (.turn f x)).tree = s.tree ∧ (s.happen (.turn f x)).stage? f j = s.stage? f j := by
  have hc : (s.company f).stage? j = some (.gone p a) := hj
  have htake : (s.company f).take s.tree x = (s.tree, s.company f) := by
    rcases hx with ⟨r, rfl⟩ | rfl | rfl <;> simp only [Company.take, hc]
  refine ⟨?_, ?_⟩
  · simp only [happen, htake]
  · rw [stage?_turn, htake]
    rfl

theorem after_gone {p : Part} {a : Except Failure f.Answer} (hj : s.stage? f j = some (.gone p a))
    (r : Except Failure f.Reply) :
    let s' := s.after [.turn f (.reply j r), .turn f (.finish j), .turn f (.wake j)]
    s'.tree = s.tree ∧ s'.stage? f j = some (.gone p a) := by
  obtain ⟨ht, hst⟩ := happen_gone hj (.inl ⟨r, rfl⟩)
  obtain ⟨ht', hst'⟩ := happen_gone (hst.trans hj) (.inr (.inl rfl))
  obtain ⟨ht'', hst''⟩ := happen_gone (hst'.trans (hst.trans hj)) (.inr (.inr rfl))
  exact ⟨ht''.trans (ht'.trans ht), hst''.trans (hst'.trans (hst.trans hj))⟩

theorem happen_settled {a : Except Failure f.Answer} (hj : s.stage? f j = some .outside)
    (he : f.enter s.tree = (.settled a, s.tree)) :
    (s.happen (.turn f (.enter j))).tree = s.tree ∧
      (s.happen (.turn f (.enter j))).stage? f j = some (.gone .alone a) := by
  have hc : (s.company f).stage? j = some .outside := hj
  have htake : (s.company f).take s.tree (.enter j) =
      (s.tree, (s.company f).bring j (.gone .alone a)) := by
    simp only [Company.take, hc, he]
  refine ⟨by simp only [happen, htake], ?_⟩
  rw [stage?_turn, htake]
  exact (Company.stage?_bring hc _ j).trans (if_pos rfl)

theorem happen_owner {t : Tree} (hj : s.stage? f j = some .outside)
    (he : f.enter s.tree = (.owner, t)) :
    (s.happen (.turn f (.enter j))).tree = t ∧
      (s.happen (.turn f (.enter j))).stage? f j = some .asking := by
  have hc : (s.company f).stage? j = some .outside := hj
  have htake : (s.company f).take s.tree (.enter j) =
      (t, { (s.company f).bring j .asking with future := some j }) := by
    simp only [Company.take, hc, he]
  refine ⟨by simp only [happen, htake], ?_⟩
  rw [stage?_turn, htake]
  exact (Company.stage?_bring hc _ j).trans (if_pos rfl)

theorem tree_reply (s : Visitors) (f : Flight) (j : Nat) (r : Except Failure f.Reply) :
    (s.happen (.turn f (.reply j r))).tree = s.tree := by
  simp only [happen, Company.take]
  split <;> rfl

theorem tree_wake (s : Visitors) (f : Flight) (j : Nat) :
    (s.happen (.turn f (.wake j))).tree = s.tree := by
  simp only [happen, Company.take]
  split <;> rfl

theorem after_asking (hj : s.stage? f j = some .asking) (r : Except Failure f.Reply) :
    let s' := s.after [.turn f (.reply j r), .turn f (.finish j), .turn f (.wake j)]
    s'.tree = (f.finish (f.heed s.tree r) s.tree).2 ∧
      s'.stage? f j = some (.gone .owner (f.finish (f.heed s.tree r) s.tree).1) := by
  have hanswered := (stage?_reply hj r j).trans (if_pos rfl)
  have hlanded := (stage?_finish hanswered j).trans (if_pos rfl)
  have hgone := (stage?_wake hlanded j).trans (if_pos rfl)
  have htree := tree_finish hanswered
  rw [tree_reply] at hgone htree
  exact ⟨(tree_wake _ f j).trans htree, hgone⟩

end Visitors

namespace Flight

variable {σ : Type} (b : Backend σ)

/-- The operation of a caller that uses a tree alone. -/
def perform : (f : Flight) → Attempt (Forest σ) f.Answer
  | .add path => Forest.add b.engine path
  | .children id => Forest.children b.engine id
  | .code id => Forest.code b.engine id

def ask : (f : Flight) → Attempt (Forest σ) f.Reply
  | .add path => b.engine (.load path)
  | .children id => Forest.askChildren b.engine id
  | .code id => Forest.askCode b.engine id

theorem perform_eq (f : Flight) : f.perform b = Forest.consult f.enter (f.ask b) f.finish := by
  cases f <;> rfl

theorem ask_run (f : Flight) (s : Forest σ) :
    ∃ r w, (f.ask b).runFrom s = (f.heed s.tree r, { s with world := w }) := by
  cases f with
  | add path => exact ⟨_, _, Forest.runFrom_lift (b (.load path)) s⟩
  | children id =>
    cases hn : s.tree.node? id with
    | none =>
      refine ⟨.ok [], s.world, ?_⟩
      simp only [ask, Forest.askChildren, heed, hn]
      rw [Attempt.runFrom_bind_ok (Attempt.runFrom_get s)]
      simp only [hn]
      rfl
    | some n =>
      by_cases he : n.isExpandable = true
      · let reply := (b (.enumerate n.key n.assembly)).runFrom s.world
        refine ⟨reply.1, reply.2, ?_⟩
        simp only [ask, heed, hn, Option.any_some, he, if_true]
        exact (Forest.askChildren_run b hn he).trans (Forest.runFrom_lift _ s)
      · exact ⟨.ok [], s.world, by simp [ask, Forest.askChildren_leaf b hn he, heed, hn, he]⟩
  | code id =>
    cases hn : s.tree.node? id with
    | none =>
      refine ⟨.ok "", s.world, ?_⟩
      simp only [ask, Forest.askCode, heed]
      rw [Attempt.runFrom_bind_ok (Attempt.runFrom_get s)]
      simp only [hn]
      rfl
    | some n => exact ⟨_, _, (Forest.askCode_run b hn).trans (Forest.runFrom_lift _ s)⟩

/-- A caller alone goes through the tree as its operation does. -/
theorem perform_visits (f : Flight) (s : Visitors) (h : s.tree.flights = []) (w : σ) :
    let i := (s.company f).visits.length
    ∃ r w' p a, (f.perform b).runFrom ⟨s.tree, w⟩ =
        (a, ⟨(s.after (Visitors.visit f i r)).tree, w'⟩) ∧
      (s.after (Visitors.visit f i r)).stage? f i = some (.gone p a) := by
  intro i
  have hout : (s.happen (.turn f .arrive)).stage? f i = some .outside := by
    rw [Visitors.stage?_turn]
    exact (Company.stage?_arrive (s.company f) s.tree.language i).trans (if_pos rfl)
  rw [perform_eq]
  rcases f.enter_cases s.tree with ⟨a, he⟩ | ⟨hf, -⟩ | ⟨-, -, he⟩
  · obtain ⟨htree, hgone⟩ := Visitors.happen_settled hout he
    obtain ⟨htree', hgone'⟩ := Visitors.after_gone hgone (.error Forest.waitsForItself)
    refine ⟨.error Forest.waitsForItself, w, .alone, a, ?_, hgone'⟩
    rw [Forest.consult_settled he]
    exact congrArg (fun t => (a, (⟨t, w⟩ : Forest σ))) (htree'.trans htree).symm
  · rw [h] at hf
    cases hf
  · obtain ⟨htree, hasking⟩ := Visitors.happen_owner hout he
    obtain ⟨r, w', hask⟩ := f.ask_run b ⟨{ s.tree with flights := s.tree.flights ++ [f] }, w⟩
    obtain ⟨htree', hgone'⟩ := Visitors.after_asking hasking r
    rw [htree] at htree' hgone'
    refine ⟨r, w', .owner, _, ?_, hgone'⟩
    rw [Forest.consult_owner he hask]
    exact congrArg (fun t => (_, (⟨t, w'⟩ : Forest σ))) htree'.symm

end Flight

end AssemblyBrowser
