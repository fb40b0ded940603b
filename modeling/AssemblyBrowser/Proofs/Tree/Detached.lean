import AssemblyBrowser.Proofs.Tree.Memo
/-!
Nodes that have been detached. Such a node is never attached again, nothing more is kept on it, and
the engine is not asked about it any more. Main statement: a detached node is refused if nothing had
been kept on it for what is wanted, and only then; what had been kept is still handed out, though the
node is no longer part of the tree.

Callers may use a tree at the same time. What one of them does to the tree in one go is a move, and
while the engine works on a call others may make moves.
-/
namespace AssemblyBrowser

/-- What a caller does to a tree in one go. -/
inductive TreeMove
  | beginAdd (path : String)
  | finishAdd (path : String) (r : Except Failure Member)
  | uproot (path : String)
  | speak (l : Language)
  | refresh
  | beginChildren (id : NodeId)
  | finishChildren (id : NodeId) (r : Except Failure (List Member))
  | beginCode (id : NodeId)
  | finishCode (id : NodeId) (r : Except Failure String)
  | tell (e : TreeEvent)
  | subscribe (l : Listening)
  | unsubscribe (l : Listening)

namespace Tree

def move (t : Tree) : TreeMove → Tree
  | .beginAdd path => (t.beginAdd path).2
  | .finishAdd path r => (finishAdd path r t).2
  | .uproot path => t.uproot path
  | .speak l => { t with language := l }
  | .refresh => t.refresh
  | .beginChildren id => (t.beginChildren id).2
  | .finishChildren id r => (finishChildren id r t).2
  | .beginCode id => (t.beginCode id).2
  | .finishCode id r => (finishCode id r t).2
  | .tell e => t.tell e
  | .subscribe l => t.subscribe l
  | .unsubscribe l => t.unsubscribe l

/-- A tree later: what was detached is as it was, and only new nodes have come into slots. -/
structure MovesOn (t t' : Tree) : Prop where
  rests : ∀ id n, t.node? id = some n → t.isAttached id = false → t'.node? id = some n
  longer : t.nodes.length ≤ t'.nodes.length
  slots : ∀ slot id, t'.slots.find? slot = some id →
    t.slots.find? slot = some id ∨ t.nodes.length ≤ id

variable {t t' t'' : Tree} {id : NodeId} {n : Node}

theorem lt_of_node? (h : t.node? id = some n) : id < t.nodes.length :=
  (List.getElem?_eq_some_iff.mp h).1

theorem isAttached_of_node? (h : t.node? id = some n) :
    t.isAttached id = true ↔ t.slots.find? n.slot = some id := by
  simp [isAttached, h]

/-- A detached node is not attached again. -/
theorem MovesOn.detached (h : t.MovesOn t') (hn : t.node? id = some n)
    (hd : t.isAttached id = false) : t'.isAttached id = false := by
  have hn' := h.rests id n hn hd
  have hlt := lt_of_node? hn
  cases ha : t'.isAttached id with
  | false => rfl
  | true =>
    have hslot := (isAttached_of_node? hn').mp ha
    rcases h.slots n.slot id hslot with hold | hge
    · have hattached := (isAttached_of_node? hn).mpr hold
      simp [hd] at hattached
    · exact absurd hlt (Nat.not_lt.mpr hge)

theorem MovesOn.refl (t : Tree) : t.MovesOn t :=
  ⟨fun _ _ h _ => h, Nat.le_refl _, fun _ _ h => .inl h⟩

theorem MovesOn.trans (h : t.MovesOn t') (h' : t'.MovesOn t'') : t.MovesOn t'' where
  rests id n hn hd := h'.rests id n (h.rests id n hn hd) (h.detached hn hd)
  longer := Nat.le_trans h.longer h'.longer
  slots slot id hs := by
    have hle := h.longer
    rcases h'.slots slot id hs with hs | hge
    · exact h.slots slot id hs
    · right
      omega

theorem MovesOn.of_same (hn : t'.nodes = t.nodes) (hs : t'.slots = t.slots) : t.MovesOn t' := by
  refine ⟨fun id n h _ => ?_, Nat.le_of_eq (by rw [hn]), fun slot id h => .inl (hs ▸ h)⟩
  rw [node?, hn]
  exact h

/-! ## Moves -/

theorem board_movesOn {α : Type} (t : Tree) (f : Flight) :
    t.MovesOn (t.board f : Entry α × Tree).2 := by
  unfold board
  split <;> exact .of_same rfl rfl

theorem land_movesOn (t : Tree) (f : Flight) : t.MovesOn (t.land f) := .of_same rfl rfl

theorem tell_movesOn (t : Tree) (e : TreeEvent) : t.MovesOn (t.tell e) := .of_same rfl rfl

theorem beginFetch_movesOn {α : Type} (t : Tree) (f : Flight) (id : NodeId)
    (kept : Node → Option α) : t.MovesOn (t.beginFetch f id kept).2 := by
  unfold beginFetch
  split
  · exact .refl t
  · split
    · exact .refl t
    · split
      · exact board_movesOn t f
      · exact .refl t

theorem plant_movesOn (t : Tree) (path : String) (m : Member) : t.MovesOn (t.plant path m) := by
  refine ⟨fun id n hn _ => node?_append_old (l := [.root path m]) rfl hn, by simp [plant], ?_⟩
  intro slot id h
  simp only [plant, OrderedMap.find?_put] at h
  split at h
  · right
    exact Nat.le_of_eq (Option.some.inj h)
  · exact .inl h

theorem foldl_plant_movesOn (rs : List (String × Root)) (t : Tree) :
    t.MovesOn (rs.foldl (fun t (path, r) => t.plant path r.member) t) := by
  induction rs generalizing t with
  | nil => exact .refl t
  | cons r rs ih => exact (plant_movesOn t _ _).trans (ih _)

/-- A tree with no node in any slot. -/
def bare (t : Tree) : Tree := { t with roots := ∅, slots := ∅ }

theorem bare_movesOn (t : Tree) : t.MovesOn t.bare :=
  ⟨fun _ _ h _ => h, Nat.le_refl _, fun _ _ h => by simp [bare] at h⟩

theorem refresh_movesOn (t : Tree) : t.MovesOn t.refresh :=
  (t.bare_movesOn.trans (foldl_plant_movesOn t.roots.entries t.bare)).trans (tell_movesOn _ _)

theorem uproot_movesOn (t : Tree) (path : String) : t.MovesOn (t.uproot path) := by
  refine ⟨fun _ _ h _ => h, Nat.le_refl _, fun slot id h => ?_⟩
  simp only [uproot, OrderedMap.find?_filter] at h
  split at h
  · exact .inl h
  · cases h

theorem create_movesOn (t : Tree) (ns : List Node) : t.MovesOn (t.create ns).2 :=
  ⟨fun _ _ hn _ => node?_append_old (l := ns) rfl hn, by simp [create], fun _ _ h => .inl h⟩

/-- Only what is kept on an attached node is changed. -/
theorem modify_movesOn (ha : t.isAttached id = true) (f : Node → Node) :
    t.MovesOn (t.modify id f) := by
  refine ⟨fun j n hn hd => ?_, by simp [modify], fun _ _ h => .inl h⟩
  have hne : id ≠ j := by
    intro he
    rw [he, hd] at ha
    cases ha
  rw [node?_modify, if_neg hne]
  exact hn

theorem slots_attach {slot : Slot} {j : NodeId} (h : (t.attach id).slots.find? slot = some j) :
    t.slots.find? slot = some j ∨ j = id := by
  unfold attach at h
  split at h
  · rw [OrderedMap.find?_put] at h
    split at h
    · exact .inr (Option.some.inj h).symm
    · exact .inl h
  · exact .inl h

/-- New nodes may be attached. -/
theorem MovesOn.foldl_attach (ids : List NodeId) (hids : ∀ id ∈ ids, t.nodes.length ≤ id) :
    ∀ {t' : Tree}, t.MovesOn t' → t.MovesOn (ids.foldl Tree.attach t') := by
  induction ids with
  | nil => exact fun h => h
  | cons id ids ih =>
    intro t' h
    have hattach : t.MovesOn (t'.attach id) := by
      refine ⟨fun j n hn hd => ?_, ?_, fun slot j hs => ?_⟩
      · rw [node?, nodes_attach]
        exact h.rests j n hn hd
      · rw [nodes_attach]
        exact h.longer
      · rcases slots_attach hs with hs | rfl
        · exact h.slots slot j hs
        · exact .inr (hids j List.mem_cons_self)
    exact ih (fun j hj => hids j (List.mem_cons_of_mem _ hj)) hattach

theorem finishChildren_movesOn (id : NodeId) (r : Except Failure (List Member)) (t : Tree) :
    t.MovesOn (finishChildren id r t).2 := by
  have hland := land_movesOn t (.children id)
  unfold finishChildren
  generalize t.land (.children id) = u at hland
  cases r with
  | error f => exact hland
  | ok ms =>
    cases hn : u.node? id with
    | none =>
      simp only [hn]
      exact hland
    | some n =>
      have hcreate := hland.trans (create_movesOn u (ms.map n.child))
      simp only [hn]
      split
      · rename_i ha
        refine MovesOn.foldl_attach _ (fun j hj => ?_) (hcreate.trans (modify_movesOn ha _))
        have hge : u.nodes.length ≤ j := (List.mem_range'_1.mp hj).1
        exact Nat.le_trans hland.longer hge
      · exact hcreate

theorem finishCode_movesOn (id : NodeId) (r : Except Failure String) (t : Tree) :
    t.MovesOn (finishCode id r t).2 := by
  have hland := land_movesOn t (.code id)
  unfold finishCode
  generalize t.land (.code id) = u at hland
  cases r with
  | error f => exact hland
  | ok text =>
    dsimp only
    split
    · rename_i ha
      exact hland.trans (modify_movesOn ha _)
    · exact hland

theorem finishAdd_movesOn (path : String) (r : Except Failure Member) (t : Tree) :
    t.MovesOn (finishAdd path r t).2 := by
  have hland := land_movesOn t (.add path)
  unfold finishAdd
  cases r with
  | error f => exact hland
  | ok m => exact (hland.trans (plant_movesOn _ path m)).trans (tell_movesOn _ _)

theorem beginAdd_movesOn (t : Tree) (path : String) : t.MovesOn (t.beginAdd path).2 := by
  unfold beginAdd
  split
  · exact .refl t
  · exact board_movesOn t _

theorem move_movesOn (t : Tree) (m : TreeMove) : t.MovesOn (t.move m) := by
  cases m with
  | beginAdd path => exact beginAdd_movesOn t path
  | finishAdd path r => exact finishAdd_movesOn path r t
  | uproot path => exact uproot_movesOn t path
  | speak l => exact .of_same rfl rfl
  | refresh => exact refresh_movesOn t
  | beginChildren id => exact beginFetch_movesOn t _ id _
  | finishChildren id r => exact finishChildren_movesOn id r t
  | beginCode id => exact beginFetch_movesOn t _ id _
  | finishCode id r => exact finishCode_movesOn id r t
  | tell e => exact tell_movesOn t e
  | subscribe l => exact .of_same rfl rfl
  | unsubscribe l => exact .of_same rfl rfl

/-- A tree that moves lead to. -/
def Reaches (t t' : Tree) : Prop := ∃ ms : List TreeMove, ms.foldl move t = t'

theorem Reaches.refl (t : Tree) : t.Reaches t := ⟨[], rfl⟩

theorem Reaches.move (t : Tree) (m : TreeMove) : t.Reaches (t.move m) := ⟨[m], rfl⟩

theorem Reaches.trans (h : t.Reaches t') (h' : t'.Reaches t'') : t.Reaches t'' := by
  obtain ⟨ms, rfl⟩ := h
  obtain ⟨ms', rfl⟩ := h'
  exact ⟨ms ++ ms', List.foldl_append⟩

theorem Reaches.movesOn (h : t.Reaches t') : t.MovesOn t' := by
  obtain ⟨ms, rfl⟩ := h
  induction ms generalizing t with
  | nil => exact .refl t
  | cons m ms ih => exact (move_movesOn t m).trans ih

end Tree

/-! ## Operations -/

/-- While the engine works on a call, callers make moves, and nothing else is done to the tree. -/
def Engine.Admits {σ : Type} (engine : Engine σ) : Prop :=
  ∀ c (s : Forest σ), s.tree.Reaches ((engine c).runFrom s).2.tree

namespace Forest

variable {σ α β : Type} {engine : Engine σ}

theorem consult_reaches {enter : Tree → Tree.Entry α × Tree} {ask : Attempt (Forest σ) β}
    {finish : Except Failure β → Tree → Except Failure α × Tree}
    (henter : ∀ t : Tree, t.Reaches (enter t).2)
    (hask : ∀ s : Forest σ, s.tree.Reaches (ask.runFrom s).2.tree)
    (hfinish : ∀ r (t : Tree), t.Reaches (finish r t).2) (s : Forest σ) :
    s.tree.Reaches ((consult enter ask finish).runFrom s).2.tree := by
  have hentered := henter s.tree
  simp only [Attempt.runFrom, ExceptT.run, consult]
  cases he : enter s.tree with
  | mk entry t =>
    rw [he] at hentered
    cases entry with
    | settled r => exact hentered
    | joined => exact hentered
    | owner => exact (hentered.trans (hask { s with tree := t })).trans (hfinish _ _)

theorem askChildren_reaches (he : engine.Admits) (id : NodeId) (s : Forest σ) :
    s.tree.Reaches ((askChildren engine id).runFrom s).2.tree := by
  unfold askChildren
  rw [Attempt.runFrom_bind_ok (Attempt.runFrom_get s)]
  split
  · split
    · exact he _ s
    · exact .refl _
  · exact .refl _

theorem askCode_reaches (he : engine.Admits) (id : NodeId) (s : Forest σ) :
    s.tree.Reaches ((askCode engine id).runFrom s).2.tree := by
  unfold askCode
  rw [Attempt.runFrom_bind_ok (Attempt.runFrom_get s)]
  dsimp only
  split
  · exact he _ s
  · exact .refl _

/-- An assembly that is in the tree is detached first, and then the engine is told. -/
theorem remove_reaches (he : engine.Admits) {path : String} {s : Forest σ}
    (h : s.tree.roots.contains path = true) :
    (s.tree.uproot path).Reaches ((remove engine path).runFrom s).2.tree := by
  unfold remove
  rw [Attempt.runFrom_bind_ok (Attempt.runFrom_get s)]
  simp only [h, if_true]
  rw [Attempt.runFrom_bind_ok (Attempt.runFrom_set s _), Attempt.runFrom_bind]
  have hcall := he (.unload path) { s with tree := s.tree.uproot path }
  cases hr : (engine (.unload path)).runFrom { s with tree := s.tree.uproot path } with
  | mk r u =>
    rw [hr] at hcall
    cases r with
    | error f => exact hcall
    | ok _ => exact hcall.trans (.move u.tree (.tell (.removed path)))

theorem setLanguage_reaches (t : Tree) (l : Language) : t.Reaches (t.setLanguage l).2 := by
  unfold Tree.setLanguage
  split
  · exact .refl t
  · exact ⟨[.speak l, .refresh], rfl⟩

/-- An operation consists of moves of its caller, and of those of others during its call. -/
theorem perform_reaches (he : engine.Admits) (p : TreeOperation) (s : Forest σ) :
    s.tree.Reaches ((p.perform engine).runFrom s).2.tree := by
  cases p with
  | add path =>
    exact consult_reaches (fun t => .move t (.beginAdd path)) (he (.load path))
      (fun r t => .move t (.finishAdd path r)) s
  | remove path =>
    cases h : s.tree.roots.contains path with
    | true => exact Tree.Reaches.trans (.move s.tree (.uproot path)) (remove_reaches he h)
    | false =>
      have hsame : ((remove engine path).runFrom s).2 = s := by
        unfold remove
        rw [Attempt.runFrom_bind_ok (Attempt.runFrom_get s)]
        simp only [h, Bool.false_eq_true, if_false]
        rfl
      rw [TreeOperation.perform, hsame]
      exact .refl _
  | refresh => exact .move s.tree .refresh
  | setLanguage name =>
    simp only [TreeOperation.perform, setLanguage, Attempt.runFrom_bind, Attempt.runFrom_ofExcept]
    cases Language.parse name with
    | error e => exact .refl _
    | ok l => exact setLanguage_reaches s.tree l
  | children id =>
    exact consult_reaches (fun t => .move t (.beginChildren id)) (askChildren_reaches he id)
      (fun r t => .move t (.finishChildren id r)) s
  | code id =>
    exact consult_reaches (fun t => .move t (.beginCode id)) (askCode_reaches he id)
      (fun r t => .move t (.finishCode id r)) s

/-- What happens to a tree over time: operations, and moves of others in between. -/
def proceed (engine : Engine σ) (s : Forest σ) : TreeOperation ⊕ TreeMove → Forest σ
  | .inl p => ((p.perform engine).runFrom s).2
  | .inr m => { s with tree := s.tree.move m }

theorem proceed_reaches (he : engine.Admits) (xs : List (TreeOperation ⊕ TreeMove))
    (s : Forest σ) : s.tree.Reaches (xs.foldl (proceed engine) s).tree := by
  induction xs generalizing s with
  | nil => exact .refl _
  | cons x xs ih =>
    have hx : s.tree.Reaches (proceed engine s x).tree := by
      cases x with
      | inl p => exact perform_reaches he p s
      | inr m => exact .move s.tree m
    exact hx.trans (ih _)

/-! ## Detached nodes -/

/-- What a node answers when it is not attached: what was kept on it, or that it is stale. -/
def leftover (n : Node) : Option α → Except Failure α
  | some v => .ok v
  | none => .error (.staleNode n.key)

theorem fetch_detached {f : Flight} {id : NodeId} {n : Node} {kept : Node → Option α}
    {ask : Attempt (Forest σ) β} {finish : Except Failure β → Tree → Except Failure α × Tree}
    {s : Forest σ} (hn : s.tree.node? id = some n) (hd : s.tree.isAttached id = false) :
    (consult (·.beginFetch f id kept) ask finish).runFrom s = (leftover n (kept n), s) := by
  refine consult_settled (t := s.tree) ?_
  unfold Tree.beginFetch
  rw [hn]
  cases hk : kept n with
  | some v => simp [hk, leftover]
  | none => simp [hk, hd, leftover]

end Forest

/-- An operation by which a node is detached. -/
def TreeOperation.Detaches (t : Tree) (n : Node) : TreeOperation → Prop
  | .refresh => True
  | .setLanguage name => ∃ l, Language.parse name = .ok l ∧ l ≠ t.language
  | .remove path => path = n.assembly ∧ t.roots.contains path = true
  | .add _ | .children _ | .code _ => False

namespace Tree

variable {t : Tree} {id : NodeId} {n : Node}

/-- Of the nodes that there are, a refreshed tree has none in a slot. -/
theorem refresh_detaches (hn : t.node? id = some n) :
    t.refresh.node? id = some n ∧ t.refresh.isAttached id = false := by
  have hd : t.bare.isAttached id = false := by
    simp [isAttached, bare, node?] at hn ⊢
    simp [hn]
  have hon := (foldl_plant_movesOn t.roots.entries t.bare).trans (tell_movesOn _ .refreshed)
  exact ⟨hon.rests id n hn hd, hon.detached hn hd⟩

theorem uproot_detaches (hn : t.node? id = some n) :
    (t.uproot n.assembly).node? id = some n ∧ (t.uproot n.assembly).isAttached id = false := by
  refine ⟨hn, ?_⟩
  have hn' : (t.uproot n.assembly).node? id = some n := hn
  rw [isAttached, hn']
  simp [uproot, OrderedMap.find?_filter, Node.slot]

end Tree

namespace Forest

variable {σ : Type} {engine : Engine σ}

theorem perform_detaches (he : engine.Admits) {p : TreeOperation} {s : Forest σ} {id : NodeId}
    {n : Node} (hn : s.tree.node? id = some n) (hp : p.Detaches s.tree n) :
    let t := ((p.perform engine).runFrom s).2.tree
    t.node? id = some n ∧ t.isAttached id = false := by
  cases p with
  | refresh => exact Tree.refresh_detaches hn
  | setLanguage name =>
    obtain ⟨l, hparse, hne⟩ := hp
    have hlanguage : (Language.parse name).mapError Failure.language = .ok l := by rw [hparse]; rfl
    simp only [TreeOperation.perform, setLanguage, Attempt.runFrom_bind, Attempt.runFrom_ofExcept,
      hlanguage]
    have hset : (s.tree.setLanguage l).2 = ({ s.tree with language := l } : Tree).refresh := by
      simp [Tree.setLanguage, Ne.symm hne]
    have hdetached := Tree.refresh_detaches (t := { s.tree with language := l }) hn
    rw [← hset] at hdetached
    exact hdetached
  | remove path =>
    obtain ⟨rfl, hroot⟩ := hp
    obtain ⟨hn', hd⟩ := Tree.uproot_detaches hn
    have hon := (remove_reaches he hroot).movesOn
    exact ⟨hon.rests id n hn' hd, hon.detached hn' hd⟩
  | add path => exact hp.elim
  | children id => exact hp.elim
  | code id => exact hp.elim

/-- A node that is detached by a refresh, by another language or by the removal of its assembly
stays as it is, whatever callers do from then on. It is refused for what had not been kept on it, and
what had been kept is handed out; no engine is asked, and nothing changes. -/
theorem detached_refused_unless_kept (he : engine.Admits) (s : Forest σ) (p : TreeOperation)
    (id : NodeId) (n : Node) (hn : s.tree.node? id = some n) (hp : p.Detaches s.tree n)
    (xs : List (TreeOperation ⊕ TreeMove)) :
    let u := xs.foldl (proceed engine) ((p.perform engine).runFrom s).2
    u.tree.isAttached id = false ∧ ∀ anyEngine : Engine σ,
      (children anyEngine id).runFrom u = (leftover n n.children, u) ∧
      (code anyEngine id).runFrom u = (leftover n n.code, u) := by
  intro u
  obtain ⟨hn', hd⟩ := perform_detaches he hn hp
  have hon := (proceed_reaches he xs ((p.perform engine).runFrom s).2).movesOn
  have hdetached : u.tree.isAttached id = false := hon.detached hn' hd
  have hnode : u.tree.node? id = some n := hon.rests id n hn' hd
  exact ⟨hdetached, fun anyEngine =>
    ⟨fetch_detached hnode hdetached, fetch_detached hnode hdetached⟩⟩

theorem lifted_admits (b : Backend σ) : b.engine.Admits := fun _ s => .refl s.tree

/-- The text of the root is kept in one language and handed out when the language is another one;
its children were not kept. -/
theorem detached_refused_unless_kept_text :
    let engine := (counting library).engine
    let s := [.inl (.add "a.dll"), .inl (.code 0)].foldl (proceed engine) ⟨{}, 0⟩
    let u := [.inl (.children 0), .inr .refresh].foldl (proceed engine)
      (((TreeOperation.setLanguage "il").perform engine).runFrom s).2
    u.tree.language = .il ∧ ((code engine 0).runFrom u).1 = .ok "csharp:root" ∧
      ((children engine 0).runFrom u).1 = .error (.staleNode "root") := by
  have h := detached_refused_unless_kept (lifted_admits (counting library))
    ([.inl (.add "a.dll"), .inl (.code 0)].foldl (proceed (counting library).engine) ⟨{}, 0⟩)
    (.setLanguage "il") 0 ⟨⟨"root", "a.dll", .assembly, none⟩, "a.dll", none, none,
      some "csharp:root"⟩ (by decide +kernel) ⟨.il, by decide +kernel, by decide +kernel⟩
    [.inl (.children 0), .inr .refresh]
  obtain ⟨hchildren, hcode⟩ := h.2 (counting library).engine
  refine ⟨by decide +kernel, ?_, ?_⟩
  · rw [hcode]
    rfl
  · rw [hchildren]
    rfl

end Forest

end AssemblyBrowser
