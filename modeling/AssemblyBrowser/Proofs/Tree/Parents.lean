import AssemblyBrowser.Proofs.Tree.Displacement
/-!
Parents and children. Main statement: if an engine never reports a key of an assembly for two members,
then the attached nodes are a forest: each is the root of its assembly or is kept once, below the one
node that it names as its parent, and from parent to parent one comes to the root.
-/
namespace AssemblyBrowser

/-- In an assembly a key belongs to one member: no listing repeats it, no two parents have it, and it is
not the root's. -/
structure Unambiguous (fs : List Finding) : Prop where
  distinct : ∀ a p ms, .members a p ms ∈ fs → (ms.map Member.key).Nodup
  parent : ∀ a p q ms ms', .members a p ms ∈ fs → .members a q ms' ∈ fs →
    ∀ key ∈ ms.map Member.key, key ∈ ms'.map Member.key → p = q
  root : ∀ a r p ms, .root a r ∈ fs → .members a p ms ∈ fs → r.key ∉ ms.map Member.key

theorem Unambiguous.mono {fs fs' : List Finding} (h : Unambiguous fs') (hs : fs ⊆ fs') :
    Unambiguous fs where
  distinct a p ms hm := h.distinct a p ms (hs hm)
  parent a p q ms ms' hm hm' := h.parent a p q ms ms' (hs hm) (hs hm')
  root a r p ms hr hm := h.root a r p ms (hs hr) (hs hm)

/-! ## Where nodes come from -/

/-- An engine has reported the member of a node, in the place where it is. -/
def Node.Told (fs : List Finding) (n : Node) : Prop :=
  match n.parent with
  | none => ∃ m, .root n.assembly m ∈ fs ∧ m.key = n.key
  | some key => ∃ ms, .members n.assembly key ms ∈ fs ∧ n.key ∈ ms.map Member.key

theorem Node.Told.mono {fs fs' : List Finding} {n : Node} (h : n.Told fs) (hs : fs ⊆ fs') :
    n.Told fs' := by
  unfold Told at h ⊢
  split at h
  · obtain ⟨m, hm, hk⟩ := h
    exact ⟨m, hs hm, hk⟩
  · obtain ⟨ms, hms, hk⟩ := h
    exact ⟨ms, hs hms, hk⟩

theorem Node.Told.of_bare {fs : List Finding} {n n' : Node} (h : n.Told fs) (hb : n'.bare = n.bare) :
    n'.Told fs :=
  (congrArg (Node.Told fs) hb : n'.bare.Told fs = n.bare.Told fs) ▸ h

namespace Tree

variable {fs fs' : List Finding} {t t' : Tree}

/-- An engine has reported all that is in a tree or ever was. -/
structure Told (fs : List Finding) (t : Tree) : Prop where
  nodes : ∀ n ∈ t.nodes, n.Told fs
  roots : ∀ path r, t.roots.find? path = some r → .root path r.member ∈ fs

theorem Told.mono (h : t.Told fs) (hs : fs ⊆ fs') : t.Told fs' :=
  ⟨fun n hn => (h.nodes n hn).mono hs, fun path r hr => hs (h.roots path r hr)⟩

theorem Told.of_same (h : t.Told fs) (hn : t'.nodes = t.nodes) (hr : t'.roots = t.roots) :
    t'.Told fs :=
  ⟨fun n hm => h.nodes n (hn ▸ hm), fun path r hm => h.roots path r (hr ▸ hm)⟩

theorem Told.plant (h : t.Told fs) {path : String} {m : Member} (hm : .root path m ∈ fs) :
    (t.plant path m).Told fs := by
  constructor
  · intro n hn
    rcases List.mem_append.mp hn with hn | hn
    · exact h.nodes n hn
    · rw [List.mem_singleton.mp hn]
      exact ⟨m, hm, rfl⟩
  · intro q r hr
    simp only [Tree.plant, OrderedMap.find?_put] at hr
    split at hr
    · rename_i hq
      rw [hq, ← Option.some.inj hr]
      exact hm
    · exact h.roots q r hr

theorem Told.foldl_plant (rs : List (String × Root)) (hrs : ∀ e ∈ rs, .root e.1 e.2.member ∈ fs) :
    ∀ {t : Tree}, t.Told fs →
      (rs.foldl (fun t (path, r) => t.plant path r.member) t).Told fs := by
  induction rs with
  | nil => exact fun h => h
  | cons r rs ih =>
    exact fun h => ih (fun e he => hrs e (List.mem_cons_of_mem _ he))
      (h.plant (hrs r List.mem_cons_self))

theorem Told.refresh (h : t.Told fs) : t.refresh.Told fs := by
  have hbare : t.bare.Told fs := ⟨h.nodes, fun path r hr => by simp [bare] at hr⟩
  refine (hbare.foldl_plant t.roots.entries fun e he => ?_).of_same rfl rfl
  exact h.roots e.1 e.2 (Assoc.find?_of_mem t.roots.nodup he)

theorem Told.uproot (h : t.Told fs) (path : String) : (t.uproot path).Told fs := by
  refine ⟨h.nodes, fun q r hr => ?_⟩
  simp only [Tree.uproot, OrderedMap.find?_erase] at hr
  split at hr
  · cases hr
  · exact h.roots q r hr

theorem Told.suffer (h : t.Told fs) (m : Meddling) : (t.suffer m).Told fs := by
  cases m with
  | refresh => exact h.refresh
  | uproot path => exact h.uproot path
  | speak l => exact h.of_same rfl rfl
  | tell e => exact h.of_same rfl rfl
  | subscribe l => exact h.of_same rfl rfl
  | unsubscribe l => exact h.of_same rfl rfl

theorem Told.create (h : t.Told fs) {ns : List Node} (hns : ∀ n ∈ ns, n.Told fs) :
    (t.create ns).2.Told fs :=
  ⟨fun n hn => (List.mem_append.mp hn).elim (h.nodes n) (hns n), h.roots⟩

theorem Told.modify (h : t.Told fs) (id : NodeId) {f : Node → Node} (hf : ∀ n, (f n).bare = n.bare) :
    (t.modify id f).Told fs := by
  refine ⟨fun n hn => ?_, h.roots⟩
  obtain ⟨j, hj⟩ := List.getElem?_of_mem hn
  obtain ⟨c₀, hc₀, rfl | ⟨-, rfl⟩⟩ := node?_modify_cases (t := t) hj
  · exact h.nodes _ (List.mem_of_getElem? hc₀)
  · exact (h.nodes _ (List.mem_of_getElem? hc₀)).of_bare (hf c₀)

theorem Told.adopt (h : t.Told fs) (id : NodeId) (ids : List NodeId) : (t.adopt id ids).Told fs :=
  (h.modify id (f := fun n => { n with children := some ids }) fun _ => rfl).of_same
    (by rw [Tree.adopt, nodes_foldl_attach]) (adopt_same t id ids).1

end Tree

/-- What a caller learned from the engine, the engine has said. -/
def Flight.Learned (fs : List Finding) (t : Tree) : (f : Flight) → Except Failure f.Reply → Prop
  | .add path, .ok m => .root path m ∈ fs
  | .children id, .ok ms => ms = [] ∨ ∃ n, t.node? id = some n ∧ .members n.assembly n.key ms ∈ fs
  | _, _ => True

namespace Flight

variable {f : Flight} {fs fs' : List Finding} {t t' : Tree} {r : Except Failure f.Reply}

theorem Learned.later (h : f.Learned fs t r) (hs : fs ⊆ fs') (ht : t.Ages t') :
    f.Learned fs' t' r := by
  cases f with
  | add path =>
    cases r with
    | error e => trivial
    | ok m => exact hs h
  | children id =>
    cases r with
    | error e => trivial
    | ok ms =>
      refine h.imp_right ?_
      rintro ⟨n, hn, hm⟩
      obtain ⟨n', hn', ha⟩ := ht id n hn
      have hassembly : n'.assembly = n.assembly :=
        (congrArg Node.assembly ha.bare : n'.bare.assembly = n.bare.assembly)
      have hkey : n'.key = n.key := (congrArg Node.key ha.bare : n'.bare.key = n.bare.key)
      refine ⟨n', hn', ?_⟩
      rw [hassembly, hkey]
      exact hs hm
  | code id => cases r <;> trivial

theorem learned_heed (f : Flight) (fs : List Finding) (t : Tree) (r : Except Failure f.Reply) :
    f.Learned (fs ++ f.findings t r) t (f.heed t r) := by
  cases f with
  | add path => cases r <;> simp [Learned, heed, findings]
  | code id => cases r <;> trivial
  | children id =>
    simp only [heed]
    cases hn : t.node? id with
    | none => exact .inl rfl
    | some n =>
      by_cases he : n.isExpandable = true
      · cases r with
        | error e => simp [he, Learned]
        | ok ms => simp [he, hn, Learned, findings]
      · simp [he, Learned]

/-- What a caller puts into the tree, the engine has said. -/
theorem Learned.finish (h : f.Learned fs t r) (ht : t.Told fs) : (f.finish r t).2.Told fs := by
  cases f with
  | add path =>
    cases r with
    | error e => exact ht.of_same rfl rfl
    | ok m => exact (ht.plant h).of_same rfl rfl
  | code id =>
    have hland : (t.land (.code id)).Told fs := ht.of_same rfl rfl
    simp only [Flight.finish, Tree.finishCode]
    cases r with
    | error e => exact hland
    | ok text =>
      dsimp only
      split
      · exact hland.modify id fun _ => rfl
      · exact hland
  | children id =>
    have hland : (t.land (.children id)).Told fs := ht.of_same rfl rfl
    rcases finishChildren_cases id r t with hr | ⟨ms, n, rfl, hn, -, hr⟩
    · rw [Flight.finish, hr]
      exact hland
    · have hcreated : ((t.land (.children id)).create (ms.map n.child)).2.Told fs := by
        refine hland.create fun c hc => ?_
        obtain ⟨m, hm, rfl⟩ := List.mem_map.mp hc
        rcases h with rfl | ⟨n', hn', hlisted⟩
        · cases hm
        · obtain rfl : n = n' := Option.some.inj (hn.symm.trans hn')
          exact ⟨ms, hlisted, List.mem_map_of_mem hm⟩
      rw [Flight.finish, hr]
      split
      · exact hcreated.adopt id _
      · exact hcreated

end Flight

/-! ## No clashes -/

section

variable {fs : List Finding} (hu : Unambiguous fs) {t : Tree} (ht : t.Told fs) (hs : t.Shaped)
include hu ht

/-- An attached node that has the key of a listed member is below the node the member is listed for. -/
theorem Unambiguous.parent_of_key {a key : String} {ms : List Member}
    (hlisted : .members a key ms ∈ fs) {m : Member} (hm : m ∈ ms) {j : NodeId} {c : Node}
    (hc : t.Holds j c) (hcs : c.slot = (a, m.key)) : c.parent = some key := by
  obtain ⟨hassembly, hkey⟩ := Prod.mk.inj hcs
  have hmem : m.key ∈ ms.map Member.key := List.mem_map_of_mem hm
  have htold := ht.nodes c (List.mem_of_getElem? hc.1)
  unfold Node.Told at htold
  cases hp : c.parent with
  | none =>
    rw [hp] at htold
    obtain ⟨r, hr, hrk⟩ := htold
    rw [hassembly] at hr
    exact absurd (hrk.trans hkey ▸ hmem) (hu.root _ r _ ms hr hlisted)
  | some key' =>
    rw [hp] at htold
    obtain ⟨ms', hlisted', hmem'⟩ := htold
    rw [hassembly] at hlisted'
    rw [hu.parent _ _ _ _ _ hlisted hlisted' m.key hmem (hkey ▸ hmem')]

include hs

/-- Members that are listed once may be attached where nothing has been kept yet. -/
theorem Unambiguous.free {id : NodeId} {n : Node} (hn : t.Holds id n) (hnone : n.children = none)
    {ms : List Member} (hlisted : .members n.assembly n.key ms ∈ fs) : t.Free n.assembly ms := by
  refine ⟨hu.distinct _ _ _ hlisted, fun m hm => ?_⟩
  cases hslot : t.slots.find? (n.assembly, m.key) with
  | none => rfl
  | some j =>
    exfalso
    obtain ⟨c, hc, hcs⟩ := hs.slots _ j hslot
    have hp := hu.parent_of_key ht hlisted hm hc hcs
    obtain ⟨p, q, ids, hq, hqs, hids, -⟩ := hs.parent j c _ hc hp
    have hslots : q.slot = n.slot := by rw [hqs, (Prod.mk.inj hcs).1]; rfl
    obtain rfl : p = id := hq.unique hn hslots
    obtain rfl : q = n := Option.some.inj (hq.1.symm.trans hn.1)
    rw [hnone] at hids
    cases hids

/-- What a flight learns of an engine that is not ambiguous does no harm. -/
theorem Unambiguous.not_harms {f : Flight} (hw : f.Wanted t) {r : Except Failure f.Reply}
    (hr : f.Learned fs t r) : ¬f.Harms t r := by
  intro hharm
  cases f with
  | add path => exact hharm
  | code id => exact hharm
  | children id =>
    cases r with
    | error e => exact hharm
    | ok ms =>
      obtain ⟨n, hn, hfree⟩ := hharm
      rcases hr with rfl | ⟨n', hn', hlisted⟩
      · exact hfree ⟨List.nodup_nil, by simp⟩
      · obtain rfl : n = n' := Option.some.inj (hn.1.symm.trans hn')
        obtain ⟨n₀, hn₀, hnone⟩ := hw
        obtain rfl : n = n₀ := Option.some.inj (hn.1.symm.trans hn₀)
        exact hfree (hu.free ht hs hn hnone hlisted)

end

namespace Company

variable {f : Flight} {fs : List Finding} {t t' : Tree} {c c' : Company f} {x : Turn f}

/-- What the callers of a flight learned, the engine has said. -/
def Learned (fs : List Finding) (t : Tree) (c : Company f) : Prop :=
  ∀ i r, c.stage? i = some (.answered r) → f.Learned fs t r

theorem Learned.later {fs' : List Finding} (h : Learned fs t c) (hs : fs ⊆ fs') (ht : t.Ages t') :
    Learned fs' t' c := fun i r hi => (h i r hi).later hs ht

theorem Learned.comes (h : Learned fs t c) {i : Nat} {st : Stage f}
    (hstage : ∀ k, c'.stage? k = if i = k then some st else c.stage? k)
    (hst : ∀ r, st = .answered r → f.Learned fs t r) : Learned fs t c' := by
  intro k r hk
  rw [hstage] at hk
  split at hk
  · exact hst r (Option.some.inj hk)
  · exact h k r hk

theorem Step.learned (hs : Step t c x t' c') (h : Sound t c) (hl : Learned fs t c) :
    Learned (fs ++ c.hears t x) t' c' := by
  have hlater : Learned (fs ++ c.hears t x) t' c :=
    hl.later (List.subset_append_left _ _) (hs.ages h)
  cases hs with
  | rest x => exact hlater
  | arrive => exact hlater.comes (stage?_arrive c t.language) (by simp)
  | settle hi he => exact hlater.comes (stage?_bring hi _) (by simp)
  | join hi hf hj => exact hlater.comes (stage?_bring hi _) (by simp)
  | board hi hf hw => exact hlater.comes (stage?_bring hi _) (by simp)
  | @reply i r hi =>
    refine hlater.comes (stage?_bring hi _) fun r' hr => ?_
    obtain rfl := Stage.answered.inj hr
    simp only [hears, hi]
    exact f.learned_heed fs t r
  | finish hi => exact hlater.comes (stage?_bring hi _) (by simp)
  | wake hi => exact hlater.comes (stage?_bring hi _) (by simp)
  | leave hi hj => exact hlater.comes (stage?_bring hi _) (by simp)

theorem Step.told (hs : Step t c x t' c') (hl : Learned fs t c) (ht : t.Told fs) : t'.Told fs := by
  cases hs with
  | finish hi => exact (hl _ _ hi).finish ht
  | board hi hf hw => exact ht.of_same rfl rfl
  | rest x => exact ht
  | arrive => exact ht
  | settle hi he => exact ht
  | join hi hf hj => exact ht
  | reply hi => exact ht
  | wake hi => exact ht
  | leave hi hj => exact ht

end Company

namespace Visitors

variable {s : Visitors} {x : Incident}

/-- The engine has said all that is in the tree and all that callers have learned. -/
structure Reported (s : Visitors) : Prop where
  told : s.tree.Told s.heard
  learned : ∀ f, (s.company f).Learned s.heard s.tree

theorem reported_fresh (l : Language) : (fresh l).Reported where
  told := ⟨by simp [fresh], by simp [fresh]⟩
  learned f i r hi := by simp [fresh, Company.stage?] at hi

theorem heard_happen (s : Visitors) (x : Incident) : s.heard ⊆ (s.happen x).heard := by
  cases x with
  | turn f x => exact List.subset_append_left _ _
  | meddle m => exact List.Subset.refl _

theorem heard_after (s : Visitors) (xs : List Incident) : s.heard ⊆ (s.after xs).heard := by
  induction xs generalizing s with
  | nil => exact List.Subset.refl _
  | cons x xs ih => exact List.Subset.trans (heard_happen s x) (ih (s.happen x))

theorem Reported.happen (h : s.Reported) (hs : s.Sound) (x : Incident) : (s.happen x).Reported := by
  have hages := hs.happen_ages x
  cases x with
  | meddle m => exact ⟨h.told.suffer m, fun f => (h.learned f).later (List.Subset.refl _) hages⟩
  | turn f x =>
    have hstep := Company.take_step s.tree (s.company f) x
    refine ⟨(hstep.told (h.learned f) h.told).mono (heard_happen s (.turn f x)), fun g => ?_⟩
    by_cases hg : f = g
    · subst hg
      simpa only [Visitors.happen, Function.update_self] using
        hstep.learned (hs.companies f) (h.learned f)
    · simpa only [Visitors.happen, Function.update_of_ne (Ne.symm hg)] using
        (h.learned g).later (heard_happen s (.turn f x)) hages

/-- An engine that tells of each member once does not make callers clash. -/
theorem Orderly.not_clashes_of_unambiguous (h : s.Orderly) (hr : s.Reported)
    (hu : Unambiguous s.heard) : ¬s.Clashes x := by
  rintro ⟨f, i, r, rfl, hi, hharm⟩
  have hw : f.Wanted s.tree :=
    (h.sound.companies f).wanted ((h.sound.companies f).flying hi rfl).2
  exact hu.not_harms hr.told h.shaped hw (hr.learned f i r hi) hharm

theorem Orderly.after_of_unambiguous (xs : List Incident) : ∀ {s : Visitors}, s.Orderly →
    s.Reported → Unambiguous (s.after xs).heard → (s.after xs).Orderly := by
  induction xs with
  | nil => exact fun h _ _ => h
  | cons x xs ih =>
    intro s h hr hu
    have hno : ¬s.Clashes x := h.not_clashes_of_unambiguous hr (hu.mono (heard_after s (x :: xs)))
    exact ih (h.happen hno) (hr.happen h.sound x) hu

end Visitors

/-! ## The forest -/

namespace Tree

variable {t : Tree} {id j : NodeId} {n : Node}

/-- The node to which a number of steps from parent to parent lead. -/
def ancestor (t : Tree) : Nat → NodeId → Option NodeId
  | 0, id => some id
  | k + 1, id => (t.parent? id).bind (t.ancestor k)

/-- The attached nodes are trees, one for each assembly. -/
structure IsForest (t : Tree) : Prop where
  /-- An attached node is a root and nobody's child, or one node's child once and it is its parent. -/
  placed : ∀ id n, t.Holds id n →
    (n.isRoot = true ∧ t.rootOf n.assembly = some id ∧ t.parent? id = none ∧
      ∀ p, t.isAttached p = true → id ∉ t.childrenOf p) ∨
    (n.isRoot = false ∧ ∃ p, t.isAttached p = true ∧ (t.childrenOf p).count id = 1 ∧
      (∀ q, t.isAttached q = true → id ∈ t.childrenOf q → q = p) ∧ t.parent? id = some p)
  below : ∀ p id, t.isAttached p = true → id ∈ t.childrenOf p → t.isAttached id = true
  grounded : ∀ id n, t.Holds id n → ∃ k r, t.ancestor k id = some r ∧ t.rootOf n.assembly = some r

theorem childrenOf_of_node? (hn : t.node? id = some n) : t.childrenOf id = n.children.getD [] := by
  simp [childrenOf, hn]

/-- The children of an attached node, as the shape of the tree has them. -/
theorem Shaped.child (h : t.Shaped) (hn : t.Holds id n) (hj : j ∈ t.childrenOf id) :
    (t.childrenOf id).Nodup ∧ id < j ∧
      ∃ c, t.Holds j c ∧ c.assembly = n.assembly ∧ c.parent = some n.key := by
  rw [childrenOf_of_node? hn.1] at hj ⊢
  cases hc : n.children with
  | none => simp [hc] at hj
  | some ids =>
    obtain ⟨hnodup, hids⟩ := h.children id n ids hn hc
    rw [hc] at hj
    exact ⟨hnodup, hids j hj⟩

theorem parent?_of_node? (hn : t.node? id = some n) :
    t.parent? id = n.parent.bind fun key => t.slots.find? (n.assembly, key) := by
  simp [parent?, hn]

/-- An attached node below a root is kept below the node that is its parent. -/
theorem Shaped.parent_keeps (h : t.Shaped) (hn : t.Holds id n) {key : String}
    (hp : n.parent = some key) :
    ∃ p q, t.Holds p q ∧ t.parent? id = some p ∧ q.assembly = n.assembly ∧ id ∈ t.childrenOf p := by
  obtain ⟨p, q, ids, hq, hs, hids, hmem⟩ := h.parent id n key hn hp
  refine ⟨p, q, hq, ?_, congrArg Prod.fst hs, ?_⟩
  · rw [parent?_of_node? hn.1, hp, Option.bind_some, ← hs]
    exact hq.2
  · rw [childrenOf_of_node? hq.1, hids]
    exact hmem

/-- A child names the node that keeps it. -/
theorem Shaped.parent?_of_mem (h : t.Shaped) {p : NodeId} (hp : t.isAttached p = true)
    (hid : id ∈ t.childrenOf p) : t.parent? id = some p := by
  obtain ⟨q, hq⟩ := isAttached_iff.mp hp
  obtain ⟨-, -, c, hc, hassembly, hparent⟩ := h.child hq hid
  rw [parent?_of_node? hc.1, hparent, Option.bind_some, hassembly]
  exact hq.2

/-- From parent to parent the numbers fall, so one comes to a root. -/
theorem Shaped.grounded (h : t.Shaped) (hn : t.Holds id n) :
    ∃ k r, t.ancestor k id = some r ∧ t.rootOf n.assembly = some r := by
  induction id using Nat.strongRecOn generalizing n with
  | ind id ih =>
    cases hp : n.parent with
    | none => exact ⟨0, id, rfl, h.top id n hn hp⟩
    | some key =>
      obtain ⟨p, q, hq, hparent, hassembly, hmem⟩ := h.parent_keeps hn hp
      obtain ⟨-, hlt, -⟩ := h.child hq hmem
      obtain ⟨k, r, hk, hr⟩ := ih p hlt hq
      exact ⟨k + 1, r, by rw [ancestor, hparent, Option.bind_some, hk], hassembly ▸ hr⟩

theorem Shaped.isForest (h : t.Shaped) : t.IsForest where
  placed id n hn := by
    cases hp : n.parent with
    | none =>
      have hnone : t.parent? id = none := by rw [parent?_of_node? hn.1, hp]; rfl
      refine .inl ⟨by simp [Node.isRoot, hp], h.top id n hn hp, hnone, fun p ha hmem => ?_⟩
      rw [h.parent?_of_mem ha hmem] at hnone
      cases hnone
    | some key =>
      obtain ⟨p, q, hq, hparent, -, hmem⟩ := h.parent_keeps hn hp
      refine .inr ⟨by simp [Node.isRoot, hp], p, isAttached_iff.mpr ⟨q, hq⟩, ?_, fun p' ha hmem' => ?_,
        hparent⟩
      · exact List.count_eq_one_of_mem (h.child hq hmem).1 hmem
      · rw [h.parent?_of_mem ha hmem'] at hparent
        exact Option.some.inj hparent
  below p id hp hid := by
    obtain ⟨q, hq⟩ := isAttached_iff.mp hp
    obtain ⟨-, -, c, hc, -⟩ := h.child hq hid
    exact isAttached_iff.mpr ⟨c, hc⟩
  grounded id n hn := h.grounded hn

end Tree

namespace Visitors

/-- Whatever callers do and whatever is done to the tree in between: if the engine never reports a key
of an assembly for two members, the attached nodes are a forest. -/
theorem forest_of_unambiguous (l : Language) (xs : List Incident)
    (h : Unambiguous ((fresh l).after xs).heard) : ((fresh l).after xs).tree.IsForest :=
  ((orderly_fresh l).after_of_unambiguous xs (reported_fresh l) h).shaped.isForest

def namespaces : List Member := [⟨"N", "N", .nameSpace, none⟩, ⟨"M", "M", .nameSpace, none⟩]

/-- An assembly is added and listed, and listed further after a refresh. -/
def properListing : List Incident :=
  visit (.add "a.dll") 0 (.ok rootMember) ++ visit (.children 0) 0 (.ok namespaces) ++
    .meddle .refresh :: visit (.children 3) 0 (.ok namespaces) ++
    visit (.children 4) 0 (.ok [⟨"N.C", "C", .type, none⟩])

theorem unambiguous_proper_listing : Unambiguous ((fresh .csharp).after properListing).heard := by
  have hheard : ((fresh .csharp).after properListing).heard =
      [.root "a.dll" rootMember, .members "a.dll" "root" namespaces,
        .members "a.dll" "root" namespaces,
        .members "a.dll" "N" [⟨"N.C", "C", .type, none⟩]] := rfl
  have hmembers : ∀ a p ms, .members a p ms ∈ ((fresh .csharp).after properListing).heard →
      p = "root" ∧ ms = namespaces ∨ p = "N" ∧ ms = [⟨"N.C", "C", .type, none⟩] := by
    intro a p ms hm
    rw [hheard] at hm
    simp only [List.mem_cons, reduceCtorEq, Finding.members.injEq, List.not_mem_nil, or_false,
      false_or] at hm
    rcases hm with ⟨-, hp, hms⟩ | ⟨-, hp, hms⟩ | ⟨-, hp, hms⟩
    · exact .inl ⟨hp, hms⟩
    · exact .inl ⟨hp, hms⟩
    · exact .inr ⟨hp, hms⟩
  constructor
  · intro a p ms hm
    rcases hmembers a p ms hm with ⟨-, rfl⟩ | ⟨-, rfl⟩ <;> decide
  · intro a p q ms ms' hm hm' key hk hk'
    rcases hmembers a p ms hm with ⟨rfl, rfl⟩ | ⟨rfl, rfl⟩ <;>
      rcases hmembers a q ms' hm' with ⟨rfl, rfl⟩ | ⟨rfl, rfl⟩
    · rfl
    · simp_all [namespaces]
    · simp_all [namespaces]
    · rfl
  · intro a r p ms hr hm
    have hroot : r = rootMember := by
      rw [hheard] at hr
      simp only [List.mem_cons, reduceCtorEq, Finding.root.injEq, List.not_mem_nil, or_false] at hr
      exact hr.2
    subst hroot
    rcases hmembers a p ms hm with ⟨-, rfl⟩ | ⟨-, rfl⟩ <;> decide

theorem forest_of_proper_listing :
    ((fresh .csharp).after properListing).tree.IsForest ∧
      ((fresh .csharp).after properListing).tree.parent? 6 = some 4 :=
  ⟨forest_of_unambiguous .csharp properListing unambiguous_proper_listing, rfl⟩

end Visitors

end AssemblyBrowser
