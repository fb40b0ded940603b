import AssemblyBrowser.Proofs.OrderedMap
import AssemblyBrowser.Proofs.Tree.Operation
/-!
What a tree keeps of the answers of its engine. Over an engine whose answers depend on the questions
alone, everything that is kept on a node is what the engine answers, so that a caller cannot tell
whether the engine was asked; and it is asked successfully at most once for each thing to be kept.

The text is kept for the language in force: a node that kept a text when the language changed is not
attached any more.
-/
namespace AssemblyBrowser

/-- What a node is, without what has been fetched for it. -/
def Node.bare (n : Node) : Node := { n with children := none, code := none }

/-- A node later: it is what it was, and keeps what it kept. -/
structure Node.Ages (n n' : Node) : Prop where
  bare : n'.bare = n.bare
  children : ∀ ids, n.children = some ids → n'.children = some ids
  code : ∀ text, n.code = some text → n'.code = some text

namespace Node

theorem Ages.refl (n : Node) : n.Ages n := ⟨rfl, fun _ h => h, fun _ h => h⟩

theorem Ages.trans {a b c : Node} (h : a.Ages b) (h' : b.Ages c) : a.Ages c :=
  ⟨h'.bare.trans h.bare, fun ids e => h'.children ids (h.children ids e),
    fun text e => h'.code text (h.code text e)⟩

theorem ages_children (n : Node) (h : n.children = none) (ids : List NodeId) :
    n.Ages { n with children := some ids } :=
  ⟨rfl, fun _ e => by simp [h] at e, fun _ e => e⟩

theorem ages_code (n : Node) (h : n.code = none) (text : String) :
    n.Ages { n with code := some text } :=
  ⟨rfl, fun _ e => e, fun _ e => by simp [h] at e⟩

theorem membersOf_of_bare (o : Oracle) {n n' : Node} (h : n'.bare = n.bare) :
    o.membersOf n' = o.membersOf n :=
  (congrArg o.membersOf h : o.membersOf n'.bare = o.membersOf n.bare)

theorem textOf_of_bare (o : Oracle) (l : Language) {n n' : Node} (h : n'.bare = n.bare) :
    o.textOf l n' = o.textOf l n :=
  (congrArg (o.textOf l) h : o.textOf l n'.bare = o.textOf l n.bare)

theorem child_of_bare {n n' : Node} (h : n'.bare = n.bare) : n'.child = n.child :=
  (congrArg Node.child h : n'.bare.child = n.bare.child)

end Node

namespace Tree

/-! ## Nodes over time -/

/-- A tree later: every node is still there. -/
def Ages (t t' : Tree) : Prop :=
  ∀ id n, t.node? id = some n → ∃ n', t'.node? id = some n' ∧ n.Ages n'

theorem Ages.refl (t : Tree) : t.Ages t := fun _ n h => ⟨n, h, .refl n⟩

theorem Ages.trans {a b c : Tree} (h : a.Ages b) (h' : b.Ages c) : a.Ages c := by
  intro id n hn
  obtain ⟨n₁, hn₁, h₁⟩ := h id n hn
  obtain ⟨n₂, hn₂, h₂⟩ := h' id n₁ hn₁
  exact ⟨n₂, hn₂, h₁.trans h₂⟩

theorem Ages.of_nodes {t t' : Tree} (h : t'.nodes = t.nodes) : t.Ages t' := by
  intro id n hn
  refine ⟨n, ?_, .refl n⟩
  rw [node?, h]
  exact hn

theorem node?_append_old {t t' : Tree} {l : List Node} (h : t'.nodes = t.nodes ++ l) {id : NodeId}
    {n : Node} (hn : t.node? id = some n) : t'.node? id = some n := by
  rw [node?, h, List.getElem?_append_left (List.getElem?_eq_some_iff.mp hn).1]
  exact hn

theorem node?_append_cases {t t' : Tree} {l : List Node} (h : t'.nodes = t.nodes ++ l)
    {id : NodeId} {n : Node} (hn : t'.node? id = some n) : t.node? id = some n ∨ n ∈ l := by
  rw [node?, h, List.getElem?_append] at hn
  split at hn
  · exact .inl hn
  · exact .inr (List.mem_of_getElem? hn)

/-- The nodes that are made are those asked for. -/
theorem node?_create {t : Tree} {ns : List Node} {id : NodeId} {n : Node}
    (hid : id ∈ (t.create ns).1) (hn : (t.create ns).2.node? id = some n) : n ∈ ns := by
  have hge : t.nodes.length ≤ id := (List.mem_range'_1.mp hid).1
  cases node?_append_cases (t := t) (l := ns) rfl hn with
  | inl hold =>
    have := (List.getElem?_eq_some_iff.mp hold).1
    omega
  | inr hnew => exact hnew

theorem Ages.of_append {t t' : Tree} {l : List Node} (h : t'.nodes = t.nodes ++ l) : t.Ages t' :=
  fun _ n hn => ⟨n, node?_append_old h hn, .refl n⟩

theorem node?_modify (t : Tree) (id j : NodeId) (f : Node → Node) :
    (t.modify id f).node? j = if id = j then (t.node? j).map f else t.node? j := by
  simp only [node?, modify, List.getElem?_modify]
  split <;> cases t.nodes[j]? <;> simp_all

theorem node?_modify_cases {t : Tree} {id j : NodeId} {f : Node → Node} {c : Node}
    (h : (t.modify id f).node? j = some c) :
    ∃ c₀, t.node? j = some c₀ ∧ (c = c₀ ∨ j = id ∧ c = f c₀) := by
  rw [node?_modify] at h
  split at h
  · rename_i hid
    obtain ⟨c₀, hc₀, rfl⟩ := Option.map_eq_some_iff.mp h
    exact ⟨c₀, hc₀, .inr ⟨hid.symm, rfl⟩⟩
  · exact ⟨c, h, .inl rfl⟩

theorem Ages.of_modify {t : Tree} {id : NodeId} {f : Node → Node}
    (h : ∀ n, t.node? id = some n → n.Ages (f n)) : t.Ages (t.modify id f) := by
  intro j n hn
  rw [node?_modify]
  by_cases hj : id = j
  · subst hj
    exact ⟨f n, by simp [hn], h n hn⟩
  · exact ⟨n, by simp [hj, hn], .refl n⟩

@[simp] theorem nodes_attach (t : Tree) (id : NodeId) : (t.attach id).nodes = t.nodes := by
  unfold attach
  split <;> rfl

@[simp] theorem nodes_foldl_attach (ids : List NodeId) (t : Tree) :
    (ids.foldl attach t).nodes = t.nodes := by
  induction ids generalizing t with
  | nil => rfl
  | cons id ids ih => rw [List.foldl_cons, ih, nodes_attach]

theorem plant_ages (t : Tree) (path : String) (m : Member) : t.Ages (t.plant path m) :=
  .of_append (l := [.root path m]) rfl

theorem foldl_plant_ages (rs : List (String × Root)) (t : Tree) :
    t.Ages (rs.foldl (fun t (path, r) => t.plant path r.member) t) := by
  induction rs generalizing t with
  | nil => exact .refl t
  | cons r rs ih => exact (plant_ages t _ _).trans (ih _)

theorem refresh_ages (t : Tree) : t.Ages t.refresh :=
  Ages.trans (b := { t with roots := ∅, slots := ∅ }) (.of_nodes rfl) (foldl_plant_ages _ _)

theorem adopt_ages {t : Tree} {id : NodeId} {n : Node} (hn : t.node? id = some n)
    (hc : n.children = none) (ids : List NodeId) : t.Ages (t.adopt id ids) := by
  refine Ages.trans (b := t.modify id fun n => { n with children := some ids }) (.of_modify ?_)
    (.of_nodes (by rw [adopt, nodes_foldl_attach]))
  intro n' hn'
  obtain rfl : n = n' := Option.some.inj (hn.symm.trans hn')
  exact n.ages_children hc ids

/-! ## What is kept -/

/-- Nodes for the members below a node, in their order. -/
def Lists (t : Tree) (n : Node) (ms : List Member) (ids : List NodeId) : Prop :=
  ids.map (fun id => (t.node? id).map Node.bare) = ms.map fun m => some (n.child m)

theorem Lists.ages {t t' : Tree} (h : t.Ages t') {n : Node} {ms : List Member} {ids : List NodeId}
    (hl : t.Lists n ms ids) : t'.Lists n ms ids := by
  refine Eq.trans (List.map_congr_left fun id hid => ?_) hl
  have hm : (t.node? id).map Node.bare ∈ ms.map fun m => some (n.child m) :=
    hl ▸ List.mem_map_of_mem hid
  obtain ⟨m, -, hm⟩ := List.mem_map.mp hm
  cases hn : t.node? id with
  | none => simp [hn] at hm
  | some c =>
    obtain ⟨c', hc', ha⟩ := h id c hn
    rw [hc', Option.map_some, Option.map_some, ha.bare]

theorem lists_create (t : Tree) (n : Node) (ms : List Member) :
    (t.create (ms.map n.child)).2.Lists n ms (t.create (ms.map n.child)).1 := by
  unfold Lists create
  apply List.ext_getElem
  · simp
  · intro i hi _
    have hlt : i < ms.length := by simpa using hi
    simp only [List.getElem_map, List.getElem_range', node?]
    rw [List.getElem?_append_right (by omega)]
    simp [hlt, Node.child, Node.bare]

/-- All that is kept is what an oracle answers: the members below a node, and for an attached node
its text in the language in force. -/
structure Faithful (o : Oracle) (t : Tree) : Prop where
  idle : t.flights = []
  children : ∀ id n ids, t.node? id = some n → n.children = some ids →
    ∃ ms, o.membersOf n = .ok ms ∧ t.Lists n ms ids
  code : ∀ slot id n text, t.slots.find? slot = some id → t.node? id = some n →
    n.code = some text → o.textOf t.language n = .ok text

variable {o : Oracle} {t : Tree}

theorem faithful_fresh (o : Oracle) (l : Language) : ({ language := l } : Tree).Faithful o where
  idle := rfl
  children id n ids hn _ := by simp [node?] at hn
  code slot id n text _ hn _ := by simp [node?] at hn

theorem Faithful.append {t' : Tree} {l : List Node} (h : t.Faithful o)
    (hn : t'.nodes = t.nodes ++ l) (hb : ∀ n ∈ l, n.children = none ∧ n.code = none)
    (hi : t'.flights = t.flights) (hl : t'.language = t.language)
    (hs : ∀ slot id, t'.slots.find? slot = some id →
      t.slots.find? slot = some id ∨ t'.nodes.length - l.length ≤ id) : t'.Faithful o where
  idle := hi.trans h.idle
  children id n ids hid hc := by
    cases node?_append_cases hn hid with
    | inl hid =>
      obtain ⟨ms, hm, hms⟩ := h.children id n ids hid hc
      exact ⟨ms, hm, hms.ages (.of_append hn)⟩
    | inr hid => simp [(hb n hid).1] at hc
  code slot id n text hslot hid hc := by
    rw [hl]
    cases node?_append_cases hn hid with
    | inr hid => simp [(hb n hid).2] at hc
    | inl hid =>
      cases hs slot id hslot with
      | inl hslot => exact h.code slot id n text hslot hid hc
      | inr hge =>
        have hlt := (List.getElem?_eq_some_iff.mp hid).1
        rw [hn, List.length_append, Nat.add_sub_cancel] at hge
        omega

theorem Faithful.plant (h : t.Faithful o) (path : String) (m : Member) :
    (t.plant path m).Faithful o := by
  refine h.append (l := [.root path m]) rfl (by simp [Node.root]) rfl rfl ?_
  intro slot id hslot
  simp only [Tree.plant, OrderedMap.find?_put] at hslot
  split at hslot
  · exact .inr (by simp [Tree.plant, ← Option.some.inj hslot])
  · exact .inl hslot

theorem Faithful.foldl_plant (rs : List (String × Root)) :
    ∀ {t : Tree}, t.Faithful o →
      (rs.foldl (fun t (path, r) => t.plant path r.member) t).Faithful o := by
  induction rs with
  | nil => exact fun h => h
  | cons r rs ih => exact fun h => ih (h.plant _ _)

theorem Faithful.tell (h : t.Faithful o) (e : TreeEvent) : (t.tell e).Faithful o :=
  ⟨h.idle, h.children, h.code⟩

/-- A refreshed tree has no text at all, so the language does not matter. -/
theorem Faithful.refresh (h : t.Faithful o) (l : Language) :
    ({ t with language := l } : Tree).refresh.Faithful o := by
  have hbare : Faithful o { t with language := l, roots := ∅, slots := ∅ } :=
    ⟨h.idle, h.children, fun slot id n text hslot => by simp at hslot⟩
  exact (hbare.foldl_plant t.roots.entries).tell .refreshed

theorem Faithful.uproot (h : t.Faithful o) (path : String) : (t.uproot path).Faithful o := by
  refine ⟨h.idle, h.children, fun slot id n text hslot => ?_⟩
  simp only [Tree.uproot, OrderedMap.find?_filter] at hslot
  split at hslot
  · exact h.code slot id n text hslot
  · cases hslot

theorem Faithful.attach {id : NodeId} (h : t.Faithful o)
    (hb : ∀ n, t.node? id = some n → n.code = none) : (t.attach id).Faithful o := by
  unfold Tree.attach
  cases hid : t.node? id with
  | none => exact h
  | some n =>
    refine ⟨h.idle, h.children, fun slot j n' text hslot hj hc => ?_⟩
    simp only [OrderedMap.find?_put] at hslot
    split at hslot
    · obtain rfl := Option.some.inj hslot
      simp [hb n' hj] at hc
    · exact h.code slot j n' text hslot hj hc

theorem Faithful.foldl_attach (ids : List NodeId) :
    ∀ {t : Tree}, t.Faithful o → (∀ id ∈ ids, ∀ n, t.node? id = some n → n.code = none) →
      (ids.foldl Tree.attach t).Faithful o := by
  induction ids with
  | nil => exact fun h _ => h
  | cons id ids ih =>
    intro t h hb
    refine ih (h.attach (hb id (List.mem_cons_self ..))) fun j hj n hn => ?_
    rw [node?, nodes_attach] at hn
    exact hb j (List.mem_cons_of_mem _ hj) n hn

/-- A node may come to keep what the oracle answers for it. -/
theorem Faithful.modify {id : NodeId} {n : Node} {f : Node → Node} (h : t.Faithful o)
    (hn : t.node? id = some n) (ha : n.Ages (f n))
    (hm : ∀ ids, (f n).children = some ids → n.children = some ids ∨
      ∃ ms, o.membersOf n = .ok ms ∧ t.Lists n ms ids)
    (ht : ∀ text, (f n).code = some text → n.code = some text ∨
      o.textOf t.language n = .ok text) : (t.modify id f).Faithful o := by
  have hages : t.Ages (t.modify id f) := .of_modify fun n' hn' => by
    obtain rfl := Option.some.inj (hn.symm.trans hn')
    exact ha
  refine ⟨h.idle, ?_, ?_⟩
  · intro j c ids hj hkept
    obtain ⟨c₀, hj₀, rfl | ⟨rfl, rfl⟩⟩ := node?_modify_cases hj
    · obtain ⟨ms, hms, hl⟩ := h.children j c ids hj₀ hkept
      exact ⟨ms, hms, hl.ages hages⟩
    · obtain rfl := Option.some.inj (hn.symm.trans hj₀)
      have : ∃ ms, o.membersOf n = .ok ms ∧ t.Lists n ms ids := by
        cases hm ids hkept with
        | inl hold => exact h.children j n ids hn hold
        | inr hnew => exact hnew
      obtain ⟨ms, hms, hl⟩ := this
      refine ⟨ms, (Node.membersOf_of_bare o ha.bare).trans hms, ?_⟩
      rw [Lists, Node.child_of_bare ha.bare]
      exact hl.ages hages
  · intro slot j c text hslot hj hkept
    obtain ⟨c₀, hj₀, rfl | ⟨rfl, rfl⟩⟩ := node?_modify_cases hj
    · exact h.code slot j c text hslot hj₀ hkept
    · obtain rfl := Option.some.inj (hn.symm.trans hj₀)
      refine (Node.textOf_of_bare o _ ha.bare).trans ?_
      cases ht text hkept with
      | inl hold => exact h.code slot j n text hslot hn hold
      | inr hnew => exact hnew

/-- The children that an oracle lists are kept and attached. -/
theorem Faithful.adopt {id : NodeId} {n : Node} {ms : List Member} {ids : List NodeId}
    (h : t.Faithful o) (hn : t.node? id = some n) (hc : n.children = none)
    (hm : o.membersOf n = .ok ms) (hl : t.Lists n ms ids)
    (hb : ∀ j ∈ ids, ∀ c, t.node? j = some c → c.code = none) : (t.adopt id ids).Faithful o := by
  refine Faithful.foldl_attach ids (h.modify hn (n.ages_children hc ids) ?_ fun _ ht => .inl ht) ?_
  · intro ids' hkept
    obtain rfl := Option.some.inj hkept
    exact .inr ⟨ms, hm, hl⟩
  · intro j hj c hc'
    obtain ⟨c₀, hj₀, rfl | ⟨-, rfl⟩⟩ := node?_modify_cases hc'
    · exact hb j hj c hj₀
    · exact hb j hj c₀ hj₀

/-- The text that an oracle gives is kept. -/
theorem Faithful.keep_code {id : NodeId} {n : Node} {text : String} (h : t.Faithful o)
    (hn : t.node? id = some n) (hc : n.code = none) (ht : o.textOf t.language n = .ok text) :
    (t.modify id fun n => { n with code := some text }).Faithful o := by
  refine h.modify hn (n.ages_code hc text) (fun _ hkept => .inl hkept) fun text' hkept => ?_
  obtain rfl := Option.some.inj hkept
  exact .inr ht

/-! ## Operations -/

/-- However the engine answers as the oracle does, a plan ends like this. -/
def Plan.Ends {α : Type} (o : Oracle) (P : Except Failure α → Tree → Prop) : Plan α → Prop
  | .settled r t => P r t
  | .asks c finish => ∀ r, o.Says c r → P (finish r).1 (finish r).2

theorem Plan.Ends.follow {σ α : Type} {b : Backend σ} {P : Except Failure α → Tree → Prop}
    {plan : Plan α} (h : plan.Ends o P) (hb : b.Answers o) (s : Forest σ) :
    P (s.follow b plan).1 (s.follow b plan).2.tree := by
  cases plan with
  | settled r t => exact h
  | asks c finish => exact h _ (hb c s.world)

theorem finishChildren_ok (h : t.flights = []) {id : NodeId} {n : Node}
    (hn : t.node? id = some n) (ha : t.isAttached id = true) (ms : List Member) :
    finishChildren id (.ok ms) t =
      (.ok (t.create (ms.map n.child)).1,
        (t.create (ms.map n.child)).2.adopt id (t.create (ms.map n.child)).1) := by
  have hn' : (t.create (ms.map n.child)).2.node? id = some n :=
    node?_append_old (l := ms.map n.child) rfl hn
  have ha' : (t.create (ms.map n.child)).2.isAttached id = true := by
    simp only [isAttached, hn] at ha
    simp only [isAttached, hn']
    exact ha
  simp only [finishChildren, land_of_idle h, hn, ha', if_true]

theorem finishCode_ok (h : t.flights = []) {id : NodeId} (ha : t.isAttached id = true)
    (text : String) :
    finishCode id (.ok text) t =
      (.ok text, t.modify id fun n => { n with code := some text }) := by
  simp only [finishCode, land_of_idle h, ha, if_true]

theorem Faithful.create (h : t.Faithful o) (n : Node) (ms : List Member) :
    (t.create (ms.map n.child)).2.Faithful o := by
  refine h.append (l := ms.map n.child) rfl ?_ rfl rfl fun _ _ hslot => .inl hslot
  intro c hc
  obtain ⟨m, -, rfl⟩ := List.mem_map.mp hc
  exact ⟨rfl, rfl⟩

theorem Faithful.finishChildren (h : t.Faithful o) {id : NodeId} {n : Node}
    (hn : t.node? id = some n) (hc : n.children = none) (ha : t.isAttached id = true)
    {r : Except Failure (List Member)} (hr : r = o.membersOf n) :
    (finishChildren id r t).2.Faithful o ∧ t.Ages (finishChildren id r t).2 := by
  cases r with
  | error f => simpa only [Tree.finishChildren, land_of_idle h.idle] using ⟨h, .refl t⟩
  | ok ms =>
    have hn' : (t.create (ms.map n.child)).2.node? id = some n :=
      node?_append_old (l := ms.map n.child) rfl hn
    rw [finishChildren_ok h.idle hn ha]
    refine ⟨(h.create n ms).adopt hn' hc hr.symm (lists_create t n ms) ?_,
      (Ages.of_append (l := ms.map n.child) rfl).trans (adopt_ages hn' hc _)⟩
    intro j hj c hj'
    obtain ⟨m, -, rfl⟩ := List.mem_map.mp (node?_create hj hj')
    rfl

theorem Faithful.finishCode (h : t.Faithful o) {id : NodeId} {n : Node}
    (hn : t.node? id = some n) (hc : n.code = none) (ha : t.isAttached id = true)
    {r : Except Failure String} (hr : r = o.textOf t.language n) :
    (finishCode id r t).2.Faithful o ∧ t.Ages (finishCode id r t).2 := by
  cases r with
  | error f => simpa only [Tree.finishCode, land_of_idle h.idle] using ⟨h, .refl t⟩
  | ok text =>
    rw [finishCode_ok h.idle ha]
    refine ⟨h.keep_code hn hc hr.symm, .of_modify fun n' hn' => ?_⟩
    obtain rfl := Option.some.inj (hn.symm.trans hn')
    exact n.ages_code hc text

theorem planFetch_ends {α : Type} {id : NodeId} {kept : Node → Option α} {ask : Node → Plan α}
    {P : Except Failure α → Tree → Prop} (hnone : t.node? id = none → P (.error (.staleNode "")) t)
    (hkept : ∀ n v, t.node? id = some n → kept n = some v → P (.ok v) t)
    (hstale : ∀ n, t.node? id = some n → t.isAttached id = false → P (.error (.staleNode n.key)) t)
    (hask : ∀ n, t.node? id = some n → kept n = none → t.isAttached id = true → (ask n).Ends o P) :
    (t.planFetch id kept ask).Ends o P := by
  unfold planFetch
  cases hn : t.node? id with
  | none => exact hnone hn
  | some n =>
    simp only
    cases hk : kept n with
    | some v => exact hkept n v hn hk
    | none =>
      simp only
      cases ha : t.isAttached id with
      | false => exact hstale n hn ha
      | true => exact hask n hn hk ha

/-- Every operation leaves a tree that keeps what the oracle answers, and no node is lost. -/
theorem Faithful.plan (h : t.Faithful o) (p : TreeOperation) :
    (t.plan p).Ends o fun _ t' => t'.Faithful o ∧ t.Ages t' := by
  have hsame : t.Faithful o ∧ t.Ages t := ⟨h, .refl t⟩
  cases p with
  | add path =>
    simp only [Tree.plan]
    split
    · exact hsame
    · intro r _
      cases r with
      | error f => simpa only [finishAdd, land_of_idle h.idle] using hsame
      | ok m =>
        simp only [finishAdd, land_of_idle h.idle]
        exact ⟨(h.plant path m).tell _, plant_ages t path m⟩
  | remove path =>
    simp only [Tree.plan]
    split
    · intro r _
      have hgone := h.uproot path
      dsimp only
      split
      · exact ⟨hgone.tell _, .of_nodes rfl⟩
      · exact ⟨hgone, .of_nodes rfl⟩
    · exact hsame
  | refresh => exact ⟨h.refresh t.language, refresh_ages t⟩
  | setLanguage name =>
    simp only [Tree.plan]
    cases Language.parse name with
    | error e => exact hsame
    | ok l =>
      simp only [Plan.Ends, Tree.setLanguage]
      split
      · exact hsame
      · exact ⟨h.refresh l,
          Ages.trans (b := { t with language := l }) (.of_nodes rfl) (refresh_ages _)⟩
  | children id =>
    refine planFetch_ends (fun _ => hsame) (fun _ _ _ _ => hsame) (fun _ _ _ => hsame) ?_
    intro n hn hc ha
    split
    · rename_i he
      refine fun r hr => h.finishChildren hn hc ha (hr.trans ?_)
      rw [Oracle.membersOf, if_pos he]
    · rename_i he
      refine h.finishChildren hn hc ha ?_
      rw [Oracle.membersOf, if_neg he]
  | code id =>
    refine planFetch_ends (fun _ => hsame) (fun _ _ _ _ => hsame) (fun _ _ _ => hsame) ?_
    exact fun n hn hc ha r hr => h.finishCode hn hc ha hr

/-! ## Answers -/

/-- The nodes that an answer names, each without what has been fetched for it. -/
def named (t : Tree) (r : Except Failure (List NodeId)) : Except Failure (List (Option Node)) :=
  r.map (·.map fun id => (t.node? id).map Node.bare)

/-- The nodes that are to be made for an answer of the engine. -/
def listed (n : Node) (r : Except Failure (List Member)) : Except Failure (List (Option Node)) :=
  r.map (·.map fun m => some (n.child m))

theorem named_of_lists {n : Node} {ms : List Member} {ids : List NodeId} (h : t.Lists n ms ids) :
    t.named (.ok ids) = listed n (.ok ms) := congrArg Except.ok h

theorem Faithful.plan_code (h : t.Faithful o) {id : NodeId} {n : Node} (hn : t.node? id = some n)
    (ha : t.isAttached id = true) :
    (t.plan (.code id)).Ends o fun r _ => r = o.textOf t.language n := by
  have hslot : t.slots.find? n.slot = some id := by
    simpa only [isAttached, hn, decide_eq_true_eq] using ha
  refine planFetch_ends ?_ ?_ ?_ ?_
  · intro hnone
    simp [hn] at hnone
  · intro n' text hn' hk
    obtain rfl := Option.some.inj (hn.symm.trans hn')
    exact (h.code _ id n text hslot hn hk).symm
  · intro _ _ hdetached
    simp [ha] at hdetached
  · intro n' hn' _ _ r hr
    obtain rfl := Option.some.inj (hn.symm.trans hn')
    refine Eq.trans ?_ hr
    cases r with
    | error f => rfl
    | ok text => exact congrArg Prod.fst (finishCode_ok h.idle ha text)

theorem finishChildren_named (h : t.flights = []) {id : NodeId} {n : Node}
    (hn : t.node? id = some n) (hc : n.children = none) (ha : t.isAttached id = true)
    (r : Except Failure (List Member)) :
    (finishChildren id r t).2.named (finishChildren id r t).1 = listed n r := by
  cases r with
  | error f => rfl
  | ok ms =>
    rw [finishChildren_ok h hn ha]
    have hn' : (t.create (ms.map n.child)).2.node? id = some n :=
      node?_append_old (l := ms.map n.child) rfl hn
    exact named_of_lists ((lists_create t n ms).ages (adopt_ages hn' hc _))

theorem Faithful.plan_children (h : t.Faithful o) {id : NodeId} {n : Node}
    (hn : t.node? id = some n) (ha : t.isAttached id = true) :
    (t.plan (.children id)).Ends o fun r t' => t'.named r = listed n (o.membersOf n) := by
  refine planFetch_ends ?_ ?_ ?_ ?_
  · intro hnone
    simp [hn] at hnone
  · intro n' ids hn' hk
    obtain rfl := Option.some.inj (hn.symm.trans hn')
    obtain ⟨ms, hm, hl⟩ := h.children id n ids hn hk
    rw [named_of_lists hl, hm]
  · intro _ _ hdetached
    simp [ha] at hdetached
  · intro n' hn' hc _
    obtain rfl := Option.some.inj (hn.symm.trans hn')
    have hfinish := finishChildren_named h.idle hn hc ha
    unfold Oracle.membersOf
    split
    · intro r hr
      exact (hfinish r).trans (congrArg (listed n) hr)
    · exact hfinish (.ok [])

/-- A node of a kind without children has none, and the engine is not asked. -/
theorem Faithful.plan_children_leaf (h : t.Faithful o) {id : NodeId} {n : Node}
    (hn : t.node? id = some n) (ha : t.isAttached id = true) (he : n.isExpandable = false) :
    ∃ t', t.plan (.children id) = .settled (.ok []) t' := by
  simp only [Tree.plan, planFetch, hn, ha, he, if_true, if_false, Bool.false_eq_true]
  cases hc : n.children with
  | none => exact ⟨_, by rw [finishChildren_ok h.idle hn ha]; rfl⟩
  | some ids =>
    obtain ⟨ms, hm, hl⟩ := h.children id n ids hn hc
    rw [Oracle.membersOf, if_neg (by simp [he])] at hm
    cases hm
    exact ⟨t, by rw [List.map_eq_nil_iff.mp hl]⟩

/-! ## How often the engine is asked -/

/-- Whether the answer to an operation is kept. -/
def knows (t : Tree) : TreeOperation → Bool
  | .children id => ((t.node? id).bind Node.children).isSome
  | .code id => ((t.node? id).bind Node.code).isSome
  | _ => false

theorem Ages.knows {t' : Tree} (h : t.Ages t') {p : TreeOperation} (hp : t.knows p = true) :
    t'.knows p = true := by
  cases p with
  | children id =>
    obtain ⟨ids, hids⟩ := Option.isSome_iff_exists.mp hp
    obtain ⟨n, hn, hk⟩ := Option.bind_eq_some_iff.mp hids
    obtain ⟨n', hn', ha⟩ := h id n hn
    simp [Tree.knows, hn', ha.children ids hk]
  | code id =>
    obtain ⟨text, htext⟩ := Option.isSome_iff_exists.mp hp
    obtain ⟨n, hn, hk⟩ := Option.bind_eq_some_iff.mp htext
    obtain ⟨n', hn', ha⟩ := h id n hn
    simp [Tree.knows, hn', ha.code text hk]
  | add path => cases hp
  | remove path => cases hp
  | refresh => cases hp
  | setLanguage name => cases hp

theorem Ages.knows_le {t' : Tree} (h : t.Ages t') (p : TreeOperation) :
    (t.knows p).toNat ≤ (t'.knows p).toNat := by
  cases hp : t.knows p with
  | false => exact Nat.zero_le _
  | true => exact Nat.le_of_eq (by rw [h.knows hp])

def fetches : TreeOperation → Bool
  | .children _ | .code _ => true
  | _ => false

/-- What is kept is not asked for, and a successful answer is kept. -/
theorem planFetch_asks {α : Type} {id : NodeId} {kept : Node → Option α} {ask : Node → Plan α}
    {c : Call} {finish : Except Failure c.Reply → Except Failure α × Tree}
    (h : t.planFetch id kept ask = .asks c finish) :
    ∃ n, t.node? id = some n ∧ kept n = none ∧ t.isAttached id = true ∧ ask n = .asks c finish := by
  unfold planFetch at h
  cases hn : t.node? id with
  | none => simp [hn] at h
  | some n =>
    simp only [hn] at h
    cases hk : kept n with
    | some v => simp [hk] at h
    | none =>
      simp only [hk] at h
      split at h
      · rename_i ha
        exact ⟨n, rfl, hk, ha, h⟩
      · cases h

theorem node?_modify_self {id : NodeId} {n : Node} (h : t.node? id = some n) (f : Node → Node) :
    (t.modify id f).node? id = some (f n) := by
  rw [node?_modify, if_pos rfl, h, Option.map_some]

theorem plan_asks (h : t.flights = []) {p : TreeOperation} (hp : fetches p = true) {c : Call}
    {finish : Except Failure c.Reply → Except Failure p.Answer × Tree}
    (hplan : t.plan p = .asks c finish) :
    t.knows p = false ∧ ∀ r, r.isOk = true → (finish r).2.knows p = true := by
  cases p with
  | children id =>
    obtain ⟨n, hn, hk, ha, hask⟩ := planFetch_asks hplan
    refine ⟨by simp [knows, hn, hk], ?_⟩
    split at hask
    · cases hask
      intro r hr
      cases r with
      | error f => cases hr
      | ok ms =>
        have hn' : (t.create (ms.map n.child)).2.node? id = some n :=
          node?_append_old (l := ms.map n.child) rfl hn
        simp only [finishChildren_ok h hn ha, knows, adopt, node?, nodes_foldl_attach]
        rw [← node?, node?_modify_self hn']
        rfl
    · cases hask
  | code id =>
    obtain ⟨n, hn, hk, ha, hask⟩ := planFetch_asks hplan
    refine ⟨by simp [knows, hn, hk], ?_⟩
    cases hask
    intro r hr
    cases r with
    | error f => cases hr
    | ok text =>
      simp only [finishCode_ok h ha, knows, node?_modify_self hn]
      rfl
  | add path => cases hp
  | remove path => cases hp
  | refresh => cases hp
  | setLanguage name => cases hp

end Tree

namespace Forest

variable {σ : Type} {b : Backend σ} {o : Oracle}

/-- How often the engine answered a call of an operation. -/
def successes (s : Forest (σ × List Asked)) (p : TreeOperation) : Nat :=
  s.calls.countP fun a => a.during = p && a.succeeded

/-- Over an engine with the oracle's answers: everything kept is right, and the engine answered once
at most for each thing kept, and never for what is not. -/
structure Memoizes (o : Oracle) (s : Forest (σ × List Asked)) : Prop where
  faithful : s.tree.Faithful o
  once : ∀ p, Tree.fetches p = true → s.successes p ≤ (s.tree.knows p).toNat

theorem memoizes_fresh (o : Oracle) (l : Language) (w : σ) : (fresh l w).Memoizes o :=
  ⟨Tree.faithful_fresh o l, fun p _ => by simp [successes, calls, fresh]⟩

theorem successes_append {s s' : Forest (σ × List Asked)} {p : TreeOperation} {c : Call} {ok : Bool}
    (h : s'.calls = s.calls ++ [⟨p, c, ok⟩]) (q : TreeOperation) :
    s'.successes q = s.successes q + if p = q ∧ ok = true then 1 else 0 := by
  simp [successes, h, List.countP_append, List.countP_cons]

theorem request_eq {s : Forest (σ × List Asked)} (h : s.tree.flights = []) (p : TreeOperation) :
    s.request b p = s.follow (b.watched p) (s.tree.plan p) := perform_run (b.watched p) h p

theorem Memoizes.request {s : Forest (σ × List Asked)} (h : s.Memoizes o) (hb : b.Answers o)
    (p : TreeOperation) : (s.request b p).2.Memoizes o := by
  obtain ⟨hfaithful, hages⟩ := (h.faithful.plan p).follow (hb.watched p) s
  rw [request_eq h.faithful.idle]
  refine ⟨hfaithful, fun q hq => ?_⟩
  have hknows := hages.knows_le q
  have honce := h.once q hq
  cases hplan : s.tree.plan p with
  | settled r t =>
    rw [hplan] at hknows
    exact Nat.le_trans honce hknows
  | asks c finish =>
    rw [hplan] at hknows
    rw [successes_append (s := s) rfl]
    split
    · rename_i hsame
      obtain ⟨rfl, hok⟩ := hsame
      obtain ⟨hbefore, hafter⟩ := Tree.plan_asks h.faithful.idle hq hplan
      rw [hbefore, Bool.toNat_false, Nat.le_zero] at honce
      have hkept := hafter ((b c).runFrom s.world.1).1 hok
      simp only [follow, Backend.runFrom_watched, hkept, honce, Bool.toNat_true, Nat.zero_add,
        Nat.le_refl]
    · exact Nat.le_trans honce hknows

theorem Memoizes.after {s : Forest (σ × List Asked)} (hb : b.Answers o) (ps : List TreeOperation)
    (h : s.Memoizes o) : (s.after b ps).Memoizes o := by
  induction ps generalizing s with
  | nil => exact h
  | cons p ps ih => exact ih (h.request hb p)

/-- A caller gets for an attached node what the engine answers, in the language in force, whether or
not the engine is asked; and for no node it answers a second time. -/
theorem memoization_transparent (hb : b.Answers o) (l : Language) (w : σ)
    (ps : List TreeOperation) :
    let s := (fresh l w).after b ps
    (∀ id n, s.tree.node? id = some n → s.tree.isAttached id = true →
      (s.request b (.code id)).1 = o.decompile n.key s.tree.language n.assembly ∧
      (s.request b (.children id)).2.tree.named (s.request b (.children id)).1 =
        Tree.listed n (o.membersOf n) ∧
      (n.isExpandable = false → (s.request b (.children id)).1 = .ok [] ∧
        (s.request b (.children id)).2.calls = s.calls)) ∧
    ∀ id, s.successes (.children id) ≤ 1 ∧ s.successes (.code id) ≤ 1 := by
  intro s
  have hs : s.Memoizes o := (memoizes_fresh o l w).after hb ps
  have hbound : ∀ p, Tree.fetches p = true → s.successes p ≤ 1 := fun p hp =>
    Nat.le_trans (hs.once p hp) (Bool.toNat_le _)
  refine ⟨fun id n hn ha => ⟨?_, ?_, fun he => ?_⟩, fun id => ⟨hbound _ rfl, hbound _ rfl⟩⟩
  · rw [request_eq hs.faithful.idle]
    exact (hs.faithful.plan_code hn ha).follow (hb.watched _) s
  · rw [request_eq hs.faithful.idle]
    exact (hs.faithful.plan_children hn ha).follow (hb.watched _) s
  · obtain ⟨t', hplan⟩ := hs.faithful.plan_children_leaf hn ha he
    rw [request_eq hs.faithful.idle, hplan]
    exact ⟨rfl, rfl⟩

/-- One assembly with a type and a method in it. -/
def library : Oracle where
  load path := .ok ⟨"root", path, .assembly, none⟩
  enumerate key _ :=
    if key = "root" then .ok [⟨"type", "Type", .type, some 1⟩, ⟨"run", "Run", .method, none⟩]
    else .error (.staleNode key)
  decompile key l _ := .ok (l.name ++ ":" ++ key)

/-- An engine with the answers of an oracle, which counts its calls. -/
def counting (o : Oracle) : Backend Nat
  | .load path => fun w => (o.load path, w + 1)
  | .enumerate key assembly => fun w => (o.enumerate key assembly, w + 1)
  | .decompile key l assembly => fun w => (o.decompile key l assembly, w + 1)
  | .unload _ | .stop => fun w => (.ok (), w + 1)

theorem counting_answers (o : Oracle) : (counting o).Answers o := by
  intro c w
  cases c <;> first | rfl | trivial

theorem memoization_transparent_library :
    (counting library).Answers library ∧
    let s := (fresh .csharp 0).after (counting library)
      [.add "a.dll", .code 0, .children 0, .children 1, .setLanguage "il", .children 3]
    s.tree.isAttached 3 = true ∧ s.tree.isAttached 0 = false ∧
      (s.request (counting library) (.code 3)).1 = .ok "il:root" ∧
      (s.request (counting library) (.children 5)).1 = .ok [] ∧ s.successes (.children 0) ≤ 1 := by
  have ha := counting_answers library
  obtain ⟨hnodes, honce⟩ := memoization_transparent ha .csharp 0
    [.add "a.dll", .code 0, .children 0, .children 1, .setLanguage "il", .children 3]
  refine ⟨ha, by decide +kernel, by decide +kernel, ?_, ?_, (honce 0).1⟩
  · exact (hnodes 3 _ (by rfl) (by decide +kernel)).1
  · exact ((hnodes 5 _ (by rfl) (by decide +kernel)).2.2 (by rfl)).1

end Forest

end AssemblyBrowser
