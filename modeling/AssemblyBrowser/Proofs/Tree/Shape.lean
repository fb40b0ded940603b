import AssemblyBrowser.Proofs.Tree.SingleFlight
import AssemblyBrowser.Proofs.Tree.Rooted
import Mathlib.Data.List.Nodup
/-!
The shape of a tree. The attached nodes are trees below the roots as long as the members that are
listed below a node are new: no two of them have the same key, and no attached node has any of their
keys.
-/
namespace AssemblyBrowser

namespace Tree

variable {t t' : Tree} {id j : NodeId} {n c : Node} {ms : List Member}

/-- A number is that of a node, and its slot holds it. -/
def Holds (t : Tree) (id : NodeId) (n : Node) : Prop :=
  t.node? id = some n ∧ t.slots.find? n.slot = some id

theorem isAttached_iff : t.isAttached id = true ↔ ∃ n, t.Holds id n := by
  unfold isAttached Holds
  cases hn : t.node? id with
  | none => simp
  | some n => simp

/-- One slot holds one node. -/
theorem Holds.unique (h : t.Holds id n) (h' : t.Holds j c) (hs : n.slot = c.slot) : id = j := by
  have hslot := h'.2
  rw [← hs, h.2] at hslot
  exact Option.some.inj hslot

def rootOf (t : Tree) (path : String) : Option NodeId := (t.roots.find? path).map Root.node

/-- The children that are kept on a node. -/
def childrenOf (t : Tree) (id : NodeId) : List NodeId := ((t.node? id).bind Node.children).getD []

/-- The attached nodes are trees below the roots. -/
structure Shaped (t : Tree) : Prop where
  slots : ∀ slot id, t.slots.find? slot = some id → ∃ n, t.Holds id n ∧ n.slot = slot
  rooted : t.Rooted
  root : ∀ path r, t.roots.find? path = some r →
    ∃ n, t.Holds r.node n ∧ n.assembly = path ∧ n.parent = none
  top : ∀ id n, t.Holds id n → n.parent = none → t.rootOf n.assembly = some id
  parent : ∀ id n key, t.Holds id n → n.parent = some key →
    ∃ p m ids, t.Holds p m ∧ m.slot = (n.assembly, key) ∧ m.children = some ids ∧ id ∈ ids
  children : ∀ id n ids, t.Holds id n → n.children = some ids → ids.Nodup ∧
    ∀ j ∈ ids, id < j ∧ ∃ c, t.Holds j c ∧ c.assembly = n.assembly ∧ c.parent = some n.key

/-- Members that may be attached below a node of an assembly without harm. -/
def Free (t : Tree) (assembly : String) (ms : List Member) : Prop :=
  (ms.map Member.key).Nodup ∧ ∀ m ∈ ms, t.slots.find? (assembly, m.key) = none

theorem Shaped.assembly (h : t.Shaped) (hn : t.Holds id n) : n.assembly ∈ t.paths :=
  h.rooted n.slot id hn.2

/-! ## Changes that leave the shape as it is -/

/-- The texts of nodes have nothing to do with the shape. -/
theorem Shaped.congr (h : t.Shaped) (hs : t'.slots = t.slots) (hr : t'.roots = t.roots)
    (hto : ∀ id n, t.Holds id n → ∃ text, t'.Holds id { n with code := text })
    (hback : ∀ id n', t'.Holds id n' → ∃ n, t.Holds id n ∧ ∃ text, n' = { n with code := text }) :
    t'.Shaped where
  slots slot id hslot := by
    obtain ⟨n, hn, rfl⟩ := h.slots slot id (hs ▸ hslot)
    obtain ⟨text, hn'⟩ := hto id n hn
    exact ⟨_, hn', rfl⟩
  rooted := h.rooted.of_same hs hr
  root path r hroot := by
    obtain ⟨n, hn, hrest⟩ := h.root path r (hr ▸ hroot)
    obtain ⟨text, hn'⟩ := hto _ n hn
    exact ⟨_, hn', hrest⟩
  top id n' hn' hp := by
    obtain ⟨n, hn, text, rfl⟩ := hback id n' hn'
    rw [rootOf, hr]
    exact h.top id n hn hp
  parent id n' key hn' hp := by
    obtain ⟨n, hn, text, rfl⟩ := hback id n' hn'
    obtain ⟨p, m, ids, hm, hrest⟩ := h.parent id n key hn hp
    obtain ⟨text', hm'⟩ := hto p m hm
    exact ⟨p, _, ids, hm', hrest⟩
  children id n' ids hn' hc := by
    obtain ⟨n, hn, text, rfl⟩ := hback id n' hn'
    obtain ⟨hnodup, hids⟩ := h.children id n ids hn hc
    refine ⟨hnodup, fun j hj => ?_⟩
    obtain ⟨hlt, c, hcj, hrest⟩ := hids j hj
    obtain ⟨text', hc'⟩ := hto j c hcj
    exact ⟨hlt, _, hc', hrest⟩

theorem Shaped.of_same (h : t.Shaped) (hn : t'.nodes = t.nodes) (hs : t'.slots = t.slots)
    (hr : t'.roots = t.roots) : t'.Shaped :=
  have hh (id n) : t'.Holds id n ↔ t.Holds id n := by rw [Holds, Holds, node?, node?, hn, hs]
  h.congr hs hr (fun id n hn => ⟨n.code, (hh id n).mpr hn⟩)
    fun id n hn => ⟨n, (hh id n).mp hn, n.code, rfl⟩

/-- New nodes that no slot holds do not matter. -/
theorem Shaped.holds_append (h : t.Shaped) {l : List Node} (hn : t'.nodes = t.nodes ++ l)
    (hs : t'.slots = t.slots) : t'.Holds id n ↔ t.Holds id n := by
  constructor
  · rintro ⟨hnode, hslot⟩
    rw [hs] at hslot
    obtain ⟨n', hn', -⟩ := h.slots n.slot id hslot
    have hold := node?_append_old hn hn'.1
    rw [hnode] at hold
    exact ⟨Option.some.inj hold ▸ hn'.1, hslot⟩
  · rintro ⟨hnode, hslot⟩
    exact ⟨node?_append_old hn hnode, hs ▸ hslot⟩

theorem Shaped.create (h : t.Shaped) (ns : List Node) : (t.create ns).2.Shaped :=
  have hh (id n) : (t.create ns).2.Holds id n ↔ t.Holds id n := h.holds_append (l := ns) rfl rfl
  h.congr rfl rfl (fun id n hn => ⟨n.code, (hh id n).mpr hn⟩)
    fun id n hn => ⟨n, (hh id n).mp hn, n.code, rfl⟩

theorem bare_shaped (t : Tree) : t.bare.Shaped := by
  have hno (id n) : ¬t.bare.Holds id n := by simp [Holds, bare]
  have hslots (slot : Slot) : t.bare.slots.find? slot = none := rfl
  have hroots (path : String) : t.bare.roots.find? path = none := rfl
  constructor
  · simp [hslots]
  · intro slot id hslot
    simp [hslots] at hslot
  · simp [hroots]
  · exact fun id n hn => absurd hn (hno id n)
  · exact fun id n _ hn => absurd hn (hno id n)
  · exact fun id n _ hn => absurd hn (hno id n)

/-! ## Roots -/

theorem Shaped.holds_plant (h : t.Shaped) {path : String} (hp : path ∉ t.paths) (m : Member) :
    (t.plant path m).Holds id n ↔ id = t.nodes.length ∧ n = .root path m ∨ t.Holds id n := by
  have hnodes : (t.plant path m).nodes = t.nodes ++ [.root path m] := rfl
  constructor
  · rintro ⟨hnode, hslot⟩
    simp only [plant, OrderedMap.find?_put] at hslot
    split at hslot
    · left
      obtain rfl := Option.some.inj hslot
      rw [node?, hnodes, List.getElem?_append_right (Nat.le_refl _)] at hnode
      simp at hnode
      exact ⟨rfl, hnode.symm⟩
    · right
      obtain ⟨n', hn', -⟩ := h.slots n.slot id hslot
      have hold := node?_append_old hnodes hn'.1
      rw [hnode] at hold
      exact ⟨Option.some.inj hold ▸ hn'.1, hslot⟩
  · rintro (⟨rfl, rfl⟩ | hn)
    · refine ⟨?_, by simp [plant, Node.slot, Node.root, Node.key]⟩
      simp [node?, hnodes]
    · refine ⟨node?_append_old hnodes hn.1, ?_⟩
      have hne : n.slot ≠ (path, m.key) := fun e => by
        have hmem := h.assembly hn
        rw [show n.assembly = path from congrArg Prod.fst e] at hmem
        exact hp hmem
      simp only [plant, OrderedMap.find?_put, if_neg hne]
      exact hn.2

theorem Shaped.plant (h : t.Shaped) {path : String} (hp : path ∉ t.paths) (m : Member) :
    (t.plant path m).Shaped := by
  have hh (id n) : (t.plant path m).Holds id n ↔ _ := h.holds_plant hp m
  have hroots (q : String) : (t.plant path m).roots.find? q =
      if q = path then some ⟨m, t.nodes.length⟩ else t.roots.find? q := OrderedMap.find?_put _ _ _ _
  have hnew : (t.plant path m).Holds t.nodes.length (.root path m) := (hh _ _).mpr (.inl ⟨rfl, rfl⟩)
  constructor
  · intro slot id hslot
    simp only [Tree.plant, OrderedMap.find?_put] at hslot
    split at hslot
    · rename_i hs
      obtain rfl := Option.some.inj hslot
      exact ⟨_, hnew, hs.symm⟩
    · obtain ⟨n, hn, hs⟩ := h.slots slot id hslot
      exact ⟨n, (hh id n).mpr (.inr hn), hs⟩
  · exact h.rooted.plant path m
  · intro q r hr
    rw [hroots] at hr
    split at hr
    · rename_i hq
      obtain rfl := Option.some.inj hr
      exact ⟨_, hnew, hq.symm, rfl⟩
    · obtain ⟨n, hn, ha, hparent⟩ := h.root q r hr
      exact ⟨n, (hh _ n).mpr (.inr hn), ha, hparent⟩
  · intro id n hn hparent
    rw [rootOf, hroots]
    rcases (hh id n).mp hn with ⟨rfl, rfl⟩ | hn
    · simp [Node.root]
    · have hne : n.assembly ≠ path := fun e => hp (e ▸ h.assembly hn)
      rw [if_neg hne]
      exact h.top id n hn hparent
  · intro id n key hn hparent
    rcases (hh id n).mp hn with ⟨-, rfl⟩ | hn
    · cases hparent
    · obtain ⟨p, q, ids, hq, hrest⟩ := h.parent id n key hn hparent
      exact ⟨p, q, ids, (hh p q).mpr (.inr hq), hrest⟩
  · intro id n ids hn hc
    rcases (hh id n).mp hn with ⟨-, rfl⟩ | hn
    · cases hc
    · obtain ⟨hnodup, hids⟩ := h.children id n ids hn hc
      refine ⟨hnodup, fun j hj => ?_⟩
      obtain ⟨hlt, c, hc, hrest⟩ := hids j hj
      exact ⟨hlt, c, (hh j c).mpr (.inr hc), hrest⟩

theorem Shaped.foldl_plant (rs : List (String × Root)) : ∀ {t : Tree}, t.Shaped →
    (t.paths ++ Assoc.keys rs).Nodup →
      (rs.foldl (fun t (path, r) => t.plant path r.member) t).Shaped := by
  induction rs with
  | nil => exact fun h _ => h
  | cons r rs ih =>
    intro t h hd
    obtain ⟨path, root⟩ := r
    have hp : path ∉ t.paths := fun hm =>
      (List.nodup_append.mp hd).2.2 path hm path (by simp [Assoc.keys]) rfl
    refine ih (h.plant hp root.member) ?_
    rw [paths_plant, if_neg hp, List.append_assoc]
    exact hd

theorem refresh_shaped (t : Tree) : t.refresh.Shaped :=
  ((bare_shaped t).foldl_plant t.roots.entries t.roots.nodup).of_same rfl rfl rfl

theorem holds_uproot (t : Tree) (path : String) :
    (t.uproot path).Holds id n ↔ t.Holds id n ∧ n.assembly ≠ path := by
  have hslots : (t.uproot path).slots.find? n.slot =
      if n.assembly ≠ path then t.slots.find? n.slot else none := by
    simp [uproot, OrderedMap.find?_filter, Node.slot]
  unfold Holds
  rw [hslots]
  by_cases ha : n.assembly = path
  · simp [ha]
  · simp [ha, uproot, node?]

theorem Shaped.uproot (h : t.Shaped) (path : String) : (t.uproot path).Shaped := by
  have hh (id n) : (t.uproot path).Holds id n ↔ _ := holds_uproot t path
  have hroots (q : String) : (t.uproot path).roots.find? q =
      if q = path then none else t.roots.find? q := OrderedMap.find?_erase _ _ _
  constructor
  · intro slot id hslot
    simp only [Tree.uproot, OrderedMap.find?_filter] at hslot
    split at hslot
    · rename_i hne
      obtain ⟨n, hn, rfl⟩ := h.slots slot id hslot
      exact ⟨n, (hh id n).mpr ⟨hn, of_decide_eq_true hne⟩, rfl⟩
    · cases hslot
  · exact h.rooted.uproot path
  · intro q r hr
    rw [hroots] at hr
    split at hr
    · cases hr
    · rename_i hq
      obtain ⟨n, hn, rfl, hparent⟩ := h.root q r hr
      exact ⟨n, (hh _ n).mpr ⟨hn, hq⟩, rfl, hparent⟩
  · intro id n hn hparent
    obtain ⟨hn, ha⟩ := (hh id n).mp hn
    rw [rootOf, hroots, if_neg ha]
    exact h.top id n hn hparent
  · intro id n key hn hparent
    obtain ⟨hn, ha⟩ := (hh id n).mp hn
    obtain ⟨p, m, ids, hm, hs, hrest⟩ := h.parent id n key hn hparent
    have hma : m.assembly = n.assembly := congrArg Prod.fst hs
    exact ⟨p, m, ids, (hh p m).mpr ⟨hm, hma ▸ ha⟩, hs, hrest⟩
  · intro id n ids hn hc
    obtain ⟨hn, ha⟩ := (hh id n).mp hn
    obtain ⟨hnodup, hids⟩ := h.children id n ids hn hc
    refine ⟨hnodup, fun j hj => ?_⟩
    obtain ⟨hlt, c, hcj, hca, hparent⟩ := hids j hj
    exact ⟨hlt, c, (hh j c).mpr ⟨hcj, hca ▸ ha⟩, hca, hparent⟩

theorem Shaped.suffer (h : t.Shaped) (m : Meddling) : (t.suffer m).Shaped := by
  cases m with
  | refresh => exact refresh_shaped t
  | uproot path => exact h.uproot path
  | speak l => exact h.of_same rfl rfl rfl
  | tell e => exact h.of_same rfl rfl rfl
  | subscribe l => exact h.of_same rfl rfl rfl
  | unsubscribe l => exact h.of_same rfl rfl rfl

/-! ## What is kept -/

theorem holds_modify (t : Tree) (j : NodeId) (f : Node → Node) (hf : ∀ n, (f n).slot = n.slot) :
    (t.modify j f).Holds id c ↔
      ∃ n, t.Holds id n ∧ c = if j = id then f n else n := by
  unfold Holds
  rw [node?_modify]
  by_cases hj : j = id
  · constructor
    · rintro ⟨hnode, hslot⟩
      simp only [hj, if_true, Option.map_eq_some_iff] at hnode
      obtain ⟨n, hn, rfl⟩ := hnode
      exact ⟨n, ⟨hn, hf n ▸ hslot⟩, by simp [hj]⟩
    · rintro ⟨n, ⟨hn, hslot⟩, rfl⟩
      simp only [hj, if_true, hn, Option.map_some, hf, true_and]
      exact hslot
  · simp only [hj, if_false]
    exact ⟨fun h => ⟨c, h, rfl⟩, by rintro ⟨n, h, rfl⟩; exact h⟩

theorem Shaped.keep_code (h : t.Shaped) (j : NodeId) (text : String) :
    (t.modify j fun n => { n with code := some text }).Shaped := by
  have hh (id c) : (t.modify j fun n => { n with code := some text }).Holds id c ↔ _ :=
    holds_modify t j _ fun _ => rfl
  refine h.congr rfl rfl (fun id n hn => ?_) fun id c hc => ?_
  · by_cases hj : j = id
    · exact ⟨some text, (hh id _).mpr ⟨n, hn, by simp [hj]⟩⟩
    · exact ⟨n.code, (hh id _).mpr ⟨n, hn, by simp [hj]⟩⟩
  · obtain ⟨n, hn, rfl⟩ := (hh id c).mp hc
    by_cases hj : j = id
    · exact ⟨n, hn, some text, by simp [hj]⟩
    · exact ⟨n, hn, n.code, by simp [hj]⟩

/-! ## Listed members -/

/-- Makes nodes for the members below a node, keeps them there and attaches them. -/
def populate (t : Tree) (id : NodeId) (n : Node) (ms : List Member) : Tree :=
  (t.create (ms.map n.child)).2.adopt id (t.create (ms.map n.child)).1

@[simp] theorem roots_populate (t : Tree) (id : NodeId) (n : Node) (ms : List Member) :
    (t.populate id n ms).roots = t.roots := (adopt_same _ id _).1

/-- Of the nodes that are attached in turn, a slot holds the last one that belongs there. -/
theorem find?_foldl_attach (ids : List NodeId) (t : Tree) (slot : Slot) :
    (ids.foldl attach t).slots.find? slot =
      (ids.reverse.find? fun id => (t.node? id).map Node.slot = some slot).or
        (t.slots.find? slot) := by
  induction ids generalizing t with
  | nil => rfl
  | cons id ids ih =>
    have hslot : (t.attach id).slots.find? slot =
        if (t.node? id).map Node.slot = some slot then some id else t.slots.find? slot := by
      unfold attach
      cases hn : t.node? id with
      | none => simp
      | some n => simp [OrderedMap.find?_put, eq_comm]
    rw [List.foldl_cons, ih, hslot, List.reverse_cons, List.find?_append, Option.or_assoc]
    simp only [node?, nodes_attach]
    congr 1
    by_cases h : t.nodes[id]?.map Node.slot = some slot
    · simp only [h, if_true, List.find?_cons, decide_true, Option.some_or]
    · simp only [h, if_false, List.find?_cons, decide_false, List.find?_nil, Option.none_or]

/-- A new number and the listed member that is its node's. -/
def Born (t : Tree) (ms : List Member) (j : NodeId) (m : Member) : Prop :=
  ∃ k : Nat, ms[k]? = some m ∧ j = t.nodes.length + k

theorem Born.mem {m : Member} (h : t.Born ms j m) : m ∈ ms := by
  obtain ⟨k, hk, -⟩ := h
  exact List.mem_of_getElem? hk

theorem Born.le {m : Member} (h : t.Born ms j m) : t.nodes.length ≤ j := by
  obtain ⟨k, -, rfl⟩ := h
  exact Nat.le_add_right _ k

/-- Of members with different keys, each has its own number. -/
theorem Born.unique {m m' : Member} (h : t.Born ms j m) {i : NodeId} (h' : t.Born ms i m')
    (hd : (ms.map Member.key).Nodup) (hk : m.key = m'.key) : j = i := by
  obtain ⟨k, hm, rfl⟩ := h
  obtain ⟨k', hm', rfl⟩ := h'
  have hlt : k < (ms.map Member.key).length := by
    simpa using (List.getElem?_eq_some_iff.mp hm).1
  have hsame : (ms.map Member.key)[k]? = (ms.map Member.key)[k']? := by simp [hm, hm', hk]
  rw [(List.getElem?_inj hlt hd).mp hsame]

theorem mem_born : j ∈ (t.create (ms.map n.child)).1 ↔ ∃ m, t.Born ms j m := by
  simp only [create, List.length_map, List.mem_range'_1, Born]
  constructor
  · rintro ⟨hle, hlt⟩
    have hlt' := Nat.sub_lt_left_of_lt_add hle hlt
    exact ⟨ms[j - t.nodes.length], j - t.nodes.length, by simp [hlt'],
      (Nat.add_sub_cancel' hle).symm⟩
  · rintro ⟨m, k, hm, rfl⟩
    have hlt := (List.getElem?_eq_some_iff.mp hm).1
    omega

theorem node?_born {m : Member} (h : t.Born ms j m) :
    (t.create (ms.map n.child)).2.node? j = some (n.child m) := by
  obtain ⟨k, hm, rfl⟩ := h
  simp [create, node?, List.getElem?_append_right, hm]

theorem node?_populate_born (hn : t.node? id = some n) {m : Member} (h : t.Born ms j m) :
    (t.populate id n ms).node? j = some (n.child m) := by
  have hne : id ≠ j := by
    rintro rfl
    exact absurd (lt_of_node? hn) (Nat.not_lt.mpr h.le)
  rw [populate, node?_adopt, if_neg hne, node?_born h]

theorem node?_populate_old (hc : t.node? j = some c) (id : NodeId) (n : Node) (ms : List Member) :
    (t.populate id n ms).node? j = some
      (if id = j then { c with children := some (t.create (ms.map n.child)).1 } else c) := by
  have hold : (t.create (ms.map n.child)).2.node? j = some c :=
    node?_append_old (l := ms.map n.child) rfl hc
  rw [populate, node?_adopt, hold]
  split <;> rfl

/-- The slots of listed members hold new nodes, and the others hold what they held. -/
theorem find?_populate (hn : t.node? id = some n) (ms : List Member) (slot : Slot) :
    (∃ j m, t.Born ms j m ∧ slot = (n.assembly, m.key) ∧
      (t.populate id n ms).slots.find? slot = some j) ∨
    ((∀ m ∈ ms, slot ≠ (n.assembly, m.key)) ∧
      (t.populate id n ms).slots.find? slot = t.slots.find? slot) := by
  have hslots : (t.populate id n ms).slots.find? slot =
      ((t.create (ms.map n.child)).1.reverse.find? fun j =>
        ((t.populate id n ms).node? j).map Node.slot = some slot).or (t.slots.find? slot) := by
    rw [populate, adopt, find?_foldl_attach]
    simp only [node?, nodes_foldl_attach]
    rfl
  rw [hslots]
  cases hf : (t.create (ms.map n.child)).1.reverse.find? fun j =>
      ((t.populate id n ms).node? j).map Node.slot = some slot with
  | some j =>
    obtain ⟨m, hm⟩ := mem_born.mp (List.mem_reverse.mp (List.mem_of_find?_eq_some hf))
    have hslot := List.find?_some hf
    rw [node?_populate_born hn hm] at hslot
    simp only [Option.map_some, Option.some.injEq, decide_eq_true_eq] at hslot
    exact .inl ⟨j, m, hm, hslot.symm, rfl⟩
  | none =>
    refine .inr ⟨fun m hm hslot => ?_, rfl⟩
    obtain ⟨k, hk⟩ := List.getElem?_of_mem hm
    have hborn : t.Born ms (t.nodes.length + k) m := ⟨k, hk, rfl⟩
    have hno := List.find?_eq_none.mp hf (t.nodes.length + k)
      (List.mem_reverse.mpr (mem_born.mpr ⟨m, hborn⟩))
    rw [node?_populate_born hn hborn, hslot] at hno
    simp [Node.slot, Node.child, Node.key] at hno

/-- What is attached after members have been listed that do no harm: their nodes, and what was. -/
theorem Free.holds_populate (hf : t.Free n.assembly ms) (h : t.Shaped) (hn : t.Holds id n) :
    (t.populate id n ms).Holds j c ↔
      (∃ m, t.Born ms j m ∧ c = n.child m) ∨
      ∃ c₀, t.Holds j c₀ ∧
        c = if id = j then { c₀ with children := some (t.create (ms.map n.child)).1 } else c₀ := by
  have hslot (slot : Slot) := find?_populate hn.1 ms slot
  constructor
  · rintro ⟨hnode, hs⟩
    rcases hslot c.slot with ⟨i, m, hm, hcs, hi⟩ | ⟨hne, hold⟩
    · obtain rfl : i = j := Option.some.inj (hi.symm.trans hs)
      rw [node?_populate_born hn.1 hm] at hnode
      exact .inl ⟨m, hm, (Option.some.inj hnode).symm⟩
    · obtain ⟨c₀, hc₀, hcs⟩ := h.slots c.slot j (hold.symm.trans hs)
      rw [node?_populate_old hc₀.1 id n ms] at hnode
      exact .inr ⟨c₀, hc₀, (Option.some.inj hnode).symm⟩
  · rintro (⟨m, hm, rfl⟩ | ⟨c₀, hc₀, rfl⟩)
    · refine ⟨node?_populate_born hn.1 hm, ?_⟩
      rcases hslot (n.child m).slot with ⟨i, m', hm', hs, hi⟩ | ⟨hne, -⟩
      · have hkey : m.key = m'.key := congrArg Prod.snd hs
        rw [hi, hm.unique hm' hf.1 hkey]
      · exact absurd rfl (hne m hm.mem)
    · refine ⟨node?_populate_old hc₀.1 id n ms, ?_⟩
      have hcs : (if id = j then { c₀ with children := some (t.create (ms.map n.child)).1 }
          else c₀ : Node).slot = c₀.slot := by split <;> rfl
      rw [hcs]
      rcases hslot c₀.slot with ⟨i, m, hm, hs, -⟩ | ⟨-, hold⟩
      · have hno := hf.2 m hm.mem
        rw [← hs, hc₀.2] at hno
        cases hno
      · rw [hold, hc₀.2]

section

variable (hf : t.Free n.assembly ms) (h : t.Shaped) (hn : t.Holds id n)
include hf h hn

theorem Free.holds_born (hm : t.Born ms j m) : (t.populate id n ms).Holds j (n.child m) :=
  (hf.holds_populate h hn).mpr (.inl ⟨m, hm, rfl⟩)

theorem Free.holds_self : (t.populate id n ms).Holds id
    { n with children := some (t.create (ms.map n.child)).1 } :=
  (hf.holds_populate h hn).mpr (.inr ⟨n, hn, by simp⟩)

/-- What is attached stays so, in its place. -/
theorem Free.holds_old (hj : t.Holds j c) : ∃ c', (t.populate id n ms).Holds j c' ∧
    c'.assembly = c.assembly ∧ c'.slot = c.slot ∧ c'.parent = c.parent :=
  ⟨_, (hf.holds_populate h hn).mpr (.inr ⟨c, hj, rfl⟩), by split <;> exact ⟨rfl, rfl, rfl⟩⟩

theorem Free.populate_parent (hnone : n.children = none) {key : String}
    (hj : (t.populate id n ms).Holds j c) (hp : c.parent = some key) :
    ∃ p q ids, (t.populate id n ms).Holds p q ∧ q.slot = (c.assembly, key) ∧
      q.children = some ids ∧ j ∈ ids := by
  rcases (hf.holds_populate h hn).mp hj with ⟨m, hm, rfl⟩ | ⟨c₀, hc₀, rfl⟩
  · obtain rfl : n.key = key := Option.some.inj hp
    exact ⟨id, _, _, hf.holds_self h hn, rfl, rfl, mem_born.mpr ⟨m, hm⟩⟩
  · have hparent := h.parent j c₀ key hc₀ (by split at hp <;> exact hp)
    obtain ⟨p, q, ids, hq, hs, hids, hmem⟩ := hparent
    have hne : id ≠ p := by
      rintro rfl
      rw [Option.some.inj (hn.1.symm.trans hq.1), hids] at hnone
      cases hnone
    refine ⟨p, q, ids, (hf.holds_populate h hn).mpr (.inr ⟨q, hq, by simp [hne]⟩), ?_, hids, hmem⟩
    split <;> exact hs

theorem Free.populate_children {ids : List NodeId} (hj : (t.populate id n ms).Holds j c)
    (hids : c.children = some ids) : ids.Nodup ∧ ∀ i ∈ ids, j < i ∧
      ∃ d, (t.populate id n ms).Holds i d ∧ d.assembly = c.assembly ∧ d.parent = some c.key := by
  rcases (hf.holds_populate h hn).mp hj with ⟨m, -, rfl⟩ | ⟨c₀, hc₀, rfl⟩
  · cases hids
  · by_cases hid : id = j
    · -- the node that gets its children
      subst hid
      obtain rfl : n = c₀ := Option.some.inj (hn.1.symm.trans hc₀.1)
      simp only [if_true, Option.some.injEq] at hids
      subst hids
      refine ⟨List.nodup_range', fun i hi => ?_⟩
      obtain ⟨m, hm⟩ := mem_born.mp hi
      refine ⟨Nat.lt_of_lt_of_le (lt_of_node? hn.1) hm.le, _, hf.holds_born h hn hm, ?_⟩
      simp [Node.child, Node.key]
    · simp only [if_neg hid] at hids ⊢
      obtain ⟨hnodup, hall⟩ := h.children j c₀ ids hc₀ hids
      refine ⟨hnodup, fun i hi => ?_⟩
      obtain ⟨hlt, d, hd, ha, hp⟩ := hall i hi
      obtain ⟨d', hd', hda, -, hdp⟩ := hf.holds_old h hn hd
      exact ⟨hlt, d', hd', hda.trans ha, hdp.trans hp⟩

/-- Members that do no harm may be attached below a node that has kept no children. -/
theorem Free.populate (hnone : n.children = none) : (t.populate id n ms).Shaped where
  slots slot j hslot := by
    rcases find?_populate hn.1 ms slot with ⟨i, m, hm, hs, hi⟩ | ⟨-, hsame⟩
    · obtain rfl : i = j := Option.some.inj (hi.symm.trans hslot)
      exact ⟨_, hf.holds_born h hn hm, hs.symm⟩
    · obtain ⟨c, hc, hs⟩ := h.slots slot j (hsame.symm.trans hslot)
      obtain ⟨c', hc', -, hcs, -⟩ := hf.holds_old h hn hc
      exact ⟨c', hc', hcs.trans hs⟩
  rooted slot j hslot := by
    rw [paths, roots_populate]
    rcases find?_populate hn.1 ms slot with ⟨i, m, -, hs, -⟩ | ⟨-, hsame⟩
    · rw [hs]
      exact h.assembly hn
    · exact h.rooted slot j (hsame.symm.trans hslot)
  root path r hr := by
    obtain ⟨c, hc, ha, hp⟩ := h.root path r (roots_populate t id n ms ▸ hr)
    obtain ⟨c', hc', hca, -, hcp⟩ := hf.holds_old h hn hc
    exact ⟨c', hc', hca.trans ha, hcp.trans hp⟩
  top j c hj hp := by
    rw [rootOf, roots_populate]
    rcases (hf.holds_populate h hn).mp hj with ⟨m, -, rfl⟩ | ⟨c₀, hc₀, rfl⟩
    · cases hp
    · have htop := h.top j c₀ hc₀
      split at hp <;> split <;> exact htop hp
  parent _ _ _ hj hp := hf.populate_parent h hn hnone hj hp
  children _ _ _ hj hids := hf.populate_children h hn hj hids

end

end Tree

end AssemblyBrowser
