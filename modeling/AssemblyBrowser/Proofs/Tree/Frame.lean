import AssemblyBrowser.Proofs.Tree.Displacement
import AssemblyBrowser.Proofs.Tree.Harmless
/-!
What a tree keeps when an assembly is removed and when everything is fetched anew. Main statement:
whatever callers have done, the removal of an assembly detaches its nodes and touches nothing else; a
refresh gives every assembly a new root of the same description, in the same order, and asks nobody;
and an assembly that is removed and added again comes last and shares nothing with what it was.
-/
namespace AssemblyBrowser

namespace Tree

variable {t t' : Tree} {path : String} {id : NodeId} {n : Node}

/-! ## The roots of assemblies -/

/-- The node of an assembly is a root as the engine described it, with what has been fetched since. -/
def Described (t : Tree) : Prop :=
  ∀ path r, t.roots.find? path = some r →
    ∃ n, t.node? r.node = some n ∧ n.bare = .root path r.member

theorem Described.later (h : t.Described) (ha : t.Ages t') (hr : t'.roots = t.roots) :
    t'.Described := by
  intro path r hroot
  obtain ⟨n, hn, hbare⟩ := h path r (hr ▸ hroot)
  obtain ⟨n', hn', hages⟩ := ha r.node n hn
  exact ⟨n', hn', hages.bare.trans hbare⟩

theorem Described.plant (h : t.Described) (path : String) (m : Member) :
    (t.plant path m).Described := by
  intro q r hroot
  simp only [Tree.plant, OrderedMap.find?_put] at hroot
  split at hroot
  · rename_i hq
    obtain rfl := Option.some.inj hroot
    exact ⟨.root path m, by simp [Tree.plant, node?], by rw [hq]; rfl⟩
  · obtain ⟨n, hn, hbare⟩ := h q r hroot
    exact ⟨n, node?_append_old (l := [.root path m]) rfl hn, hbare⟩

theorem Described.foldl_plant (rs : List (String × Root)) : ∀ {t : Tree}, t.Described →
    (rs.foldl (fun t (path, r) => t.plant path r.member) t).Described := by
  induction rs with
  | nil => exact fun h => h
  | cons r rs ih => exact fun h => ih (h.plant _ _)

theorem refresh_described (t : Tree) : t.refresh.Described := by
  have hbare : t.bare.Described := fun path r h => by simp [bare] at h
  exact (hbare.foldl_plant t.roots.entries).later (.of_nodes rfl) rfl

theorem Described.uproot (h : t.Described) (path : String) : (t.uproot path).Described := by
  intro q r hroot
  simp only [Tree.uproot, OrderedMap.find?_erase] at hroot
  split at hroot
  · cases hroot
  · exact h q r hroot

theorem Described.suffer (h : t.Described) (m : Meddling) : (t.suffer m).Described := by
  cases m with
  | refresh => exact refresh_described t
  | uproot path => exact h.uproot path
  | speak l => exact h.later (.of_nodes rfl) rfl
  | tell e => exact h.later (.of_nodes rfl) rfl
  | subscribe l => exact h.later (.of_nodes rfl) rfl
  | unsubscribe l => exact h.later (.of_nodes rfl) rfl

theorem Described.finish (h : t.Described) {f : Flight} (hw : f.Wanted t)
    (r : Except Failure f.Reply) : (f.finish r t).2.Described := by
  have hages := Flight.finish_ages hw r
  cases f with
  | add path =>
    cases r with
    | error e => exact h.later hages rfl
    | ok m =>
      have hland : (t.land (.add path)).Described := h.later (.of_nodes rfl) rfl
      exact (hland.plant path m).later (.of_nodes rfl) rfl
  | children id =>
    refine h.later hages ?_
    simp only [Flight.finish]
    rcases Flight.finishChildren_cases id r t with ht | ⟨ms, n, -, -, -, ht⟩
    · exact (congrArg Tree.roots ht).trans rfl
    · refine (congrArg Tree.roots ht).trans ?_
      split
      · exact (adopt_same _ id _).1
      · rfl
  | code id =>
    refine h.later hages ?_
    simp only [Flight.finish, finishCode]
    cases r with
    | error e => rfl
    | ok text =>
      dsimp only
      split <;> rfl

/-! ## The nodes of a refreshed tree -/

theorem nodes_foldl_plant (rs : List (String × Root)) (t : Tree) :
    (rs.foldl (fun t (path, r) => t.plant path r.member) t).nodes =
      t.nodes ++ rs.map fun e => .root e.1 e.2.member := by
  induction rs generalizing t with
  | nil => simp
  | cons r rs ih =>
    rw [List.foldl_cons, ih]
    simp [plant]

theorem nodes_refresh (t : Tree) :
    t.refresh.nodes = t.nodes ++ t.roots.entries.map fun e => .root e.1 e.2.member :=
  nodes_foldl_plant t.roots.entries t.bare

/-! ## Kept children -/

/-- The children that are kept on a node were made after it. -/
def Begets (t : Tree) : Prop :=
  ∀ id n ids, t.node? id = some n → n.children = some ids → ∀ j ∈ ids, id < j ∧ j < t.nodes.length

theorem Begets.of_nodes (h : t.Begets) (hn : t'.nodes = t.nodes) : t'.Begets := by
  intro id n ids hid
  rw [node?, hn] at hid
  rw [hn]
  exact h id n ids hid

theorem Begets.of_append (h : t.Begets) {l : List Node} (hn : t'.nodes = t.nodes ++ l)
    (hl : ∀ n ∈ l, n.children = none) : t'.Begets := by
  intro id n ids hid hc j hj
  rcases node?_append_cases hn hid with hold | hnew
  · obtain ⟨hlt, hj⟩ := h id n ids hold hc j hj
    rw [hn, List.length_append]
    exact ⟨hlt, Nat.lt_add_right _ hj⟩
  · rw [hl n hnew] at hc
    cases hc

theorem Begets.suffer (h : t.Begets) (m : Meddling) : (t.suffer m).Begets := by
  cases m with
  | refresh =>
    refine h.of_append t.nodes_refresh fun n hn => ?_
    obtain ⟨e, -, rfl⟩ := List.mem_map.mp hn
    rfl
  | uproot path => exact h.of_nodes rfl
  | speak l => exact h.of_nodes rfl
  | tell e => exact h.of_nodes rfl
  | subscribe l => exact h.of_nodes rfl
  | unsubscribe l => exact h.of_nodes rfl

theorem Begets.keep_code (h : t.Begets) (id : NodeId) (text : String) :
    (t.modify id fun n => { n with code := some text }).Begets := by
  intro j c ids hc hids
  rw [show (t.modify id _).nodes.length = t.nodes.length by simp [modify]]
  obtain ⟨c₀, hc₀, rfl | ⟨-, rfl⟩⟩ := node?_modify_cases hc
  · exact h j c ids hc₀ hids
  · exact h j c₀ ids hc₀ hids

theorem Begets.adopt (h : t.Begets) {ids : List NodeId}
    (hids : ∀ j ∈ ids, id < j ∧ j < t.nodes.length) : (t.adopt id ids).Begets := by
  intro j c js hc hjs
  rw [show (t.adopt id ids).nodes.length = t.nodes.length by simp [Tree.adopt, modify]]
  rw [node?_adopt] at hc
  split at hc
  · rename_i hid
    obtain ⟨c₀, -, rfl⟩ := Option.map_eq_some_iff.mp hc
    obtain rfl : ids = js := Option.some.inj hjs
    exact hid ▸ hids
  · exact h j c js hc hjs

theorem Begets.finish (h : t.Begets) (f : Flight) (r : Except Failure f.Reply) :
    (f.finish r t).2.Begets := by
  cases f with
  | add path =>
    cases r with
    | error e => exact h.of_nodes rfl
    | ok m => exact h.of_append (l := [.root path m]) rfl (by simp [Node.root])
  | children id =>
    simp only [Flight.finish]
    rcases Flight.finishChildren_cases id r t with ht | ⟨ms, n, -, hn, -, ht⟩
    · rw [ht]
      exact h.of_nodes rfl
    · have hcreate : ((t.land (.children id)).create (ms.map n.child)).2.Begets :=
        h.of_append (l := ms.map n.child) rfl (by simp [Node.child])
      rw [ht]
      split
      · refine hcreate.adopt fun j hj => ?_
        obtain ⟨hle, hlt⟩ := List.mem_range'_1.mp hj
        refine ⟨Nat.lt_of_lt_of_le (lt_of_node? hn) hle, ?_⟩
        simpa [create] using hlt
      · exact hcreate
  | code id =>
    simp only [Flight.finish, finishCode]
    cases r with
    | error e => exact h.of_nodes rfl
    | ok text =>
      dsimp only
      split
      · exact Begets.keep_code (t := t.land (.code id)) (h.of_nodes rfl) id text
      · exact h.of_nodes rfl

/-! ## Without an assembly -/

/-- A tree from which an assembly has been removed: its nodes are detached, and everything else is
as it was. -/
structure Without (t : Tree) (path : String) (t' : Tree) : Prop where
  /-- Every node is what it was and keeps what it kept. -/
  nodes : t'.nodes = t.nodes
  attached : ∀ id n, t.node? id = some n →
    (t'.isAttached id = true ↔ t.isAttached id = true ∧ n.assembly ≠ path)
  gone : t'.roots.find? path = none
  roots : ∀ q, q ≠ path → t'.roots.find? q = t.roots.find? q
  paths : t'.paths = t.paths.filter fun q => q ≠ path
  language : t'.language = t.language
  flights : t'.flights = t.flights
  listeners : t'.listeners = t.listeners

theorem isAttached_uproot (hn : t.node? id = some n) :
    (t.uproot path).isAttached id = true ↔ t.isAttached id = true ∧ n.assembly ≠ path := by
  have hholds (u : Tree) (hu : u.node? id = some n) : u.isAttached id = true ↔ u.Holds id n := by
    rw [isAttached_of_node? hu, Holds, hu]
    simp
  rw [hholds t hn, hholds (t.uproot path) hn, holds_uproot]

theorem uproot_without (t : Tree) (path : String) : t.Without path (t.uproot path) where
  nodes := rfl
  attached _ _ := isAttached_uproot
  gone := (OrderedMap.find?_erase _ _ _).trans (if_pos rfl)
  roots _ hq := (OrderedMap.find?_erase _ _ _).trans (if_neg hq)
  paths := t.roots.keys_erase path
  language := rfl
  flights := rfl
  listeners := rfl

/-- Listeners that are told do nothing to the tree. -/
theorem Without.tell (h : t.Without path t') (e : TreeEvent) : t.Without path (t'.tell e) :=
  ⟨h.nodes, h.attached, h.gone, h.roots, h.paths, h.language, h.flights, h.listeners⟩

/-! ## All roots anew -/

/-- A tree in which every assembly has a new root. -/
structure Renewed (t t' : Tree) : Prop where
  paths : t'.paths = t.paths
  /-- The new root of an assembly has the key, name, kind and token that the old one has; it is
  attached, and nothing has been fetched for it. -/
  root : ∀ path ∈ t.paths, ∃ r n r', t.roots.find? path = some r ∧ t.node? r.node = some n ∧
    t'.roots.find? path = some r' ∧ t'.node? r'.node = some (.root path n.member) ∧
      t.nodes.length ≤ r'.node ∧ t'.isAttached r'.node = true ∧ r'.member = r.member
  attached : ∀ id, t'.isAttached id = true ↔ ∃ path r, t'.roots.find? path = some r ∧ r.node = id
  detached : ∀ id n, t.node? id = some n → t'.node? id = some n ∧ t'.isAttached id = false
  language : t'.language = t.language
  flights : t'.flights = t.flights
  listeners : t'.listeners = t.listeners

theorem find?_of_mem_paths (h : path ∈ t.paths) : ∃ r, t.roots.find? path = some r :=
  Option.isSome_iff_exists.mp ((t.roots.contains_iff path).mpr h)

theorem listening_foldl_plant (rs : List (String × Root)) (t : Tree) :
    let u := rs.foldl (fun t (path, r) => t.plant path r.member) t
    u.language = t.language ∧ u.listeners = t.listeners := by
  induction rs generalizing t with
  | nil => exact ⟨rfl, rfl⟩
  | cons r rs ih => exact ih _

/-- What is attached after a refresh is new, and a root. -/
theorem root_of_holds_refresh (h : t.refresh.Holds id n) :
    t.nodes.length ≤ id ∧ ∃ path r, t.roots.find? path = some r ∧ n = .root path r.member := by
  have hfresh : ∀ m, t.node? id ≠ some m := by
    intro m hm
    have hd := (refresh_detaches hm).2
    rw [isAttached_iff.mpr ⟨n, h⟩] at hd
    cases hd
  refine ⟨?_, ?_⟩
  · by_contra hlt
    exact hfresh _ (List.getElem?_eq_getElem (Nat.lt_of_not_le hlt))
  · rcases node?_append_cases t.nodes_refresh h.1 with hold | hnew
    · exact absurd hold (hfresh n)
    · obtain ⟨e, he, rfl⟩ := List.mem_map.mp hnew
      exact ⟨e.1, e.2, Assoc.find?_of_mem t.roots.nodup he, rfl⟩

theorem Described.renewed_root (h : t.Described) (hp : path ∈ t.paths) :
    ∃ r n r', t.roots.find? path = some r ∧ t.node? r.node = some n ∧
      t.refresh.roots.find? path = some r' ∧
      t.refresh.node? r'.node = some (.root path n.member) ∧ t.nodes.length ≤ r'.node ∧
      t.refresh.isAttached r'.node = true ∧ r'.member = r.member := by
  obtain ⟨r, hr⟩ := find?_of_mem_paths hp
  obtain ⟨n, hn, hbare⟩ := h path r hr
  obtain ⟨r', hr'⟩ := find?_of_mem_paths (t := t.refresh) (t.paths_refresh.symm ▸ hp)
  obtain ⟨n', hholds, hassembly, -⟩ := t.refresh_shaped.root path r' hr'
  obtain ⟨hge, q, r₀, hr₀, rfl⟩ := root_of_holds_refresh hholds
  obtain rfl : q = path := hassembly
  obtain rfl : r₀ = r := Option.some.inj (hr₀.symm.trans hr)
  have hmember : n.member = r₀.member := congrArg Node.member hbare
  obtain ⟨n', hn', hbare'⟩ := t.refresh_described q r' hr'
  obtain rfl : n' = .root q r₀.member := Option.some.inj (hn'.symm.trans hholds.1)
  have hmember' : r₀.member = r'.member := congrArg Node.member hbare'
  exact ⟨r₀, n, r', hr, hn, hr', by rw [hmember]; exact hn', hge,
    isAttached_iff.mpr ⟨_, hholds⟩, hmember'.symm⟩

theorem Described.renewed (h : t.Described) : t.Renewed t.refresh where
  paths := t.paths_refresh
  root _ := h.renewed_root
  attached id := by
    constructor
    · intro ha
      obtain ⟨n, hn⟩ := isAttached_iff.mp ha
      obtain ⟨-, path, r, -, rfl⟩ := root_of_holds_refresh hn
      obtain ⟨r', hr', hid⟩ := Option.map_eq_some_iff.mp (t.refresh_shaped.top id _ hn rfl)
      exact ⟨path, r', hr', hid⟩
    · rintro ⟨path, r, hr, rfl⟩
      obtain ⟨n, hn, -⟩ := t.refresh_shaped.root path r hr
      exact isAttached_iff.mpr ⟨n, hn⟩
  detached _ _ := refresh_detaches
  language := (listening_foldl_plant t.roots.entries t.bare).1
  flights := t.flights_refresh
  listeners := (listening_foldl_plant t.roots.entries t.bare).2

end Tree

namespace Company.Step

variable {f : Flight} {t t' : Tree} {c c' : Company f} {x : Turn f}

theorem described (hs : Step t c x t' c') (h : Sound t c) (ht : t.Described) : t'.Described := by
  cases hs with
  | finish hi => exact ht.finish (h.wanted (h.flying hi rfl).2) _
  | board => exact ht.later (.of_nodes rfl) rfl
  | rest => exact ht
  | arrive => exact ht
  | settle => exact ht
  | join => exact ht
  | reply => exact ht
  | wake => exact ht
  | leave => exact ht

theorem begets (hs : Step t c x t' c') (ht : t.Begets) : t'.Begets := by
  cases hs with
  | finish hi => exact ht.finish f _
  | board => exact ht.of_nodes rfl
  | rest => exact ht
  | arrive => exact ht
  | settle => exact ht
  | join => exact ht
  | reply => exact ht
  | wake => exact ht
  | leave => exact ht

end Company.Step

/-! ## Added again -/

/-- What has become of an assembly of an earlier tree that was removed from it, beside a new root. -/
structure Tree.Apart (t : Tree) (path : String) (id : NodeId) (v : Tree) : Prop where
  fresh : t.node? id = none
  /-- The nodes that were in the assembly are as they were, and no longer part of the tree. -/
  old : ∀ j n, t.node? j = some n → n.assembly = path → v.node? j = some n ∧ v.isAttached j = false
  /-- Nothing that was kept on a node then is kept on the new root. -/
  unshared : ∀ j n m ids ids', t.node? j = some n → n.children = some ids →
    v.node? id = some m → m.children = some ids' → ids.Disjoint ids'

namespace Visitors

variable {s : Visitors} {path : String}

theorem after_movesOn (s : Visitors) (xs : List Incident) : s.tree.MovesOn (s.after xs).tree := by
  induction xs generalizing s with
  | nil => exact .refl s.tree
  | cons x xs ih => exact (s.happen_movesOn x).trans (ih (s.happen x))

theorem after_begets (h : s.tree.Begets) (xs : List Incident) : (s.after xs).tree.Begets := by
  induction xs generalizing s with
  | nil => exact h
  | cons x xs ih =>
    refine ih (s := s.happen x) ?_
    cases x with
    | meddle m => exact h.suffer m
    | turn f x => exact (Company.take_step s.tree (s.company f) x).begets h

theorem Sound.after_described (h : s.Sound) (ht : s.tree.Described) (xs : List Incident) :
    (s.after xs).tree.Described := by
  induction xs generalizing s with
  | nil => exact ht
  | cons x xs ih =>
    refine ih (h.happen x) ?_
    cases x with
    | meddle m => exact ht.suffer m
    | turn f x =>
      exact (Company.take_step s.tree (s.company f) x).described (h.companies f) ht

/-- An assembly of a tree that has been removed and is added to a later tree: it comes last, with a
root for which nothing has been fetched, and keeps apart from what it was. -/
structure Regrown (t : Tree) (path : String) (u : Tree) (v : Visitors) : Prop where
  absent : path ∉ u.paths
  last : v.tree.paths = u.paths ++ [path]
  root : ∃ r, v.tree.roots.find? path = some r ∧ v.tree.node? r.node = some (.root path r.member) ∧
    v.tree.isAttached r.node = true ∧ ∀ zs, t.Apart path r.node (v.after zs).tree

theorem regrown_of_plant {t u : Tree} {v : Visitors} {m : Member} {e : TreeEvent} (ht : t.Begets)
    (hu : u.Begets) (hm : (t.uproot path).MovesOn u) (hp : path ∉ u.paths)
    (hv : v.tree = (u.plant path m).tell e) : Regrown t path u v := by
  have hle : t.nodes.length ≤ u.nodes.length := hm.longer
  have hnew : v.tree.node? u.nodes.length = some (.root path m) := by
    simp [hv, Tree.node?, Tree.tell, Tree.plant]
  have hroot : v.tree.roots.find? path = some ⟨m, u.nodes.length⟩ := by
    simp [hv, Tree.tell, Tree.plant]
  have hslot : v.tree.slots.find? (path, m.key) = some u.nodes.length := by
    simp [hv, Tree.tell, Tree.plant]
  refine ⟨hp, ?_, _, hroot, hnew, (Tree.isAttached_of_node? hnew).mpr hslot, fun zs => ?_⟩
  · rw [hv]
    exact (u.paths_plant path m).trans (if_neg hp)
  have hmoves : (t.uproot path).MovesOn (v.after zs).tree := by
    have hplant := (Tree.plant_movesOn u path m).trans (Tree.tell_movesOn _ e)
    exact (hm.trans (hv ▸ hplant)).trans (v.after_movesOn zs)
  have hbegets : (v.after zs).tree.Begets := by
    have hplant : (u.plant path m).Begets :=
      hu.of_append (l := [.root path m]) rfl (by simp [Node.root])
    exact after_begets (hv ▸ hplant.of_nodes rfl) zs
  constructor
  · exact List.getElem?_eq_none hle
  · rintro j n hj rfl
    obtain ⟨hj', hd⟩ := Tree.uproot_detaches hj
    exact ⟨hmoves.rests j n hj' hd, hmoves.detached hj' hd⟩
  · intro j n n' ids ids' hj hids hn' hids' k hk hk'
    -- the children of a node are younger than it, and the root is younger than all that there was
    have hbefore := (ht j n ids hj hids k hk).2
    have hafter := (hbegets _ n' ids' hn' hids' k hk').1
    exact Nat.not_lt.mpr hle (Nat.lt_trans hafter hbefore)

end Visitors

namespace Forest

variable {σ : Type} {b : Backend σ} {path : String}

/-- The engine alone decides what a removal answers; the tree does not depend on it. -/
theorem remove_uproots {t : Tree} (hp : path ∈ t.paths) (w : σ) :
    let unloaded := (b (.unload path)).runFrom w
    ∃ u, (remove b.engine path).runFrom ⟨t, w⟩ =
        (unloaded.1.map fun _ => true, ⟨u, unloaded.2⟩) ∧
      (u = t.uproot path ∨ u = (t.uproot path).tell (.removed path)) := by
  intro unloaded
  rw [remove_run]
  simp only [Tree.plan, (t.roots.contains_iff path).mpr hp, if_true, follow]
  refine ⟨_, rfl, ?_⟩
  split
  · exact .inr rfl
  · exact .inl rfl

/-- An assembly is added by a caller that comes with it when it is not there. -/
theorem add_ok {s u : Forest σ} (h : (add b.engine path).runFrom s = (.ok true, u)) :
    path ∉ s.tree.paths ∧ ∃ m, u.tree = (s.tree.plant path m).tell (.added path) := by
  rw [show add b.engine path = _ from (Flight.add path).perform_eq b] at h
  rcases (Flight.add path).enter_cases s.tree with ⟨r, he⟩ | ⟨-, he⟩ | ⟨hf, hw, he⟩
  · rw [consult_settled he] at h
    simp only [Flight.enter, Tree.beginAdd] at he
    split at he
    · cases he
      cases h
    · rcases Flight.board_cases (α := Bool) s.tree (.add path) with ⟨-, hb⟩ | ⟨-, hb⟩ <;>
        rw [hb] at he <;> cases he
  · rw [consult_joined he] at h
    cases h
  · obtain ⟨r, w, hask⟩ := (Flight.add path).ask_run b
      { s with tree := { s.tree with flights := s.tree.flights ++ [.add path] } }
    rw [consult_owner he hask] at h
    refine ⟨hw, ?_⟩
    cases r with
    | error e => cases h
    | ok m =>
      obtain ⟨-, rfl⟩ := Prod.mk.inj h
      refine ⟨m, ?_⟩
      simp only [Flight.finish, Flight.heed, Tree.finishAdd, Tree.erase_board hf]

end Forest

namespace Visitors

variable {s : Visitors} {path : String}

/-- A caller adds the assembly for which it came. -/
theorem Sound.regrown_in_turn (h : s.Sound) {t : Tree} (ht : t.Begets) (hs : s.tree.Begets)
    (hm : (t.uproot path).MovesOn s.tree) {i : Nat} {m : Member}
    (hi : s.stage? (.add path) i = some (.answered (.ok m))) :
    Regrown t path s.tree (s.happen (.turn (.add path) (.finish i))) := by
  have hwanted := (h.companies _).wanted ((h.companies _).flying hi rfl).2
  have hland : (s.tree.land (.add path)).Begets := hs.of_nodes rfl
  have hgrown := regrown_of_plant ht hland (hm.trans (Tree.land_movesOn _ _)) hwanted
    (tree_finish hi)
  exact ⟨hgrown.absent, hgrown.last, hgrown.root⟩

/-- What the operations on the assemblies of a tree leave alone. -/
structure Framed (s : Visitors) : Prop where
  /-- Whatever the engine says to it, a removal takes an assembly away and nothing else. -/
  removes : ∀ path ∈ s.tree.paths, ∀ (σ : Type) (b : Backend σ) (w : σ),
    let unloaded := (b (.unload path)).runFrom w
    ∃ t, (Forest.remove b.engine path).runFrom ⟨s.tree, w⟩ =
      (unloaded.1.map fun _ => true, ⟨t, unloaded.2⟩) ∧ s.tree.Without path t
  /-- A refresh makes all roots anew, without a call to the engine and without a change in it. -/
  refreshes : ∀ (σ : Type) (b : Backend σ) (w : σ),
    ∃ t, (TreeOperation.refresh.perform b.engine).runFrom ⟨s.tree, w⟩ = (.ok (), ⟨t, w⟩) ∧
      s.tree.Renewed t
  /-- Whatever is done after a removal, an assembly that is added again grows from a new root:
  a caller adds it in one go, or in turns among others. -/
  regrows : ∀ path ∈ s.tree.paths, ∀ (σ : Type) (b : Backend σ) (w : σ) (ys : List Incident),
    let u := ((Forest.remove b.engine path).runFrom ⟨s.tree, w⟩).2
    let v := ({ s with tree := u.tree } : Visitors).after ys
    (∀ (σ : Type) (b : Backend σ) (w : σ) (x : Forest σ),
      (Forest.add b.engine path).runFrom ⟨v.tree, w⟩ = (.ok true, x) →
        Regrown s.tree path v.tree { v with tree := x.tree }) ∧
    ∀ i m, v.stage? (.add path) i = some (.answered (.ok m)) →
      Regrown s.tree path v.tree (v.happen (.turn (.add path) (.finish i)))

theorem Sound.regrows (h : s.Sound) (ht : s.tree.Begets) (hp : path ∈ s.tree.paths) {σ : Type}
    (b : Backend σ) (w : σ) (ys : List Incident) :
    let u := ((Forest.remove b.engine path).runFrom ⟨s.tree, w⟩).2
    let v := ({ s with tree := u.tree } : Visitors).after ys
    v.Sound ∧ v.tree.Begets ∧ (s.tree.uproot path).MovesOn v.tree := by
  intro u v
  -- a removal is an incident or two
  have hafter : ∃ xs, ({ s with tree := u.tree } : Visitors) =
      s.after (.meddle (.uproot path) :: xs) := by
    obtain ⟨t, hrun, rfl | rfl⟩ := Forest.remove_uproots (b := b) hp w
    · exact ⟨[], by simp only [u, hrun]; rfl⟩
    · exact ⟨[.meddle (.tell (.removed path))], by simp only [u, hrun]; rfl⟩
  obtain ⟨xs, hxs⟩ := hafter
  have hv : v = s.after (.meddle (.uproot path) :: (xs ++ ys)) := by
    simp only [v, hxs]
    exact (after_append s _ ys).symm
  rw [hv]
  exact ⟨h.after _, after_begets ht _, (s.happen (.meddle (.uproot path))).after_movesOn _⟩

/-- Whatever callers have done, at the same time or one after another, and whatever the engine said:
the removal of an assembly and a refresh leave alone what they are not about. -/
theorem operations_framed (l : Language) (xs : List Incident) : ((fresh l).after xs).Framed := by
  have hsound := (sound_fresh l).after xs
  have hdescribed : ((fresh l).after xs).tree.Described :=
    (sound_fresh l).after_described (fun path r h => by cases h) xs
  have hbegets : ((fresh l).after xs).tree.Begets :=
    after_begets (fun id n ids h => by cases h) xs
  refine ⟨fun path hp σ b w => ?_, fun σ b w => ⟨_, rfl, hdescribed.renewed⟩,
    fun path hp σ b w ys => ?_⟩
  · obtain ⟨t, hrun, rfl | rfl⟩ := Forest.remove_uproots (b := b) hp w
    · exact ⟨_, hrun, Tree.uproot_without _ path⟩
    · exact ⟨_, hrun, (Tree.uproot_without _ path).tell _⟩
  · obtain ⟨hv, hbegets', hmoves⟩ := hsound.regrows hbegets hp b w ys
    refine ⟨fun σ b w x hadd => ?_, fun i m => hv.regrown_in_turn hbegets hbegets' hmoves⟩
    obtain ⟨hpath, m, hx⟩ := Forest.add_ok hadd
    exact regrown_of_plant hbegets hbegets' hmoves hpath hx

/-- Two builds of a library with the same keys, both expanded. -/
def twoBuilds : Visitors :=
  (fresh .csharp).after
    (visit (.add "debug.dll") 0 (.ok ⟨"lib", "Lib", .assembly, none⟩) ++
      visit (.add "release.dll") 0 (.ok ⟨"lib", "Lib", .assembly, none⟩) ++
      visit (.children 0) 0 (.ok [⟨"N", "N", .nameSpace, none⟩]) ++
      visit (.children 1) 0 (.ok [⟨"N", "N", .nameSpace, none⟩]))

/-- The removal of one build leaves the other one with what is kept for it. -/
theorem operations_framed_two_builds :
    ∃ t, (Forest.remove (Forest.counting Forest.library).engine "debug.dll").runFrom ⟨twoBuilds.tree, 0⟩ =
        (.ok true, ⟨t, 1⟩) ∧ t.paths = ["release.dll"] ∧
      t.isAttached 0 = false ∧ t.isAttached 2 = false ∧ t.isAttached 3 = true ∧
      (t.node? 1).bind Node.children = some [3] := by
  have hframed : twoBuilds.Framed := operations_framed .csharp _
  obtain ⟨t, hrun, ht⟩ :=
    hframed.removes "debug.dll" (by decide +kernel) Nat (Forest.counting Forest.library) 0
  have hattached (id : NodeId) (n : Node) (hn : twoBuilds.tree.node? id = some n) :=
    ht.attached id n hn
  refine ⟨t, hrun, ht.paths, ?_, ?_, ?_, ?_⟩
  · exact Bool.eq_false_iff.mpr fun h => ((hattached 0 _ rfl).mp h).2 rfl
  · exact Bool.eq_false_iff.mpr fun h => ((hattached 2 _ rfl).mp h).2 rfl
  · exact (hattached 3 _ rfl).mpr ⟨by decide +kernel, by decide +kernel⟩
  · rw [Tree.node?, ht.nodes]
    rfl

end Visitors

end AssemblyBrowser
