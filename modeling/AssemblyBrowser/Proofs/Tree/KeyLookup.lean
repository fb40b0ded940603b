import AssemblyBrowser.Proofs.Tree.Placed
import Mathlib.Data.List.Perm.Basic
/-!
Looking for keys. Several assemblies may have the same key, and an engine may report a key of one
assembly more than once; but one node at most holds the key in an assembly. Main statement: whatever
callers do and whatever the engine says, a search finds the attached nodes with a key, in the order in
which their assemblies were added, and a node is given for a key exactly if it is the only one.
-/
namespace AssemblyBrowser

namespace Tree

variable {t : Tree} {id : NodeId} {a key : String}

/-- An attached node has a key in an assembly. -/
def Bears (t : Tree) (a key : String) (id : NodeId) : Prop :=
  t.isAttached id = true ∧ ∃ n, t.node? id = some n ∧ n.assembly = a ∧ n.key = key

/-- Keys are looked up as they should be. -/
structure LooksUp (t : Tree) : Prop where
  nodup : t.paths.Nodup
  attached : ∀ id, t.isAttached id = true → t.assemblyOf id ∈ t.paths
  found : ∀ key id, id ∈ t.findNodes key ↔ ∃ a, t.Bears a key id
  /-- The nodes belong to different assemblies and come in the order of these. -/
  inOrder : ∀ key, ((t.findNodes key).map t.assemblyOf).Sublist t.paths
  absent : ∀ key, t.getNode key none = .ok none ↔ ∀ a id, ¬t.Bears a key id
  alone : ∀ key id, t.getNode key none = .ok (some id) ↔ ∀ j, (∃ a, t.Bears a key j) ↔ j = id
  /-- A key of several nodes is a failure that tells their assemblies. -/
  several : ∀ key f, t.getNode key none = .error f ↔
    (∃ i j a b, t.Bears a key i ∧ t.Bears b key j ∧ i ≠ j) ∧
      ∃ as, f = .ambiguousKey key as ∧ as.Sublist t.paths ∧ ∀ a, a ∈ as ↔ ∃ id, t.Bears a key id
  inAssembly : ∀ key a, ∃ found, t.getNode key (some a) = .ok found ∧
    ∀ id, found = some id ↔ t.Bears a key id

theorem Bears.assemblyOf (h : t.Bears a key id) : t.assemblyOf id = a := by
  obtain ⟨-, n, hn, rfl, -⟩ := h
  simp [Tree.assemblyOf, hn]

theorem Placed.find?_eq_some_iff_bears (h : t.Placed) :
    t.slots.find? (a, key) = some id ↔ t.Bears a key id := by
  rw [h.find?_eq_some_iff]
  constructor
  · rintro ⟨n, hn, hs⟩
    exact ⟨isAttached_iff.mpr ⟨n, hn⟩, n, hn.1, congrArg Prod.fst hs, congrArg Prod.snd hs⟩
  · rintro ⟨ha, n, hn, rfl, rfl⟩
    obtain ⟨n', hn'⟩ := isAttached_iff.mp ha
    obtain rfl : n' = n := Option.some.inj (hn'.1.symm.trans hn)
    exact ⟨n', hn', rfl⟩

theorem Placed.mem_paths (h : t.Placed) (hb : t.Bears a key id) : a ∈ t.paths :=
  h.rooted (a, key) id (h.find?_eq_some_iff_bears.mpr hb)

theorem Placed.mem_findNodes (h : t.Placed) : id ∈ t.findNodes key ↔ ∃ a, t.Bears a key id := by
  rw [findNodes, List.mem_filterMap]
  constructor
  · rintro ⟨a, -, hslot⟩
    exact ⟨a, h.find?_eq_some_iff_bears.mp hslot⟩
  · rintro ⟨a, hb⟩
    exact ⟨a, h.mem_paths hb, h.find?_eq_some_iff_bears.mpr hb⟩

/-- The assemblies of what is found are those in which the key is taken. -/
theorem Placed.assemblies_findNodes (h : t.Placed) (key : String) :
    (t.findNodes key).map t.assemblyOf = t.paths.filter fun a => t.slots.contains (a, key) := by
  rw [findNodes]
  induction t.paths with
  | nil => rfl
  | cons a as ih =>
    cases hslot : t.slots.find? (a, key) with
    | none => simp [hslot, OrderedMap.contains, ih]
    | some id =>
      have ha := (h.find?_eq_some_iff_bears.mp hslot).assemblyOf
      simp [hslot, OrderedMap.contains, ih, ha]

theorem Placed.mem_assemblies_findNodes (h : t.Placed) :
    a ∈ (t.findNodes key).map t.assemblyOf ↔ ∃ id, t.Bears a key id := by
  simp only [List.mem_map, h.mem_findNodes]
  constructor
  · rintro ⟨id, ⟨b, hb⟩, rfl⟩
    exact ⟨id, hb.assemblyOf ▸ hb⟩
  · rintro ⟨id, hb⟩
    exact ⟨id, ⟨a, hb⟩, hb.assemblyOf⟩

theorem Placed.inOrder_findNodes (h : t.Placed) (key : String) :
    ((t.findNodes key).map t.assemblyOf).Sublist t.paths :=
  h.assemblies_findNodes key ▸ List.filter_sublist

theorem Placed.nodup_findNodes (h : t.Placed) (key : String) : (t.findNodes key).Nodup :=
  .of_map t.assemblyOf ((h.inOrder_findNodes key).nodup t.roots.nodup)

/-- A look-up without an assembly goes by how many nodes are found. -/
inductive Finds (t : Tree) (key : String) : List NodeId → Except Failure (Option NodeId) → Prop
  | none : Finds t key [] (.ok none)
  | one (id : NodeId) : Finds t key [id] (.ok (some id))
  | several (i j : NodeId) (ids : List NodeId) : Finds t key (i :: j :: ids)
      (.error (.ambiguousKey key ((i :: j :: ids).map t.assemblyOf)))

theorem finds (t : Tree) (key : String) : t.Finds key (t.findNodes key) (t.getNode key none) := by
  unfold getNode
  dsimp only
  split
  · rename_i hfound
    exact hfound ▸ .none
  · rename_i id hfound
    exact hfound ▸ .one id
  · rename_i hnil hone
    cases hfound : t.findNodes key with
    | nil => exact absurd hfound hnil
    | cons i ids =>
      cases ids with
      | nil => exact absurd hfound (hone i)
      | cons j ids => exact .several i j ids

theorem Placed.getNode_eq_none_iff (h : t.Placed) :
    t.getNode key none = .ok none ↔ ∀ a id, ¬t.Bears a key id := by
  have hmem : (∀ a id, ¬t.Bears a key id) ↔ ∀ id, id ∉ t.findNodes key := by
    simp only [h.mem_findNodes, not_exists]
    exact forall_comm
  have hfinds := t.finds key
  rw [hmem]
  generalize t.findNodes key = ids, t.getNode key none = r at hfinds
  cases hfinds with
  | none => simp
  | one i => simp
  | several i j ids =>
    simp only [reduceCtorEq, false_iff]
    exact fun hall => hall i List.mem_cons_self

theorem Placed.getNode_eq_some_iff (h : t.Placed) :
    t.getNode key none = .ok (some id) ↔ ∀ j, (∃ a, t.Bears a key j) ↔ j = id := by
  have hnodup := h.nodup_findNodes key
  have hfinds := t.finds key
  simp only [← h.mem_findNodes]
  generalize t.findNodes key = ids, t.getNode key none = r at hfinds hnodup
  cases hfinds with
  | none => simp
  | one i =>
    simp only [Except.ok.injEq, Option.some.injEq, List.mem_singleton]
    exact ⟨fun hi j => by rw [hi], fun hall => (hall i).mp rfl⟩
  | several i j ids =>
    -- two different nodes cannot both be the one
    simp only [reduceCtorEq, false_iff]
    intro hall
    have hi := (hall i).mp (by simp)
    have hj := (hall j).mp (by simp)
    exact (List.nodup_cons.mp hnodup).1 (by simp [hi, hj])

theorem Placed.getNode_eq_error_iff (h : t.Placed) (f : Failure) : t.getNode key none = .error f ↔
    (∃ i j a b, t.Bears a key i ∧ t.Bears b key j ∧ i ≠ j) ∧
      ∃ as, f = .ambiguousKey key as ∧ as.Sublist t.paths ∧
        ∀ a, a ∈ as ↔ ∃ id, t.Bears a key id := by
  have hpaths : t.paths.Nodup := t.roots.nodup
  have horder := h.inOrder_findNodes key
  have hnodup := h.nodup_findNodes key
  have hfinds := t.finds key
  have hmany : (∃ i j a b, t.Bears a key i ∧ t.Bears b key j ∧ i ≠ j) ↔
      ∃ i ∈ t.findNodes key, ∃ j ∈ t.findNodes key, i ≠ j := by
    simp only [h.mem_findNodes]
    grind
  simp only [hmany, ← h.mem_assemblies_findNodes]
  generalize t.findNodes key = ids, t.getNode key none = r at hfinds hnodup horder
  cases hfinds with
  | none => simp
  | one i => simp
  | several i j ids =>
    have hne : i ≠ j := fun e => (List.nodup_cons.mp hnodup).1 (by simp [e])
    simp only [Except.error.injEq]
    constructor
    · rintro rfl
      exact ⟨⟨i, by simp, j, by simp, hne⟩, _, rfl, horder, fun a => .rfl⟩
    · rintro ⟨-, as, rfl, has, hmem⟩
      have hperm := (List.perm_ext_iff_of_nodup (has.nodup hpaths) (horder.nodup hpaths)).mpr hmem
      rw [(List.Nodup.perm_iff_eq_of_sublist hpaths has horder).mp hperm]

/-- What is looked up where places are held as they should be. -/
theorem Placed.looksUp (h : t.Placed) : t.LooksUp where
  nodup := t.roots.nodup
  attached id ha := by
    obtain ⟨n, hn⟩ := isAttached_iff.mp ha
    have hb : t.Bears n.assembly n.key id := ⟨ha, n, hn.1, rfl, rfl⟩
    exact hb.assemblyOf ▸ h.mem_paths hb
  found key id := h.mem_findNodes
  inOrder := h.inOrder_findNodes
  absent key := h.getNode_eq_none_iff
  alone key id := h.getNode_eq_some_iff
  several key := h.getNode_eq_error_iff
  inAssembly key a := ⟨_, rfl, fun id => h.find?_eq_some_iff_bears⟩

end Tree

namespace Flight

variable {f : Flight} {t : Tree}

/-- The assembly that a caller leaves in a tree. -/
def plants? : (f : Flight) → Except Failure f.Reply → Option String
  | .add path, .ok _ => some path
  | _, _ => none

/-- A caller leaves in a tree what it came for, at the end, and changes no order. -/
theorem paths_finish (hw : f.Wanted t) (r : Except Failure f.Reply) :
    (f.finish r t).2.paths = t.paths ++ (f.plants? r).toList := by
  cases f with
  | add path =>
    cases r with
    | error e => exact (List.append_nil _).symm
    | ok m => exact ((t.land (.add path)).paths_plant path m).trans (if_neg hw)
  | children id =>
    simp only [finish, plants?, Option.toList_none, List.append_nil]
    rcases finishChildren_cases id r t with h | ⟨ms, n, -, -, -, h⟩
    · exact (congrArg Tree.paths h).trans rfl
    · refine (congrArg Tree.paths h).trans ?_
      split
      · exact congrArg OrderedMap.keys (Tree.adopt_same _ id _).1
      · rfl
  | code id =>
    simp only [finish, Tree.finishCode, plants?, Option.toList_none, List.append_nil]
    cases r with
    | error e => rfl
    | ok text =>
      dsimp only
      split <;> rfl

end Flight

namespace Company.Step

variable {f : Flight} {t t' : Tree} {c c' : Company f} {x : Turn f}

theorem placed (hs : Step t c x t' c') (h : t.Placed) : t'.Placed := by
  cases hs with
  | board => exact h.of_same rfl rfl rfl
  | finish => exact h.finish f _
  | rest => exact h
  | arrive => exact h
  | settle => exact h
  | join => exact h
  | reply => exact h
  | wake => exact h
  | leave => exact h

/-- The assemblies change only when a caller leaves something in the tree. -/
theorem paths_eq (hs : Step t c x t' c') (hx : ∀ i, x ≠ .finish i) : t'.paths = t.paths := by
  cases hs with
  | @finish i => exact absurd rfl (hx i)
  | board => rfl
  | rest => rfl
  | arrive => rfl
  | settle => rfl
  | join => rfl
  | reply => rfl
  | wake => rfl
  | leave => rfl

end Company.Step

/-- The assembly that is removed with an incident. -/
def Incident.removed? : Incident → Option String
  | .meddle (.uproot path) => some path
  | _ => none

namespace Visitors

variable {s : Visitors}

/-- The assembly that is added with an incident: the caller who asked for it leaves it there. -/
def added? (s : Visitors) : Incident → Option String
  | .turn f (.finish i) =>
    match s.stage? f i with
    | some (.answered r) => f.plants? r
    | _ => none
  | _ => none

/-- Assemblies after an incident: one that is added goes to the end. -/
def standing (s : Visitors) (paths : List String) (x : Incident) : List String :=
  paths.filter (fun path => x.removed? ≠ some path) ++ (s.added? x).toList

/-- The assemblies that are added in a run and not removed in the rest of it, in the order in which
they are added. -/
def inOrderOfArrival (s : Visitors) (paths : List String) : List Incident → List String
  | [] => paths
  | x :: xs => (s.happen x).inOrderOfArrival (s.standing paths x) xs

theorem standing_same {x : Incident} (hr : x.removed? = none) (ha : s.added? x = none)
    (paths : List String) : s.standing paths x = paths := by
  simp [standing, hr, ha]

theorem paths_meddle (s : Visitors) (m : Meddling) :
    (s.tree.suffer m).paths = s.standing s.tree.paths (.meddle m) := by
  cases m with
  | uproot path =>
    have hfilter : s.standing s.tree.paths (.meddle (.uproot path)) =
        s.tree.paths.filter fun p => p ≠ path := by
      simp [standing, Incident.removed?, added?, eq_comm]
    exact hfilter ▸ s.tree.roots.keys_erase path
  | refresh => exact s.tree.paths_refresh.trans (standing_same rfl rfl _).symm
  | speak l => exact (standing_same (x := .meddle (.speak l)) rfl rfl _).symm
  | tell e => exact (standing_same (x := .meddle (.tell e)) rfl rfl _).symm
  | subscribe l => exact (standing_same (x := .meddle (.subscribe l)) rfl rfl _).symm
  | unsubscribe l => exact (standing_same (x := .meddle (.unsubscribe l)) rfl rfl _).symm

theorem Sound.paths_turn (h : s.Sound) (f : Flight) (x : Turn f) :
    (s.happen (.turn f x)).tree.paths = s.standing s.tree.paths (.turn f x) := by
  have hsame (hx : ∀ i, x ≠ .finish i) := (Company.take_step s.tree (s.company f) x).paths_eq hx
  cases x with
  | finish i =>
    cases hi : s.stage? f i with
    | none =>
      have hc : (s.company f).stage? i = none := hi
      simp [standing, Incident.removed?, added?, hi, Visitors.happen, Company.take, hc]
    | some st =>
      have hc : (s.company f).stage? i = some st := hi
      cases st with
      | answered r =>
        have hw : f.Wanted s.tree :=
          (h.companies f).wanted ((h.companies f).flying hc rfl).2
        simp [standing, Incident.removed?, added?, hi, tree_finish hi, Flight.paths_finish hw]
      | _ => simp [standing, Incident.removed?, added?, hi, Visitors.happen, Company.take, hc]
  | _ => exact (hsame (by simp)).trans (standing_same rfl rfl _).symm

theorem Sound.paths_happen (h : s.Sound) (x : Incident) :
    (s.happen x).tree.paths = s.standing s.tree.paths x := by
  cases x with
  | meddle m => exact s.paths_meddle m
  | turn f x => exact h.paths_turn f x

theorem Sound.paths_after (xs : List Incident) : ∀ {s : Visitors}, s.Sound →
    (s.after xs).tree.paths = s.inOrderOfArrival s.tree.paths xs := by
  induction xs with
  | nil => exact fun _ => rfl
  | cons x xs ih =>
    intro s h
    rw [inOrderOfArrival, ← h.paths_happen x]
    exact ih (h.happen x)

/-- The places of a tree are held as they should be, however many use it. -/
theorem happen_placed (h : s.tree.Placed) (x : Incident) : (s.happen x).tree.Placed := by
  cases x with
  | meddle m => exact h.suffer m
  | turn f x =>
    exact (Company.take_step s.tree (s.company f) x).placed h

theorem after_placed (h : s.tree.Placed) (xs : List Incident) : (s.after xs).tree.Placed := by
  induction xs generalizing s with
  | nil => exact h
  | cons x xs ih => exact ih (happen_placed h x)

/-- Whatever callers do, whatever is done to the tree in between and whatever the engine says: keys are
looked up as they should be, and the assemblies are in the order in which they were added. -/
theorem keys_looked_up (l : Language) (xs : List Incident) :
    ((fresh l).after xs).tree.LooksUp ∧
      ((fresh l).after xs).tree.paths = (fresh l).inOrderOfArrival [] xs :=
  ⟨(after_placed (Tree.placed_fresh l) xs).looksUp, (sound_fresh l).paths_after xs⟩

end Visitors

end AssemblyBrowser
