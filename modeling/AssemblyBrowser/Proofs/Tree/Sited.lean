import AssemblyBrowser.Proofs.Tree.Placed
import AssemblyBrowser.Proofs.Tree.Session
/-!
Places in a tree, whoever holds them. An engine may list members with keys that are taken: the new node
then takes the place of the other, which is attached no more, but the place stays taken. Main statements:
the members that are kept on an attached node have taken places, and a place is taken until its assembly
is removed or the whole tree is refreshed.
-/
namespace AssemblyBrowser

namespace Tree

variable {t t' : Tree} {id j : NodeId} {n c : Node} {ms : List Member} {ids : List NodeId}

/-! ## What an operation makes of a tree -/

/-- The trees that an operation may end with if its engine can always forget an assembly. -/
inductive Becomes (t : Tree) : TreeOperation → Tree → Prop
  | same {p : TreeOperation} (hp : p ≠ .refresh) : Becomes t p t
  | added {path : String} (hp : path ∉ t.paths) (m : Member) :
      Becomes t (.add path) ((t.plant path m).tell (.added path))
  | removed {path : String} (hp : path ∈ t.paths) :
      Becomes t (.remove path) ((t.uproot path).tell (.removed path))
  | refreshed : Becomes t .refresh t.refresh
  | spoken {name : String} {l : Language} (hparse : Language.parse name = .ok l)
      (hl : t.language ≠ l) :
      Becomes t (.setLanguage name) ({ t with language := l } : Tree).refresh
  | listed {i : NodeId} {m : Node} (hm : t.Holds i m) (hnone : m.children = none)
      (ms : List Member) : Becomes t (.children i) (t.populate i m ms)
  | shown {i : NodeId} {m : Node} (hm : t.Holds i m) (text : String) :
      Becomes t (.code i) (t.modify i fun n => { n with code := some text })

theorem finishChildren_becomes (h : t.flights = []) (hn : t.node? id = some n)
    (ha : t.isAttached id = true) (hnone : n.children = none) (r : Except Failure (List Member)) :
    t.Becomes (.children id) (finishChildren id r t).2 := by
  cases r with
  | error f =>
    simp only [finishChildren, land_of_idle h]
    exact .same (by simp)
  | ok ms =>
    rw [finishChildren_ok h hn ha]
    exact .listed ⟨hn, (isAttached_of_node? hn).mp ha⟩ hnone ms

theorem finishCode_becomes (h : t.flights = []) (hn : t.node? id = some n)
    (ha : t.isAttached id = true) (r : Except Failure String) :
    t.Becomes (.code id) (finishCode id r t).2 := by
  cases r with
  | error f =>
    simp only [finishCode, land_of_idle h]
    exact .same (by simp)
  | ok text =>
    rw [finishCode_ok h ha]
    exact .shown ⟨hn, (isAttached_of_node? hn).mp ha⟩ text

/-- Whatever a session does during an operation, the tree becomes one of these. -/
theorem perform_becomes {σ : Type} (program : Program σ) (p : TreeOperation)
    {s : Forest (Session σ)} (h : s.tree.flights = []) :
    s.tree.Becomes p ((p.perform (Session.engine program)).runFrom s).2.tree := by
  rw [Session.engine_eq, Forest.perform_run _ h]
  cases p with
  | add path =>
    simp only [plan]
    split
    · exact .same (by simp)
    · rename_i hc
      simp only [Forest.follow, finishAdd, land_of_idle h]
      cases ((Session.backend program (.load path)).runFrom s.world).1 with
      | error f => exact .same (by simp)
      | ok m => exact .added (fun hm => hc ((s.tree.roots.contains_iff path).mpr hm)) m
  | remove path =>
    simp only [plan]
    split
    · rename_i hc
      exact .removed ((s.tree.roots.contains_iff path).mp hc)
    · exact .same (by simp)
  | refresh => exact .refreshed
  | setLanguage name =>
    simp only [plan]
    cases hparse : Language.parse name with
    | error e => exact .same (by simp)
    | ok l =>
      simp only [Forest.follow, setLanguage]
      split
      · exact .same (by simp)
      · rename_i hl
        exact .spoken hparse hl
  | children id =>
    simp only [plan, planFetch]
    cases hn : s.tree.node? id with
    | none => exact .same (by simp)
    | some n =>
      simp only
      cases hc : n.children with
      | some ids => exact .same (by simp)
      | none =>
        cases ha : s.tree.isAttached id with
        | false => exact .same (by simp)
        | true =>
          simp only [if_true]
          split <;> exact finishChildren_becomes h hn ha hc _
  | code id =>
    simp only [plan, planFetch]
    cases hn : s.tree.node? id with
    | none => exact .same (by simp)
    | some n =>
      simp only
      cases hc : n.code with
      | some text => exact .same (by simp)
      | none =>
        cases ha : s.tree.isAttached id with
        | false => exact .same (by simp)
        | true =>
          simp only [if_true, Forest.follow]
          exact finishCode_becomes h hn ha _

/-! ## Places -/

/-- Nodes of an assembly whose places are taken, by themselves or by others. -/
def Seated (t : Tree) (assembly : String) (ids : List NodeId) : Prop :=
  ∀ j ∈ ids, ∃ c, t.node? j = some c ∧ c.assembly = assembly ∧ t.slots.contains c.slot = true

/-- Every place that is taken is taken by a node of that place, in an assembly of the tree, and the
children kept on an attached node have taken places. -/
structure Sited (t : Tree) : Prop where
  idle : t.flights = []
  rooted : t.Rooted
  slots : ∀ slot id, t.slots.find? slot = some id → ∃ n, t.node? id = some n ∧ n.slot = slot
  children : ∀ id n ids, t.Holds id n → n.children = some ids → t.Seated n.assembly ids

/-- The places of an assembly that were taken are taken. -/
def Retains (t t' : Tree) (assembly : String) : Prop :=
  ∀ key, t.slots.contains (assembly, key) = true → t'.slots.contains (assembly, key) = true

/-- An operation by which places of an assembly are given up. -/
def Releases (t : Tree) (assembly : String) : TreeOperation → Prop
  | .refresh => True
  | .setLanguage name => ∃ l, Language.parse name = .ok l ∧ t.language ≠ l
  | .remove path => path = assembly
  | .add _ | .children _ | .code _ => False

theorem sited_fresh (l : Language) : ({ language := l } : Tree).Sited where
  idle := rfl
  rooted := rooted_fresh l
  slots slot id h := by simp at h
  children id n ids hn := by simp [Holds, node?] at hn

theorem contains_of_find? {slot : Slot} (h : t.slots.find? slot = some j) :
    t.slots.contains slot = true := by
  rw [OrderedMap.contains, h]
  rfl

theorem Sited.placed (h : t.Sited) : t.Placed := ⟨h.rooted, h.slots⟩

theorem Seated.later {assembly : String} (h : t.Seated assembly ids) (hc : t.Carried t')
    (hr : t.Retains t' assembly) : t'.Seated assembly ids := by
  intro j hj
  obtain ⟨c, hnode, rfl, hslot⟩ := h j hj
  obtain ⟨c', hnode', hsame⟩ := hc j c hnode
  refine ⟨c', hnode', congrArg Prod.fst hsame, ?_⟩
  rw [hsame]
  exact hr c.key hslot

theorem Sited.of_same (h : t.Sited) (hn : t'.nodes = t.nodes) (hs : t'.slots = t.slots)
    (hr : t'.roots = t.roots) (hf : t'.flights = t.flights) : t'.Sited where
  idle := hf.trans h.idle
  rooted := h.rooted.of_same hs hr
  slots slot id hslot := by
    rw [node?, hn]
    exact h.slots slot id (hs ▸ hslot)
  children id n ids hheld hids := by
    rw [Holds, node?, hn, hs] at hheld
    intro j hj
    rw [node?, hn, hs]
    exact h.children id n ids hheld hids j hj

/-! ## Roots -/

theorem Sited.plant (h : t.Sited) (path : String) (m : Member) :
    (t.plant path m).Sited ∧ ∀ a, t.Retains (t.plant path m) a := by
  have hnodes : (t.plant path m).nodes = t.nodes ++ [.root path m] := rfl
  have hfind (slot : Slot) : (t.plant path m).slots.find? slot =
      if slot = (path, m.key) then some t.nodes.length else t.slots.find? slot :=
    OrderedMap.find?_put _ _ _ _
  have hretains (a : String) : t.Retains (t.plant path m) a := by
    intro key hkey
    rw [OrderedMap.contains, hfind]
    split
    · rfl
    · exact hkey
  obtain ⟨hrooted, hslots⟩ := h.placed.plant path m
  refine ⟨⟨h.idle, hrooted, hslots, fun id n ids hn hids => ?_⟩, hretains⟩
  rcases node?_append_cases hnodes hn.1 with hold | hnew
  · have hslot := hn.2
    rw [hfind] at hslot
    split at hslot
    · cases hslot
      exact absurd (lt_of_node? hold) (Nat.lt_irrefl _)
    · exact (h.children id n ids ⟨hold, hslot⟩ hids).later (.of_append hnodes)
        (hretains n.assembly)
  · rw [List.mem_singleton.mp hnew] at hids
    cases hids

theorem Sited.foldl_plant (rs : List (String × Root)) : ∀ {t : Tree}, t.Sited →
    (rs.foldl (fun t (path, r) => t.plant path r.member) t).Sited := by
  induction rs with
  | nil => exact fun h => h
  | cons r rs ih => exact fun h => ih (h.plant _ _).1

theorem refresh_sited (h : t.flights = []) : t.refresh.Sited := by
  have hbare : t.bare.Sited := by
    refine ⟨h, ?_, ?_, ?_⟩
    · intro slot id hslot
      simp [bare] at hslot
    · intro slot id hslot
      simp [bare] at hslot
    · intro id n ids hn
      simp [Holds, bare] at hn
  exact (hbare.foldl_plant t.roots.entries).of_same rfl rfl rfl rfl

theorem Sited.uproot (h : t.Sited) (path : String) :
    (t.uproot path).Sited ∧ ∀ a, path ≠ a → t.Retains (t.uproot path) a := by
  have hfind (slot : Slot) : (t.uproot path).slots.find? slot =
      if slot.1 ≠ path then t.slots.find? slot else none := by
    simp [Tree.uproot, OrderedMap.find?_filter]
  have hretains (a : String) (ha : path ≠ a) : t.Retains (t.uproot path) a := by
    intro key hkey
    rw [OrderedMap.contains, hfind, if_pos (Ne.symm ha)]
    exact hkey
  obtain ⟨hrooted, hslots⟩ := h.placed.uproot path
  refine ⟨⟨h.idle, hrooted, hslots, fun id n ids hn hids => ?_⟩, hretains⟩
  obtain ⟨hn, ha⟩ := (holds_uproot t path).mp hn
  exact (h.children id n ids hn hids).later (fun j c hc => ⟨c, hc, rfl⟩)
    (hretains n.assembly (Ne.symm ha))

/-! ## What is fetched -/

theorem node?_populate_cases (hn : t.node? id = some n)
    (hc : (t.populate id n ms).node? j = some c) :
    (∃ c₀, t.node? j = some c₀ ∧ c =
      if id = j then { c₀ with children := some (t.create (ms.map n.child)).1 } else c₀) ∨
    ∃ m, t.Born ms j m ∧ c = n.child m := by
  by_cases hlt : j < t.nodes.length
  · have hold : t.node? j = some t.nodes[j] := List.getElem?_eq_getElem hlt
    refine .inl ⟨_, hold, ?_⟩
    rw [node?_populate_old hold] at hc
    exact (Option.some.inj hc).symm
  · have hne : id ≠ j := fun e => hlt (e ▸ lt_of_node? hn)
    rw [populate, node?_adopt, if_neg hne] at hc
    have hmade : j ∈ (t.create (ms.map n.child)).1 := by
      have hlong : j < (t.nodes ++ ms.map n.child).length := lt_of_node? hc
      rw [List.length_append] at hlong
      exact List.mem_range'_1.mpr ⟨Nat.not_lt.mp hlt, hlong⟩
    obtain ⟨m, hm⟩ := mem_born.mp hmade
    rw [node?_born hm] at hc
    exact .inr ⟨m, hm, (Option.some.inj hc).symm⟩

theorem populate_retains (hn : t.node? id = some n) (ms : List Member) (a : String) :
    t.Retains (t.populate id n ms) a := by
  intro key hkey
  rcases find?_populate hn ms (a, key) with ⟨j, m, -, -, hslot⟩ | ⟨-, hslot⟩
  · exact contains_of_find? hslot
  · rw [OrderedMap.contains, hslot]
    exact hkey

/-- A look for members loses no node. -/
theorem Becomes.carried (hb : t.Becomes (.children id) t') : t.Carried t' := by
  cases hb with
  | same => exact fun j c hc => ⟨c, hc, rfl⟩
  | listed => exact populate_carried t _ _ _

/-- The members that have just been listed have taken places. -/
theorem populate_seated (hn : t.node? id = some n) (ms : List Member) :
    (t.populate id n ms).Seated n.assembly (t.create (ms.map n.child)).1 := by
  intro j hj
  obtain ⟨m, hm⟩ := mem_born.mp hj
  refine ⟨n.child m, node?_populate_born hn hm, rfl, ?_⟩
  rcases find?_populate hn ms (n.child m).slot with ⟨i, m', -, -, hslot⟩ | ⟨hno, -⟩
  · exact contains_of_find? hslot
  · exact absurd rfl (hno m hm.mem)

theorem Sited.populate (h : t.Sited) (hn : t.Holds id n) (ms : List Member) :
    (t.populate id n ms).Sited where
  idle := (adopt_same _ id _).2.trans h.idle
  rooted := (h.placed.populate hn ms).rooted
  slots := (h.placed.populate hn ms).slots
  children j c ids hc hids := by
    rcases node?_populate_cases hn.1 hc.1 with ⟨c₀, hc₀, rfl⟩ | ⟨m, -, rfl⟩
    · by_cases hid : id = j
      · -- the node that gets its children
        subst hid
        obtain rfl : n = c₀ := Option.some.inj (hn.1.symm.trans hc₀)
        simp only [if_true, Option.some.injEq] at hids
        rw [← hids, if_pos rfl]
        exact populate_seated hn.1 ms
      · simp only [if_neg hid] at hc hids ⊢
        have hslot : t.slots.find? c₀.slot = some j := by
          rcases find?_populate hn.1 ms c₀.slot with ⟨i, m, hm, -, hi⟩ | ⟨-, hsame⟩
          · obtain rfl : i = j := Option.some.inj (hi.symm.trans hc.2)
            exact absurd (lt_of_node? hc₀) (Nat.not_lt.mpr hm.le)
          · exact hsame.symm.trans hc.2
        exact (h.children j c₀ ids ⟨hc₀, hslot⟩ hids).later (populate_carried t id n ms)
          (populate_retains hn.1 ms _)
    · cases hids

theorem Sited.keep_code (h : t.Sited) (id : NodeId) (text : String) :
    (t.modify id fun n => { n with code := some text }).Sited where
  idle := h.idle
  rooted := h.rooted.of_same rfl rfl
  slots := (h.placed.later (keep_code_carried t id text) rfl rfl).slots
  children j c ids hc hids := by
    obtain ⟨c₀, hc₀, rfl⟩ :=
      (holds_modify t id (fun n => { n with code := some text }) fun _ => rfl).mp hc
    have hsame : ∀ n : Node, n = (if id = j then { c₀ with code := some text } else c₀) →
        n.assembly = c₀.assembly ∧ n.children = c₀.children := by
      rintro n rfl
      split <;> exact ⟨rfl, rfl⟩
    obtain ⟨hassembly, hchildren⟩ := hsame _ rfl
    rw [hassembly]
    exact (h.children j c₀ ids hc₀ (hchildren ▸ hids)).later (keep_code_carried t id text)
      fun _ hkey => hkey

/-! ## Operations -/

/-- Places are taken by nodes of theirs after an operation too, and an assembly keeps its places unless
the operation gives them up. -/
theorem Sited.becomes (h : t.Sited) {p : TreeOperation} (hb : t.Becomes p t') :
    t'.Sited ∧ ∀ a, ¬t.Releases a p → t.Retains t' a := by
  cases hb with
  | same hp => exact ⟨h, fun _ _ _ hkey => hkey⟩
  | added hp m =>
    obtain ⟨hsited, hretains⟩ := h.plant _ m
    exact ⟨hsited.of_same rfl rfl rfl rfl, fun a _ => hretains a⟩
  | removed hp =>
    obtain ⟨hsited, hretains⟩ := h.uproot _
    exact ⟨hsited.of_same rfl rfl rfl rfl, hretains⟩
  | refreshed => exact ⟨refresh_sited h.idle, fun _ hno => absurd trivial hno⟩
  | spoken hparse hl =>
    exact ⟨refresh_sited (t := { t with language := _ }) h.idle,
      fun _ hno => absurd ⟨_, hparse, hl⟩ hno⟩
  | listed hm hnone ms => exact ⟨h.populate hm ms, fun a _ => populate_retains hm.1 ms a⟩
  | shown hm text => exact ⟨h.keep_code _ text, fun _ _ _ hkey => hkey⟩

end Tree

namespace Forest

variable {σ : Type} {s : Forest (Session σ)}

/-- The children that are given have taken places. -/
theorem children_seated (program : Program σ) (h : s.tree.Sited) {id : NodeId} {n : Node}
    (hn : s.tree.Holds id n) {ids : List NodeId}
    (hids : ((children (Session.engine program) id).runFrom s).1 = .ok ids) :
    ((children (Session.engine program) id).runFrom s).2.tree.Seated n.assembly ids := by
  rw [Session.engine_eq, children_run _ h.idle] at hids ⊢
  have ha : s.tree.isAttached id = true := (Tree.isAttached_of_node? hn.1).mpr hn.2
  have hfinish : ∀ r, (Tree.finishChildren id r s.tree).1 = .ok ids →
      (Tree.finishChildren id r s.tree).2.Seated n.assembly ids := by
    intro r hr
    cases r with
    | error f =>
      simp only [Tree.finishChildren] at hr
      cases hr
    | ok ms =>
      rw [Tree.finishChildren_ok h.idle hn.1 ha] at hr ⊢
      cases hr
      exact Tree.populate_seated hn.1 ms
  simp only [Tree.plan, Tree.planFetch, hn.1] at hids ⊢
  cases hc : n.children with
  | some kept =>
    simp only [hc, follow, Except.ok.injEq] at hids ⊢
    exact hids ▸ h.children id n kept hn hc
  | none =>
    simp only [hc, ha, if_true] at hids ⊢
    by_cases he : n.isExpandable = true
    · simp only [he, if_true, follow] at hids ⊢
      exact hfinish _ hids
    · simp only [he, if_false, Bool.false_eq_true, follow] at hids ⊢
      exact hfinish _ hids

end Forest

end AssemblyBrowser
