import AssemblyBrowser.Proofs.Tree.Memo
import AssemblyBrowser.Proofs.Tree.Paths
/-!
Attached nodes belong to assemblies in the tree. So a tree asks its engine only about members of
assemblies that it shows, and loads only what it does not show.
-/
namespace AssemblyBrowser.Tree

def Rooted (t : Tree) : Prop := ∀ slot id, t.slots.find? slot = some id → slot.1 ∈ t.paths

variable {t : Tree}

theorem rooted_fresh (l : Language) : ({ language := l } : Tree).Rooted := by
  intro slot id h
  simp at h

theorem Rooted.of_same (h : t.Rooted) {t' : Tree} (hs : t'.slots = t.slots)
    (hr : t'.roots = t.roots) : t'.Rooted := by
  intro slot id hslot
  rw [hs] at hslot
  rw [paths, hr]
  exact h slot id hslot

theorem Rooted.assembly (h : t.Rooted) {id : NodeId} {n : Node} (hn : t.node? id = some n)
    (ha : t.isAttached id = true) : n.assembly ∈ t.paths := by
  simp only [isAttached, hn, decide_eq_true_eq] at ha
  exact h n.slot id ha

theorem Rooted.plant (h : t.Rooted) (path : String) (m : Member) : (t.plant path m).Rooted := by
  intro slot id hslot
  have hmem : ∀ p, p ∈ (t.plant path m).paths ↔ p ∈ t.paths ∨ p = path := fun p => by
    rw [paths_plant]
    split
    · rename_i hp
      exact ⟨.inl, fun h => h.elim (fun hm => hm) fun e => e ▸ hp⟩
    · simp
  rw [hmem]
  simp only [Tree.plant, OrderedMap.find?_put] at hslot
  split at hslot
  · rename_i hs
    exact .inr (by rw [hs])
  · exact .inl (h slot id hslot)

theorem Rooted.foldl_plant (rs : List (String × Root)) :
    ∀ {t : Tree}, t.Rooted →
      (rs.foldl (fun t (path, r) => t.plant path r.member) t).Rooted := by
  induction rs with
  | nil => exact fun h => h
  | cons r rs ih => exact fun h => ih (h.plant _ _)

theorem rooted_refresh (t : Tree) : t.refresh.Rooted := by
  have hbare : ({ t with roots := ∅, slots := ∅ } : Tree).Rooted := by
    intro slot id h
    simp at h
  exact (hbare.foldl_plant t.roots.entries).of_same rfl rfl

theorem Rooted.uproot (h : t.Rooted) (path : String) : (t.uproot path).Rooted := by
  intro slot id hslot
  simp only [Tree.uproot, OrderedMap.find?_filter] at hslot
  split at hslot
  · rename_i hne
    have hp : (t.uproot path).paths = t.paths.filter fun p => p ≠ path := t.roots.keys_erase path
    rw [hp, List.mem_filter]
    exact ⟨h slot id hslot, hne⟩
  · cases hslot

theorem Rooted.attach (h : t.Rooted) {id : NodeId}
    (hn : ∀ n, t.node? id = some n → n.assembly ∈ t.paths) : (t.attach id).Rooted := by
  intro slot j hslot
  rw [paths, roots_attach]
  unfold Tree.attach at hslot
  cases hid : t.node? id with
  | none =>
    simp only [hid] at hslot
    exact h slot j hslot
  | some n =>
    simp only [hid, OrderedMap.find?_put] at hslot
    split at hslot
    · rename_i hs
      rw [hs]
      exact hn n hid
    · exact h slot j hslot

theorem Rooted.foldl_attach (ids : List NodeId) :
    ∀ {t : Tree}, t.Rooted → (∀ id ∈ ids, ∀ n, t.node? id = some n → n.assembly ∈ t.paths) →
      (ids.foldl Tree.attach t).Rooted := by
  induction ids with
  | nil => exact fun h _ => h
  | cons id ids ih =>
    intro t h hn
    refine ih (h.attach (hn id List.mem_cons_self)) fun j hj n hnode => ?_
    rw [node?, nodes_attach] at hnode
    rw [paths, roots_attach]
    exact hn j (List.mem_cons_of_mem _ hj) n hnode

/-- The children of a node belong to its assembly. -/
theorem Rooted.finishChildren (h : t.Rooted) (hi : t.flights = []) {id : NodeId} {n : Node}
    (hn : t.node? id = some n) (ha : t.isAttached id = true) (r : Except Failure (List Member)) :
    (finishChildren id r t).2.Rooted := by
  cases r with
  | error f => simpa only [Tree.finishChildren, land_of_idle hi] using h
  | ok ms =>
    rw [finishChildren_ok hi hn ha]
    refine Rooted.foldl_attach _ (h.of_same rfl rfl) fun j hj c hc => ?_
    obtain ⟨c₀, hc₀, hsame⟩ := node?_modify_cases hc
    obtain ⟨m, -, rfl⟩ := List.mem_map.mp (node?_create hj hc₀)
    have : c.assembly = n.assembly := by
      obtain rfl | ⟨-, rfl⟩ := hsame <;> rfl
    exact this ▸ h.assembly hn ha

theorem Rooted.finishCode (h : t.Rooted) (hi : t.flights = []) (id : NodeId)
    (r : Except Failure String) : (finishCode id r t).2.Rooted := by
  unfold Tree.finishCode
  rw [land_of_idle hi]
  cases r with
  | error f => exact h
  | ok text =>
    dsimp only
    split
    · exact h.of_same rfl rfl
    · exact h

/-- The calls that a tree makes. -/
def Admits (t : Tree) : Call → Prop
  | .load path => path ∉ t.paths
  | .enumerate _ assembly | .decompile _ _ assembly => assembly ∈ t.paths
  | .unload _ => True
  | .stop => False

/-- A plan ends with trees that are rooted, and asks what the tree may ask. -/
def Plan.Rooted {α : Type} (t : Tree) : Plan α → Prop
  | .settled _ t' => t'.Rooted
  | .asks c finish => t.Admits c ∧ ∀ r, (finish r).2.Rooted

theorem Rooted.planFetch (h : t.Rooted) {α : Type} {id : NodeId} {kept : Node → Option α}
    {ask : Node → Plan α}
    (hask : ∀ n, t.node? id = some n → t.isAttached id = true → (ask n).Rooted t) :
    (t.planFetch id kept ask).Rooted t := by
  unfold Tree.planFetch
  cases hn : t.node? id with
  | none => exact h
  | some n =>
    dsimp only
    split
    · exact h
    · split
      · rename_i ha
        exact hask n hn ha
      · exact h

theorem Rooted.plan (h : t.Rooted) (hi : t.flights = []) (p : TreeOperation) :
    (t.plan p).Rooted t := by
  cases p with
  | add path =>
    simp only [Tree.plan]
    split
    · exact h
    · rename_i hc
      refine ⟨fun hm => hc ((t.roots.contains_iff path).mpr hm), fun r => ?_⟩
      unfold finishAdd
      rw [land_of_idle hi]
      cases r with
      | error f => exact h
      | ok m => exact (h.plant path m).of_same rfl rfl
  | remove path =>
    simp only [Tree.plan]
    split
    · refine ⟨trivial, fun r => ?_⟩
      dsimp only
      split
      · exact (h.uproot path).of_same rfl rfl
      · exact h.uproot path
    · exact h
  | refresh => exact rooted_refresh t
  | setLanguage name =>
    simp only [Tree.plan]
    cases Language.parse name with
    | error e => exact h
    | ok l =>
      dsimp only [Tree.setLanguage]
      split
      · exact h
      · exact rooted_refresh _
  | children id =>
    refine h.planFetch fun n hn ha => ?_
    split
    · exact ⟨h.assembly hn ha, h.finishChildren hi hn ha⟩
    · exact h.finishChildren hi hn ha (.ok [])
  | code id =>
    exact h.planFetch fun n hn ha => ⟨h.assembly hn ha, h.finishCode hi id⟩

end AssemblyBrowser.Tree
