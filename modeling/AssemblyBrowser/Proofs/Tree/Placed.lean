import AssemblyBrowser.Proofs.Tree.Shape
/-!
Who holds a place in a tree: a node of that very place, in an assembly of the tree. Unlike the shape of
the tree, this does not depend on what the engine reports; it holds of members whose keys are taken, too.
-/
namespace AssemblyBrowser.Tree

variable {t t' : Tree} {id j : NodeId} {n c : Node} {ms : List Member}

/-- The nodes of a tree are in another one too, in the same places. -/
def Carried (t t' : Tree) : Prop :=
  ∀ j c, t.node? j = some c → ∃ c', t'.node? j = some c' ∧ c'.slot = c.slot

/-- Every place that is taken is taken by a node of that place, in an assembly of the tree. -/
structure Placed (t : Tree) : Prop where
  rooted : t.Rooted
  slots : ∀ slot id, t.slots.find? slot = some id → ∃ n, t.node? id = some n ∧ n.slot = slot

theorem placed_fresh (l : Language) : ({ language := l } : Tree).Placed where
  rooted := rooted_fresh l
  slots slot id h := by simp at h

/-- Whatever becomes of the nodes, as long as they keep their places. -/
theorem Placed.later (h : t.Placed) (hc : t.Carried t') (hs : t'.slots = t.slots)
    (hr : t'.roots = t.roots) : t'.Placed where
  rooted := h.rooted.of_same hs hr
  slots slot id hslot := by
    obtain ⟨n, hn, rfl⟩ := h.slots slot id (hs ▸ hslot)
    exact hc id n hn

theorem Placed.of_same (h : t.Placed) (hn : t'.nodes = t.nodes) (hs : t'.slots = t.slots)
    (hr : t'.roots = t.roots) : t'.Placed :=
  h.later (fun j c hc => ⟨c, by rw [node?, hn]; exact hc, rfl⟩) hs hr

theorem Carried.of_append {l : List Node} (h : t'.nodes = t.nodes ++ l) : t.Carried t' :=
  fun _ c hc => ⟨c, node?_append_old h hc, rfl⟩

/-! ## Roots -/

theorem Placed.plant (h : t.Placed) (path : String) (m : Member) : (t.plant path m).Placed := by
  have hnodes : (t.plant path m).nodes = t.nodes ++ [.root path m] := rfl
  refine ⟨h.rooted.plant path m, fun slot id hslot => ?_⟩
  simp only [Tree.plant, OrderedMap.find?_put] at hslot
  split at hslot
  · rename_i hs
    cases hslot
    refine ⟨.root path m, ?_, hs.symm⟩
    simp [node?, hnodes]
  · obtain ⟨n, hn, hs⟩ := h.slots slot id hslot
    exact ⟨n, node?_append_old hnodes hn, hs⟩

theorem Placed.foldl_plant (rs : List (String × Root)) : ∀ {t : Tree}, t.Placed →
    (rs.foldl (fun t (path, r) => t.plant path r.member) t).Placed := by
  induction rs with
  | nil => exact fun h => h
  | cons r rs ih => exact fun h => ih (h.plant _ _)

theorem refresh_placed (t : Tree) : t.refresh.Placed := by
  have hbare : t.bare.Placed := by
    constructor <;> intro slot id hslot <;> simp [bare] at hslot
  exact (hbare.foldl_plant t.roots.entries).of_same rfl rfl rfl

theorem Placed.uproot (h : t.Placed) (path : String) : (t.uproot path).Placed := by
  refine ⟨h.rooted.uproot path, fun slot id hslot => ?_⟩
  simp only [Tree.uproot, OrderedMap.find?_filter] at hslot
  split at hslot
  · exact h.slots slot id hslot
  · cases hslot

theorem Placed.suffer (h : t.Placed) (m : Meddling) : (t.suffer m).Placed := by
  cases m with
  | refresh => exact refresh_placed t
  | uproot path => exact h.uproot path
  | speak l => exact h.of_same rfl rfl rfl
  | tell e => exact h.of_same rfl rfl rfl
  | subscribe l => exact h.of_same rfl rfl rfl
  | unsubscribe l => exact h.of_same rfl rfl rfl

/-! ## What is fetched -/

theorem populate_carried (t : Tree) (id : NodeId) (n : Node) (ms : List Member) :
    t.Carried (t.populate id n ms) := by
  intro j c hc
  refine ⟨_, node?_populate_old hc id n ms, ?_⟩
  split <;> rfl

theorem Placed.populate (h : t.Placed) (hn : t.Holds id n) (ms : List Member) :
    (t.populate id n ms).Placed where
  rooted slot j hslot := by
    rw [paths, roots_populate]
    rcases find?_populate hn.1 ms slot with ⟨i, m, -, rfl, -⟩ | ⟨-, hsame⟩
    · exact h.rooted n.slot id hn.2
    · exact h.rooted slot j (hsame.symm.trans hslot)
  slots slot j hslot := by
    rcases find?_populate hn.1 ms slot with ⟨i, m, hm, rfl, hi⟩ | ⟨-, hsame⟩
    · obtain rfl : i = j := Option.some.inj (hi.symm.trans hslot)
      exact ⟨_, node?_populate_born hn.1 hm, rfl⟩
    · obtain ⟨c, hc, rfl⟩ := h.slots slot j (hsame.symm.trans hslot)
      exact populate_carried t id n ms j c hc

theorem keep_code_carried (t : Tree) (id : NodeId) (text : String) :
    t.Carried (t.modify id fun n => { n with code := some text }) := by
  intro j c hc
  rw [node?_modify, hc]
  split <;> exact ⟨_, rfl, rfl⟩

theorem Placed.land (h : t.Placed) (f : Flight) : (t.land f).Placed := h.of_same rfl rfl rfl

/-- Nobody who leaves findings in a tree takes a place that is not that of the node. -/
theorem Placed.finish (h : t.Placed) (f : Flight) (r : Except Failure f.Reply) :
    (f.finish r t).2.Placed := by
  cases f with
  | add path =>
    cases r with
    | error e => exact h.land _
    | ok m => exact ((h.land (.add path)).plant path m).of_same rfl rfl rfl
  | children id =>
    simp only [Flight.finish]
    rcases Flight.finishChildren_cases id r t with ht | ⟨ms, n, -, hn, -, ht⟩
    · rw [ht]
      exact h.land _
    · rw [ht]
      split
      · rename_i ha
        obtain ⟨n', hn'⟩ := isAttached_iff.mp ha
        obtain rfl : n' = n := Option.some.inj (hn'.1.symm.trans hn)
        have hholds : (t.land (.children id)).Holds id n' := hn'
        exact (h.land (.children id)).populate hholds ms
      · exact (h.land (.children id)).later (.of_append rfl) rfl rfl
  | code id =>
    simp only [Flight.finish, finishCode]
    cases r with
    | error e => exact h.land _
    | ok text =>
      dsimp only
      split
      · exact (h.land (.code id)).later (keep_code_carried _ id text) rfl rfl
      · exact h.land _

/-- The attached nodes are those that hold a place. -/
theorem Placed.find?_eq_some_iff (h : t.Placed) {slot : Slot} :
    t.slots.find? slot = some id ↔ ∃ n, t.Holds id n ∧ n.slot = slot := by
  constructor
  · intro hslot
    obtain ⟨n, hn, rfl⟩ := h.slots slot id hslot
    exact ⟨n, ⟨hn, hslot⟩, rfl⟩
  · rintro ⟨n, hn, rfl⟩
    exact hn.2

end AssemblyBrowser.Tree
