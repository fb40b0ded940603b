import AssemblyBrowser.Proofs.OrderedMap
import AssemblyBrowser.Proofs.Tree.Operation
/-!
The assemblies in a tree after an operation: one is added when the engine loads it and removed
whatever the engine says, and no other operation changes them or their order.
-/
namespace AssemblyBrowser.Tree

variable {t : Tree}

@[simp] theorem roots_attach (t : Tree) (id : NodeId) : (t.attach id).roots = t.roots := by
  unfold attach
  split <;> rfl

@[simp] theorem flights_attach (t : Tree) (id : NodeId) : (t.attach id).flights = t.flights := by
  unfold attach
  split <;> rfl

theorem foldl_attach_same (ids : List NodeId) (t : Tree) :
    (ids.foldl attach t).roots = t.roots ∧ (ids.foldl attach t).flights = t.flights := by
  induction ids generalizing t with
  | nil => exact ⟨rfl, rfl⟩
  | cons id ids ih => simpa using ih (t.attach id)

theorem paths_plant (t : Tree) (path : String) (m : Member) :
    (t.plant path m).paths = if path ∈ t.paths then t.paths else t.paths ++ [path] :=
  OrderedMap.keys_put t.roots path _

theorem flights_foldl_plant (rs : List (String × Root)) (t : Tree) :
    (rs.foldl (fun t (path, r) => t.plant path r.member) t).flights = t.flights := by
  induction rs generalizing t with
  | nil => rfl
  | cons r rs ih => exact ih _

theorem paths_foldl_plant (rs : List (String × Root)) : ∀ t : Tree,
    (t.paths ++ Assoc.keys rs).Nodup →
      (rs.foldl (fun t (path, r) => t.plant path r.member) t).paths = t.paths ++ Assoc.keys rs := by
  induction rs with
  | nil => simp [Assoc.keys]
  | cons r rs ih =>
    intro t h
    obtain ⟨path, root⟩ := r
    have hnot : path ∉ t.paths := fun hm =>
      (List.nodup_append.mp h).2.2 path hm path (by simp [Assoc.keys]) rfl
    have hp : (t.plant path root.member).paths = t.paths ++ [path] := by
      rw [paths_plant, if_neg hnot]
    have hkeys : t.paths ++ Assoc.keys ((path, root) :: rs) =
        (t.plant path root.member).paths ++ Assoc.keys rs := by
      simp [hp, Assoc.keys]
    rw [List.foldl_cons, hkeys]
    exact ih _ (hkeys ▸ h)

theorem paths_refresh (t : Tree) : t.refresh.paths = t.paths := by
  have h := paths_foldl_plant t.roots.entries { t with roots := ∅, slots := ∅ }
    (by simpa [paths] using t.roots.nodup)
  exact h

theorem flights_refresh (t : Tree) : t.refresh.flights = t.flights :=
  flights_foldl_plant t.roots.entries _

/-- The assemblies after a call that has ended. -/
def pathsAfter (t : Tree) : (c : Call) → Except Failure c.Reply → List String
  | .load path, .ok _ => t.paths ++ [path]
  | .unload path, _ => t.paths.filter fun p => p ≠ path
  | _, _ => t.paths

/-- A plan ends with trees that nobody uses, and with certain assemblies in them. -/
def Plan.Paths {α : Type} (t : Tree) : Plan α → Prop
  | .settled _ t' => t'.flights = [] ∧ t'.paths = t.paths
  | .asks c finish => ∀ r, (finish r).2.flights = [] ∧ (finish r).2.paths = t.pathsAfter c r

theorem adopt_same (t : Tree) (id : NodeId) (ids : List NodeId) :
    (t.adopt id ids).roots = t.roots ∧ (t.adopt id ids).flights = t.flights :=
  foldl_attach_same ids (t.modify id fun n => { n with children := some ids })

theorem finishChildren_same (h : t.flights = []) (id : NodeId) (r : Except Failure (List Member)) :
    (finishChildren id r t).2.flights = [] ∧ (finishChildren id r t).2.paths = t.paths := by
  simp only [finishChildren, land_of_idle h]
  split
  · exact ⟨h, rfl⟩
  · exact ⟨h, rfl⟩
  · dsimp only
    split
    · obtain ⟨hr, hf⟩ := adopt_same (t.create _).2 id (t.create _).1
      exact ⟨hf.trans h, congrArg OrderedMap.keys hr⟩
    · exact ⟨h, rfl⟩

theorem finishCode_same (h : t.flights = []) (id : NodeId) (r : Except Failure String) :
    (finishCode id r t).2.flights = [] ∧ (finishCode id r t).2.paths = t.paths := by
  unfold finishCode
  rw [land_of_idle h]
  cases r with
  | error f => exact ⟨h, rfl⟩
  | ok text =>
    dsimp only
    split
    · exact ⟨h, rfl⟩
    · exact ⟨h, rfl⟩

theorem planFetch_paths {α : Type} (h : t.flights = []) {id : NodeId} {kept : Node → Option α}
    {ask : Node → Plan α} (hask : ∀ n, (ask n).Paths t) : (t.planFetch id kept ask).Paths t := by
  unfold planFetch
  split
  · exact ⟨h, rfl⟩
  · split
    · exact ⟨h, rfl⟩
    · split
      · exact hask _
      · exact ⟨h, rfl⟩

theorem plan_paths (h : t.flights = []) (p : TreeOperation) : (t.plan p).Paths t := by
  cases p with
  | add path =>
    simp only [plan]
    split
    · exact ⟨h, rfl⟩
    · rename_i hc
      intro r
      unfold finishAdd
      rw [land_of_idle h]
      cases r with
      | error f => exact ⟨h, rfl⟩
      | ok m =>
        have hnot : path ∉ t.paths := fun hm => hc ((t.roots.contains_iff path).mpr hm)
        exact ⟨h, (t.paths_plant path m).trans (if_neg hnot)⟩
  | remove path =>
    simp only [plan]
    split
    · intro r
      have hp : (t.uproot path).paths = t.paths.filter fun p => p ≠ path := t.roots.keys_erase path
      dsimp only
      split
      · exact ⟨h, hp⟩
      · exact ⟨h, hp⟩
    · exact ⟨h, rfl⟩
  | refresh => exact ⟨(flights_refresh t).trans h, paths_refresh t⟩
  | setLanguage name =>
    simp only [plan]
    cases Language.parse name with
    | error e => exact ⟨h, rfl⟩
    | ok l =>
      dsimp only [setLanguage]
      split
      · exact ⟨h, rfl⟩
      · exact ⟨(flights_refresh _).trans h, paths_refresh _⟩
  | children id =>
    refine planFetch_paths h fun n => ?_
    split
    · exact finishChildren_same h id
    · exact finishChildren_same h id (.ok [])
  | code id => exact planFetch_paths h fun n => finishCode_same h id

end AssemblyBrowser.Tree
