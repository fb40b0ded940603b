import AssemblyBrowser.Proofs.Browser.Roots
/-!
Removing what has been added. Main statement: an assembly stays in the tree until it is removed, whatever
happens to its file, and then the path by which it was added removes it and nothing else, exactly if that
path is the one in the tree, or if it is no path in the tree and still leads to the file.
-/
namespace AssemblyBrowser

variable {σ : Type}

theorem Forest.remove_of_mem (program : Program σ) {s : Forest (Session σ)} {path : String}
    (h : path ∈ s.tree.paths) : (remove (Session.engine program) path).runFrom s =
      (.ok true, ⟨(s.tree.uproot path).tell (.removed path), s.world.unload path⟩) := by
  have hc : s.tree.roots.contains path = true := (s.tree.roots.contains_iff path).mpr h
  rw [Session.engine_eq, remove_run]
  simp only [Tree.plan, if_pos hc, follow]
  rfl

namespace Browser

variable (program : Program σ) {b : Browser σ} {typed path : String}

/-! ## One call -/

/-- The assembly that is meant is the one at the path as it is typed, before any other. -/
theorem matchLoaded_eq_some_iff : ((matchLoaded typed).runFrom b).1 = .ok (some path) ↔
    path ∈ b.tree.paths ∧ (typed = path ∨ typed ∉ b.tree.paths ∧
      ∃ pos, b.machine.checkPath typed none SafePath.defaultLimit = .ok pos ∧ pos.text = path) := by
  rw [matchLoaded_run]
  by_cases hmem : typed ∈ b.tree.paths
  · rw [if_pos hmem]
    constructor
    · intro h
      cases h
      exact ⟨hmem, .inl rfl⟩
    · rintro ⟨-, rfl | ⟨hnot, -⟩⟩
      · rfl
      · exact absurd hmem hnot
  · rw [if_neg hmem]
    cases b.machine.checkPath typed none SafePath.defaultLimit with
    | error f =>
      constructor
      · intro h
        cases f <;> cases h
      · rintro ⟨hpath, rfl | ⟨-, pos, hpos, -⟩⟩
        · exact absurd hpath hmem
        · cases hpos
    | ok pos =>
      dsimp only
      constructor
      · intro h
        split at h
        · rename_i hpos
          cases h
          exact ⟨hpos, .inr ⟨hmem, pos, rfl, rfl⟩⟩
        · cases h
      · rintro ⟨hpath, rfl | ⟨-, pos', hpos, rfl⟩⟩
        · exact absurd hpath hmem
        · cases hpos
          rw [if_pos hpath]

/-- A call to remove an assembly removes the one at the path, and leaves everything else in the tree and
everything else that the session remembers. -/
structure RemovesOnly (b : Browser σ) (typed path : String) : Prop where
  answer : ((call program (.removeAssembly typed)).runFrom b).1 = .ok ("Removed assembly: " ++ path)
  paths : ((call program (.removeAssembly typed)).runFrom b).2.tree.paths =
    b.tree.paths.filter fun p => p ≠ path
  roots : ∀ p, p ≠ path → ((call program (.removeAssembly typed)).runFrom b).2.tree.roots.find? p =
    b.tree.roots.find? p
  slots : ∀ slot, ((call program (.removeAssembly typed)).runFrom b).2.tree.slots.find? slot =
    if slot.1 = path then none else b.tree.slots.find? slot
  nodes : ((call program (.removeAssembly typed)).runFrom b).2.tree.nodes = b.tree.nodes
  remembered : ((call program (.removeAssembly typed)).runFrom b).2.session.loadedAssemblies =
    b.session.loadedAssemblies.filter fun p => p ≠ path

theorem removeAssembly_of_meant (hmeant : ((matchLoaded typed).runFrom b).1 = .ok (some path)) :
    let r := (call program (.removeAssembly typed)).runFrom b
    r.1 = .ok ("Removed assembly: " ++ path) ∧
      r.2.forest = ⟨(b.tree.uproot path).tell (.removed path), b.session.unload path⟩ := by
  have hmatch : (matchLoaded typed).runFrom b = (.ok (some path), b) :=
    Prod.ext hmeant (matchLoaded_state typed)
  have hremove := Forest.remove_of_mem program (s := b.forest) (matchLoaded_eq_some_iff.mp hmeant).1
  have hrun : ∃ t, (onForest (Forest.remove (Session.engine program) path)).runFrom b =
      (.ok true, t) ∧ t.forest = ⟨(b.tree.uproot path).tell (.removed path), b.session.unload path⟩ := by
    refine ⟨_, Prod.ext ((onForest_result _ b).trans (congrArg Prod.fst hremove)) rfl, ?_⟩
    exact congrArg Prod.snd hremove
  obtain ⟨t, hrun, hforest⟩ := hrun
  simp only [call, removeAssembly]
  rw [Attempt.runFrom_bind_ok hmatch]
  dsimp only
  rw [Attempt.runFrom_bind_ok hrun]
  exact ⟨rfl, hforest⟩

theorem removesOnly_of_meant (hmeant : ((matchLoaded typed).runFrom b).1 = .ok (some path)) :
    b.RemovesOnly program typed path := by
  obtain ⟨hanswer, hforest⟩ := removeAssembly_of_meant program hmeant
  have htree : ((call program (.removeAssembly typed)).runFrom b).2.tree =
      (b.tree.uproot path).tell (.removed path) := congrArg Forest.tree hforest
  have hsession : ((call program (.removeAssembly typed)).runFrom b).2.session =
      b.session.unload path := congrArg Forest.world hforest
  constructor
  · exact hanswer
  · rw [htree]
    exact b.tree.roots.keys_erase path
  · intro p hp
    rw [htree]
    exact (b.tree.roots.find?_erase path p).trans (if_neg hp)
  · intro slot
    rw [htree]
    refine (b.tree.slots.find?_filter _ slot).trans ?_
    by_cases hslot : slot.1 = path <;> simp [hslot]
  · rw [htree]
    rfl
  · rw [hsession]
    exact b.session.link.loaded.keys_erase path

/-- It is the assembly that is meant, and no other, that a call removes. -/
theorem removesOnly_iff (hpath : path ∈ b.tree.paths) :
    b.RemovesOnly program typed path ↔ ((matchLoaded typed).runFrom b).1 = .ok (some path) := by
  refine ⟨fun h => ?_, removesOnly_of_meant program⟩
  have hanswer := h.answer
  have hpaths := h.paths
  cases hmatch : (matchLoaded typed).runFrom b with
  | mk r t =>
    obtain rfl : b = t := (matchLoaded_state typed).symm.trans (congrArg Prod.snd hmatch)
    cases r with
    | error f =>
      simp only [call, removeAssembly] at hanswer
      rw [Attempt.runFrom_bind, hmatch] at hanswer
      cases hanswer
    | ok found =>
      cases found with
      | none =>
        -- nothing would have been removed
        simp only [call, removeAssembly] at hpaths
        rw [Attempt.runFrom_bind_ok hmatch] at hpaths
        have hstays : path ∈ b.tree.paths.filter fun p => p ≠ path := hpaths ▸ hpath
        simp at hstays
      | some other =>
        have hmeant : ((matchLoaded typed).runFrom b).1 = .ok (some other) := congrArg Prod.fst hmatch
        have hother := (removesOnly_of_meant program hmeant).paths
        by_contra hne
        have hstays : other ∈ b.tree.paths.filter fun p => p ≠ other := by
          rw [← hother, hpaths, List.mem_filter, decide_eq_true_eq]
          exact ⟨(matchLoaded_eq_some_iff.mp hmeant).1, fun heq => hne (by rw [heq])⟩
        simp at hstays

/-! ## Runs -/

/-- A call removes the assembly at a path. -/
def Event.Removes (b : Browser σ) (path : String) : Event → Prop
  | .call (.removeAssembly typed) => ((matchLoaded typed).runFrom b).1 = .ok (some path)
  | _ => False

/-- What a call has added is in the tree. -/
theorem mem_of_added (h : b.tree.Sited)
    (hadded : ((addAssembly program typed).runFrom b).1 = .ok (true, path)) :
    path ∈ ((call program (.addAssembly typed)).runFrom b).2.tree.paths := by
  rw [call_addAssembly_paths]
  rcases addAssembly_outcome program h.idle typed with ⟨hnot, -⟩ | ⟨pos, -, -, hok, hpaths⟩
  · exact absurd hadded (hnot path)
  · cases hok.symm.trans hadded
    rw [hpaths]
    exact List.mem_append_right _ List.mem_cons_self

/-- What is in the tree stays there as long as it is not removed. -/
theorem following_mem (h : b.tree.Sited) (hpath : path ∈ b.tree.paths) {xs : List Event}
    (hkept : Along program (fun b x => ¬x.Removes b path) xs b) :
    path ∈ (following program xs b).tree.paths := by
  induction xs generalizing b with
  | nil => exact hpath
  | cons x xs ih =>
    obtain ⟨hnot, hkept⟩ := hkept
    refine ih (Event.sited program h x).1 ?_ hkept
    have hroots := x.roots program h
    generalize (x.after program b).tree.paths = paths at hroots
    cases hroots with
    | same => exact hpath
    | added => exact List.mem_append_left _ hpath
    | @removed typed other hmeant =>
      rw [List.mem_filter, decide_eq_true_eq]
      refine ⟨hpath, ?_⟩
      rintro rfl
      exact hnot hmeant

end Browser

end AssemblyBrowser
