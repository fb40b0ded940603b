import AssemblyBrowser.Proofs.Tree.Shape
/-!
Nodes that lose their slots to others. Main statement: callers never detach a node, and what they are
given is attached as long as the node they asked about is, exactly as long as no engine lists members
of which two have the same key, or of which one has the key of a node that is attached. Nothing checks
the members that an engine lists, and those of a reply take the slots of whatever was there.
-/
namespace AssemblyBrowser

namespace Tree

variable {t t' : Tree} {id j : NodeId} {n : Node} {ids : List NodeId}

/-- A tree in shape has become another one, and all that was attached still is. -/
structure Grows (t t' : Tree) : Prop where
  shaped : t'.Shaped
  attached : ∀ j, t.isAttached j = true → t'.isAttached j = true

theorem Shaped.grows_of_same (h : t.Shaped) (hn : t'.nodes = t.nodes) (hs : t'.slots = t.slots)
    (hr : t'.roots = t.roots) : t.Grows t' :=
  ⟨h.of_same hn hs hr, fun j hj => by
    rw [isAttached, node?, hn, hs]
    exact hj⟩

theorem Shaped.grows_add (h : t.Shaped) {path : String} (hp : path ∉ t.paths)
    (r : Except Failure Member) : t.Grows (finishAdd path r t).2 := by
  cases r with
  | error e => exact h.grows_of_same rfl rfl rfl
  | ok m =>
    refine ⟨(h.plant hp m).of_same rfl rfl rfl, fun j hj => ?_⟩
    obtain ⟨n, hn⟩ := isAttached_iff.mp hj
    exact isAttached_iff (t := t.plant path m) |>.mpr ⟨n, (h.holds_plant hp m).mpr (.inr hn)⟩

theorem Shaped.grows_code (h : t.Shaped) (id : NodeId) (r : Except Failure String) :
    t.Grows (finishCode id r t).2 := by
  cases r with
  | error e => exact h.grows_of_same rfl rfl rfl
  | ok text =>
    by_cases ha : t.isAttached id = true
    · simp only [finishCode, isAttached_land, ha, if_true]
      have hland : (t.land (.code id)).Shaped := h.of_same rfl rfl rfl
      refine ⟨hland.keep_code id text, fun j hj => ?_⟩
      obtain ⟨n, hn⟩ := isAttached_iff.mp hj
      exact isAttached_iff.mpr ⟨_, (holds_modify (t.land (.code id)) id
        (fun n => { n with code := some text }) fun _ => rfl).mpr ⟨n, hn, rfl⟩⟩
    · simp only [finishCode, isAttached_land, ha]
      exact h.grows_of_same rfl rfl rfl

theorem Shaped.grows_children (h : t.Shaped) (hw : Flight.Wanted t (.children id))
    (r : Except Failure (List Member))
    (hf : ∀ ms n, r = .ok ms → t.Holds id n → t.Free n.assembly ms) :
    t.Grows (finishChildren id r t).2 := by
  have hland : (t.land (.children id)).Shaped := h.of_same rfl rfl rfl
  rcases Flight.finishChildren_cases id r t with ht | ⟨ms, n, rfl, hn, -, ht⟩
  · rw [ht]
    exact h.grows_of_same rfl rfl rfl
  · rw [ht]
    by_cases ha : t.isAttached id = true
    · rw [if_pos ha]
      have hn' : t.Holds id n := ⟨hn, (isAttached_of_node? hn).mp ha⟩
      have hfree : (t.land (.children id)).Free n.assembly ms := hf ms n rfl hn'
      obtain ⟨n₀, hn₀, hc⟩ := hw
      obtain rfl : n = n₀ := Option.some.inj (hn.symm.trans hn₀)
      refine ⟨hfree.populate hland hn' hc, fun j hj => ?_⟩
      obtain ⟨c, hc⟩ := isAttached_iff.mp hj
      exact isAttached_iff.mpr ⟨_, (hfree.holds_populate hland hn').mpr (.inr ⟨c, hc, rfl⟩)⟩
    · rw [if_neg ha]
      refine ⟨hland.create _, fun j hj => ?_⟩
      obtain ⟨c, hc⟩ := isAttached_iff.mp hj
      have hsame : ((t.land (.children id)).create (ms.map n.child)).2.Holds j c ↔ _ :=
        hland.holds_append (l := ms.map n.child) rfl rfl
      exact isAttached_iff.mpr ⟨c, hsame.mpr hc⟩

theorem finishChildren_holds (hn : t.Holds id n) (ms : List Member) :
    finishChildren id (.ok ms) t = (.ok ((t.land (.children id)).create (ms.map n.child)).1,
      (t.land (.children id)).populate id n ms) := by
  have hnode : (t.land (.children id)).node? id = some n := hn.1
  have hcreated : ((t.land (.children id)).create (ms.map n.child)).2.node? id = some n :=
    node?_append_old (l := ms.map n.child) rfl hn.1
  have ha : ((t.land (.children id)).create (ms.map n.child)).2.isAttached id = true :=
    (isAttached_of_node? hcreated).mpr hn.2
  simp only [finishChildren, hnode, ha, if_true]
  rfl

/-- If all that was attached still is, and all that has been attached is, the members did no harm. -/
theorem free_of_grows (h : t.Shaped) (hn : t.Holds id n) {ms : List Member}
    (hold : ∀ j, t.isAttached j = true → (t.populate id n ms).isAttached j = true)
    (hnew : ∀ j m, t.Born ms j m → (t.populate id n ms).isAttached j = true) :
    t.Free n.assembly ms := by
  have hslot (j m) (hm : t.Born ms j m) :
      (t.populate id n ms).slots.find? (n.assembly, m.key) = some j :=
    (isAttached_of_node? (node?_populate_born hn.1 hm)).mp (hnew j m hm)
  constructor
  · rw [List.nodup_iff_injective_getElem]
    rintro ⟨k, hk⟩ ⟨k', hk'⟩ hkey
    simp only [List.length_map] at hk hk'
    simp only [List.getElem_map] at hkey
    have hfirst := hslot _ _ ⟨k, List.getElem?_eq_getElem hk, rfl⟩
    have hsecond := hslot _ _ ⟨k', List.getElem?_eq_getElem hk', rfl⟩
    rw [hkey, hsecond] at hfirst
    exact Fin.ext (Nat.add_left_cancel (Option.some.inj hfirst)).symm
  · intro m hm
    obtain ⟨k, hk⟩ := List.getElem?_of_mem hm
    have hborn : t.Born ms (t.nodes.length + k) m := ⟨k, hk, rfl⟩
    cases hf : t.slots.find? (n.assembly, m.key) with
    | none => rfl
    | some j =>
      obtain ⟨c, hc, hcs⟩ := h.slots _ j hf
      have hj := hold j (isAttached_iff.mpr ⟨c, hc⟩)
      rw [isAttached_of_node? (node?_populate_old hc.1 id n ms)] at hj
      have hs : (if id = j then { c with children := some (t.create (ms.map n.child)).1 }
          else c : Node).slot = (n.assembly, m.key) := by split <;> exact hcs
      rw [hs, hslot _ m hborn] at hj
      have hlt := lt_of_node? hc.1
      rw [← Option.some.inj hj] at hlt
      exact absurd hlt (Nat.not_lt.mpr (Nat.le_add_right _ k))

/-! ## What is known of the children of a node -/

/-- A node is there and, while it is attached, keeps certain children. -/
def Shows (t : Tree) (id : NodeId) (ids : List NodeId) : Prop :=
  ∃ n, t.node? id = some n ∧ (t.isAttached id = true → n.children = some ids)

/-- A node that is attached was attached. -/
theorem MovesOn.attached_before (h : t.MovesOn t') (hn : t.node? id = some n)
    (ha : t'.isAttached id = true) : t.isAttached id = true := by
  cases hb : t.isAttached id with
  | true => rfl
  | false => exact absurd ha (by simp [h.detached hn hb])

theorem Shows.later (hs : t.Shows id ids) (hm : t.MovesOn t') (ha : t.Ages t') :
    t'.Shows id ids := by
  obtain ⟨n, hn, hc⟩ := hs
  obtain ⟨n', hn', hages⟩ := ha id n hn
  exact ⟨n', hn', fun hatt => hages.children ids (hc (hm.attached_before hn hatt))⟩

/-- What a caller is told at once is what the tree shows. -/
theorem enter_shows (he : Flight.enter (.children id) t = (.settled (.ok ids), t)) :
    t.Shows id ids := by
  simp only [Flight.enter, beginChildren, beginFetch] at he
  cases hn : t.node? id with
  | none => simp [hn] at he
  | some n =>
    simp only [hn] at he
    cases hc : n.children with
    | none =>
      simp only [hc] at he
      split at he
      · simp [board] at he
        split at he <;> simp at he
      · simp at he
    | some v =>
      simp only [hc, Prod.mk.injEq, Entry.settled.injEq, Except.ok.injEq, and_true] at he
      exact ⟨n, hn, fun _ => by rw [hc, he]⟩

/-- What a caller finds is shown from then on. -/
theorem finish_shows (hw : Flight.Wanted t (.children id)) {r : Except Failure (List Member)}
    (hr : (finishChildren id r t).1 = .ok ids) : (finishChildren id r t).2.Shows id ids := by
  have ⟨n, hn, _⟩ := hw
  by_cases ha : t.isAttached id = true
  · cases r with
    | error e => cases hr
    | ok ms =>
      have hh : t.Holds id n := ⟨hn, (isAttached_of_node? hn).mp ha⟩
      rw [finishChildren_holds hh] at hr ⊢
      refine ⟨_, node?_populate_old (t := t.land (.children id)) hn id n ms, fun _ => ?_⟩
      rw [if_pos rfl, ← Except.ok.inj hr]
  · obtain ⟨n', hn', -⟩ := Flight.finish_ages hw r id n hn
    refine ⟨n', hn', fun hatt => ?_⟩
    exact absurd ((finishChildren_movesOn id r t).attached_before hn hatt) ha

end Tree

/-- The answer that a caller has or is about to be given. -/
def Stage.answer? {f : Flight} : Stage f → Option (Except Failure f.Answer)
  | .landed r | .gone _ r => some r
  | _ => none

/-- The members that an engine lists below an attached node are not new. -/
def Flight.Harms (t : Tree) : (f : Flight) → Except Failure f.Reply → Prop
  | .children id, .ok ms => ∃ n, t.Holds id n ∧ ¬t.Free n.assembly ms
  | _, _ => False

namespace Company

section Shown

variable {id : NodeId} {t t' : Tree} {c c' : Company (.children id)} {x : Turn (.children id)}

/-- What those are given who come for the children of a node is what the tree shows. -/
def Shown (t : Tree) (c : Company (.children id)) : Prop :=
  ∀ i st ids, c.stage? i = some st → st.answer? = some (.ok ids) → t.Shows id ids

theorem Shown.later (h : Shown t c) (hm : t.MovesOn t') (ha : t.Ages t') : Shown t' c :=
  fun i st ids hi hst => (h i st ids hi hst).later hm ha

theorem Shown.comes (h : Shown t c) {i : Nat} {st : Stage (.children id)}
    (hstage : ∀ k, c'.stage? k = if i = k then some st else c.stage? k)
    (hst : ∀ ids, st.answer? = some (.ok ids) → t.Shows id ids) : Shown t c' := by
  intro k st' ids hk hst'
  rw [hstage] at hk
  split at hk
  · rw [← Option.some.inj hk] at hst'
    exact hst ids hst'
  · exact h k st' ids hk hst'

theorem Step.shown (hs : Step t c x t' c') (h : Sound t c) (hc : Shown t c) : Shown t' c' := by
  cases hs with
  | rest x => exact hc
  | arrive => exact hc.comes (stage?_arrive c t.language) (by simp [Stage.answer?])
  | settle hi he =>
    refine hc.comes (stage?_bring hi _) fun ids hr => ?_
    rw [Option.some.inj hr] at he
    exact Tree.enter_shows he
  | join hi hf hj => exact hc.comes (stage?_bring hi _) (by simp [Stage.answer?])
  | board hi hf hw =>
    exact (hc.later (.of_same rfl rfl) (.of_nodes rfl)).comes (stage?_bring hi _)
      (by simp [Stage.answer?])
  | reply hi => exact hc.comes (stage?_bring hi _) (by simp [Stage.answer?])
  | @finish i r hi =>
    have hw := h.wanted (h.flying hi rfl).2
    refine (hc.later (Tree.finishChildren_movesOn id r t) (Flight.finish_ages hw r)).comes
      (stage?_bring hi _) fun ids hr => ?_
    exact Tree.finish_shows hw (Option.some.inj hr)
  | wake hi =>
    exact hc.comes (stage?_bring hi _) fun ids hr => hc _ _ ids hi hr
  | @leave i j r hi hj =>
    refine hc.comes (stage?_bring hi _) fun ids hr => hc _ _ ids hj ?_
    cases r with
    | error e => cases hr
    | ok v => exact hr

end Shown

variable {f : Flight} {t t' : Tree} {c c' : Company f} {x : Turn f}

theorem Step.movesOn (hs : Step t c x t' c') : t.MovesOn t' := by
  cases hs with
  | @finish i r hi =>
    cases f with
    | add path => exact Tree.finishAdd_movesOn path r t
    | children id => exact Tree.finishChildren_movesOn id r t
    | code id => exact Tree.finishCode_movesOn id r t
  | board hi hf hw => exact .of_same rfl rfl
  | rest x => exact .refl t
  | arrive => exact .refl t
  | settle hi he => exact .refl t
  | join hi hf hj => exact .refl t
  | reply hi => exact .refl t
  | wake hi => exact .refl t
  | leave hi hj => exact .refl t

/-- A caller leaves the tree in shape and attached what was, unless it lists members that are not
new. -/
theorem Step.grows (hs : Step t c x t' c') (h : Sound t c) (ht : t.Shaped)
    (hx : ∀ i r, x = .finish i → c.stage? i = some (.answered r) → ¬f.Harms t r) : t.Grows t' := by
  have hsame : t.Grows t := ht.grows_of_same rfl rfl rfl
  cases hs with
  | @finish i r hi =>
    have hw := h.wanted (h.flying hi rfl).2
    cases f with
    | add path => exact ht.grows_add hw r
    | code id => exact ht.grows_code id r
    | children id =>
      refine ht.grows_children hw r ?_
      rintro ms n rfl hn
      by_contra hfree
      exact hx i _ rfl hi ⟨n, hn, hfree⟩
  | board hi hf hw => exact ht.grows_of_same rfl rfl rfl
  | rest x => exact hsame
  | arrive => exact hsame
  | settle hi he => exact hsame
  | join hi hf hj => exact hsame
  | reply hi => exact hsame
  | wake hi => exact hsame
  | leave hi hj => exact hsame

end Company

/-- A refresh or the removal of an assembly. -/
def Incident.Detaches : Incident → Prop
  | .meddle (.uproot _) | .meddle .refresh => True
  | _ => False

namespace Visitors

/-- Something holds of each step of a run and the state before it. -/
def Along (P : Incident → Visitors → Prop) : List Incident → Visitors → Prop
  | [], _ => True
  | x :: xs, s => P x s ∧ Along P xs (s.happen x)

theorem Along.at {P : Incident → Visitors → Prop} (ys : List Incident) (x : Incident)
    (zs : List Incident) {s : Visitors} (h : Along P (ys ++ x :: zs) s) : P x (s.after ys) := by
  induction ys generalizing s with
  | nil => exact h.1
  | cons y ys ih => exact ih h.2

/-- A caller attaches members that are not new. -/
def Clashes (x : Incident) (s : Visitors) : Prop :=
  ∃ (f : Flight) (i : Nat) (r : Except Failure f.Reply), x = .turn f (.finish i) ∧
    s.stage? f i = some (.answered r) ∧ f.Harms s.tree r

/-- Nothing is detached but by those who mean to, and what callers are given is attached. -/
structure Spares (x : Incident) (s : Visitors) : Prop where
  kept : ¬x.Detaches → ∀ j, s.tree.isAttached j = true → (s.happen x).tree.isAttached j = true
  roots : ∀ j ∈ (s.happen x).tree.rootNodes, (s.happen x).tree.isAttached j = true
  given : ∀ id i st ids, (s.happen x).stage? (.children id) i = some st →
    st.answer? = some (.ok ids) → (s.happen x).tree.isAttached id = true →
      ∀ j ∈ ids, (s.happen x).tree.isAttached j = true

/-- Callers in order in a tree in shape. -/
structure Orderly (s : Visitors) : Prop where
  sound : s.Sound
  shaped : s.tree.Shaped
  shown : ∀ id, (s.company (.children id)).Shown s.tree

variable {s : Visitors} {x : Incident}

theorem orderly_fresh (l : Language) : (fresh l).Orderly where
  sound := sound_fresh l
  shaped := (Tree.bare_shaped { language := l }).of_same rfl rfl rfl
  shown id i st ids hi := by simp [fresh, Company.stage?] at hi

theorem happen_movesOn (s : Visitors) (x : Incident) : s.tree.MovesOn (s.happen x).tree := by
  cases x with
  | turn f x => exact (Company.take_step s.tree (s.company f) x).movesOn
  | meddle m =>
    cases m with
    | uproot path => exact Tree.uproot_movesOn s.tree path
    | refresh => exact Tree.refresh_movesOn s.tree
    | speak l => exact .of_same rfl rfl
    | tell e => exact .of_same rfl rfl
    | subscribe l => exact .of_same rfl rfl
    | unsubscribe l => exact .of_same rfl rfl

theorem Orderly.happen_shown (h : s.Orderly) (x : Incident) (id : NodeId) :
    ((s.happen x).company (.children id)).Shown (s.happen x).tree := by
  have hlater : (s.company (.children id)).Shown (s.happen x).tree :=
    (h.shown id).later (s.happen_movesOn x) (h.sound.happen_ages x)
  cases x with
  | meddle m => exact hlater
  | turn f x =>
    by_cases hf : f = .children id
    · subst hf
      have hstep := Company.take_step s.tree (s.company (.children id)) x
      simpa only [happen, Function.update_self] using hstep.shown (h.sound.companies _) (h.shown id)
    · simpa only [happen, Function.update_of_ne (Ne.symm hf)] using hlater

/-- Only a clash puts the tree out of shape. -/
theorem Orderly.happen (h : s.Orderly) (hx : ¬s.Clashes x) : (s.happen x).Orderly := by
  refine ⟨h.sound.happen x, ?_, h.happen_shown x⟩
  cases x with
  | meddle m => exact h.shaped.suffer m
  | turn f x =>
    refine ((Company.take_step s.tree (s.company f) x).grows (h.sound.companies f) h.shaped ?_).shaped
    rintro i r rfl hi hharm
    exact hx ⟨f, i, r, rfl, hi, hharm⟩

/-- Without a clash, nodes are detached only by those who mean to. -/
theorem Orderly.spares (h : s.Orderly) (hx : ¬s.Clashes x) : s.Spares x := by
  have hs := h.happen hx
  refine ⟨fun hd j hj => ?_, fun j hj => ?_, fun id i st ids hi hst ha j hj => ?_⟩
  · cases x with
    | turn f x =>
      refine ((Company.take_step s.tree (s.company f) x).grows (h.sound.companies f) h.shaped
        ?_).attached j hj
      rintro i r rfl hi hharm
      exact hx ⟨f, i, r, rfl, hi, hharm⟩
    | meddle m =>
      cases m with
      | uproot path => exact absurd trivial hd
      | refresh => exact absurd trivial hd
      | speak l => exact hj
      | tell e => exact hj
      | subscribe l => exact hj
      | unsubscribe l => exact hj
  · obtain ⟨r, hr, rfl⟩ := List.mem_map.mp hj
    obtain ⟨⟨path, r⟩, hmem, rfl⟩ := List.mem_map.mp hr
    obtain ⟨n, hn, -⟩ := hs.shaped.root path r (Assoc.find?_of_mem (s.happen x).tree.roots.nodup hmem)
    exact Tree.isAttached_iff.mpr ⟨n, hn⟩
  · obtain ⟨n, hn, hc⟩ := hs.shown id i st ids hi hst
    obtain ⟨-, hids⟩ := hs.shaped.children id n ids ⟨hn, (Tree.isAttached_of_node? hn).mp ha⟩ (hc ha)
    obtain ⟨-, c, hcj, -⟩ := hids j hj
    exact Tree.isAttached_iff.mpr ⟨c, hcj⟩

/-- After a clash a node is missing: one that was attached, or one that was given. -/
theorem Orderly.not_clashes (h : s.Orderly) (hs : s.Spares x) : ¬s.Clashes x := by
  rintro ⟨f, i, r, rfl, hi, hharm⟩
  cases f with
  | add path => exact hharm
  | code id => exact hharm
  | children id =>
    cases r with
    | error e => exact hharm
    | ok ms =>
      obtain ⟨n, hn, hfree⟩ := hharm
      have hfinish := Tree.finishChildren_holds hn ms
      have htree : (s.happen (.turn (.children id) (.finish i))).tree =
          (s.tree.land (.children id)).populate id n ms :=
        (tree_finish hi).trans (congrArg Prod.snd hfinish)
      have hstage : (s.happen (.turn (.children id) (.finish i))).stage? (.children id) i =
          some (.landed (.ok ((s.tree.land (.children id)).create (ms.map n.child)).1)) := by
        rw [stage?_finish hi, if_pos rfl]
        exact congrArg (fun r => some (Stage.landed r)) (congrArg Prod.fst hfinish)
      have hkept := hs.kept fun hd => hd
      have hgiven := hs.given id i _ _ hstage rfl
      rw [htree] at hkept hgiven
      have hland : (s.tree.land (.children id)).Shaped := h.shaped.of_same rfl rfl rfl
      refine hfree (Tree.free_of_grows hland hn hkept fun j m hm => ?_)
      exact hgiven (hkept id (Tree.isAttached_iff.mpr ⟨n, hn⟩)) j (Tree.mem_born.mpr ⟨m, hm⟩)

theorem Orderly.spares_iff (h : s.Orderly) : s.Spares x ↔ ¬s.Clashes x :=
  ⟨h.not_clashes, h.spares⟩

theorem Orderly.along_spares_iff (h : s.Orderly) (xs : List Incident) :
    Along Spares xs s ↔ Along (fun x s => ¬s.Clashes x) xs s := by
  induction xs generalizing s with
  | nil => rfl
  | cons x xs ih =>
    simp only [Along, h.spares_iff]
    exact and_congr_right fun hx => ih (h.happen hx)

/-- Whatever callers do and whatever an engine lists: along a run, nothing is detached but by a refresh,
another language or the removal of its assembly, the roots are attached and so are the children that
callers are given, exactly if no members are attached of which two have the same key or one has the
key of a node that is attached. -/
theorem live_nodes_kept_iff_none_clashes (l : Language) (xs : List Incident) :
    Along Spares xs (fresh l) ↔ Along (fun x s => ¬s.Clashes x) xs (fresh l) :=
  (orderly_fresh l).along_spares_iff xs

def rootMember : Member := ⟨"root", "a.dll", .assembly, none⟩

/-- An engine lists a namespace with the key of the assembly itself. -/
def selfListing : List Incident :=
  visit (.add "a.dll") 0 (.ok rootMember) ++
    visit (.children 0) 0 (.ok [⟨"root", "a", .nameSpace, none⟩])

theorem live_nodes_not_kept_of_self_listing : ¬Along Spares selfListing (fresh .csharp) := by
  intro h
  have hno := Along.at (selfListing.take 8) (.turn (.children 0) (.finish 0))
    [.turn (.children 0) (.wake 0)] ((live_nodes_kept_iff_none_clashes .csharp selfListing).mp h)
  refine hno ⟨.children 0, 0, .ok [⟨"root", "a", .nameSpace, none⟩], rfl, rfl,
    .root "a.dll" rootMember, ⟨rfl, rfl⟩, fun hfree => ?_⟩
  have hnone := hfree.2 ⟨"root", "a", .nameSpace, none⟩ (by simp)
  cases hnone

end Visitors

end AssemblyBrowser
