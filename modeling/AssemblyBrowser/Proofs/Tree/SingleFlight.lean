import AssemblyBrowser.Proofs.Tree.Visitors
/-!
Callers in company. Main statement: whatever turns callers take, and whatever else is done to the tree
in between, one of them at most asks the engine for a thing; all who waited get what that one gets; an
answer is kept on an attached node only and never changes; and the table is empty when nobody is
inside.
-/
namespace AssemblyBrowser

namespace Tree

/-! ## What is left in a tree -/

variable {t : Tree}

@[simp] theorem node?_land (t : Tree) (f : Flight) (id : NodeId) : (t.land f).node? id = t.node? id :=
  rfl

@[simp] theorem isAttached_land (t : Tree) (f : Flight) (id : NodeId) :
    (t.land f).isAttached id = t.isAttached id := rfl

@[simp] theorem node?_adopt (t : Tree) (id j : NodeId) (ids : List NodeId) :
    (t.adopt id ids).node? j =
      if id = j then (t.node? j).map fun n => { n with children := some ids } else t.node? j := by
  rw [adopt, node?, nodes_foldl_attach]
  exact node?_modify t id j _

/-- Nothing that is done besides to a tree touches its nodes. -/
theorem node?_suffer (t : Tree) (m : Meddling) {id : NodeId} {n : Node} (hn : t.node? id = some n) :
    (t.suffer m).node? id = some n := by
  cases m with
  | refresh => exact (refresh_detaches hn).1
  | uproot path => exact hn
  | speak l => exact hn
  | tell e => exact hn
  | subscribe l => exact hn
  | unsubscribe l => exact hn

theorem flights_suffer (t : Tree) (m : Meddling) : (t.suffer m).flights = t.flights := by
  cases m with
  | refresh => exact flights_refresh t
  | uproot path => rfl
  | speak l => rfl
  | tell e => rfl
  | subscribe l => rfl
  | unsubscribe l => rfl

theorem mem_paths_suffer {m : Meddling} {path : String} (h : path ∈ (t.suffer m).paths) :
    path ∈ t.paths := by
  cases m with
  | refresh =>
    rw [suffer, paths_refresh] at h
    exact h
  | uproot p =>
    have hp : (t.uproot p).paths = t.paths.filter fun q => q ≠ p := t.roots.keys_erase p
    rw [suffer, hp] at h
    exact (List.mem_filter.mp h).1
  | speak l => exact h
  | tell e => exact h
  | subscribe l => exact h
  | unsubscribe l => exact h

end Tree

namespace Flight

variable {f g : Flight} {t : Tree}

/-- The tree after the end of a call for children. -/
theorem finishChildren_cases (id : NodeId) (r : Except Failure (List Member)) (t : Tree) :
    (Tree.finishChildren id r t).2 = t.land (.children id) ∨
    ∃ ms n, r = .ok ms ∧ t.node? id = some n ∧
      let u := (t.land (.children id)).create (ms.map n.child)
      (Tree.finishChildren id r t).1 = .ok u.1 ∧
      (Tree.finishChildren id r t).2 = if t.isAttached id then u.2.adopt id u.1 else u.2 := by
  unfold Tree.finishChildren
  cases r with
  | error e => exact .inl rfl
  | ok ms =>
    cases hn : t.node? id with
    | none => exact .inl (by simp [hn])
    | some n =>
      have hlt := Tree.lt_of_node? hn
      refine .inr ⟨ms, n, rfl, rfl, by simp [hn], ?_⟩
      have hc : ((t.land (.children id)).create (ms.map n.child)).2.isAttached id =
          t.isAttached id := by
        have hn' : ((t.land (.children id)).create (ms.map n.child)).2.node? id = some n :=
          Tree.node?_append_old (t := t) (l := ms.map n.child) rfl hn
        rw [Tree.isAttached, Tree.isAttached, hn, hn']
        rfl
      simp [hn, hc]

theorem flights_finish (f : Flight) (r : Except Failure f.Reply) (t : Tree) :
    (f.finish r t).2.flights = t.flights.erase f := by
  cases f with
  | add path => cases r <;> rfl
  | children id =>
    rcases finishChildren_cases id r t with h | ⟨ms, n, -, -, -, h⟩
    · exact congrArg Tree.flights h
    · refine (congrArg Tree.flights h).trans ?_
      split
      · exact (Tree.adopt_same _ id _).2
      · rfl
  | code id =>
    simp only [finish, Tree.finishCode]
    cases r with
    | error e => rfl
    | ok text =>
      dsimp only
      split <;> rfl

/-- Another assembly is added by its own flight only. -/
theorem mem_paths_finish {r : Except Failure f.Reply} {path : String}
    (h : path ∈ (f.finish r t).2.paths) : path ∈ t.paths ∨ f = .add path := by
  cases f with
  | add p =>
    cases r with
    | error e => exact .inl h
    | ok m =>
      have hp : ((t.land (.add p)).plant p m).paths = _ := Tree.paths_plant _ p m
      change path ∈ ((t.land (.add p)).plant p m).paths at h
      rw [hp] at h
      split at h
      · exact .inl h
      · rcases List.mem_append.mp h with h | h
        · exact .inl h
        · exact .inr (by rw [List.mem_singleton.mp h])
  | children id =>
    left
    rcases finishChildren_cases id r t with ht | ⟨ms, n, -, -, -, ht⟩
    · rw [finish, ht] at h
      exact h
    · rw [finish, ht] at h
      split at h
      · rw [Tree.paths, (Tree.adopt_same _ id _).1] at h
        exact h
      · exact h
  | code id =>
    left
    simp only [finish, Tree.finishCode] at h
    cases r with
    | error e => exact h
    | ok text =>
      dsimp only at h
      split at h <;> exact h

/-- The node whose children or text are wanted. -/
def subject? : Flight → Option NodeId
  | .add _ => none
  | .children id | .code id => some id

/-- A node that keeps an answer. -/
def keep : (f : Flight) → f.Answer → Node → Node
  | .add _, _, n => n
  | .children _, ids, n => { n with children := some ids }
  | .code _, text, n => { n with code := some text }

/-- A caller leaves the nodes that were there as they were, except that the node it came for keeps the
answer if it is attached. -/
theorem node?_finish (f : Flight) (r : Except Failure f.Reply) {id : NodeId} {n : Node}
    (hn : t.node? id = some n) :
    (f.finish r t).2.node? id = some n ∨
    (t.isAttached id = true ∧ f.subject? = some id ∧
      ∃ v, (f.finish r t).1 = .ok v ∧ (f.finish r t).2.node? id = some (f.keep v n)) := by
  cases f with
  | add path =>
    cases r with
    | error e => exact .inl hn
    | ok m => exact .inl (Tree.node?_append_old (t := t) (l := [.root path m]) rfl hn)
  | children j =>
    simp only [finish]
    rcases finishChildren_cases j r t with h | ⟨ms, p, -, hp, hr, h⟩
    · rw [h]
      exact .inl hn
    · have hold : ((t.land (.children j)).create (ms.map p.child)).2.node? id = some n :=
        Tree.node?_append_old (t := t) (l := ms.map p.child) rfl hn
      rw [h, hr]
      by_cases ha : t.isAttached j = true
      · rw [if_pos ha, Tree.node?_adopt, hold]
        by_cases hj : j = id
        · subst hj
          exact .inr ⟨ha, rfl, _, rfl, by simp [keep]⟩
        · exact .inl (by simp [hj])
      · rw [if_neg ha]
        exact .inl hold
  | code j =>
    simp only [finish, Tree.finishCode]
    cases r with
    | error e => exact .inl hn
    | ok text =>
      by_cases ha : t.isAttached j = true
      · simp only [Tree.isAttached_land, ha, if_true, Tree.node?_modify, Tree.node?_land, hn]
        by_cases hj : j = id
        · subst hj
          exact .inr ⟨ha, rfl, text, rfl, by simp [keep]⟩
        · exact .inl (by simp [hj])
      · simp only [Tree.isAttached_land, ha]
        exact .inl hn

theorem keep_ages (hw : f.Wanted t) {id : NodeId} (hf : f.subject? = some id) {n : Node}
    (hn : t.node? id = some n) (v : f.Answer) : n.Ages (f.keep v n) := by
  cases f with
  | add path => exact .refl n
  | children j =>
    obtain rfl : j = id := Option.some.inj hf
    obtain ⟨n₀, hn₀, hc⟩ := hw
    obtain rfl : n₀ = n := Option.some.inj (hn₀.symm.trans hn)
    exact n₀.ages_children hc v
  | code j =>
    obtain rfl : j = id := Option.some.inj hf
    obtain ⟨n₀, hn₀, hc⟩ := hw
    obtain rfl : n₀ = n := Option.some.inj (hn₀.symm.trans hn)
    exact n₀.ages_code hc v

/-- What a caller comes for is not in the tree, so nothing is overwritten. -/
theorem finish_ages (hw : f.Wanted t) (r : Except Failure f.Reply) : t.Ages (f.finish r t).2 := by
  intro id n hn
  rcases node?_finish f r hn with h | ⟨-, hf, v, -, h⟩
  · exact ⟨n, h, .refl n⟩
  · exact ⟨f.keep v n, h, keep_ages hw hf hn v⟩

/-- What others come for is still not in the tree. -/
theorem Wanted.finish (hw : g.Wanted t) (hne : f ≠ g) (r : Except Failure f.Reply) :
    g.Wanted (f.finish r t).2 := by
  cases g with
  | add path => exact fun h => (mem_paths_finish h).elim hw hne
  | children id =>
    obtain ⟨n, hn, hc⟩ := hw
    rcases node?_finish f r hn with h | ⟨-, hf, v, -, h⟩
    · exact ⟨n, h, hc⟩
    · refine ⟨_, h, ?_⟩
      cases f with
      | add path => exact hc
      | children j => exact absurd (congrArg Flight.children (Option.some.inj hf)) hne
      | code j => exact hc
  | code id =>
    obtain ⟨n, hn, hc⟩ := hw
    rcases node?_finish f r hn with h | ⟨-, hf, v, -, h⟩
    · exact ⟨n, h, hc⟩
    · refine ⟨_, h, ?_⟩
      cases f with
      | add path => exact hc
      | children j => exact hc
      | code j => exact absurd (congrArg Flight.code (Option.some.inj hf)) hne

theorem Wanted.suffer (hw : g.Wanted t) (m : Meddling) : g.Wanted (t.suffer m) := by
  cases g with
  | add path => exact fun h => hw (Tree.mem_paths_suffer h)
  | children id =>
    obtain ⟨n, hn, hc⟩ := hw
    exact ⟨n, Tree.node?_suffer t m hn, hc⟩
  | code id =>
    obtain ⟨n, hn, hc⟩ := hw
    exact ⟨n, Tree.node?_suffer t m hn, hc⟩

/-- The caller that asked is the one that added the assembly. -/
def First : (f : Flight) → Except Failure f.Answer → Prop
  | .add _, r => r ≠ .ok false
  | .children _, _ | .code _, _ => True

theorem first_finish (f : Flight) (r : Except Failure f.Reply) (t : Tree) :
    f.First (f.finish r t).1 := by
  cases f with
  | add path => cases r <;> simp [First, finish, Tree.finishAdd]
  | children id => trivial
  | code id => trivial

end Flight

namespace Company

variable {f : Flight} {t t' : Tree} {c c' : Company f} {x : Turn f} {i : Nat} {st st' : Stage f}

/-- The caller with a number asked the engine for all. -/
def Owns (c : Company f) (j : Nat) : Prop := ∃ st, c.stage? j = some st ∧ st.isOwner = true

/-- A company in order. -/
structure Sound (t : Tree) (c : Company f) : Prop where
  /-- The table knows who asks. -/
  future : ∀ i, c.future = some i ↔ ∃ st, c.stage? i = some st ∧ st.isFlying = true
  table : f ∈ t.flights ↔ c.future.isSome = true
  wanted : f ∈ t.flights → f.Wanted t
  waits : ∀ i j, c.stage? i = some (.waiting j) → c.Owns j
  guest : ∀ i j r, c.stage? i = some (.gone (.guest j) r) →
    ∃ r', c.stage? j = some (.gone .owner r') ∧ r = r'.map f.share
  first : ∀ j r, c.stage? j = some (.landed r) ∨ c.stage? j = some (.gone .owner r) → f.First r

theorem sound_empty (t : Tree) (h : t.flights = []) : Sound t ({} : Company f) := by
  constructor <;> simp [stage?, h]

theorem Sound.of_tree (h : Sound t c) (hf : f ∈ t'.flights ↔ f ∈ t.flights)
    (hw : f.Wanted t → f.Wanted t') : Sound t' c :=
  ⟨h.future, hf.trans h.table, fun hm => hw (h.wanted (hf.mp hm)), h.waits, h.guest, h.first⟩

/-- One caller has come to another stage. -/
structure Comes (c c' : Company f) (i : Nat) (st : Stage f) : Prop where
  stage : ∀ k, c'.stage? k = if i = k then some st else c.stage? k
  owns : ∀ old, c.stage? i = some old → old.isOwner = true → st.isOwner = true
  back : ∀ r, c.stage? i ≠ some (.gone .owner r)
  waits : ∀ j, st = .waiting j → c.Owns j
  guest : ∀ j r, st = .gone (.guest j) r →
    ∃ r', c.stage? j = some (.gone .owner r') ∧ r = r'.map f.share
  first : ∀ r, st = .landed r ∨ st = .gone .owner r → f.First r

theorem Comes.owns_of (h : Comes c c' i st) {j : Nat} (hj : c.Owns j) : c'.Owns j := by
  obtain ⟨old, hold, ho⟩ := hj
  by_cases hij : i = j
  · subst hij
    exact ⟨st, by rw [h.stage, if_pos rfl], h.owns old hold ho⟩
  · exact ⟨old, by rw [h.stage, if_neg hij, hold], ho⟩

/-- An answer that was there is still there. -/
theorem Comes.answer_of (h : Comes c c' i st) {j : Nat} {r : Except Failure f.Answer}
    (hj : c.stage? j = some (.gone .owner r)) : c'.stage? j = some (.gone .owner r) := by
  have hij : i ≠ j := fun e => h.back r (e ▸ hj)
  rw [h.stage, if_neg hij, hj]

theorem Sound.comes (h : Sound t c) (hc : Comes c c' i st)
    (hfuture : ∀ k, c'.future = some k ↔ ∃ st, c'.stage? k = some st ∧ st.isFlying = true)
    (htable : f ∈ t'.flights ↔ c'.future.isSome = true)
    (hwanted : f ∈ t'.flights → f.Wanted t') : Sound t' c' where
  future := hfuture
  table := htable
  wanted := hwanted
  waits k j hk := by
    rw [hc.stage] at hk
    split at hk
    · exact hc.owns_of (hc.waits j (Option.some.inj hk))
    · exact hc.owns_of (h.waits k j hk)
  guest k j r hk := by
    rw [hc.stage] at hk
    split at hk
    · obtain ⟨r', hj, hr⟩ := hc.guest j r (Option.some.inj hk)
      exact ⟨r', hc.answer_of hj, hr⟩
    · obtain ⟨r', hj, hr⟩ := h.guest k j r hk
      exact ⟨r', hc.answer_of hj, hr⟩
  first k r hk := by
    rw [hc.stage] at hk
    split at hk
    · exact hc.first r (hk.imp Option.some.inj Option.some.inj)
    · exact h.first k r hk

/-- A caller that asks no more and no less than before. -/
theorem Sound.stays (h : Sound t c) (hc : Comes c c' i st) (hf : c'.future = c.future)
    (hfly : (∃ old, c.stage? i = some old ∧ old.isFlying = true) ↔ st.isFlying = true) :
    Sound t c' := by
  refine h.comes hc (fun k => ?_) (by rw [hf]; exact h.table) h.wanted
  rw [hf, h.future k, hc.stage]
  by_cases hk : i = k
  · subst hk
    simpa using hfly
  · simp [hk]

theorem Sound.flying (h : Sound t c) (hi : c.stage? i = some st) (hst : st.isFlying = true) :
    c.future = some i ∧ f ∈ t.flights := by
  have hf := (h.future i).mpr ⟨st, hi, hst⟩
  exact ⟨hf, h.table.mpr (by simp [hf])⟩

theorem Sound.arrive (h : Sound t c) (l : Language) :
    Sound t { c with visits := c.visits ++ [⟨l, .outside⟩] } := by
  have hnone : c.stage? c.visits.length = none := by simp [stage?]
  have hc : Comes c { c with visits := c.visits ++ [⟨l, .outside⟩] } c.visits.length .outside := {
    stage := stage?_arrive c l
    owns := by simp [hnone]
    back := by simp [hnone]
    waits := by simp
    guest := by simp
    first := by simp }
  exact h.stays hc rfl (by simp [hnone, Stage.isFlying])

theorem Sound.board (h : Sound t c) (hi : c.stage? i = some .outside) (hf : f ∉ t.flights)
    (hw : f.Wanted t) :
    Sound { t with flights := t.flights ++ [f] } { c.bring i .asking with future := some i } := by
  have hnone : c.future = none := by
    cases hc : c.future with
    | none => rfl
    | some j => exact absurd (h.table.mpr (by simp [hc])) hf
  have hc : Comes c { c.bring i .asking with future := some i } i .asking := {
    stage := stage?_bring hi .asking
    owns := by simp [Stage.isOwner]
    back := by simp [hi]
    waits := by simp
    guest := by simp
    first := by simp }
  refine h.comes hc (fun k => ?_) (by simp) fun _ => ?_
  · rw [hc.stage]
    by_cases hk : i = k
    · simp [hk, Stage.isFlying]
    · have hno := h.future k
      rw [hnone] at hno
      simpa [hk] using hno
  · cases f <;> exact hw

theorem Sound.finish (h : Sound t c) (hd : t.flights.Nodup) {r : Except Failure f.Reply}
    (hi : c.stage? i = some (.answered r)) :
    Sound (f.finish r t).2 { c.bring i (.landed (f.finish r t).1) with future := none } := by
  obtain ⟨hfuture, -⟩ := h.flying hi rfl
  have hout : f ∉ (f.finish r t).2.flights := by
    rw [Flight.flights_finish]
    exact hd.not_mem_erase
  have hc : Comes c { c.bring i (.landed (f.finish r t).1) with future := none } i
      (.landed (f.finish r t).1) := {
    stage := stage?_bring hi _
    owns := by simp [Stage.isOwner]
    back := by simp [hi]
    waits := by simp
    guest := by simp
    first := by simp [f.first_finish r t] }
  refine h.comes hc (fun k => ?_) (by simpa using hout) fun hm => absurd hm hout
  rw [hc.stage]
  by_cases hk : i = k
  · simp [hk, Stage.isFlying]
  · have hno := h.future k
    rw [hfuture] at hno
    simpa [hk] using hno

theorem Comes.bring (hi : c.stage? i = some st) (howns : st.isOwner = true → st'.isOwner = true)
    (hback : ∀ r, st ≠ .gone .owner r) (hwaits : ∀ j, st' = .waiting j → c.Owns j)
    (hguest : ∀ j r, st' = .gone (.guest j) r →
      ∃ r', c.stage? j = some (.gone .owner r') ∧ r = r'.map f.share)
    (hfirst : ∀ r, st' = .landed r ∨ st' = .gone .owner r → f.First r) :
    Comes c (c.bring i st') i st' where
  stage := stage?_bring hi st'
  owns old hold := by
    rw [hi] at hold
    rw [← Option.some.inj hold]
    exact howns
  back r hr := hback r (Option.some.inj (hi.symm.trans hr))
  waits := hwaits
  guest := hguest
  first := hfirst

theorem Sound.bring (h : Sound t c) (hi : c.stage? i = some st) (hc : Comes c (c.bring i st') i st')
    (hfly : st.isFlying = st'.isFlying) : Sound t (c.bring i st') :=
  h.stays hc rfl (by simp [hi, hfly])

theorem Step.sound (hs : Step t c x t' c') (hd : t.flights.Nodup) (h : Sound t c) : Sound t' c' := by
  cases hs with
  | rest x => exact h
  | arrive => exact h.arrive t.language
  | settle hi he =>
    exact h.bring hi (.bring hi (by simp [Stage.isOwner]) (by simp) (by simp) (by simp) (by simp)) rfl
  | @join i j hi hf hj =>
    -- whoever is in the table asks, so there is somebody to wait for
    have howner : c.Owns j := by
      obtain ⟨st, hst, hfly⟩ := (h.future j).mp hj
      exact ⟨st, hst, by cases st <;> simp_all [Stage.isFlying, Stage.isOwner]⟩
    refine h.bring hi (.bring hi (by simp [Stage.isOwner]) (by simp) ?_ (by simp) (by simp)) rfl
    intro k hk
    obtain rfl : j = k := Stage.waiting.inj hk
    exact howner
  | board hi hf hw => exact h.board hi hf hw
  | reply hi =>
    exact h.bring hi (.bring hi (fun _ => rfl) (by simp) (by simp) (by simp) (by simp)) rfl
  | finish hi => exact h.finish hd hi
  | @wake i r hi =>
    refine h.bring hi (.bring hi (fun _ => rfl) (by simp) (by simp) (by simp) ?_) rfl
    intro r' hr
    simp only [reduceCtorEq, Stage.gone.injEq, true_and, false_or] at hr
    exact hr ▸ h.first i r (.inl hi)
  | @leave i j r hi hj =>
    refine h.bring hi (.bring hi (by simp [Stage.isOwner]) (by simp) (by simp) ?_ (by simp)) rfl
    intro k r' hk
    obtain ⟨hpart, rfl⟩ := Stage.gone.inj hk
    obtain rfl : j = k := Part.guest.inj hpart
    exact ⟨r, hj, rfl⟩

/-- Callers of other flights are not concerned. -/
theorem Step.others (hs : Step t c x t' c') {g : Flight} (hne : f ≠ g) :
    (g ∈ t'.flights ↔ g ∈ t.flights) ∧ (g.Wanted t → g.Wanted t') := by
  cases hs with
  | board hi hf hw =>
    refine ⟨by simp [Ne.symm hne], fun hg => ?_⟩
    cases g <;> exact hg
  | finish hi =>
    rw [Flight.flights_finish]
    exact ⟨List.mem_erase_of_ne (Ne.symm hne), fun hg => hg.finish hne _⟩
  | rest x => exact ⟨.rfl, id⟩
  | arrive => exact ⟨.rfl, id⟩
  | settle hi he => exact ⟨.rfl, id⟩
  | join hi hf hj => exact ⟨.rfl, id⟩
  | reply hi => exact ⟨.rfl, id⟩
  | wake hi => exact ⟨.rfl, id⟩
  | leave hi hj => exact ⟨.rfl, id⟩

theorem Step.nodup (hs : Step t c x t' c') (hd : t.flights.Nodup) : t'.flights.Nodup := by
  cases hs with
  | board hi hf hw =>
    refine List.nodup_append.mpr ⟨hd, by simp, fun a ha b hb => ?_⟩
    rw [List.mem_singleton.mp hb]
    exact fun e => hf (e ▸ ha)
  | finish hi =>
    rw [Flight.flights_finish]
    exact hd.erase f
  | rest x => exact hd
  | arrive => exact hd
  | settle hi he => exact hd
  | join hi hf hj => exact hd
  | reply hi => exact hd
  | wake hi => exact hd
  | leave hi hj => exact hd

theorem Step.ages (hs : Step t c x t' c') (h : Sound t c) : t.Ages t' := by
  cases hs with
  | finish hi => exact Flight.finish_ages (h.wanted (h.flying hi rfl).2) _
  | rest x => exact .refl t
  | arrive => exact .refl t
  | settle hi he => exact .refl t
  | join hi hf hj => exact .refl t
  | board hi hf hw => exact .of_nodes rfl
  | reply hi => exact .refl t
  | wake hi => exact .refl t
  | leave hi hj => exact .refl t

/-- What is kept changes only when the caller that asked for it lands. -/
theorem Step.stores (hs : Step t c x t' c') {id : NodeId} {n n' : Node} (hn : t.node? id = some n)
    (hn' : t'.node? id = some n') (hne : n' ≠ n) :
    t.isAttached id = true ∧ ∃ i v, x = .finish i ∧ f.subject? = some id ∧
      c'.stage? i = some (.landed (.ok v)) ∧ n' = f.keep v n := by
  have hsame (h : t.node? id = some n') : n' = n := Option.some.inj (h.symm.trans hn)
  cases hs with
  | @finish i r hi =>
    rcases Flight.node?_finish f r hn with h | ⟨ha, hf, v, hv, h⟩
    · exact absurd (Option.some.inj (hn'.symm.trans h)) hne
    · refine ⟨ha, i, v, rfl, hf, ?_, Option.some.inj (hn'.symm.trans h)⟩
      have hstage := stage?_bring hi (.landed (f.finish r t).1) i
      rw [if_pos rfl, hv] at hstage
      rw [← hstage, hv]
      rfl
  | board hi hf hw => exact absurd (hsame hn') hne
  | rest x => exact absurd (hsame hn') hne
  | arrive => exact absurd (hsame hn') hne
  | settle hi he => exact absurd (hsame hn') hne
  | join hi hf hj => exact absurd (hsame hn') hne
  | reply hi => exact absurd (hsame hn') hne
  | wake hi => exact absurd (hsame hn') hne
  | leave hi hj => exact absurd (hsame hn') hne

end Company

namespace Visitors

variable {s : Visitors}

structure Sound (s : Visitors) : Prop where
  table : s.tree.flights.Nodup
  companies : ∀ f, (s.company f).Sound s.tree

theorem sound_fresh (l : Language) : (fresh l).Sound :=
  ⟨List.nodup_nil, fun _ => Company.sound_empty _ rfl⟩

theorem Sound.happen (h : s.Sound) (x : Incident) : (s.happen x).Sound := by
  cases x with
  | meddle m =>
    have hf := Tree.flights_suffer s.tree m
    refine ⟨?_, fun f => (h.companies f).of_tree ?_ fun hw => hw.suffer m⟩
    · rw [Visitors.happen, hf]
      exact h.table
    · rw [Visitors.happen, hf]
  | turn f x =>
    have hstep := Company.take_step s.tree (s.company f) x
    refine ⟨hstep.nodup h.table, fun g => ?_⟩
    by_cases hg : f = g
    · subst hg
      simpa only [Visitors.happen, Function.update_self] using hstep.sound h.table (h.companies f)
    · obtain ⟨hflights, hwanted⟩ := hstep.others hg
      simpa only [Visitors.happen, Function.update_of_ne (Ne.symm hg)] using
        (h.companies g).of_tree hflights hwanted

theorem Sound.after (h : s.Sound) (xs : List Incident) : (s.after xs).Sound := by
  induction xs generalizing s with
  | nil => exact h
  | cons x xs ih => exact ih (h.happen x)

theorem Sound.happen_ages (h : s.Sound) (x : Incident) : s.tree.Ages (s.happen x).tree := by
  cases x with
  | meddle m => exact fun id n hn => ⟨n, Tree.node?_suffer s.tree m hn, .refl n⟩
  | turn f x => exact (Company.take_step s.tree (s.company f) x).ages (h.companies f)

theorem Sound.after_ages (h : s.Sound) (xs : List Incident) : s.tree.Ages (s.after xs).tree := by
  induction xs generalizing s with
  | nil => exact .refl s.tree
  | cons x xs ih => exact (h.happen_ages x).trans (ih (h.happen x))

/-- What is kept on a node changes only when the caller that asked for it lands with an answer and the
node is still attached. -/
theorem stored_by_owner (s : Visitors) (x : Incident) {id : NodeId} {n n' : Node}
    (hn : s.tree.node? id = some n) (hn' : (s.happen x).tree.node? id = some n') (hne : n' ≠ n) :
    s.tree.isAttached id = true ∧ ∃ (f : Flight) (i : Nat) (v : f.Answer), x = .turn f (.finish i) ∧
      f.subject? = some id ∧ (s.happen x).stage? f i = some (.landed (.ok v)) ∧ n' = f.keep v n := by
  cases x with
  | meddle m =>
    exact absurd (Option.some.inj (hn'.symm.trans (Tree.node?_suffer s.tree m hn))) hne
  | turn f x =>
    obtain ⟨ha, i, v, rfl, hf, hst, hk⟩ :=
      (Company.take_step s.tree (s.company f) x).stores hn hn' hne
    exact ⟨ha, f, i, v, rfl, hf, by rw [stage?_turn, hst], hk⟩

/-! ## Returns -/

/-- A turn in which the engine says a certain thing, if it says anything. -/
def Says {f : Flight} (r : Except Failure f.Reply) (x : Incident) : Prop :=
  ∃ y : Turn f, x = .turn f y ∧ ∀ i r', y = .reply i r' → r' = r

/-- A caller that asks can return, if the engine says a certain thing, and all others be where they
are. -/
def Returns (s : Visitors) (f : Flight) (r : Except Failure f.Reply) (j : Nat) : Prop :=
  ∃ xs a, (∀ x ∈ xs, Says r x) ∧ (s.after xs).stage? f j = some (.gone .owner a) ∧
    ∀ k, k ≠ j → (s.after xs).stage? f k = s.stage? f k

variable {f : Flight} {r : Except Failure f.Reply} {j : Nat}

theorem Returns.turn {y : Turn f} (hy : ∀ i r', y = .reply i r' → r' = r)
    (hk : ∀ k, k ≠ j → (s.happen (.turn f y)).stage? f k = s.stage? f k)
    (h : (s.happen (.turn f y)).Returns f r j) : s.Returns f r j := by
  obtain ⟨xs, a, hxs, hj, hothers⟩ := h
  refine ⟨.turn f y :: xs, a, ?_, hj, fun k hne => (hothers k hne).trans (hk k hne)⟩
  intro x hx
  rcases List.mem_cons.mp hx with rfl | hx
  · exact ⟨y, rfl, hy⟩
  · exact hxs x hx

theorem stage?_enter (h : s.Sound) {i : Nat} (hi : s.stage? f i = some .outside) :
    ∃ st, (s.happen (.turn f (.enter i))).stage? f i = some st ∧
      ((∃ a, st = .gone .alone a) ∨ (∃ j, st = .waiting j) ∨ st = .asking) := by
  have hc : (s.company f).stage? i = some .outside := hi
  simp only [stage?_turn, Company.take, hc]
  rcases f.enter_cases s.tree with ⟨a, he⟩ | ⟨hf, he⟩ | ⟨hf, -, he⟩
  · rw [he]
    exact ⟨_, (Company.stage?_bring hc _ i).trans (if_pos rfl), .inl ⟨a, rfl⟩⟩
  · rw [he]
    obtain ⟨j, hj⟩ := Option.isSome_iff_exists.mp ((h.companies f).table.mp hf)
    rw [hj]
    exact ⟨_, (Company.stage?_bring hc _ i).trans (if_pos rfl), .inr (.inl ⟨j, rfl⟩)⟩
  · rw [he]
    exact ⟨_, (Company.stage?_bring hc _ i).trans (if_pos rfl), .inr (.inr rfl)⟩

theorem landed_returns {a : Except Failure f.Answer} (hj : s.stage? f j = some (.landed a)) :
    s.Returns f r j := by
  refine Returns.turn (y := .wake j) (by simp) (fun k hk => ?_) ⟨[], a, by simp, ?_, fun _ _ => rfl⟩
  · rw [stage?_wake hj, if_neg (Ne.symm hk)]
  · exact (stage?_wake hj j).trans (if_pos rfl)

theorem answered_returns {r' : Except Failure f.Reply} (hj : s.stage? f j = some (.answered r')) :
    s.Returns f r j := by
  refine Returns.turn (y := .finish j) (by simp) (fun k hk => ?_) ?_
  · rw [stage?_finish hj, if_neg (Ne.symm hk)]
  · exact landed_returns ((stage?_finish hj j).trans (if_pos rfl))

theorem asking_returns (hj : s.stage? f j = some .asking) : s.Returns f r j := by
  refine Returns.turn (y := .reply j r) (fun _ _ h => (Turn.reply.inj h).2.symm) (fun k hk => ?_) ?_
  · rw [stage?_reply hj, if_neg (Ne.symm hk)]
  · exact answered_returns ((stage?_reply hj r j).trans (if_pos rfl))

theorem owner_returns (hj : (s.company f).Owns j) : s.Returns f r j := by
  obtain ⟨st, hst, hown⟩ := hj
  cases st with
  | asking => exact asking_returns hst
  | answered r' => exact answered_returns hst
  | landed a => exact landed_returns hst
  | gone part a =>
    cases part with
    | owner => exact ⟨[], a, by simp, hst, fun _ _ => rfl⟩
    | alone => simp [Stage.isOwner] at hown
    | guest i => simp [Stage.isOwner] at hown
  | outside => simp [Stage.isOwner] at hown
  | waiting i => simp [Stage.isOwner] at hown

/-- Whoever waits gets away once the one that asks has returned. -/
theorem Sound.guest_returns (h : s.Sound) {i : Nat} (hi : s.stage? f i = some (.waiting j)) :
    ∃ xs a, (∀ x ∈ xs, Says r x) ∧ (s.after xs).stage? f j = some (.gone .owner a) ∧
      (s.after xs).stage? f i = some (.gone (.guest j) (a.map f.share)) := by
  have hown : (s.company f).Owns j := (h.companies f).waits i j hi
  obtain ⟨xs, a, hxs, hj, hothers⟩ := owner_returns (r := r) hown
  have hne : i ≠ j := by
    rintro rfl
    obtain ⟨st, hst, hst'⟩ := hown
    obtain rfl : Stage.waiting i = st := Option.some.inj (hi.symm.trans hst)
    simp [Stage.isOwner] at hst'
  have hi' : (s.after xs).stage? f i = some (.waiting j) := (hothers i hne).trans hi
  refine ⟨xs ++ [.turn f (.leave i)], a, fun x hx => ?_, ?_, ?_⟩
  · rcases List.mem_append.mp hx with hx | hx
    · exact hxs x hx
    · rw [List.mem_singleton.mp hx]
      exact ⟨.leave i, rfl, by simp⟩
  · rw [after_append]
    exact (stage?_leave hi' hj j).trans ((if_neg hne).trans hj)
  · rw [after_append]
    exact (stage?_leave hi' hj i).trans (if_pos rfl)

/-- Nobody waits for ever: who is in the tree can return, whatever the engine says. -/
theorem Sound.returns (h : s.Sound) (r : Except Failure f.Reply) {i : Nat} {st : Stage f}
    (hi : s.stage? f i = some st) :
    ∃ xs p a, (∀ x ∈ xs, Says r x) ∧ (s.after xs).stage? f i = some (.gone p a) := by
  have hinside {s : Visitors} (h : s.Sound) {st : Stage f} (hi : s.stage? f i = some st)
      (hst : st ≠ .outside) :
      ∃ xs p a, (∀ x ∈ xs, Says r x) ∧ (s.after xs).stage? f i = some (.gone p a) := by
    cases st with
    | outside => exact absurd rfl hst
    | gone p a => exact ⟨[], p, a, by simp, hi⟩
    | waiting j =>
      obtain ⟨xs, a, hxs, -, hi'⟩ := h.guest_returns (r := r) hi
      exact ⟨xs, _, _, hxs, hi'⟩
    | asking =>
      obtain ⟨xs, a, hxs, hi', -⟩ := asking_returns (r := r) hi
      exact ⟨xs, _, a, hxs, hi'⟩
    | answered r' =>
      obtain ⟨xs, a, hxs, hi', -⟩ := answered_returns (r := r) hi
      exact ⟨xs, _, a, hxs, hi'⟩
    | landed a' =>
      obtain ⟨xs, a, hxs, hi', -⟩ := landed_returns (r := r) hi
      exact ⟨xs, _, a, hxs, hi'⟩
  by_cases hst : st = .outside
  · subst hst
    obtain ⟨st, hi', hcases⟩ := stage?_enter h hi
    have hne : st ≠ .outside := by rcases hcases with ⟨a, rfl⟩ | ⟨j, rfl⟩ | rfl <;> simp
    obtain ⟨xs, p, a, hxs, hgone⟩ := hinside (h.happen _) hi' hne
    refine ⟨.turn f (.enter i) :: xs, p, a, fun x hx => ?_, hgone⟩
    rcases List.mem_cons.mp hx with rfl | hx
    · exact ⟨.enter i, rfl, by simp⟩
    · exact hxs x hx
  · exact hinside h hi hst

/-! ## Single flight -/

/-- Calls are shared by those who want the same. -/
structure SingleFlight (s : Visitors) : Prop where
  /-- Of those who want the same, one waits for the engine. -/
  oneCall : ∀ f i j, (s.call? f i).isSome = true → (s.call? f j).isSome = true → i = j
  /-- Who joined another got what that one got. -/
  shared : ∀ f i j a, s.stage? f i = some (.gone (.guest j) a) →
    ∃ b, s.stage? f j = some (.gone .owner b) ∧ a = b.map f.share
  /-- Who joins another can return with it, and all can, whatever the engine says. -/
  joined : ∀ f i j (r : Except Failure f.Reply), s.stage? f i = some (.waiting j) →
    ∃ xs a, (∀ x ∈ xs, Says r x) ∧ (s.after xs).stage? f j = some (.gone .owner a) ∧
      (s.after xs).stage? f i = some (.gone (.guest j) (a.map f.share))
  returns : ∀ f i st (r : Except Failure f.Reply), s.stage? f i = some st →
    ∃ xs p a, (∀ x ∈ xs, Says r x) ∧ (s.after xs).stage? f i = some (.gone p a)
  /-- An answer is stored by the one that asked, on a node that is attached then. -/
  stored : ∀ x id n n', s.tree.node? id = some n → (s.happen x).tree.node? id = some n' → n' ≠ n →
    s.tree.isAttached id = true ∧ ∃ (f : Flight) (i : Nat) (v : f.Answer), x = .turn f (.finish i) ∧
      f.subject? = some id ∧ (s.happen x).stage? f i = some (.landed (.ok v)) ∧ n' = f.keep v n
  /-- What is stored stays. -/
  kept : ∀ xs, s.tree.Ages (s.after xs).tree
  /-- Of those who add an assembly together, one has added it. -/
  oneAdded : ∀ path j b, s.stage? (.add path) j = some (.gone .owner (.ok b)) →
    ∃! i, (i = j ∨ ∃ a, s.stage? (.add path) i = some (.gone (.guest j) a)) ∧
      ∃ p, s.stage? (.add path) i = some (.gone p (.ok true))
  /-- Nothing is left in the table when all are outside. -/
  idle : (∀ f i st, s.stage? f i = some st → st.isInside = false) → s.tree.flights = []

theorem Sound.oneCall (h : s.Sound) {i j : Nat} (hi : (s.call? f i).isSome = true)
    (hj : (s.call? f j).isSome = true) : i = j := by
  have hasking (k : Nat) (hk : (s.call? f k).isSome = true) : (s.company f).future = some k := by
    refine ((h.companies f).future k).mpr ⟨.asking, ?_, rfl⟩
    unfold call? at hk
    split at hk
    · rename_i l hv
      simp [Company.stage?, hv]
    · cases hk
  exact Option.some.inj ((hasking i hi).symm.trans (hasking j hj))

theorem Sound.oneAdded (h : s.Sound) {path : String} {b : Bool}
    (hj : s.stage? (.add path) j = some (.gone .owner (.ok b))) :
    ∃! i, (i = j ∨ ∃ a, s.stage? (.add path) i = some (.gone (.guest j) a)) ∧
      ∃ p, s.stage? (.add path) i = some (.gone p (.ok true)) := by
  have hb : b = true := by
    have hfirst := (h.companies (.add path)).first j _ (.inr hj)
    simpa [Flight.First] using hfirst
  subst hb
  refine ⟨j, ⟨.inl rfl, .owner, hj⟩, ?_⟩
  rintro i ⟨rfl | ⟨a, ha⟩, p, hp⟩
  · rfl
  · obtain ⟨c, hc, rfl⟩ := (h.companies (.add path)).guest i j a ha
    obtain rfl : Except.ok true = c := by
      simpa using hj.symm.trans hc
    have hsame := ha.symm.trans hp
    simp [Except.map, Flight.share] at hsame

theorem Sound.idle (h : s.Sound) (hout : ∀ f i st, s.stage? f i = some st → st.isInside = false) :
    s.tree.flights = [] := by
  rw [List.eq_nil_iff_forall_not_mem]
  intro f hf
  obtain ⟨i, hi⟩ := Option.isSome_iff_exists.mp ((h.companies f).table.mp hf)
  obtain ⟨st, hst, hfly⟩ := ((h.companies f).future i).mp hi
  have hin := hout f i st hst
  cases st <;> simp_all [Stage.isFlying, Stage.isInside]

/-- Whatever turns any number of callers take, and whatever is done to the tree in between, those who
want the same thing at the same time share one call. -/
theorem single_flight (l : Language) (xs : List Incident) : ((fresh l).after xs).SingleFlight := by
  have h := (sound_fresh l).after xs
  exact {
    oneCall := fun _ _ _ => h.oneCall
    shared := fun f => (h.companies f).guest
    joined := fun _ _ _ _ => h.guest_returns
    returns := fun _ _ _ r => h.returns r
    stored := fun x _ _ _ => stored_by_owner _ x
    kept := h.after_ages
    oneAdded := fun _ _ _ => h.oneAdded
    idle := h.idle }

end Visitors

end AssemblyBrowser
