import AssemblyBrowser.Proofs.Tree.SingleFlight
/-!
Failures in a tree. Main statement: whoever else is in the tree, an operation that adds, fetches or sets
the language and fails has changed nothing there and told no listener; nothing is left of it in the
table, no failure is kept, and whoever wants the same after a failure of the engine asks the engine.
-/
namespace AssemblyBrowser

/-- Trees that differ in their tables of flights at most. -/
def Tree.Rests (t t' : Tree) : Prop := t' = { t with flights := t'.flights }

theorem Tree.erase_board {f : Flight} {t : Tree} (hf : f ∉ t.flights) :
    ({ t with flights := t.flights ++ [f] } : Tree).land f = t := by
  simp [land, List.erase_append_right _ hf]

namespace Flight

variable {f : Flight} {t t' : Tree} {l : Language}

/-! ## Steps that fail -/

theorem finish_error (f : Flight) (e : Failure) (t : Tree) :
    f.finish (.error e) t = (.error e, t.land f) := by
  cases f <;> rfl

theorem finish_ok (f : Flight) (v : f.Reply) (t : Tree) : ∃ a, (f.finish (.ok v) t).1 = .ok a := by
  cases f with
  | add path => exact ⟨true, rfl⟩
  | children id =>
    cases hn : t.node? id with
    | none => exact ⟨[], by simp [finish, Tree.finishChildren, hn]⟩
    | some n =>
      exact ⟨((t.land (.children id)).create (v.map n.child)).1, by
        simp [finish, Tree.finishChildren, hn]⟩
  | code id => exact ⟨v, rfl⟩

/-- Only a failure of the engine makes the one fail that asked it, and then the tree is left alone. -/
theorem finish_fails {r : Except Failure f.Reply} {e : Failure} (h : (f.finish r t).1 = .error e) :
    r = .error e ∧ (f.finish r t).2 = t.land f := by
  cases r with
  | error e' =>
    rw [finish_error] at h ⊢
    exact ⟨by cases h; rfl, rfl⟩
  | ok v =>
    obtain ⟨a, ha⟩ := f.finish_ok v t
    rw [ha] at h
    cases h

theorem Wanted.of_nodes (hw : f.Wanted t) (hn : t'.nodes = t.nodes) (hr : t'.roots = t.roots) :
    f.Wanted t' := by
  cases f with
  | add path =>
    rw [Wanted, Tree.paths, hr]
    exact hw
  | children id | code id =>
    obtain ⟨n, h, hk⟩ := hw
    exact ⟨n, by rw [Tree.node?, hn]; exact h, hk⟩

/-- How a caller is refused whose node is not attached. -/
def stale (t : Tree) (id : NodeId) : Failure := .staleNode (((t.node? id).map Node.key).getD "")

theorem beginFetch_fails {α : Type} {id : NodeId} {kept : Node → Option α} {e : Failure}
    (h : t.beginFetch f id kept = (.settled (.error e), t')) :
    t.isAttached id = false ∧ e = stale t id := by
  unfold Tree.beginFetch at h
  cases hn : t.node? id with
  | none =>
    rw [hn] at h
    cases h
    exact ⟨by simp [Tree.isAttached, hn], by simp [stale, hn]⟩
  | some n =>
    cases hk : kept n with
    | some v => simp [hn, hk] at h
    | none =>
      cases ha : t.isAttached id with
      | true =>
        simp only [hn, hk, ha, if_true] at h
        rcases board_cases (α := α) t f with ⟨-, hb⟩ | ⟨-, hb⟩ <;> rw [hb] at h <;> cases h
      | false =>
        simp only [hn, hk, ha, Bool.false_eq_true, if_false] at h
        cases h
        exact ⟨rfl, by simp [stale, hn]⟩

/-- The tree itself knows no failures but that a node is detached. -/
theorem enter_fails {e : Failure} (h : f.enter t = (.settled (.error e), t')) :
    ∃ id, f.subject? = some id ∧ t.isAttached id = false ∧ e = stale t id := by
  cases f with
  | add path =>
    simp only [enter, Tree.beginAdd] at h
    split at h
    · cases h
    · rcases board_cases (α := Bool) t (.add path) with ⟨-, hb⟩ | ⟨-, hb⟩ <;> rw [hb] at h <;> cases h
  | children id => exact ⟨id, rfl, beginFetch_fails h⟩
  | code id => exact ⟨id, rfl, beginFetch_fails h⟩

theorem beginFetch_none {α : Type} {id : NodeId} {n : Node} {kept : Node → Option α}
    (hn : t.node? id = some n) (hk : kept n = none) (hf : f ∉ t.flights) :
    (t.isAttached id = false ∧ t.beginFetch f id kept = (.settled (.error (stale t id)), t)) ∨
      t.beginFetch f id kept = (.owner, { t with flights := t.flights ++ [f] }) := by
  unfold Tree.beginFetch
  cases ha : t.isAttached id with
  | true => exact .inr (by simp [hn, hk, Tree.board, hf])
  | false => exact .inl ⟨rfl, by simp [hn, hk, stale]⟩

/-- Whoever wants what is not in the tree and what nobody asks for either is refused for a detached
node or has to ask. -/
theorem enter_wanted (hf : f ∉ t.flights) (hw : f.Wanted t) :
    (∃ id, f.subject? = some id ∧ t.isAttached id = false ∧
      f.enter t = (.settled (.error (stale t id)), t)) ∨
    f.enter t = (.owner, { t with flights := t.flights ++ [f] }) := by
  cases f with
  | add path =>
    have hc : ¬t.roots.contains path = true := fun h => hw ((t.roots.contains_iff path).mp h)
    exact .inr (by simp [enter, Tree.beginAdd, hc, Tree.board, hf])
  | children id =>
    obtain ⟨n, hn, hk⟩ := hw
    rcases beginFetch_none hn hk hf with ⟨ha, he⟩ | he
    · exact .inl ⟨id, rfl, ha, he⟩
    · exact .inr he
  | code id =>
    obtain ⟨n, hn, hk⟩ := hw
    rcases beginFetch_none hn hk hf with ⟨ha, he⟩ | he
    · exact .inl ⟨id, rfl, ha, he⟩
    · exact .inr he

/-! ## Calls -/

/-- There is a call by which a caller asks. -/
def Asks (f : Flight) (t : Tree) : Prop := ∀ l, (f.call? l t).isSome = true

theorem Asks.later (h : f.Asks t) (ha : t.Ages t') : f.Asks t' := by
  intro l
  have hl := h l
  cases f with
  | add path => rfl
  | children id =>
    obtain ⟨c, hc⟩ := Option.isSome_iff_exists.mp hl
    obtain ⟨n, hn, he⟩ := Option.bind_eq_some_iff.mp hc
    obtain ⟨n', hn', hages⟩ := ha id n hn
    have hexp : n'.bare.isExpandable = n.bare.isExpandable := congrArg Node.isExpandable hages.bare
    change n'.isExpandable = n.isExpandable at hexp
    simp only [call?, hn', Option.bind_some, hexp]
    split at he
    · rename_i hx
      simp [hx]
    · cases he
  | code id =>
    obtain ⟨c, hc⟩ := Option.isSome_iff_exists.mp hl
    obtain ⟨n, hn, -⟩ := Option.map_eq_some_iff.mp hc
    obtain ⟨n', hn', -⟩ := ha id n hn
    simp [call?, hn']

/-- A caller that heard of a failure has asked the engine. -/
theorem asks_of_heed {r : Except Failure f.Reply} {e : Failure} (hw : f.Wanted t)
    (h : f.heed t r = .error e) : f.Asks t := by
  intro l
  cases f with
  | add path => rfl
  | children id =>
    obtain ⟨n, hn, -⟩ := hw
    simp only [heed, hn, Option.any_some] at h
    split at h
    · rename_i hx
      simp [call?, hn, hx]
    · cases h
  | code id =>
    obtain ⟨n, hn, -⟩ := hw
    simp [call?, hn]

end Flight

/-! ## Operations in one go -/

namespace Forest

variable {σ : Type} {s u : Forest (σ × List Asked)} {b : Backend σ} {p : TreeOperation}

/-- Why an operation fails that does not ask the engine. -/
inductive Unasked (t : Tree) : TreeOperation → Failure → Prop
  | language {name : String} {e : UnknownLanguage} (h : Language.parse name = .error e) :
      Unasked t (.setLanguage name) (.language e)
  | stale {p : TreeOperation} {id : NodeId} (hp : p = .children id ∨ p = .code id)
      (h : t.isAttached id = false) : Unasked t p (Flight.stale t id)
  | joined {p : TreeOperation} {f : Flight} (h : f ∈ t.flights) : Unasked t p waitsForItself

/-- How an operation fails: it leaves the tree alone, and either it has not asked the engine and left
everything alone, or it made a call that failed and makes the same call when it is repeated. -/
structure Spared (b : Backend σ) (p : TreeOperation) (e : Failure)
    (s u : Forest (σ × List Asked)) : Prop where
  tree : u.tree = s.tree
  asked : (u = s ∧ Unasked s.tree p e) ∨ ∃ c, u.calls = s.calls ++ [⟨p, c, false⟩] ∧
    ∃ ok, (u.request b p).2.calls = u.calls ++ [⟨p, c, ok⟩]

theorem consult_joined {α β : Type} {enter : Tree → Tree.Entry α × Tree}
    {ask : Attempt (Forest σ) β} {finish : Except Failure β → Tree → Except Failure α × Tree}
    {s : Forest σ} {t : Tree} (h : enter s.tree = (.joined, t)) :
    (consult enter ask finish).runFrom s = (.error waitsForItself, { s with tree := t }) := by
  simp only [Attempt.runFrom, ExceptT.run, consult, h]

/-- A caller makes its call, if it has one; else it makes up the answer itself. -/
theorem ask_watched (b : Backend σ) (p : TreeOperation) (f : Flight) (t : Tree) :
    (∃ c, ∀ w : σ × List Asked, ∃ r w',
      (f.ask (b.watched p)).runFrom ⟨t, w⟩ = (r, ⟨t, w', w.2 ++ [⟨p, c, r.isOk⟩]⟩)) ∨
    ∃ v, ∀ w : σ × List Asked, (f.ask (b.watched p)).runFrom ⟨t, w⟩ = (.ok v, ⟨t, w⟩) := by
  cases f with
  | add path => exact .inl ⟨_, fun w => ⟨_, _, rfl⟩⟩
  | children id =>
    cases hn : t.node? id with
    | none =>
      refine .inr ⟨[], fun w => ?_⟩
      simp only [Flight.ask, askChildren]
      rw [Attempt.runFrom_bind_ok (Attempt.runFrom_get _)]
      simp only [hn]
      rfl
    | some n =>
      by_cases he : n.isExpandable = true
      · exact .inl ⟨.enumerate n.key n.assembly, fun w =>
          ⟨_, _, askChildren_run (b.watched p) (s := ⟨t, w⟩) hn he⟩⟩
      · exact .inr ⟨[], fun w => askChildren_leaf (b.watched p) (s := ⟨t, w⟩) hn he⟩
  | code id =>
    cases hn : t.node? id with
    | none =>
      refine .inr ⟨"", fun w => ?_⟩
      simp only [Flight.ask, askCode]
      rw [Attempt.runFrom_bind_ok (Attempt.runFrom_get _)]
      simp only [hn]
      rfl
    | some n =>
      exact .inl ⟨.decompile n.key t.language n.assembly, fun w =>
        ⟨_, _, askCode_run (b.watched p) (s := ⟨t, w⟩) hn⟩⟩

/-- What a caller wants fails as it should, alone or beside others who are in the tree. -/
theorem spared_of_perform (f : Flight)
    (hp : ∀ s, (s.request b p).2 = ((f.perform (b.watched p)).runFrom s).2)
    (hf : ∀ id, f.subject? = some id → p = .children id ∨ p = .code id) {e : Failure}
    (h : (f.perform (b.watched p)).runFrom s = (.error e, u)) : Spared b p e s u := by
  obtain ⟨t, w⟩ := s
  rw [Flight.perform_eq] at h
  rcases f.enter_cases t with ⟨r, he⟩ | ⟨hin, he⟩ | ⟨hin, -, he⟩
  · rw [consult_settled he] at h
    cases h
    obtain ⟨id, hid, hd, rfl⟩ := Flight.enter_fails he
    exact ⟨rfl, .inl ⟨rfl, .stale (hf id hid) hd⟩⟩
  · rw [consult_joined he] at h
    cases h
    exact ⟨rfl, .inl ⟨rfl, .joined hin⟩⟩
  · rcases ask_watched b p f { t with flights := t.flights ++ [f] } with ⟨c, hask⟩ | ⟨v, hask⟩
    · obtain ⟨r, w', hr⟩ := hask w
      rw [consult_owner he hr] at h
      obtain ⟨hfail, rfl⟩ := Prod.mk.inj h
      obtain ⟨rfl, htree⟩ := Flight.finish_fails hfail
      dsimp only at htree ⊢
      rw [htree, Tree.erase_board hin]
      refine ⟨rfl, .inr ⟨c, rfl, ?_⟩⟩
      -- the tree is the one that the operation found, so the call is made again
      obtain ⟨r', w'', hr'⟩ := hask (w', w.2 ++ [⟨p, c, false⟩])
      rw [hp, Flight.perform_eq]
      refine ⟨r'.isOk, ?_⟩
      exact congrArg (fun x => x.2.calls) (consult_owner (s := ⟨t, _⟩) he hr')
    · rw [consult_owner he (hask w)] at h
      obtain ⟨a, ha⟩ := f.finish_ok v { t with flights := t.flights ++ [f] }
      rw [ha] at h
      cases h

/-- An operation that fails has changed nothing, unless it was to remove an assembly. -/
theorem request_spared (hp : ∀ path, p ≠ .remove path) {e : Failure}
    (h : s.request b p = (.error e, u)) : Spared b p e s u := by
  cases p with
  | add path => exact spared_of_perform (.add path) (fun _ => rfl) (by simp [Flight.subject?]) h
  | remove path => exact absurd rfl (hp path)
  | refresh => cases h
  | setLanguage name =>
    have hrun := (setLanguage_run (b.watched (.setLanguage name)) name).symm.trans h
    simp only [Tree.plan] at hrun
    cases hl : Language.parse name with
    | error e' =>
      rw [hl] at hrun
      cases hrun
      exact ⟨rfl, .inl ⟨rfl, .language hl⟩⟩
    | ok l =>
      rw [hl] at hrun
      cases hrun
  | children id =>
    exact spared_of_perform (.children id) (fun _ => rfl) (by simp [Flight.subject?]) h
  | code id => exact spared_of_perform (.code id) (fun _ => rfl) (by simp [Flight.subject?]) h

end Forest

/-! ## Callers in company -/

/-- The caller whose turn it is; one that arrives has not called yet. -/
def Turn.caller? {f : Flight} : Turn f → Option Nat
  | .arrive => none
  | .enter i | .reply i _ | .finish i | .wake i | .leave i => some i

namespace Company

variable {f : Flight} {t t' : Tree} {c c' : Company f} {x : Turn f} {i : Nat} {v : f.Answer}

/-- The caller with a number has asked the engine and brought an answer into the tree. -/
def Succeeds (c : Company f) (i : Nat) (v : f.Answer) : Prop :=
  c.stage? i = some (.landed (.ok v)) ∨ c.stage? i = some (.gone .owner (.ok v))

/-- A turn changes nothing in the tree but the flight's own entry in the table, unless in it a caller
brings an answer. -/
theorem Step.rests (hs : Step t c x t' c') :
    (t.Rests t' ∧ ∀ g, g ≠ f → (g ∈ t'.flights ↔ g ∈ t.flights)) ∨
    ∃ i v, x = .finish i ∧ c'.Succeeds i v := by
  have hothers (g : Flight) (hg : g ≠ f) := (hs.others (Ne.symm hg)).1
  cases hs with
  | @finish i r hi =>
    cases hr : (f.finish r t).1 with
    | error e =>
      obtain ⟨-, htree⟩ := Flight.finish_fails hr
      rw [htree] at hothers ⊢
      exact .inl ⟨rfl, hothers⟩
    | ok v =>
      have hstage := stage?_bring hi (.landed (.ok v)) i
      exact .inr ⟨i, v, rfl, .inl (hstage.trans (if_pos rfl))⟩
  | rest x => exact .inl ⟨rfl, hothers⟩
  | arrive => exact .inl ⟨rfl, hothers⟩
  | settle hi he => exact .inl ⟨rfl, hothers⟩
  | join hi hf hj => exact .inl ⟨rfl, hothers⟩
  | board hi hf hw => exact .inl ⟨rfl, hothers⟩
  | reply hi => exact .inl ⟨rfl, hothers⟩
  | wake hi => exact .inl ⟨rfl, hothers⟩
  | leave hi hj => exact .inl ⟨rfl, hothers⟩

theorem Succeeds.bring (h : c.Succeeds i v) {k : Nat} {st st' : Stage f}
    (hk : c.stage? k = some st) (hl : st ≠ .landed (.ok v)) (hg : st ≠ .gone .owner (.ok v)) :
    (c.bring k st').Succeeds i v := by
  have hne : k ≠ i := by
    rintro rfl
    rcases h with h | h
    · exact hl (Option.some.inj (hk.symm.trans h))
    · exact hg (Option.some.inj (hk.symm.trans h))
  have hsame := (stage?_bring hk st' i).trans (if_neg hne)
  exact h.imp hsame.trans hsame.trans

/-- Who has brought an answer stays with it. -/
theorem Succeeds.step (h : c.Succeeds i v) (hs : Step t c x t' c') : c'.Succeeds i v := by
  cases hs with
  | rest x => exact h
  | arrive =>
    have hne : c.visits.length ≠ i := by
      rintro rfl
      simp [Succeeds, stage?] at h
    have hsame := (stage?_arrive c t.language i).trans (if_neg hne)
    exact h.imp hsame.trans hsame.trans
  | settle hi he => exact h.bring hi (by simp) (by simp)
  | join hi hf hj => exact h.bring hi (by simp) (by simp)
  | board hi hf hw => exact h.bring hi (by simp) (by simp)
  | reply hi => exact h.bring hi (by simp) (by simp)
  | finish hi => exact h.bring hi (by simp) (by simp)
  | @wake k r hi =>
    by_cases hk : k = i
    · subst hk
      have hstage := (stage?_bring hi (.gone .owner r) k).trans (if_pos rfl)
      rcases h with h | h
      · obtain rfl : r = .ok v := Stage.landed.inj (Option.some.inj (hi.symm.trans h))
        exact .inr hstage
      · cases Option.some.inj (hi.symm.trans h)
    · have hsame := (stage?_bring hi (.gone .owner r) i).trans (if_neg hk)
      exact h.imp hsame.trans hsame.trans
  | leave hi hj => exact h.bring hi (by simp) (by simp)

/-- Who heard of a failure of the engine had a call to make. -/
def Blames (t : Tree) (c : Company f) : Prop :=
  ∀ i e, c.stage? i = some (.answered (.error e)) → f.Asks t

theorem Blames.bring (h : Blames t c) {st st' : Stage f} (hi : c.stage? i = some st)
    (hst : ∀ e, st' = .answered (.error e) → f.Asks t) : Blames t (c.bring i st') := by
  intro k e hk
  rw [stage?_bring hi] at hk
  split at hk
  · exact hst e (Option.some.inj hk)
  · exact h k e hk

theorem Blames.later (h : Blames t c) (ha : t.Ages t') : Blames t' c :=
  fun i e hi => (h i e hi).later ha

theorem Step.blames (hs : Step t c x t' c') (hc : Sound t c) (h : Blames t c) : Blames t' c' := by
  have hages := hs.ages hc
  cases hs with
  | rest x => exact h
  | arrive =>
    intro k e hk
    rw [stage?_arrive] at hk
    split at hk
    · cases hk
    · exact h k e hk
  | settle hi he => exact h.bring hi (by simp)
  | join hi hf hj => exact h.bring hi (by simp)
  | board hi hf hw => exact (h.later hages).bring hi (by simp)
  | reply hi =>
    have hw := hc.wanted (hc.flying hi rfl).2
    exact h.bring hi fun e he => Flight.asks_of_heed hw (Stage.answered.inj he)
  | finish hi => exact (h.later hages).bring hi (by simp)
  | wake hi => exact h.bring hi (by simp)
  | leave hi hj => exact h.bring hi (by simp)

/-- Who gets an answer when it comes in got it from the tree. -/
theorem Step.alone {r : Except Failure f.Answer} (hs : Step t c (.enter i) t' c')
    (hi : c.stage? i = some .outside) (h : c'.stage? i = some (.gone .alone r)) :
    f.enter t = (.settled r, t) := by
  cases hs with
  | rest x => cases Option.some.inj (hi.symm.trans h)
  | settle hi' he =>
    rw [stage?_bring hi, if_pos rfl] at h
    cases h
    exact he
  | join hi' hf hj =>
    rw [stage?_bring hi, if_pos rfl] at h
    cases h
  | board hi' hf hw =>
    have hst := (stage?_bring hi .asking i).trans (if_pos rfl)
    cases Option.some.inj (hst.symm.trans h)

end Company

namespace Visitors

variable {s u : Visitors} {f : Flight} {j k : Nat} {e : Failure}

theorem succeeds_happen {i : Nat} {v : f.Answer} (h : (s.company f).Succeeds i v) (x : Incident) :
    ((s.happen x).company f).Succeeds i v := by
  cases x with
  | meddle m => exact h
  | turn g x =>
    by_cases hg : g = f
    · subst hg
      simpa only [happen, Function.update_self] using
        h.step (Company.take_step s.tree (s.company g) x)
    · simpa only [happen, Function.update_of_ne (Ne.symm hg)] using h

theorem succeeds_after {i : Nat} {v : f.Answer} (h : (s.company f).Succeeds i v)
    (xs : List Incident) : ((s.after xs).company f).Succeeds i v := by
  induction xs generalizing s with
  | nil => exact h
  | cons x xs ih => exact ih (succeeds_happen h x)

/-- Who is going to fail changes nothing in the tree in any of its turns but the entry of its flight. -/
theorem rests_of_failing {i : Nat} {x : Turn f} (hx : x.caller? = some i) {ys : List Incident}
    {p : Part} (h : ((s.happen (.turn f x)).after ys).stage? f i = some (.gone p (.error e))) :
    s.tree.Rests (s.happen (.turn f x)).tree ∧
      ∀ g, g ≠ f → (g ∈ (s.happen (.turn f x)).tree.flights ↔ g ∈ s.tree.flights) := by
  rcases (Company.take_step s.tree (s.company f) x).rests with hrests | ⟨i', v, rfl, hv⟩
  · exact hrests
  · obtain rfl : i' = i := Option.some.inj hx
    have hsucceeds : ((s.happen (.turn f (.finish i'))).company f).Succeeds i' v := by
      simpa only [happen, Function.update_self] using hv
    rcases succeeds_after hsucceeds ys with hl | hg
    · cases Option.some.inj (hl.symm.trans h)
    · cases Option.some.inj (hg.symm.trans h)

/-- Everybody who heard of a failure of the engine had a call to make. -/
def Blames (s : Visitors) : Prop := ∀ f, (s.company f).Blames s.tree

theorem Sound.blames_happen (h : s.Sound) (hb : s.Blames) (x : Incident) : (s.happen x).Blames := by
  have hages := h.happen_ages x
  cases x with
  | meddle m => exact fun f => (hb f).later hages
  | turn f x =>
    intro g
    by_cases hg : f = g
    · subst hg
      simpa only [Visitors.happen, Function.update_self] using
        (Company.take_step s.tree (s.company f) x).blames (h.companies f) (hb f)
    · simpa only [Visitors.happen, Function.update_of_ne (Ne.symm hg)] using (hb g).later hages

theorem Sound.blames_after (h : s.Sound) (hb : s.Blames) (xs : List Incident) :
    (s.after xs).Blames := by
  induction xs generalizing s with
  | nil => exact hb
  | cons x xs ih => exact ih (h.happen x) (h.blames_happen hb x)

/-! ## Once more -/

/-- A caller that comes now is refused because its node is detached, or it waits for the engine. -/
def Retries (s : Visitors) (f : Flight) (k : Nat) : Prop :=
  let u := s.happen (.turn f (.enter k))
  (∃ id, f.subject? = some id ∧ s.tree.isAttached id = false ∧
    u.stage? f k = some (.gone .alone (.error (Flight.stale s.tree id)))) ∨
  (u.call? f k).isSome = true

theorem call?_asking (h : s.stage? f k = some .asking) (ha : f.Asks s.tree) :
    (s.call? f k).isSome = true := by
  obtain ⟨⟨l, st⟩, hv, rfl⟩ := Option.map_eq_some_iff.mp h
  simp only [call?, hv]
  exact ha l

theorem retries_of_wanted (hk : s.stage? f k = some .outside) (hf : f ∉ s.tree.flights)
    (hw : f.Wanted s.tree) (ha : f.Asks s.tree) : s.Retries f k := by
  rcases Flight.enter_wanted hf hw with ⟨id, hid, hd, he⟩ | he
  · exact .inl ⟨id, hid, hd, (happen_settled hk he).2⟩
  · obtain ⟨htree, hst⟩ := happen_owner hk he
    refine .inr (call?_asking hst ?_)
    rw [htree]
    exact ha.later (.of_nodes rfl)

/-- What a failure of the engine leaves behind: nothing. -/
theorem Sound.retries (h : s.Sound) (hb : s.Blames) (hj : s.stage? f j = some (.answered (.error e)))
    (ys : List Incident) :
    let v := (s.happen (.turn f (.finish j))).after ys
    v.stage? f k = some .outside → f ∉ v.tree.flights → f.Wanted v.tree → v.Retries f k := by
  intro v hk hf hw
  have hlater : s.tree.Ages v.tree :=
    (h.happen_ages _).trans ((h.happen _).after_ages ys)
  exact retries_of_wanted hk hf hw ((hb f j e hj).later hlater)

theorem finish_failed (h : s.Sound) (hj : s.stage? f j = some (.answered (.error e))) :
    let u := s.happen (.turn f (.finish j))
    u.tree = s.tree.land f ∧ f ∉ u.tree.flights ∧ f.Wanted u.tree := by
  intro u
  have hu : u.tree = s.tree.land f := (tree_finish hj).trans (congrArg Prod.snd (f.finish_error e _))
  have hw := (h.companies f).wanted ((h.companies f).flying hj rfl).2
  rw [hu]
  exact ⟨rfl, h.table.not_mem_erase, hw.of_nodes rfl rfl⟩

/-- A failure that is told without asking is that of a detached node. -/
theorem fails_alone (hk : s.stage? f k = some .outside)
    (h : (s.happen (.turn f (.enter k))).stage? f k = some (.gone .alone (.error e))) :
    ∃ id, f.subject? = some id ∧ s.tree.isAttached id = false ∧ e = Flight.stale s.tree id := by
  rw [stage?_turn] at h
  exact Flight.enter_fails ((Company.take_step s.tree (s.company f) (.enter k)).alone hk h)

/-- Failures in a tree in which callers are. -/
structure Harmless (s : Visitors) : Prop where
  /-- An operation that fails has changed nothing, and repeats the call that failed. -/
  spared : ∀ (σ : Type) (b : Backend σ) (w : σ × List Asked) (p : TreeOperation),
    (∀ path, p ≠ .remove path) → ∀ e u, Forest.request b p ⟨s.tree, w⟩ = (.error e, u) →
      Forest.Spared b p e ⟨s.tree, w⟩ u
  /-- In the turns of a caller that fails nothing changes but the entry of its flight. -/
  rests : ∀ f (x : Turn f) i ys p e, x.caller? = some i →
    ((s.happen (.turn f x)).after ys).stage? f i = some (.gone p (.error e)) →
    s.tree.Rests (s.happen (.turn f x)).tree ∧
      ∀ g, g ≠ f → (g ∈ (s.happen (.turn f x)).tree.flights ↔ g ∈ s.tree.flights)
  /-- The table has the flights of those who wait for the engine, and no others. -/
  table : ∀ f, f ∈ s.tree.flights ↔ ∃ i st, s.stage? f i = some st ∧ st.isFlying = true
  /-- When a caller heard of a failure, its flight is over and the tree still does not know. -/
  landed : ∀ f j e, s.stage? f j = some (.answered (.error e)) →
    let u := s.happen (.turn f (.finish j))
    u.tree = s.tree.land f ∧ f ∉ u.tree.flights ∧ f.Wanted u.tree
  /-- Whoever wants the same then or later asks the engine, unless somebody does or the tree knows. -/
  retries : ∀ f j e, s.stage? f j = some (.answered (.error e)) → ∀ ys k,
    let v := (s.happen (.turn f (.finish j))).after ys
    v.stage? f k = some .outside → f ∉ v.tree.flights → f.Wanted v.tree → v.Retries f k
  /-- The tree itself tells of no failure but that a node is detached. -/
  alone : ∀ f k e, s.stage? f k = some .outside →
    (s.happen (.turn f (.enter k))).stage? f k = some (.gone .alone (.error e)) →
    ∃ id, f.subject? = some id ∧ s.tree.isAttached id = false ∧ e = Flight.stale s.tree id

/-- Whatever callers have done to a tree, alone or at the same time, failures change nothing in it. -/
theorem failures_harmless (l : Language) (xs : List Incident) : ((fresh l).after xs).Harmless := by
  have h := (sound_fresh l).after xs
  have hb : ((fresh l).after xs).Blames :=
    (sound_fresh l).blames_after (fun f i e hi => by cases hi) xs
  exact {
    spared := fun _ _ _ _ hp _ _ => Forest.request_spared hp
    rests := fun _ _ _ _ _ _ hx => rests_of_failing hx
    table := fun f => by
      rw [(h.companies f).table, Option.isSome_iff_exists]
      exact exists_congr fun i => (h.companies f).future i
    landed := fun _ _ _ => finish_failed h
    retries := fun _ _ _ hj ys _ => h.retries hb hj ys
    alone := fun _ _ _ => fails_alone }

/-- Two callers want the children of a root whose text is known, and the engine breaks down. -/
def breakdown : List Incident :=
  visit (.add "a.dll") 0 (.ok ⟨"a.dll", "a", .assembly, none⟩) ++
    visit (.code 0) 0 (.ok "text") ++
    [.turn (.children 0) .arrive, .turn (.children 0) .arrive, .turn (.children 0) .arrive,
      .turn (.children 0) (.enter 0), .turn (.children 0) (.enter 1),
      .turn (.children 0) (.reply 0 (.error (.general .runtime [.text "broken"])))]

def broken : Visitors := (fresh .csharp).after breakdown

/-- The one that asked leaves the root as it was, and one that comes when both are gone asks again. -/
theorem failures_harmless_breakdown :
    let u := broken.happen (.turn (.children 0) (.finish 0))
    let v := u.after [.turn (.children 0) (.wake 0), .turn (.children 0) (.leave 1)]
    broken.tree.node? 0 =
        some ⟨⟨"a.dll", "a", .assembly, none⟩, "a.dll", none, none, some "text"⟩ ∧
      broken.stage? (.children 0) 1 = some (.waiting 0) ∧
      u.tree = broken.tree.land (.children 0) ∧
      v.stage? (.children 0) 1 =
        some (.gone (.guest 0) (.error (.general .runtime [.text "broken"]))) ∧
      v.Retries (.children 0) 2 := by
  intro u v
  have h : broken.Harmless := failures_harmless .csharp breakdown
  have hfailed : broken.stage? (.children 0) 0 =
    some (.answered (.error (.general .runtime [.text "broken"]))) := rfl
  refine ⟨rfl, rfl, (h.landed _ _ _ hfailed).1, rfl, ?_⟩
  exact h.retries _ _ _ hfailed _ _ rfl (by decide) ⟨_, rfl, rfl⟩

end Visitors

end AssemblyBrowser
