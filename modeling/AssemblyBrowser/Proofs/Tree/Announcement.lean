import AssemblyBrowser.Proofs.Tree.Frame
import AssemblyBrowser.Proofs.Tree.Session
import AssemblyBrowser.Tree.Audience
/-!
What listeners are told. Main statement: whatever listeners do when they are told of a change, every
one that stays is told of each change once, in the order of the changes and when they show, and of
nothing else; and the operations go as they would if nobody listened.
-/
namespace AssemblyBrowser

/-- A listener is left alone by the others, and stays. -/
def Conduct.Spares (c : Conduct) (l : Listening) : Prop :=
  ∀ k e t, ∀ x ∈ (c k e t).subscriptions, x.listener ≠ l

/-- The same, but nobody fails. -/
def Conduct.calm (c : Conduct) : Conduct := fun l e t => { c l e t with failure := none }

namespace Tree

variable {t : Tree} {c c' : Conduct} {e : TreeEvent} {l : Listening}

/-! ## The tree and its listeners -/

/-- The same tree before other listeners, who were told other things. -/
def before (t : Tree) (ls : List Listening) (ds : List (Listening × TreeEvent)) : Tree :=
  { t with listeners := ls, deliveries := ds }

/-- What a listener was told, in order. -/
def toldTo (t : Tree) (l : Listening) : List TreeEvent :=
  (t.deliveries.filter fun d => d.1 = l).map Prod.snd

/-- A change shows in a tree. -/
def Reflects (t : Tree) : TreeEvent → Prop
  | .added path => t.paths.getLast? = some path ∧
      ∃ r, t.roots.find? path = some r ∧ t.Holds r.node (.root path r.member)
  | .removed path => path ∉ t.paths ∧ ∀ id n, t.Holds id n → n.assembly ≠ path
  | .refreshed => ∀ id n, t.Holds id n → n.isRoot = true ∧ n.children = none ∧ n.code = none

theorem reflects_before {ls : List Listening} {ds : List (Listening × TreeEvent)} :
    (t.before ls ds).Reflects e ↔ t.Reflects e := by
  cases e <;> exact .rfl

theorem subscriptionChange_before (t : Tree) (x : Subscription) :
    t.subscriptionChange x = t.before (t.subscriptionChange x).listeners t.deliveries := by
  cases x <;> rfl

theorem count_subscriptionChange {x : Subscription} (hx : x.listener ≠ l) :
    (t.subscriptionChange x).listeners.count l = t.listeners.count l := by
  cases x with
  | subscribe k =>
    have hk : ¬k = l := hx
    simp [subscriptionChange, subscribe, hk]
  | unsubscribe k => exact List.count_erase_of_ne (Ne.symm hx)

theorem foldl_subscriptionChange_before (xs : List Subscription) (t : Tree) :
    xs.foldl subscriptionChange t =
      t.before (xs.foldl subscriptionChange t).listeners t.deliveries := by
  induction xs generalizing t with
  | nil => rfl
  | cons x xs ih =>
    rw [List.foldl_cons, ih (t.subscriptionChange x), t.subscriptionChange_before x]
    rfl

theorem count_foldl_subscriptionChange {xs : List Subscription} (hxs : ∀ x ∈ xs, x.listener ≠ l)
    (t : Tree) : (xs.foldl subscriptionChange t).listeners.count l = t.listeners.count l := by
  induction xs generalizing t with
  | nil => rfl
  | cons x xs ih =>
    exact (ih (fun y hy => hxs y (List.mem_cons_of_mem x hy)) _).trans
      (count_subscriptionChange (hxs x List.mem_cons_self))

/-! ## A call to each listener -/

/-- The tree when a listener has been called. -/
def heeded (c : Conduct) (e : TreeEvent) (t : Tree) (l : Listening) : Tree :=
  ((call c e l).runFrom t).2

theorem heeded_before (t : Tree) (l : Listening) :
    heeded c e t l = t.before (heeded c e t l).listeners (t.deliveries ++ [(l, e)]) :=
  foldl_subscriptionChange_before _ _

/-- Everybody is called, whoever fails. -/
theorem emit_run (t : Tree) :
    (emit c e).runFrom t = (.ok (), t.listeners.foldl (heeded c e) t) := by
  have hcalls : ∀ (ls : List Listening) (t : Tree),
      (ls.forM fun l => discard (call c e l).outcome : Attempt Tree PUnit).runFrom t =
        (.ok (), ls.foldl (heeded c e) t) := by
    intro ls
    induction ls with
    | nil => exact fun _ => rfl
    | cons l ls ih =>
      intro t
      have hcall : (discard (call c e l).outcome : Attempt Tree PUnit).runFrom t =
          (.ok (), heeded c e t l) :=
        Attempt.runFrom_map (fun _ => PUnit.unit) (call c e l).outcome t
      rw [List.forM_eq_forM, List.forM_cons, Attempt.runFrom_bind_ok hcall]
      exact ih _
  exact hcalls t.listeners t

theorem foldl_heeded_before (ls : List Listening) (t : Tree) :
    ls.foldl (heeded c e) t =
      t.before (ls.foldl (heeded c e) t).listeners (t.deliveries ++ ls.map fun l => (l, e)) := by
  induction ls generalizing t with
  | nil => simp [before]
  | cons l ls ih =>
    rw [List.foldl_cons, ih, heeded_before]
    simp [before]

theorem count_foldl_heeded (hc : c.Spares l) (ls : List Listening) (t : Tree) :
    (ls.foldl (heeded c e) t).listeners.count l = t.listeners.count l := by
  induction ls generalizing t with
  | nil => rfl
  | cons k ls ih => exact (ih _).trans (count_foldl_subscriptionChange (hc k e _) _)

/-- Listeners see the tree in which the change has been made. -/
theorem foldl_heeded_congr {v : Tree} (h : ∀ l ls ds, c l e (v.before ls ds) = c' l e (v.before ls ds))
    (ks : List Listening) (ls : List Listening) (ds : List (Listening × TreeEvent)) :
    ks.foldl (heeded c e) (v.before ls ds) = ks.foldl (heeded c' e) (v.before ls ds) := by
  induction ks generalizing ls ds with
  | nil => rfl
  | cons k ks ih =>
    have hsame : heeded c e (v.before ls ds) k = heeded c' e (v.before ls ds) k := by
      have hk := h k ls (ds ++ [(k, e)])
      change (c k e (v.before ls (ds ++ [(k, e)]))).subscriptions.foldl _ _ =
        (c' k e (v.before ls (ds ++ [(k, e)]))).subscriptions.foldl _ _
      rw [hk]
    rw [List.foldl_cons, List.foldl_cons, hsame, heeded_before]
    exact ih _ _

/-- Each listener is told once for each of its subscriptions. -/
theorem toldTo_append {u : Tree} (hu : u.deliveries = t.deliveries ++ t.listeners.map fun l => (l, e))
    (l : Listening) : u.toldTo l = t.toldTo l ++ List.replicate (t.listeners.count l) e := by
  have hmap : ∀ ls : List Listening, ((ls.map fun k => (k, e)).filter fun d => d.1 = l).map Prod.snd =
      List.replicate (ls.count l) e := by
    intro ls
    induction ls with
    | nil => rfl
    | cons k ls ih =>
      by_cases hk : k = l
      · simp [hk, ih, List.replicate_succ]
      · simp [hk, ih]
  rw [toldTo, hu, List.filter_append, List.map_append, hmap]
  rfl

/-! ## The same operations before other listeners -/

section

variable (ls : List Listening) (ds : List (Listening × TreeEvent))

/-- A plan of the same tree before other listeners. -/
def Plan.before {α : Type} : Plan α → Plan α
  | .settled r t => .settled r (t.before ls ds)
  | .asks c finish => .asks c fun r => ((finish r).1, (finish r).2.before ls ds)

theorem attach_before (t : Tree) (id : NodeId) :
    (t.before ls ds).attach id = (t.attach id).before ls ds := by
  simp only [attach, show (t.before ls ds).node? id = t.node? id from rfl]
  split <;> rfl

theorem adopt_before (t : Tree) (id : NodeId) (ids : List NodeId) :
    (t.before ls ds).adopt id ids = (t.adopt id ids).before ls ds := by
  have hfoldl : ∀ t : Tree, ids.foldl attach (t.before ls ds) = (ids.foldl attach t).before ls ds := by
    induction ids with
    | nil => exact fun _ => rfl
    | cons j ids ih =>
      intro t
      rw [List.foldl_cons, attach_before]
      exact ih _
  exact hfoldl (t.modify id fun n => { n with children := some ids })

theorem foldl_plant_before (rs : List (String × Root)) (t : Tree) :
    rs.foldl (fun t (path, r) => t.plant path r.member) (t.before ls ds) =
      (rs.foldl (fun t (path, r) => t.plant path r.member) t).before ls ds := by
  induction rs generalizing t with
  | nil => rfl
  | cons r rs ih => exact ih (t.plant r.1 r.2.member)

theorem replant_before (t : Tree) : (t.before ls ds).replant = t.replant.before ls ds :=
  foldl_plant_before ls ds t.roots.entries t.bare

theorem finishChildren_before (id : NodeId) (r : Except Failure (List Member)) (t : Tree) :
    finishChildren id r (t.before ls ds) =
      ((finishChildren id r t).1, (finishChildren id r t).2.before ls ds) := by
  unfold finishChildren
  cases r with
  | error f => rfl
  | ok ms =>
    cases hn : t.node? id with
    | none =>
      have hn' : ((t.before ls ds).land (.children id)).node? id = none := hn
      have hn'' : (t.land (.children id)).node? id = none := hn
      simp only [hn', hn'']
      rfl
    | some n =>
      have hn' : ((t.before ls ds).land (.children id)).node? id = some n := hn
      have hn'' : (t.land (.children id)).node? id = some n := hn
      simp only [hn', hn'']
      refine Prod.ext rfl ?_
      dsimp only
      have ha : (((t.before ls ds).land (.children id)).create (ms.map n.child)).2.isAttached id =
        ((t.land (.children id)).create (ms.map n.child)).2.isAttached id := rfl
      rw [ha]
      split
      · exact adopt_before ls ds ((t.land (.children id)).create (ms.map n.child)).2 id _
      · rfl

theorem finishCode_before (id : NodeId) (r : Except Failure String) (t : Tree) :
    finishCode id r (t.before ls ds) =
      ((finishCode id r t).1, (finishCode id r t).2.before ls ds) := by
  unfold finishCode
  cases r with
  | error f => rfl
  | ok text =>
    have ha : ((t.before ls ds).land (.code id)).isAttached id = (t.land (.code id)).isAttached id :=
      rfl
    simp only [ha]
    split <;> rfl

theorem planFetch_before {α : Type} (t : Tree) (id : NodeId) (kept : Node → Option α)
    {ask ask' : Node → Plan α} (hask : ∀ n, ask' n = (ask n).before ls ds) :
    (t.before ls ds).planFetch id kept ask' = (t.planFetch id kept ask).before ls ds := by
  have ha : (t.before ls ds).isAttached id = t.isAttached id := rfl
  simp only [planFetch, show (t.before ls ds).node? id = t.node? id from rfl, ha, hask]
  cases t.node? id with
  | none => rfl
  | some n =>
    dsimp only
    split
    · rfl
    · split <;> rfl

theorem plan_children_before (t : Tree) (id : NodeId) :
    (t.before ls ds).plan (.children id) = (t.plan (.children id)).before ls ds := by
  refine planFetch_before ls ds t id _ fun n => ?_
  simp only [finishChildren_before]
  split <;> rfl

theorem plan_code_before (t : Tree) (id : NodeId) :
    (t.before ls ds).plan (.code id) = (t.plan (.code id)).before ls ds := by
  refine planFetch_before ls ds t id _ fun n => ?_
  simp only [finishCode_before]
  rfl

end

end Tree

/-! ## Operations before listeners -/

namespace TreeOperation

variable {σ : Type}

/-- An operation, with what it does to tell of a change left open. -/
def announcing (announce : TreeEvent → Attempt (Forest σ) Unit) (engine : Engine σ) :
    (p : TreeOperation) → Attempt (Forest σ) p.Answer
  | .add path => Forest.Announcing.add announce engine path
  | .remove path => Forest.Announcing.remove announce engine path
  | .refresh => Forest.Announcing.refresh announce
  | .setLanguage name => Forest.Announcing.setLanguage announce name
  | .children id => Forest.children engine id
  | .code id => Forest.code engine id

/-- What there is to tell when an operation has ended. -/
def news? : (p : TreeOperation) → Except Failure p.Answer → Option TreeEvent
  | .add path, .ok true => some (.added path)
  | .remove path, .ok true => some (.removed path)
  | .refresh, .ok _ => some .refreshed
  | .setLanguage _, .ok true => some .refreshed
  | _, _ => none

end TreeOperation

namespace Forest

variable {σ α : Type}

open Announcing

theorem beginAdd_settled {t t' : Tree} {path : String} {r : Except Failure Bool}
    (h : t.beginAdd path = (.settled r, t')) : r = .ok false := by
  unfold Tree.beginAdd at h
  split at h
  · cases h
    rfl
  · rcases Flight.board_cases (α := Bool) t (.add path) with ⟨-, hb⟩ | ⟨-, hb⟩ <;>
      rw [hb] at h <;> cases h

theorem add_telling (engine : Engine σ) (path : String) (s : Forest σ) :
    (Announcing.add telling engine path).runFrom s = (add engine path).runFrom s := by
  unfold Announcing.add add
  rw [Attempt.runFrom_bind]
  cases he : s.tree.beginAdd path with
  | mk entry t =>
    cases entry with
    | settled r =>
      obtain rfl := beginAdd_settled he
      rw [consult_settled he, consult_settled he]
      rfl
    | joined => rw [consult_joined he, consult_joined he]
    | owner =>
      cases hr : (engine (.load path)).runFrom { s with tree := t } with
      | mk r u =>
        rw [consult_owner he hr, consult_owner he hr]
        cases r <;> rfl

theorem remove_telling (engine : Engine σ) (path : String) (s : Forest σ) :
    (Announcing.remove telling engine path).runFrom s = (remove engine path).runFrom s := by
  unfold Announcing.remove remove
  simp only [Attempt.runFrom_bind, Attempt.runFrom_get]
  split
  · simp only [Attempt.runFrom_bind, Attempt.runFrom_set]
    cases (engine (.unload path)).runFrom { s with tree := s.tree.uproot path } with
    | mk r u => cases r <;> rfl
  · rfl

theorem setLanguage_telling (name : String) (s : Forest σ) :
    (Announcing.setLanguage telling name).runFrom s = (setLanguage name).runFrom s := by
  unfold Announcing.setLanguage setLanguage
  simp only [Attempt.runFrom_bind, Attempt.runFrom_ofExcept, Attempt.runFrom_get]
  cases Language.parse name with
  | error e => rfl
  | ok l =>
    simp only [Except.mapError]
    change _ = (Except.ok (s.tree.setLanguage l).1, { s with tree := (s.tree.setLanguage l).2 })
    simp only [Tree.setLanguage]
    split <;> rfl

/-- Before listeners who only listen, the operations are what they are. -/
theorem announcing_telling (engine : Engine σ) (p : TreeOperation) (s : Forest σ) :
    (p.announcing telling engine).runFrom s = (p.perform engine).runFrom s := by
  cases p with
  | add path => exact add_telling engine path s
  | remove path => exact remove_telling engine path s
  | refresh => rfl
  | setLanguage name => exact setLanguage_telling name s
  | children id => rfl
  | code id => rfl

/-! ## What an operation tells -/

/-- A way to tell of changes that never fails. -/
def spreading (f : TreeEvent → Tree → Tree) (e : TreeEvent) : Attempt (Forest σ) Unit :=
  onTree fun t => (.ok (), f e t)

theorem Announcing.emitting_eq (c : Conduct) :
    (emitting c : TreeEvent → Attempt (Forest σ) Unit) =
      spreading fun e t => t.listeners.foldl (Tree.heeded c e) t := by
  funext e s
  simp only [emitting, spreading, onTree, Tree.emit_run]

/-- How an operation goes when nobody else uses the tree: it ends in a certain way, whoever listens and
however they are told; and if there is something to tell, that is told last, when it shows. -/
structure Tells (b : Backend σ) (p : TreeOperation) (s : Forest σ) (r : Except Failure p.Answer)
    (u : Forest σ) : Prop where
  idle : u.tree.flights = []
  shows : ∀ e, p.news? r = some e → u.tree.Reflects e
  runs : ∀ ls ds f, (p.announcing (spreading f) b.engine).runFrom ⟨s.tree.before ls ds, s.world⟩ =
    (r, ⟨(p.news? r).elim (u.tree.before ls ds) fun e => f e (u.tree.before ls ds), u.world⟩)

variable {b : Backend σ} {s : Forest σ}

theorem Tells.of_silent {p : TreeOperation} {r : Except Failure p.Answer} {u : Forest σ}
    (hi : u.tree.flights = []) (hn : p.news? r = none)
    (hr : ∀ ls ds f, (p.announcing (spreading f) b.engine).runFrom ⟨s.tree.before ls ds, s.world⟩ =
      (r, ⟨u.tree.before ls ds, u.world⟩)) : Tells b p s r u where
  idle := hi
  shows e he := by rw [hn] at he; cases he
  runs ls ds f := by rw [hr, hn]; rfl

theorem Tells.of_news {p : TreeOperation} {r : Except Failure p.Answer} {u : Forest σ}
    {e : TreeEvent} (hi : u.tree.flights = []) (hn : p.news? r = some e) (hs : u.tree.Reflects e)
    (hr : ∀ ls ds f, (p.announcing (spreading f) b.engine).runFrom ⟨s.tree.before ls ds, s.world⟩ =
      (r, ⟨f e (u.tree.before ls ds), u.world⟩)) : Tells b p s r u where
  idle := hi
  shows _ he := Option.some.inj (hn.symm.trans he) ▸ hs
  runs ls ds f := by rw [hr, hn]; rfl

theorem plant_reflects {t : Tree} {path : String} (h : path ∉ t.paths) (m : Member) :
    (t.plant path m).Reflects (.added path) := by
  have hpaths : (t.plant path m).paths = t.paths ++ [path] :=
    (t.paths_plant path m).trans (if_neg h)
  refine ⟨by rw [hpaths, List.getLast?_concat], ⟨m, t.nodes.length⟩, ?_, ?_, ?_⟩
  · simp [Tree.plant]
  · simp [Tree.plant, Tree.node?]
  · simp [Tree.plant, Node.slot, Node.root, Node.key]

theorem uproot_reflects (t : Tree) (path : String) :
    (t.uproot path).Reflects (.removed path) := by
  refine ⟨fun hm => ?_, fun id n hn => ((Tree.holds_uproot t path).mp hn).2⟩
  rw [(t.uproot_without path).paths] at hm
  simp at hm

theorem replant_reflects (t : Tree) : t.replant.Reflects .refreshed := by
  intro id n hn
  have hrefresh : t.refresh.Holds id n := hn
  obtain ⟨-, path, r, -, rfl⟩ := Tree.root_of_holds_refresh hrefresh
  exact ⟨rfl, rfl, rfl⟩

theorem receiveAdd_run {t : Tree} {w : σ} (ht : t.flights = []) {path : String}
    (hc : ¬t.roots.contains path = true) :
    (consult (·.beginAdd path) (b.engine (.load path)) (Tree.receiveAdd path)).runFrom ⟨t, w⟩ =
      let (r, w) := (b (.load path)).runFrom w
      ((Tree.receiveAdd path r t).1, ⟨(Tree.receiveAdd path r t).2, w⟩) := by
  have hboard : t.beginAdd path = (.owner, { t with flights := [.add path] }) :=
    (if_neg hc).trans (Tree.board_of_idle ht _)
  have hland (r) : Tree.receiveAdd path r { t with flights := [.add path] } =
      Tree.receiveAdd path r t := by
    simp only [Tree.receiveAdd, Tree.land_board ht, Tree.land_of_idle ht]
  refine (consult_owner (s := ⟨t, w⟩) hboard (runFrom_lift (b (.load path)) _)).trans ?_
  simp only [hland]

theorem add_tells (h : s.tree.flights = []) (path : String) :
    ∃ r u, Tells b (.add path) s r u := by
  have hrun (f t) : (TreeOperation.announcing (spreading f) b.engine (.add path)).runFrom
      ⟨t, s.world⟩ = _ := Attempt.runFrom_bind _ _ _
  by_cases hc : s.tree.roots.contains path = true
  · refine ⟨.ok false, s, .of_silent h rfl fun ls ds f => ?_⟩
    have hsettled : (s.tree.before ls ds).beginAdd path =
        (.settled (.ok false), s.tree.before ls ds) := if_pos hc
    rw [hrun, consult_settled (s := ⟨s.tree.before ls ds, s.world⟩) hsettled]
    rfl
  · have hconsult (ls ds) := receiveAdd_run (b := b) (t := s.tree.before ls ds) (w := s.world) h hc
    cases hr : (b (.load path)).runFrom s.world with
    | mk r w =>
      cases r with
      | error e =>
        refine ⟨.error e, ⟨s.tree, w⟩, .of_silent h rfl fun ls ds f => ?_⟩
        rw [hrun, hconsult, hr]
        simp only [Tree.receiveAdd, Tree.land_of_idle (t := s.tree.before ls ds) h]
      | ok m =>
        have hshows : (s.tree.plant path m).Reflects (.added path) :=
          plant_reflects (fun hm => hc ((s.tree.roots.contains_iff path).mpr hm)) m
        refine ⟨.ok true, ⟨s.tree.plant path m, w⟩, .of_news h rfl hshows fun ls ds f => ?_⟩
        rw [hrun, hconsult, hr]
        simp only [Tree.receiveAdd, Tree.land_of_idle (t := s.tree.before ls ds) h]
        rfl

theorem remove_tells (h : s.tree.flights = []) (path : String) :
    ∃ r u, Tells b (.remove path) s r u := by
  by_cases hc : s.tree.roots.contains path = true
  · cases hr : (b (.unload path)).runFrom s.world with
    | mk r w =>
      have hrun (ls ds f) : (TreeOperation.announcing (spreading f) b.engine (.remove path)).runFrom
          ⟨s.tree.before ls ds, s.world⟩ = _ :=
        Attempt.runFrom_bind_ok (Attempt.runFrom_get _) _
      have hcall (ls ds) : (b.engine (.unload path)).runFrom
          ⟨(s.tree.before ls ds).uproot path, s.world⟩ =
            (r, ⟨(s.tree.before ls ds).uproot path, w⟩) := by
        rw [Backend.engine, runFrom_lift, hr]
      cases r with
      | error e =>
        refine ⟨.error e, ⟨s.tree.uproot path, w⟩,
          .of_silent h rfl fun ls ds f => (hrun ls ds f).trans ?_⟩
        dsimp only
        rw [if_pos (show (s.tree.before ls ds).roots.contains path = true from hc),
          Attempt.runFrom_bind_ok (Attempt.runFrom_set _ _), Attempt.runFrom_bind, hcall]
        rfl
      | ok v =>
        refine ⟨.ok true, ⟨s.tree.uproot path, w⟩,
          .of_news h rfl (uproot_reflects s.tree path) fun ls ds f => (hrun ls ds f).trans ?_⟩
        dsimp only
        rw [if_pos (show (s.tree.before ls ds).roots.contains path = true from hc),
          Attempt.runFrom_bind_ok (Attempt.runFrom_set _ _),
          Attempt.runFrom_bind_ok (hcall ls ds)]
        rfl
  · refine ⟨.ok false, s, .of_silent h rfl fun ls ds f => ?_⟩
    refine (Attempt.runFrom_bind_ok (Attempt.runFrom_get _) _).trans ?_
    dsimp only
    rw [if_neg (show ¬(s.tree.before ls ds).roots.contains path = true from hc)]
    rfl

theorem refresh_run (f : TreeEvent → Tree → Tree) (s : Forest σ) :
    (Announcing.refresh (spreading f)).runFrom s =
      (.ok (), { s with tree := f .refreshed s.tree.replant }) := rfl

theorem refresh_tells (h : s.tree.flights = []) : ∃ r u, Tells b .refresh s r u := by
  refine ⟨.ok (), ⟨s.tree.replant, s.world⟩, .of_news ((Tree.flights_refresh s.tree).trans h) rfl
    (replant_reflects s.tree) fun ls ds f => (refresh_run f _).trans ?_⟩
  rw [Tree.replant_before]

theorem setLanguage_tells (h : s.tree.flights = []) (name : String) :
    ∃ r u, Tells b (.setLanguage name) s r u := by
  cases hp : Language.parse name with
  | error e =>
    refine ⟨.error (.language e), s, .of_silent h rfl fun ls ds f => ?_⟩
    simp only [TreeOperation.announcing, Announcing.setLanguage, Attempt.runFrom_bind,
      Attempt.runFrom_ofExcept, hp]
    rfl
  | ok l =>
    have hrun (f t) : (TreeOperation.announcing (spreading f) b.engine (.setLanguage name)).runFrom
        ⟨t, s.world⟩ = if t.language = l then (.ok false, ⟨t, s.world⟩) else
          (.ok true, ⟨f .refreshed ({ t with language := l } : Tree).replant, s.world⟩) := by
      simp only [TreeOperation.announcing, Announcing.setLanguage, Attempt.runFrom_bind,
        Attempt.runFrom_ofExcept, hp, Except.mapError, Attempt.runFrom_get]
      split <;> rfl
    by_cases hl : s.tree.language = l
    · refine ⟨.ok false, s, .of_silent h rfl fun ls ds f => ?_⟩
      rw [hrun, if_pos (show (s.tree.before ls ds).language = l from hl)]
    · let t : Tree := { s.tree with language := l }
      refine ⟨.ok true, ⟨t.replant, s.world⟩, .of_news ((Tree.flights_refresh t).trans h) rfl
        (replant_reflects t) fun ls ds f => ?_⟩
      have hspoken : ({ s.tree.before ls ds with language := l } : Tree) = t.before ls ds := rfl
      rw [hrun, if_neg (show ¬(s.tree.before ls ds).language = l from hl), hspoken,
        Tree.replant_before]

/-- A plan goes the same way whoever listens. -/
theorem follow_before {β : Type} (q : Tree.Plan β) (t : Tree) (ls : List Listening)
    (ds : List (Listening × TreeEvent)) : follow b ⟨t, s.world⟩ (q.before ls ds) =
      ((follow b s q).1, ⟨(follow b s q).2.tree.before ls ds, (follow b s q).2.world⟩) := by
  cases q <;> rfl

theorem follow_idle {p : TreeOperation} (h : s.tree.flights = []) :
    (follow b s (s.tree.plan p)).2.tree.flights = [] := by
  have hpaths := Tree.plan_paths h p
  cases hq : s.tree.plan p with
  | settled r t =>
    rw [hq] at hpaths
    exact hpaths.1
  | asks c finish =>
    rw [hq] at hpaths
    exact (hpaths _).1

theorem children_tells (h : s.tree.flights = []) (id : NodeId) :
    ∃ r u, Tells b (.children id) s r u := by
  refine ⟨(follow b s (s.tree.plan (.children id))).1, (follow b s (s.tree.plan (.children id))).2,
    .of_silent (follow_idle h) rfl fun ls ds f => ?_⟩
  refine (children_run b (s := ⟨s.tree.before ls ds, s.world⟩) h id).trans ?_
  rw [Tree.plan_children_before, follow_before (s := s)]

theorem code_tells (h : s.tree.flights = []) (id : NodeId) :
    ∃ r u, Tells b (.code id) s r u := by
  refine ⟨(follow b s (s.tree.plan (.code id))).1, (follow b s (s.tree.plan (.code id))).2,
    .of_silent (follow_idle h) rfl fun ls ds f => ?_⟩
  refine (code_run b (s := ⟨s.tree.before ls ds, s.world⟩) h id).trans ?_
  rw [Tree.plan_code_before, follow_before (s := s)]

theorem tells (b : Backend σ) (p : TreeOperation) (h : s.tree.flights = []) :
    ∃ r u, Tells b p s r u := by
  cases p with
  | add path => exact add_tells h path
  | remove path => exact remove_tells h path
  | refresh => exact refresh_tells h
  | setLanguage name => exact setLanguage_tells h name
  | children id => exact children_tells h id
  | code id => exact code_tells h id

end Forest

/-! ## Runs -/

/-- What is done with a tree: an operation, or somebody begins or ceases to listen. -/
inductive Doing
  | operation (p : TreeOperation)
  | listening (x : Subscription)

def Doing.operation? : Doing → Option TreeOperation
  | .operation p => some p
  | .listening _ => none

/-- A listener stays as it is. -/
def Doing.Spares (l : Listening) : Doing → Prop
  | .operation _ => True
  | .listening x => x.listener ≠ l

def Outcome.news? (o : Outcome) : Option TreeEvent := o.1.news? o.2

namespace Forest

variable {σ : Type}

/-- Carries out operations one after another: how they ended, and what there is then. -/
def performAll (b : Backend σ) : List TreeOperation → Forest σ → List Outcome × Forest σ
  | [], s => ([], s)
  | p :: ps, s =>
    let (r, s) := (p.perform b.engine).runFrom s
    let (rs, s) := performAll b ps s
    (⟨p, r⟩ :: rs, s)

/-- The same before listeners. -/
def attend (c : Conduct) (b : Backend σ) : List Doing → Forest σ → List Outcome × Forest σ
  | [], s => ([], s)
  | .operation p :: xs, s =>
    let (r, s) := (p.announcing (Announcing.emitting c) b.engine).runFrom s
    let (rs, s) := attend c b xs s
    (⟨p, r⟩ :: rs, s)
  | .listening x :: xs, s => attend c b xs { s with tree := s.tree.subscriptionChange x }

variable {b : Backend σ} {c c' : Conduct} {s s' : Forest σ} {l : Listening}

/-- An operation before listeners: it ends as it always does, and then those who listen are called. -/
theorem Tells.runs_emitting {p : TreeOperation} {r : Except Failure p.Answer} {u : Forest σ}
    (h : Tells b p s r u) (c : Conduct) (ls : List Listening) (ds : List (Listening × TreeEvent)) :
    (p.announcing (Announcing.emitting c) b.engine).runFrom ⟨s.tree.before ls ds, s.world⟩ =
      (r, ⟨(p.news? r).elim (u.tree.before ls ds) fun e =>
        ls.foldl (Tree.heeded c e) (u.tree.before ls ds), u.world⟩) := by
  rw [Announcing.emitting_eq]
  exact h.runs ls ds _

section Step

variable {p : TreeOperation} {r : Except Failure p.Answer} {u : Forest σ} (h : Tells b p s r u)
include h

/-- The tree after an operation, but for its listeners, does not depend on them. -/
theorem Tells.agree (c : Conduct) (ls : List Listening) (ds : List (Listening × TreeEvent)) :
    ∃ ls' ds', (p.announcing (Announcing.emitting c) b.engine).runFrom
      ⟨s.tree.before ls ds, s.world⟩ = (r, ⟨u.tree.before ls' ds', u.world⟩) := by
  rw [h.runs_emitting]
  cases p.news? r with
  | none => exact ⟨ls, ds, rfl⟩
  | some e =>
    refine ⟨(ls.foldl (Tree.heeded c e) (u.tree.before ls ds)).listeners,
      ds ++ ls.map fun l => (l, e), ?_⟩
    simp only [Option.elim_some]
    rw [Tree.foldl_heeded_before]
    rfl

theorem Tells.perform_run : ∃ ls ds,
    (p.perform b.engine).runFrom s = (r, ⟨u.tree.before ls ds, u.world⟩) := by
  have hrun : (p.announcing Announcing.telling b.engine).runFrom s = _ :=
    h.runs s.tree.listeners s.tree.deliveries fun e t => t.tell e
  rw [← announcing_telling, hrun]
  cases p.news? r with
  | none => exact ⟨_, _, rfl⟩
  | some e => exact ⟨_, _, rfl⟩

/-- A listener that is there once and stays is told once if there is something to tell. -/
theorem Tells.told (hc : c.Spares l) (hl : s.tree.listeners.count l = 1) {v : Forest σ}
    (hv : (p.announcing (Announcing.emitting c) b.engine).runFrom s = (r, v)) :
    v.tree.flights = [] ∧ v.tree.listeners.count l = 1 ∧
      v.tree.toldTo l = s.tree.toldTo l ++ (p.news? r).toList := by
  have hrun := h.runs_emitting c s.tree.listeners s.tree.deliveries
  obtain ⟨-, rfl⟩ := Prod.mk.inj (hv.symm.trans hrun)
  cases p.news? r with
  | none => exact ⟨h.idle, hl, (List.append_nil _).symm⟩
  | some e =>
    have hbefore := Tree.foldl_heeded_before (c := c) (e := e) s.tree.listeners
      (u.tree.before s.tree.listeners s.tree.deliveries)
    refine ⟨?_, ?_, ?_⟩
    · exact (congrArg Tree.flights hbefore).trans h.idle
    · exact (Tree.count_foldl_heeded hc _ _).trans hl
    · have htold := Tree.toldTo_append (t := s.tree) (congrArg Tree.deliveries hbefore) l
      rw [hl] at htold
      exact htold

end Step

theorem attend_operation {p : TreeOperation} {r : Except Failure p.Answer} {v : Forest σ}
    (hrun : (p.announcing (Announcing.emitting c) b.engine).runFrom s = (r, v)) (xs : List Doing) :
    attend c b (.operation p :: xs) s = (⟨p, r⟩ :: (attend c b xs v).1, (attend c b xs v).2) := by
  simp only [attend, hrun]

theorem performAll_cons {p : TreeOperation} {r : Except Failure p.Answer} {v : Forest σ}
    (hrun : (p.perform b.engine).runFrom s = (r, v)) (ps : List TreeOperation) :
    performAll b (p :: ps) s = (⟨p, r⟩ :: (performAll b ps v).1, (performAll b ps v).2) := by
  simp only [performAll, hrun]

/-- Whoever is there once and stays is told of every change. -/
theorem attend_told (hc : c.Spares l) (xs : List Doing) (hxs : ∀ x ∈ xs, x.Spares l) :
    ∀ {s : Forest σ}, s.tree.flights = [] → s.tree.listeners.count l = 1 →
      (attend c b xs s).2.tree.toldTo l =
        s.tree.toldTo l ++ (attend c b xs s).1.filterMap Outcome.news? := by
  induction xs with
  | nil => exact fun _ _ => (List.append_nil _).symm
  | cons x xs ih =>
    intro s hs hl
    have ih := @ih fun y hy => hxs y (List.mem_cons_of_mem x hy)
    cases x with
    | operation p =>
      obtain ⟨r, u, h⟩ := tells b p hs
      have hrun : (p.announcing (Announcing.emitting c) b.engine).runFrom s = (r, _) :=
        h.runs_emitting c s.tree.listeners s.tree.deliveries
      obtain ⟨hidle, hcount, htold⟩ := h.told hc hl hrun
      rw [attend_operation hrun, ih hidle hcount, htold, List.append_assoc]
      congr 1
      cases hn : p.news? r <;> simp [Outcome.news?, hn]
    | listening x =>
      have hx : x.listener ≠ l := hxs _ List.mem_cons_self
      have hbefore := s.tree.subscriptionChange_before x
      have htold : (s.tree.subscriptionChange x).toldTo l = s.tree.toldTo l := by
        rw [hbefore]
        rfl
      rw [attend, ih ((congrArg Tree.flights hbefore).trans hs)
        ((Tree.count_subscriptionChange hx).trans hl), htold]

/-- What listeners would do before a change shows is of no consequence. -/
theorem attend_congr (hc : ∀ l e t, t.Reflects e → c l e t = c' l e t) (xs : List Doing) :
    ∀ {s : Forest σ}, s.tree.flights = [] → attend c b xs s = attend c' b xs s := by
  induction xs with
  | nil => exact fun _ => rfl
  | cons x xs ih =>
    intro s hs
    cases x with
    | operation p =>
      obtain ⟨r, u, h⟩ := tells b p hs
      obtain ⟨ls, ds, hagree⟩ := h.agree c s.tree.listeners s.tree.deliveries
      have hrun : (p.announcing (Announcing.emitting c) b.engine).runFrom s =
        (r, ⟨u.tree.before ls ds, u.world⟩) := hagree
      have hsame : (p.announcing (Announcing.emitting c') b.engine).runFrom s =
          (r, ⟨u.tree.before ls ds, u.world⟩) := by
        refine Eq.trans ?_ hagree
        refine (h.runs_emitting c' s.tree.listeners s.tree.deliveries).trans ?_
        rw [h.runs_emitting]
        cases hn : p.news? r with
        | none => rfl
        | some e =>
          have hshows := h.shows e hn
          simp only [Option.elim_some]
          rw [Tree.foldl_heeded_congr fun l ls ds => hc l e _ (Tree.reflects_before.mpr hshows)]
      rw [attend_operation hrun, attend_operation hsame,
        ih (s := ⟨u.tree.before ls ds, u.world⟩) h.idle]
    | listening x =>
      have hbefore := s.tree.subscriptionChange_before x
      exact ih ((congrArg Tree.flights hbefore).trans hs)

/-- That a listener fails is of no consequence. -/
theorem attend_calm (c : Conduct) (b : Backend σ) (xs : List Doing) (s : Forest σ) :
    attend c b xs s = attend c.calm b xs s := by
  have hemit : (Announcing.emitting c : TreeEvent → Attempt (Forest σ) Unit) =
      Announcing.emitting c.calm := by
    rw [Announcing.emitting_eq, Announcing.emitting_eq]
    rfl
  induction xs generalizing s with
  | nil => rfl
  | cons x xs ih =>
    cases x with
    | operation p => simp only [attend, ← hemit, ih]
    | listening x => exact ih _

/-- Operations go before listeners as they go by themselves. -/
theorem attend_performAll (c : Conduct) (xs : List Doing) : ∀ {s : Forest σ},
    s.tree.flights = [] → ∀ ls ds,
      let plain := performAll b (xs.filterMap Doing.operation?) s
      let heard := attend c b xs ⟨s.tree.before ls ds, s.world⟩
      heard.1 = plain.1 ∧ heard.2.world = plain.2.world ∧
        heard.2.tree = plain.2.tree.before heard.2.tree.listeners heard.2.tree.deliveries := by
  induction xs with
  | nil => exact fun _ _ _ => ⟨rfl, rfl, rfl⟩
  | cons x xs ih =>
    intro s hs ls ds
    cases x with
    | operation p =>
      obtain ⟨r, u, h⟩ := tells b p hs
      obtain ⟨ls', ds', hrun⟩ := h.agree c ls ds
      obtain ⟨ls'', ds'', hplain⟩ := h.perform_run
      have hcons : (Doing.operation p :: xs).filterMap Doing.operation? =
        p :: xs.filterMap Doing.operation? := rfl
      rw [attend_operation hrun, hcons, performAll_cons hplain]
      obtain ⟨hr, hw, ht⟩ := ih (s := ⟨u.tree.before ls'' ds'', u.world⟩) h.idle ls' ds'
      exact ⟨congrArg (List.cons ⟨p, r⟩) hr, hw, ht⟩
    | listening x =>
      have hbefore := (s.tree.before ls ds).subscriptionChange_before x
      rw [List.filterMap_cons_none rfl, attend, hbefore]
      exact ih hs _ _

theorem attend_idle (c : Conduct) (xs : List Doing) :
    ∀ {s : Forest σ}, s.tree.flights = [] → (attend c b xs s).2.tree.flights = [] := by
  induction xs with
  | nil => exact fun h => h
  | cons x xs ih =>
    intro s hs
    cases x with
    | operation p =>
      obtain ⟨r, u, h⟩ := tells b p hs
      obtain ⟨ls, ds, hagree⟩ := h.agree c s.tree.listeners s.tree.deliveries
      have hrun : (p.announcing (Announcing.emitting c) b.engine).runFrom s =
        (r, ⟨u.tree.before ls ds, u.world⟩) := hagree
      rw [attend_operation hrun]
      exact ih (s := ⟨u.tree.before ls ds, u.world⟩) h.idle
    | listening x =>
      have hbefore := s.tree.subscriptionChange_before x
      exact ih ((congrArg Tree.flights hbefore).trans hs)

/-- What listeners get to know, and what their conduct matters. -/
structure Attended (b : Backend σ) (c : Conduct) (s : Forest σ) : Prop where
  /-- A listener that is there once, and that is left alone from then on, is told of every change
  once, in the order of the changes, and of nothing else. -/
  told : ∀ l xs, s.tree.listeners.count l = 1 → c.Spares l → (∀ x ∈ xs, Doing.Spares l x) →
    (attend c b xs s).2.tree.toldTo l =
      s.tree.toldTo l ++ (attend c b xs s).1.filterMap Outcome.news?
  /-- Nobody is told of a change before it shows: what anybody would do then does not matter. -/
  timely : ∀ c' xs, (∀ l e t, Tree.Reflects t e → c l e t = c' l e t) →
    attend c b xs s = attend c' b xs s
  /-- If a listener fails, the operations end as they would otherwise, and everybody is told the same. -/
  unbroken : ∀ xs, attend c b xs s = attend c.calm b xs s
  /-- The operations go as if nobody listened. -/
  undisturbed : ∀ xs,
    let plain := performAll b (xs.filterMap Doing.operation?) s
    let heard := attend c b xs s
    heard.1 = plain.1 ∧ heard.2.world = plain.2.world ∧
      heard.2.tree = plain.2.tree.before heard.2.tree.listeners heard.2.tree.deliveries

/-- Whatever operations have been carried out, one after another, over whatever engine, and whatever
listeners have done: they are told of what changes from then on, and cannot get in the way. -/
theorem listeners_told (b : Backend σ) (c : Conduct) (l : Language) (w : σ) (ys : List Doing) :
    Attended b c (attend c b ys ⟨{ language := l }, w⟩).2 := by
  have hidle : (attend c b ys ⟨{ language := l }, w⟩).2.tree.flights = [] := attend_idle c ys rfl
  exact {
    told := fun l xs hl hc hxs => attend_told hc xs hxs hidle hl
    timely := fun c' xs hc => attend_congr hc xs hidle
    unbroken := fun xs => attend_calm c b xs _
    undisturbed := fun xs => attend_performAll c xs hidle _ _ }

/-- The first listener fails, and the third one has another one listen in its place. -/
def unruly : Conduct := fun l _ _ =>
  match l with
  | 0 => { failure := some (.general .runtime [.text "broken"]) }
  | 2 => { subscriptions := [.unsubscribe 2, .subscribe 3] }
  | _ => {}

theorem unruly_spares : unruly.Spares 1 := by
  intro k e t x hx
  match k with
  | 2 =>
    rcases List.mem_cons.mp hx with rfl | hx
    · decide
    · rw [List.mem_singleton.mp hx]
      decide
  | 0 => cases hx
  | 1 => cases hx
  | k + 3 => cases hx

/-- A tree with three listeners. -/
def audience : Forest Nat :=
  (attend unruly (counting library) [.listening (.subscribe 0), .listening (.subscribe 1),
    .listening (.subscribe 2)] ⟨{ language := .csharp }, 0⟩).2

def scene : List Doing :=
  [.operation (.add "a.dll"), .operation (.add "a.dll"), .operation (.children 0),
    .operation (.setLanguage "il"), .operation (.remove "a.dll")]

/-- The second listener, between the two, is told of the three changes. -/
theorem listeners_told_unruly :
    (attend unruly (counting library) scene audience).2.tree.toldTo 1 =
        [.added "a.dll", .refreshed, .removed "a.dll"] ∧
      (attend unruly (counting library) scene audience).2.tree.listeners = [0, 1, 3] := by
  have h : Attended (counting library) unruly audience := listeners_told _ _ _ _ _
  have htold := h.told 1 scene (by decide +kernel) unruly_spares (by simp [scene, Doing.Spares])
  have hnews : audience.tree.toldTo 1 ++
      (attend unruly (counting library) scene audience).1.filterMap Outcome.news? =
        [.added "a.dll", .refreshed, .removed "a.dll"] := by decide +kernel
  exact ⟨htold.trans hnews, by decide +kernel⟩

end Forest

end AssemblyBrowser
