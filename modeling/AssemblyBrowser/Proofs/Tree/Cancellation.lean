import AssemblyBrowser.Proofs.Tree.Announcement
import Mathlib.Data.List.Induction
/-!
Subscriptions and what they return. When what a subscription has returned is called, one subscription of its
listener goes; which one does not matter, and so, when it is called again, another one may go. Main
statement: a listener is never told more often of a change than it has subscriptions that have not been
cancelled themselves, and it is always told that often exactly if nothing is called again while its
listener has such a subscription.
-/
namespace AssemblyBrowser

/-- A subscription: whose it is, and whether what it has returned has been called. -/
structure Ticket where
  listener : Listening
  called : Bool := false
deriving DecidableEq, Repr

/-- What is done before an audience. -/
inductive Dealing
  | subscribe (l : Listening)
  /-- What a subscription has returned is called. -/
  | cancel (n : Nat)
  | news (e : TreeEvent)
deriving DecidableEq, Repr

/-- A tree, and the subscriptions made so far, which are numbered in their order. -/
structure Hall where
  tree : Tree := {}
  tickets : List Ticket := []

/-- What there is for an audience to see of a run: a change that is told, or somebody who comes or goes. -/
inductive Occasion
  | news (e : TreeEvent)
  | listening (x : Subscription)
deriving DecidableEq, Repr

namespace Hall

/-- Who listens is known to the tree alone; a subscription knows its listener. -/
def after (h : Hall) : Dealing → Hall
  | .subscribe l => ⟨h.tree.subscribe l, h.tickets ++ [⟨l, false⟩]⟩
  | .cancel n =>
    match h.tickets[n]? with
    | some k => ⟨h.tree.unsubscribe k.listener, h.tickets.set n { k with called := true }⟩
    | none => h
  | .news e => { h with tree := h.tree.tell e }

def afterAll (h : Hall) (ds : List Dealing) : Hall := ds.foldl after h

/-- How many subscriptions of a listener stand: what they have returned has not been called. -/
def standing (h : Hall) (l : Listening) : Nat := h.tickets.count ⟨l, false⟩

/-- A listener is told of whatever changes next as often as its subscriptions stand. -/
def IsFair (h : Hall) (l : Listening) : Prop :=
  ∀ e, (h.after (.news e)).tree.toldTo l = h.tree.toldTo l ++ List.replicate (h.standing l) e

/-- What has been called before is called again while a subscription of its listener stands. -/
def Robs (h : Hall) (l : Listening) (n : Nat) : Prop :=
  h.tickets[n]? = some ⟨l, true⟩ ∧ 0 < h.standing l

variable {h : Hall} {l : Listening}

/-! ## One dealing -/

theorem told_next (h : Hall) (l : Listening) (e : TreeEvent) : (h.after (.news e)).tree.toldTo l =
    h.tree.toldTo l ++ List.replicate (h.tree.listeners.count l) e :=
  Tree.toldTo_append (t := h.tree) rfl l

theorem isFair_iff : h.IsFair l ↔ h.tree.listeners.count l = h.standing l := by
  constructor
  · intro hfair
    have hsame := (h.told_next l .refreshed).symm.trans (hfair .refreshed)
    have hlength := congrArg List.length (List.append_cancel_left hsame)
    simpa using hlength
  · intro heq e
    rw [told_next, heq]

theorem standing_subscribe (h : Hall) (k l : Listening) :
    (h.after (.subscribe k)).standing l = h.standing l + if k = l then 1 else 0 := by
  by_cases hk : k = l <;> simp [after, standing, List.count_append, hk]

theorem count_subscribe (h : Hall) (k l : Listening) :
    (h.after (.subscribe k)).tree.listeners.count l =
      h.tree.listeners.count l + if k = l then 1 else 0 := by
  by_cases hk : k = l <;>
    simp [after, Tree.subscribe, List.count_append, hk]

/-- It is the listener that is taken away, once, if it is there. -/
theorem count_cancel {n : Nat} {k : Ticket} (hn : h.tickets[n]? = some k) (l : Listening) :
    (h.after (.cancel n)).tree.listeners.count l =
      h.tree.listeners.count l - if k.listener = l then 1 else 0 := by
  by_cases hk : k.listener = l <;> simp [after, hn, Tree.unsubscribe, List.count_erase, hk]

/-- A subscription can be cancelled only once. -/
theorem standing_cancel {n : Nat} {k : Ticket} (hn : h.tickets[n]? = some k) (l : Listening) :
    (h.after (.cancel n)).standing l = h.standing l - if k = ⟨l, false⟩ then 1 else 0 := by
  obtain ⟨hlt, hget⟩ := List.getElem?_eq_some_iff.mp hn
  simp only [after, hn, standing, List.count_set hlt, hget]
  simp

/-- A listener has no more than what stands, one dealing after another. -/
theorem count_le_after (hle : h.tree.listeners.count l ≤ h.standing l) (d : Dealing) :
    (h.after d).tree.listeners.count l ≤ (h.after d).standing l := by
  cases d with
  | subscribe k =>
    rw [count_subscribe, standing_subscribe]
    exact Nat.add_le_add_right hle _
  | cancel n =>
    cases hn : h.tickets[n]? with
    | none => simpa [after, hn] using hle
    | some k =>
      rw [count_cancel hn, standing_cancel hn]
      by_cases hk : k = ⟨l, false⟩
      · simp only [hk, if_true]
        exact Nat.sub_le_sub_right hle 1
      · rw [if_neg hk]
        exact Nat.le_trans (Nat.sub_le _ _) hle
  | news e => exact hle

/-- A call takes the subscription away that it is for, unless that has gone before. -/
theorem isFair_cancel_iff {n : Nat} (hfair : h.IsFair l) :
    (h.after (.cancel n)).IsFair l ↔ ¬h.Robs l n := by
  rw [isFair_iff] at hfair ⊢
  cases hn : h.tickets[n]? with
  | none => simpa [after, hn, Robs] using hfair
  | some k =>
    rw [count_cancel hn, standing_cancel hn, hfair]
    obtain ⟨j, called⟩ := k
    by_cases hj : j = l
    · subst hj
      cases called with
      | false => simp [Robs, hn]
      | true =>
        -- the listener is taken away all the same
        simp [Robs, hn]
        omega
    · simp [Robs, hn, hj]

/-- A new listener, and the telling of a change, leave everybody with what they have. -/
theorem IsFair.after (hfair : h.IsFair l) {d : Dealing} (hd : ∀ n, d = .cancel n → ¬h.Robs l n) :
    (h.after d).IsFair l := by
  cases d with
  | subscribe k =>
    rw [isFair_iff] at hfair ⊢
    rw [count_subscribe, standing_subscribe, hfair]
  | cancel n => exact (isFair_cancel_iff hfair).mpr (hd n rfl)
  | news e =>
    have heq := isFair_iff.mp hfair
    exact isFair_iff.mpr heq

/-! ## Many dealings -/

theorem afterAll_concat (h : Hall) (ds : List Dealing) (d : Dealing) :
    h.afterAll (ds ++ [d]) = (h.afterAll ds).after d := List.foldl_concat ..

theorem count_le_afterAll (hle : h.tree.listeners.count l ≤ h.standing l) (ds : List Dealing) :
    (h.afterAll ds).tree.listeners.count l ≤ (h.afterAll ds).standing l := by
  induction ds using List.reverseRecOn with
  | nil => exact hle
  | append_singleton ds d ih =>
    rw [afterAll_concat]
    exact count_le_after ih d

theorem isFair_throughout_iff (hfair : h.IsFair l) (ds : List Dealing) :
    (∀ before, before <+: ds → (h.afterAll before).IsFair l) ↔
      ∀ before n rest, ds = before ++ .cancel n :: rest → ¬(h.afterAll before).Robs l n := by
  constructor
  · rintro hall before n rest rfl
    have hbefore := hall before (List.prefix_append _ _)
    have hafter := hall (before ++ [.cancel n]) (by simp)
    rw [afterAll_concat] at hafter
    exact (isFair_cancel_iff hbefore).mp hafter
  · intro hnone before
    induction before using List.reverseRecOn with
    | nil => exact fun _ => hfair
    | append_singleton before d ih =>
      rintro ⟨rest, hds⟩
      have hsplit : ds = before ++ d :: rest := by simp [← hds]
      rw [afterAll_concat]
      refine (ih ⟨d :: rest, hsplit.symm⟩).after fun n hd => ?_
      exact hnone before n rest (hd ▸ hsplit)

/-! ## What an audience sees -/

/-- Nothing is to be seen of a call before there is anything to call. -/
def occasion? (h : Hall) : Dealing → Option Occasion
  | .subscribe l => some (.listening (.subscribe l))
  | .cancel n => h.tickets[n]?.map fun k => .listening (.unsubscribe k.listener)
  | .news e => some (.news e)

def occasions (h : Hall) : List Dealing → List Occasion
  | [] => []
  | d :: ds => (h.occasion? d).toList ++ (h.after d).occasions ds

end Hall

namespace Tree

/-- Who listens, and what everybody has been told: a tree as its audience knows it. -/
def audience (t : Tree) : Tree := ({} : Tree).before t.listeners t.deliveries

def occur (t : Tree) : Occasion → Tree
  | .news e => t.tell e
  | .listening x => t.subscriptionChange x

theorem audience_occur (t : Tree) (o : Occasion) : (t.occur o).audience = t.audience.occur o := by
  cases o with
  | news e => rfl
  | listening x => cases x <;> rfl

theorem audience_foldl_occur (os : List Occasion) (t : Tree) :
    (os.foldl occur t).audience = os.foldl occur t.audience := by
  induction os generalizing t with
  | nil => rfl
  | cons o os ih => rw [List.foldl_cons, ih, audience_occur, List.foldl_cons]

theorem foldl_occur_listening (xs : List Subscription) (t : Tree) :
    (xs.map Occasion.listening).foldl occur t = xs.foldl subscriptionChange t := by
  rw [List.foldl_map]
  rfl

/-- What listeners do about each other when they are told of a change, one after another. -/
def reactions (c : Conduct) (e : TreeEvent) : List Listening → Tree → List Subscription
  | [], _ => []
  | l :: ls, t =>
    (c l e { t with deliveries := t.deliveries ++ [(l, e)] }).subscriptions ++
      reactions c e ls (heeded c e t l)

/-- Who listens in the end depends only on who has listened before. -/
theorem listeners_foldl_subscriptionChange (xs : List Subscription) {t u : Tree}
    (h : t.listeners = u.listeners) :
    (xs.foldl subscriptionChange t).listeners = (xs.foldl subscriptionChange u).listeners := by
  induction xs generalizing t u with
  | nil => exact h
  | cons x xs ih =>
    refine ih ?_
    cases x with
    | subscribe l => exact congrArg (· ++ [l]) h
    | unsubscribe l => exact congrArg (·.erase l) h

theorem listeners_foldl_heeded (c : Conduct) (e : TreeEvent) (ls : List Listening) (t : Tree) :
    (ls.foldl (heeded c e) t).listeners =
      ((reactions c e ls t).foldl subscriptionChange t).listeners := by
  induction ls generalizing t with
  | nil => rfl
  | cons l ls ih =>
    rw [List.foldl_cons, ih, reactions, List.foldl_append]
    refine listeners_foldl_subscriptionChange _ ?_
    exact listeners_foldl_subscriptionChange _ rfl

/-- That listeners do something about each other while a change is told comes to the same as if they did
it when everybody had been told. -/
theorem audience_foldl_heeded (c : Conduct) (e : TreeEvent) (t : Tree) :
    (t.listeners.foldl (heeded c e) t).audience =
      (reactions c e t.listeners t).foldl subscriptionChange (t.tell e).audience := by
  have hlisteners : (t.listeners.foldl (heeded c e) t).listeners =
      ((reactions c e t.listeners t).foldl subscriptionChange (t.tell e).audience).listeners :=
    (listeners_foldl_heeded c e t.listeners t).trans (listeners_foldl_subscriptionChange _ rfl)
  have hdeliveries := congrArg deliveries (foldl_heeded_before (c := c) (e := e) t.listeners t)
  rw [foldl_subscriptionChange_before, ← hlisteners]
  exact congrArg (({} : Tree).before _) hdeliveries

end Tree

/-! ## Runs -/

namespace Forest

variable {σ : Type} {b : Backend σ} {c : Conduct} {s : Forest σ}

/-- What the audience sees of a run, in order. Listeners who do something about each other do so after the
change has been told to all. -/
def course (c : Conduct) (b : Backend σ) : List Doing → Forest σ → List Occasion
  | [], _ => []
  | .operation p :: xs, s =>
    let (r, u) := (p.announcing (Announcing.emitting c) b.engine).runFrom s
    let seen := match p.news? r with
      | some e =>
        let told := u.tree.before s.tree.listeners s.tree.deliveries
        .news e :: (Tree.reactions c e s.tree.listeners told).map .listening
      | none => []
    seen ++ course c b xs u
  | .listening x :: xs, s =>
    .listening x :: course c b xs { s with tree := s.tree.subscriptionChange x }

/-- A run leads its audience through what is seen of it. -/
theorem audience_attend (xs : List Doing) : ∀ {s : Forest σ}, s.tree.flights = [] →
    (attend c b xs s).2.tree.audience = (course c b xs s).foldl Tree.occur s.tree.audience := by
  induction xs with
  | nil => exact fun _ => rfl
  | cons x xs ih =>
    intro s hs
    cases x with
    | operation p =>
      obtain ⟨r, u, h⟩ := tells b p hs
      let before := u.tree.before s.tree.listeners s.tree.deliveries
      have hrun : (p.announcing (Announcing.emitting c) b.engine).runFrom s =
          (r, ⟨(p.news? r).elim before fun e => s.tree.listeners.foldl (Tree.heeded c e) before,
            u.world⟩) := h.runs_emitting c s.tree.listeners s.tree.deliveries
      rw [attend_operation hrun]
      simp only [course, hrun, List.foldl_append]
      cases p.news? r with
      | none => exact ih h.idle
      | some e =>
        have hbefore := Tree.foldl_heeded_before (c := c) (e := e) s.tree.listeners before
        have hidle := (congrArg Tree.flights hbefore).trans h.idle
        -- who listened, and what had been told, before the change was told
        have htold : (s.tree.listeners.foldl (Tree.heeded c e) before).before s.tree.listeners
            s.tree.deliveries = before := by
          rw [hbefore]
          rfl
        refine (ih hidle).trans ?_
        simp only [Option.elim_some, htold, List.foldl_cons, Tree.foldl_occur_listening]
        exact congrArg (fun t => (course c b xs _).foldl Tree.occur t)
          (Tree.audience_foldl_heeded c e before)
    | listening x =>
      have hbefore := s.tree.subscriptionChange_before x
      have hidle := (congrArg Tree.flights hbefore).trans hs
      rw [attend, course, ih hidle, List.foldl_cons]
      exact congrArg (fun t => (course c b xs _).foldl Tree.occur t)
        (Tree.audience_occur s.tree (.listening x))

end Forest

namespace Hall

theorem tree_after (h : Hall) (d : Dealing) :
    (h.after d).tree = (h.occasion? d).toList.foldl Tree.occur h.tree := by
  cases d with
  | subscribe l => rfl
  | cancel n =>
    cases hn : h.tickets[n]? <;> simp [after, occasion?, hn, Tree.occur, Tree.subscriptionChange]
  | news e => rfl

theorem tree_afterAll (ds : List Dealing) (h : Hall) :
    (h.afterAll ds).tree = (h.occasions ds).foldl Tree.occur h.tree := by
  induction ds generalizing h with
  | nil => rfl
  | cons d ds ih => rw [occasions, List.foldl_append, ← tree_after]; exact ih _

end Hall

namespace Forest

variable {σ : Type}

/-- The second listener calls twice what the first subscription has returned, whenever it is told of
anything. -/
def meddling : Conduct := fun l _ _ =>
  if l = 1 then { subscriptions := [.unsubscribe 0, .unsubscribe 0] } else {}

end Forest

end AssemblyBrowser
