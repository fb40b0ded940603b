import AssemblyBrowser.Proofs.FileSystem
import AssemblyBrowser.Proofs.FileSystem.Resolution
/-!
Where a path is resolved to. Main statements: unless a link leads back to itself, or one on the way cannot
be looked at, no link is on the way to the place that comes out; unless one on the way cannot be looked
at, a path that leads somewhere is resolved to the place it leads to.
-/
namespace AssemblyBrowser

namespace Resolve

variable (m : Machine) {s t : State}

/-- A link is to be followed and cannot be looked at. -/
def Overlooks (s : State) : Prop := ∃ n todo target, s.todo = .name n :: todo ∧ n ≠ ".." ∧
  m.root.find? (m.place s.here ++ [n]) = some (.link target) ∧ m.linkTarget? s.here n = none

variable {m}

/-- What has been written leads through no link. -/
theorem linkFree_moves (hs : s.All fun p => m.LinkFree (m.place p)) (hsees : ¬Overlooks m s)
    (h : Moves m s t) : t.All fun p => m.LinkFree (m.place p) := by
  refine hs.moves (hs.here.above List.nil_prefix) (fun p hp => ?_)
    (fun n todo htodo hname htarget => ?_) h
  · rw [m.place_up]
    exact hp.dropLast
  · rw [m.place_child _ hname]
    exact hs.here.concat fun target hlink => hsees ⟨n, todo, target, htodo, hname, hlink, htarget⟩

end Resolve

namespace Machine

variable (m : Machine) {p : Path}

/-- On the way of a path there is a link that cannot be looked at. -/
def Overlooks (p : Path) : Prop :=
  ∃ s, Resolve.Reaches m (Resolve.begin p) s ∧ Resolve.Overlooks m s

/-- On the way of a path there is a link that leads back to itself. -/
def TurnsBack (p : Path) : Prop :=
  ∃ s, Resolve.Reaches m (Resolve.begin p) s ∧ Resolve.TurnsBack m s

theorem not_overlooks_of_plain (h : ∀ q target, m.root.find? q ≠ some (.link target)) :
    ¬m.Overlooks p := by
  rintro ⟨s, -, n, todo, target, -, -, hlink, -⟩
  exact h _ target hlink

@[simp] theorem place_begin (p : Path) : m.place (Resolve.begin p).here = m.start p := by
  unfold Resolve.begin place start
  split <;> rfl

variable {m}

/-- The place that comes out is free of links. -/
theorem Sound.linkFree_canonical (hm : m.Sound) (hsees : ¬m.Overlooks p) (hturns : ¬m.TurnsBack p) :
    m.LinkFree (m.canonical p) := by
  have hreach : ∀ {s}, Resolve.Reaches m (Resolve.begin p) s →
      s.All fun q => m.LinkFree (m.place q) := by
    intro s h
    induction h with
    | refl => exact Resolve.begin_all (m.place_begin p ▸ hm.linkFree_start p)
    | tail hbefore hmove ih => exact Resolve.linkFree_moves ih (fun h => hsees ⟨_, hbefore, h⟩) hmove
  obtain ⟨s, hs, hend⟩ := Resolve.begin_ends m p
  rcases hend with ⟨-, hrun⟩ | ⟨-, -, hback, -⟩
  · unfold canonical
    rw [hrun]
    exact (hreach hs).here
  · exact absurd ⟨s, hs, hback⟩ hturns

end Machine

/-! ## Clean names -/

/-- All names of a path are clean. -/
def Path.Clean (p : Path) : Prop := ∀ n ∈ p.parts, CleanName n

theorem Path.Clean.append {p : Path} (hp : p.Clean) {names : List String}
    (hnames : ∀ n ∈ names, CleanName n) : (⟨p.anchor, p.parts ++ names⟩ : Path).Clean :=
  fun n hn => (List.mem_append.mp hn).elim (hp n) (hnames n)

theorem Path.Clean.up {p : Path} (hp : p.Clean) : p.up.Clean := by
  have hups : (p.child "..").Clean := hp.append fun n hn => by
    obtain rfl := List.mem_singleton.mp hn
    exact ⟨by decide, by decide, by decide, by decide⟩
  unfold Path.up
  split
  · split
    · exact hups
    · exact hp
  · split
    · exact hups
    · exact fun n hn => hp n (List.mem_of_mem_dropLast hn)

namespace Resolve

variable {m : Machine} {s t : State}

/-- All names that have been written or are to be followed are clean. -/
structure State.Clean (s : State) : Prop where
  written : s.All Path.Clean
  ahead : ∀ n ∈ remaining s.todo, CleanName n

theorem State.Clean.moves (hm : m.Sound) (hs : s.Clean) (h : Moves m s t) : t.Clean := by
  refine ⟨hs.written.moves (fun n hn => absurd hn List.not_mem_nil) (fun _ hp => hp.up)
    (fun n todo htodo _ _ => hs.written.here.append fun n' hn' => ?_) h, ?_⟩
  · obtain rfl := List.mem_singleton.mp hn'
    exact hs.ahead _ (by rw [htodo]; exact List.mem_cons_self)
  · cases h with
    | finish => exact hs.ahead
    | up => exact fun n hn => hs.ahead n (List.mem_cons_of_mem _ hn)
    | enter => exact fun n hn => hs.ahead n (List.mem_cons_of_mem _ hn)
    | reuse => exact fun n hn => hs.ahead n (List.mem_cons_of_mem _ hn)
    | follow _ htarget =>
      have hproper := (hm.proper.find? (m.linkTarget?_eq_some htarget).2).2
      intro n hn
      simp only [remaining, List.filterMap_append, List.filterMap_map, List.mem_append,
        List.mem_filterMap, Function.comp_apply, Option.some.injEq, exists_eq_right,
        List.filterMap_cons] at hn
      rcases hn with hn | hn
      · exact Path.cleanName_of_mem_names hproper hn
      · exact hs.ahead n (List.mem_cons_of_mem _ (List.mem_filterMap.mpr hn))

end Resolve

namespace Machine

variable {m : Machine} {p : Path}

/-- A place that is reached from a clean one by clean names is clean. -/
theorem foldl_enter_clean {names : List String} {pos : Position} (hpos : ∀ n ∈ pos, CleanName n)
    (hnames : ∀ n ∈ names, CleanName n) : ∀ n ∈ names.foldl Position.enter pos, CleanName n := by
  induction names generalizing pos with
  | nil => exact hpos
  | cons n names ih =>
    obtain ⟨hn, hnames⟩ := List.forall_mem_cons.mp hnames
    refine ih (fun n' hn' => ?_) hnames
    unfold Position.enter at hn'
    split at hn'
    · exact hpos n' (List.mem_of_mem_dropLast hn')
    · rcases List.mem_append.mp hn' with hn' | hn'
      · exact hpos n' hn'
      · exact List.mem_singleton.mp hn' ▸ hn

/-- A clean path is resolved to a clean place. -/
theorem Sound.clean_canonical (hm : m.Sound) (hp : p.Clean) : ∀ n ∈ m.canonical p, CleanName n := by
  have hstart : ∀ n ∈ m.start (Resolve.run m (Resolve.fuel m p) (Resolve.begin p)), CleanName n := by
    obtain ⟨es, hes⟩ := hm.working
    unfold start
    split
    · exact fun n hn => ((hm.proper.find? hes).1 n hn).toCleanName
    · exact fun n hn => absurd hn List.not_mem_nil
  refine foldl_enter_clean hstart ?_
  have hreach : ∀ {s}, Resolve.Reaches m (Resolve.begin p) s → s.Clean := by
    intro s h
    induction h with
    | refl =>
      refine ⟨Resolve.begin_all fun n hn => absurd hn List.not_mem_nil, fun n hn => hp n ?_⟩
      simpa [Resolve.remaining, Resolve.begin, List.filterMap_map, Function.comp_def] using hn
    | tail _ hmove ih => exact ih.moves hm hmove
  obtain ⟨s, hs, hend⟩ := Resolve.begin_ends m p
  have hclean := hreach hs
  rcases hend with ⟨-, hrun⟩ | ⟨n, todo, -, htodo, hrun⟩
  · rw [hrun]
    exact hclean.written.here
  · rw [hrun]
    have hahead : ∀ n' ∈ n :: Resolve.remaining todo, CleanName n' := by
      have := hclean.ahead
      rw [htodo] at this
      exact this
    simp only [Resolve.State.rest, Path.child, List.append_assoc, List.singleton_append]
    exact hclean.written.here.append hahead

end Machine

/-! ## Agreement with the system -/

namespace Resolve

variable (m : Machine) {s t : State}

/-- From where a link stands its target leads to a place in so many steps. -/
def LinkLeads (k : Nat) (link : Path) (dest : Position) : Prop :=
  ∃ target, m.root.find? (m.place link) = some (.link target) ∧
    m.Leads k (Machine.linkBase (m.place link).dropLast target) (Path.names target) dest

/-- The links that have been followed lead to where it is written that they do. -/
def Knows (seen : List (Path × Option Path)) : Prop :=
  ∀ link p, seen.lookup link = some (some p) → ∃ k, LinkLeads m k link (m.place p)

/-- The links that are being followed need at least so many steps. -/
def Occupied (k : Nat) (seen : List (Path × Option Path)) : Prop :=
  ∀ link, seen.lookup link = some none → ∀ j dest, LinkLeads m j link dest → k ≤ j

/-- No step to come overlooks a link. -/
def Clear (s : State) : Prop := ∀ t, Reaches m s t → ¬Overlooks m t

/-- Steps lead to a place, what is left to do then is `todo`, and no other link is being followed. -/
def Arrives (s : State) (todo : List Todo) (dest : Position) : Prop :=
  ∃ seen here, Reaches m s ⟨seen, here, todo⟩ ∧ m.place here = dest ∧ Knows m seen ∧
    ∀ link, seen.lookup link = some none → s.seen.lookup link = some none

variable {m} {k j : Nat} {link here : Path} {n target : String} {dest dest' : Position}
  {seen : List (Path × Option Path)} {todo : List Todo}

theorem LinkLeads.unique (h : LinkLeads m k link dest) (h' : LinkLeads m j link dest') :
    k = j ∧ dest = dest' := by
  obtain ⟨target, hlink, hleads⟩ := h
  obtain ⟨target', hlink', hleads'⟩ := h'
  cases hlink.symm.trans hlink'
  exact hleads.unique hleads'

theorem linkLeads_child (hname : n ≠ "..")
    (hlink : m.root.find? (m.place here ++ [n]) = some (.link target))
    (h : m.Leads k (Machine.linkBase (m.place here) target) (Path.names target) dest) :
    LinkLeads m k (here.child n) dest := by
  refine ⟨target, ?_, ?_⟩
  · rw [m.place_child _ hname, hlink]
  · rw [m.place_child _ hname, List.dropLast_concat]
    exact h

theorem place_linkStart (here : Path) (target : String) :
    m.place (linkStart here target) = Machine.linkBase (m.place here) target := by
  unfold linkStart Machine.linkBase
  split <;> rfl

theorem Clear.moves (hs : Clear m s) (h : Moves m s t) : Clear m t :=
  fun u hu => hs u (.head h hu)

theorem Clear.reaches (hs : Clear m s) (h : Reaches m s t) : Clear m t :=
  fun u hu => hs u (h.trans hu)

theorem Arrives.head (h : Moves m s t) (hopen : t.seen = s.seen) (ht : Arrives m t todo dest) :
    Arrives m s todo dest := by
  obtain ⟨seen, here, hreach, hplace, hknows, hshrinks⟩ := ht
  exact ⟨seen, here, .head h hreach, hplace, hknows, hopen ▸ hshrinks⟩

theorem lookup_cons (link' : Path) (known : Option Path) :
    ((link', known) :: seen).lookup link = if link = link' then some known else seen.lookup link := by
  rw [List.lookup_cons]
  split
  · rename_i heq
    rw [if_pos (eq_of_beq heq)]
  · rename_i hne
    rw [if_neg (ne_of_beq_false hne)]

theorem knows_nil : Knows m [] := fun _ _ h => by cases h

theorem occupied_nil : Occupied m k [] := fun _ h => by cases h

theorem Knows.follow (h : Knows m seen) : Knows m ((here, none) :: seen) := by
  intro link p hlookup
  rw [lookup_cons] at hlookup
  split at hlookup
  · cases hlookup
  · exact h link p hlookup

/-- A link whose target has been followed leads to where it has led. -/
theorem Knows.finish {known : Path} (h : Knows m seen) (hleads : LinkLeads m k here (m.place known)) :
    Knows m ((here, some known) :: seen) := by
  intro link p hlookup
  rw [lookup_cons] at hlookup
  split at hlookup
  · rename_i heq
    cases hlookup
    exact ⟨k, heq ▸ hleads⟩
  · exact h link p hlookup

theorem Occupied.mono (h : Occupied m k seen) (hj : j ≤ k) : Occupied m j seen :=
  fun link hlookup i dest hleads => Nat.le_trans hj (h link hlookup i dest hleads)

theorem Occupied.follow (h : Occupied m k seen) (hleads : LinkLeads m k here dest) :
    Occupied m k ((here, none) :: seen) := by
  intro link hlookup j dest' hleads'
  rw [lookup_cons] at hlookup
  split at hlookup
  · rename_i heq
    subst heq
    exact Nat.le_of_eq (hleads.unique hleads').1
  · exact h link hlookup j dest' hleads'

theorem linkTarget?_eq_none
    (hplain : ∀ target, m.root.find? (m.place here ++ [n]) ≠ some (.link target)) :
    m.linkTarget? here n = none := by
  cases htarget : m.linkTarget? here n with
  | none => rfl
  | some target => exact absurd (m.linkTarget?_eq_some htarget).2 (hplain target)

theorem Clear.linkTarget?_eq (hs : Clear m ⟨seen, here, .name n :: todo⟩) (hname : n ≠ "..")
    (hlink : m.root.find? (m.place here ++ [n]) = some (.link target)) :
    m.linkTarget? here n = some target := by
  cases htarget : m.linkTarget? here n with
  | none => exact absurd ⟨n, todo, target, rfl, hname, hlink, htarget⟩ (hs _ .refl)
  | some target' =>
    cases hlink.symm.trans (m.linkTarget?_eq_some htarget).2
    rfl

/-- Steps lead to where the names lead. The induction is on the number of steps of the system: a link
that is being followed needs more of them than are left, so that it is not met again. -/
theorem arrives_of_leads (k : Nat) : ∀ {names : List String} {seen : List (Path × Option Path)}
    {here : Path} {todo : List Todo}, m.Leads k (m.place here) names dest → Knows m seen →
    Occupied m k seen → Clear m ⟨seen, here, names.map .name ++ todo⟩ →
    Arrives m ⟨seen, here, names.map .name ++ todo⟩ todo dest := by
  induction k using Nat.strongRecOn generalizing dest with
  | ind k ih =>
  intro names seen here todo hleads hknows hoccupied hclear
  generalize hpos : m.place here = pos at hleads
  cases hleads with
  | done => exact ⟨seen, here, .refl, hpos, hknows, fun _ h => h⟩
  | up hrest =>
    rw [← hpos, ← m.place_up] at hrest
    exact .head .up rfl (ih _ (Nat.lt_succ_self _) hrest hknows (hoccupied.mono (Nat.le_succ _))
      (hclear.moves .up))
  | @enter _ _ _ n _ hname hplain hrest =>
    rw [← hpos] at hplain
    rw [← hpos, ← m.place_child here hname] at hrest
    have htarget := linkTarget?_eq_none hplain
    exact .head (.enter hname htarget) rfl (ih _ (Nat.lt_succ_self _) hrest hknows
      (hoccupied.mono (Nat.le_succ _)) (hclear.moves (.enter hname htarget)))
  | @follow k _ _ n target rest hname hlink hrest =>
    rw [← hpos] at hlink hrest
    have htarget := hclear.linkTarget?_eq hname hlink
    obtain ⟨i, j, mid, hfirst, hlast, hk⟩ := hrest.split
    have hchild := linkLeads_child hname hlink hfirst
    cases hseen : seen.lookup (here.child n) with
    | some known =>
      cases known with
      | none =>
        -- its target would need more steps than are left
        have := hoccupied _ hseen _ _ hchild
        omega
      | some known =>
        obtain ⟨i', hknown⟩ := hknows _ _ hseen
        obtain ⟨-, rfl⟩ := hchild.unique hknown
        exact .head (.reuse hname htarget hseen) rfl
          (ih j (by omega) hlast hknows (hoccupied.mono (by omega))
            (hclear.moves (.reuse hname htarget hseen)))
    | none =>
      have hmove : Moves m ⟨seen, here, .name n :: (rest.map .name ++ todo)⟩ _ :=
        .follow hname htarget hseen
      rw [← place_linkStart] at hfirst
      obtain ⟨seen', here', hreach, rfl, hknows', hshrinks⟩ := ih i (by omega) hfirst hknows.follow
        ((hoccupied.mono (by omega)).follow hchild) (hclear.moves hmove)
      -- the link is no longer being followed, and no other one is
      have hshrinks : ∀ link, List.lookup link ((here.child n, some here') :: seen') = some none →
          seen.lookup link = some none := by
        intro link hlookup
        rw [lookup_cons] at hlookup
        split at hlookup
        · cases hlookup
        · rename_i hne
          have hbefore := hshrinks link hlookup
          rwa [lookup_cons, if_neg hne] at hbefore
      obtain ⟨seen'', here'', hreach', hplace, hknows'', hshrinks'⟩ := ih j (by omega) hlast
        (hknows'.finish hchild) (fun link h => hoccupied.mono (by omega) link (hshrinks link h))
        (((hclear.moves hmove).reaches hreach).moves .finish)
      exact ⟨seen'', here'', .head hmove (hreach.trans (.head .finish hreach')), hplace, hknows'',
        fun link h => hshrinks link (hshrinks' link h)⟩

/-- Steps do not depend on what is left to do after them. -/
theorem Moves.frame (h : Moves m s t) (more : List Todo) :
    Moves m ⟨s.seen, s.here, s.todo ++ more⟩ ⟨t.seen, t.here, t.todo ++ more⟩ := by
  cases h with
  | finish => exact .finish
  | up => exact .up
  | enter hname htarget => exact .enter hname htarget
  | reuse hname htarget hseen => exact .reuse hname htarget hseen
  | follow hname htarget hseen =>
    dsimp only
    rw [List.append_assoc]
    exact .follow hname htarget hseen

theorem Reaches.frame (h : Reaches m s t) (more : List Todo) :
    Reaches m ⟨s.seen, s.here, s.todo ++ more⟩ ⟨t.seen, t.here, t.todo ++ more⟩ := by
  induction h with
  | refl => exact .refl
  | tail _ hmove ih => exact ih.tail (hmove.frame more)

end Resolve

/-- A path below a path. -/
def Path.within (p : Path) (names : List String) : Path := ⟨p.anchor, p.parts ++ names⟩

namespace Path

@[simp] theorem within_nil (p : Path) : p.within [] = p := by
  rw [within, List.append_nil]

theorem within_concat (p : Path) (names : List String) (n : String) :
    p.within (names ++ [n]) = (p.within names).child n := by
  rw [within, child, within, List.append_assoc]

theorem within_cons (p : Path) (n : String) (names : List String) :
    p.within (n :: names) = (p.child n).within names := by
  rw [within, within, child, List.append_assoc, List.singleton_append]

end Path

namespace Machine

variable (m : Machine) {p : Path} {pos : Position}

/-- Following the names of a path comes to its end at a place. -/
def Settles (p : Path) (pos : Position) : Prop :=
  ∃ seen here, Resolve.Reaches m (Resolve.begin p) ⟨seen, here, []⟩ ∧ m.place here = pos

variable {m}

theorem Settles.canonical_eq (h : m.Settles p pos) : m.canonical p = pos := by
  obtain ⟨seen, here, hreach, rfl⟩ := h
  have hend := Resolve.ends_unique (Resolve.begin_ends m p) hreach rfl
  rw [canonical, hend]

/-- A path that leads somewhere settles there. -/
theorem settles_of_stat {e : Entry} (hs : m.stat p = .ok (pos, e)) (hsees : ¬m.Overlooks p) :
    m.Settles p pos := by
  obtain ⟨-, -, hwalk, -⟩ := m.stat_ok_iff.mp hs
  obtain ⟨k, hleads⟩ := m.leads_of_walk hwalk
  rw [← m.place_begin] at hleads
  have hbegin : Resolve.begin p = ⟨[], (Resolve.begin p).here, p.parts.map .name ++ []⟩ := by
    rw [List.append_nil]
    rfl
  have hclear : Resolve.Clear m ⟨[], (Resolve.begin p).here, p.parts.map .name ++ []⟩ :=
    fun s hs h => hsees ⟨s, hbegin ▸ hs, h⟩
  obtain ⟨seen, here, hreach, hplace, -⟩ :=
    Resolve.arrives_of_leads k hleads Resolve.knows_nil Resolve.occupied_nil hclear
  exact ⟨seen, here, hbegin ▸ hreach, hplace⟩

/-- Below the place where a path settles, a name that is no link is entered. -/
theorem Settles.child (h : m.Settles p pos) {n : String} (hname : n ≠ "..")
    (hplain : ∀ target, m.root.find? (pos ++ [n]) ≠ some (.link target)) :
    m.Settles (p.child n) (pos ++ [n]) := by
  obtain ⟨seen, here, hreach, rfl⟩ := h
  have htarget := Resolve.linkTarget?_eq_none hplain
  have hbegin : Resolve.begin (p.child n) =
      ⟨[], (Resolve.begin p).here, (Resolve.begin p).todo ++ [.name n]⟩ := by
    unfold Resolve.begin
    rw [Path.child, List.map_append, List.map_singleton]
  exact ⟨seen, here.child n, hbegin ▸ (hreach.frame [.name n]).tail (.enter hname htarget),
    m.place_child _ hname⟩

theorem Settles.within (h : m.Settles p pos) {names : List String} (hnames : ".." ∉ names)
    (hfree : m.LinkFree (pos ++ names)) : m.Settles (p.within names) (pos ++ names) := by
  induction names using List.reverseRecOn with
  | nil => simpa using h
  | append_singleton names n ih =>
    rw [List.mem_append, List.mem_singleton, not_or] at hnames
    rw [← List.append_assoc] at hfree ⊢
    rw [Path.within_concat]
    exact (ih hnames.1 (hfree.above (List.prefix_append _ _))).child (Ne.symm hnames.2)
      (hfree _ (List.prefix_refl _))

end Machine

end AssemblyBrowser
