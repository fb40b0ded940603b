import AssemblyBrowser.Proofs.FileSystem.Walk
import Mathlib.Algebra.Order.BigOperators.Group.Finset
import Mathlib.Logic.Relation
/-!
Following the names of a path to their end. A link can be written in several ways: from the root, or
from some place above the working directory. In each of them it is followed once, so that the weight of
the links that have not been followed pays for the names in their targets. Main statements: the fuel of
`Machine.canonical` is enough for every path, and the steps come to one end.
-/
namespace AssemblyBrowser

/-! ## The weight of links -/

namespace Entry

mutual
/-- The weight of the links whose places are not spent. -/
def unspent (spent : Position → Bool) (pos : Position) : Entry → Nat
  | .file .. => 0
  | .link target => if spent pos then 0 else (Path.names target).length + 1
  | .directory es => unspentList spent pos es

def unspentList (spent : Position → Bool) (pos : Position) : List (String × Entry) → Nat
  | [] => 0
  | (n, e) :: es => unspent spent (pos ++ [n]) e + unspentList spent pos es
end

mutual
theorem unspent_le (spent : Position → Bool) (pos : Position) :
    ∀ e, unspent spent pos e ≤ linkWeight e
  | .file .. => Nat.le_refl 0
  | .link target => by
    rw [unspent, linkWeight]
    split <;> omega
  | .directory es => by
    rw [unspent, linkWeight]
    exact unspentList_le spent pos es

theorem unspentList_le (spent : Position → Bool) (pos : Position) :
    ∀ es, unspentList spent pos es ≤ linkWeightList es
  | [] => Nat.le_refl 0
  | (n, e) :: es => by
    rw [unspentList, linkWeightList]
    exact Nat.add_le_add (unspent_le spent (pos ++ [n]) e) (unspentList_le spent pos es)
end

section

variable {spent spent' : Position → Bool}

mutual
theorem unspent_mono (hmore : ∀ q, spent q = true → spent' q = true) (pos : Position) :
    ∀ e, unspent spent' pos e ≤ unspent spent pos e
  | .file .. => Nat.le_refl 0
  | .link target => by
    rw [unspent, unspent]
    split
    · omega
    · rename_i hnot
      rw [if_neg fun h => hnot (hmore pos h)]
  | .directory es => by
    rw [unspent, unspent]
    exact unspentList_mono hmore pos es

theorem unspentList_mono (hmore : ∀ q, spent q = true → spent' q = true) (pos : Position) :
    ∀ es, unspentList spent' pos es ≤ unspentList spent pos es
  | [] => Nat.le_refl 0
  | (n, e) :: es => by
    rw [unspentList, unspentList]
    exact Nat.add_le_add (unspent_mono hmore (pos ++ [n]) e) (unspentList_mono hmore pos es)
end

/-- What is taken from an entry is taken from the directory. -/
theorem unspentList_spend (hmore : ∀ q, spent q = true → spent' q = true) {pos : Position}
    {n : String} {c : Entry} {es : List (String × Entry)} (hc : Assoc.find? n es = some c)
    {weight : Nat} (h : unspent spent' (pos ++ [n]) c + weight ≤ unspent spent (pos ++ [n]) c) :
    unspentList spent' pos es + weight ≤ unspentList spent pos es := by
  induction es with
  | nil => cases hc
  | cons e es ih =>
    obtain ⟨n', e⟩ := e
    rw [unspentList, unspentList]
    simp only [Assoc.find?] at hc
    split at hc
    · rename_i hn
      cases hc
      subst hn
      have hrest := unspentList_mono hmore pos es
      omega
    · have hhead := unspent_mono hmore (pos ++ [n']) e
      have hrest := ih hc
      omega

/-- The place of one more link takes its weight away. -/
theorem unspent_spend (hmore : ∀ q, spent q = true → spent' q = true) {target : String}
    (q : Position) : ∀ (pos : Position) {e : Entry},
    e.find? q = some (.link target) → spent (pos ++ q) = false → spent' (pos ++ q) = true →
    unspent spent' pos e + ((Path.names target).length + 1) ≤ unspent spent pos e := by
  induction q with
  | nil =>
    intro pos e h hspent hspent'
    cases h
    rw [List.append_nil] at hspent hspent'
    rw [unspent, unspent, hspent, hspent']
    simp
  | cons n q ih =>
    intro pos e h hspent hspent'
    rw [find?_cons] at h
    obtain ⟨c, hchild, hlink⟩ := Option.bind_eq_some_iff.mp h
    obtain ⟨es, rfl, hc⟩ := child?_eq_some hchild
    rw [List.append_cons] at hspent hspent'
    rw [unspent, unspent]
    exact unspentList_spend hmore hc (ih _ hlink hspent hspent')

end

/-- Where links have no weight, there is none. -/
theorem ne_link_of_linkWeight {e : Entry} (h : e.linkWeight = 0) (q : Position) (target : String) :
    e.find? q ≠ some (.link target) := by
  intro hlink
  have hspend : unspent (fun _ => true) [] e + ((Path.names target).length + 1) ≤
      unspent (fun _ => false) [] e := unspent_spend (fun _ _ => rfl) q [] hlink rfl rfl
  have hle := unspent_le (fun _ => false) [] e
  omega

end Entry

/-! ## The ways in which a link is written -/

namespace Path

/-- Names that are followed leave two dots only in front of a relative path. -/
inductive Tidy : Path → Prop
  | absolute (names : List String) : ".." ∉ names → Tidy (.ofPosition names)
  | relative (ups : Nat) (names : List String) : ".." ∉ names →
      Tidy ⟨.relative, List.replicate ups ".." ++ names⟩

namespace Tidy

variable {p : Path}

theorem child (h : p.Tidy) {n : String} (hn : n ≠ "..") : (p.child n).Tidy := by
  have hmem : ∀ {names : List String}, ".." ∉ names → ".." ∉ names ++ [n] := fun hnames hmem => by
    rcases List.mem_append.mp hmem with hmem | hmem
    · exact hnames hmem
    · exact hn (List.mem_singleton.mp hmem).symm
  cases h with
  | absolute names hnames => exact .absolute _ (hmem hnames)
  | relative ups names hnames =>
    rw [Path.child, List.append_assoc]
    exact .relative ups _ (hmem hnames)

theorem up (h : p.Tidy) : p.up.Tidy := by
  cases h with
  | absolute names hnames =>
    rcases List.eq_nil_or_concat' names with rfl | ⟨init, last, rfl⟩
    · exact .absolute [] hnames
    · rw [List.mem_append, List.mem_singleton, not_or] at hnames
      simp only [Path.up, ofPosition, List.getLast?_concat, Ne.symm hnames.2, if_false,
        List.dropLast_concat]
      exact .absolute init hnames.1
  | relative ups names hnames =>
    rcases List.eq_nil_or_concat' names with rfl | ⟨init, last, rfl⟩
    · have hup : (⟨.relative, List.replicate ups ".." ++ []⟩ : Path).up =
          ⟨.relative, List.replicate (ups + 1) ".." ++ []⟩ := by
        rw [List.append_nil, List.append_nil, List.replicate_succ']
        cases ups with
        | zero => rfl
        | succ ups =>
          simp only [Path.up, List.replicate_succ', List.getLast?_concat, if_true]
          rfl
      rw [hup]
      exact .relative (ups + 1) [] hnames
    · rw [List.mem_append, List.mem_singleton, not_or] at hnames
      rw [← List.append_assoc]
      simp only [Path.up, List.getLast?_concat, Ne.symm hnames.2, if_false, List.dropLast_concat]
      exact .relative ups init hnames.1

end Tidy

/-- A path is no shorter than the slashes between its names. -/
theorem length_parts_le (p : Path) : p.parts.length ≤ p.text.utf8ByteSize + 1 := by
  have hslashes : ∀ names : List String,
      names.length ≤ ("/".intercalate names).utf8ByteSize + 1 := by
    intro names
    induction names with
    | nil => simp
    | cons n names ih =>
      cases names with
      | nil => simp
      | cons n' names =>
        have hslash : "/".utf8ByteSize = 1 := by decide
        rw [String.intercalate_cons_cons, String.utf8ByteSize_append, String.utf8ByteSize_append,
          hslash]
        rw [List.length_cons]
        omega
  unfold text
  split
  · rename_i h
    simp_all
  · rw [String.utf8ByteSize_append]
    have := hslashes p.parts
    omega

end Path

namespace Machine

variable (m : Machine)

/-- The path that is written for a place: from the root, or from so many places above the working
directory. -/
def written (form : Nat) (pos : Position) : Path :=
  match form with
  | 0 => .ofPosition pos
  | ups + 1 => ⟨.relative, List.replicate ups ".." ++ pos.drop (m.workingDirectory.length - ups)⟩

/-- A tidy path is one of those written for its place, and it has a name for each place above. -/
theorem exists_written {here : Path} (h : here.Tidy) {n : String} (hn : n ≠ "..") :
    ∃ form, form ≤ (here.child n).parts.length ∧
      here.child n = m.written form (m.place (here.child n)) := by
  have hmem : ∀ {names : List String}, ".." ∉ names → ".." ∉ names ++ [n] := by
    intro names hnames hmem
    rcases List.mem_append.mp hmem with hmem | hmem
    · exact hnames hmem
    · exact hn (List.mem_singleton.mp hmem).symm
  cases h with
  | absolute names hnames =>
    refine ⟨0, Nat.zero_le _, ?_⟩
    have hplace : m.place ((Path.ofPosition names).child n) = names ++ [n] :=
      Position.foldl_enter (hmem hnames) []
    rw [hplace]
    rfl
  | relative ups names hnames =>
    refine ⟨ups + 1, by simp [Path.child], ?_⟩
    have hplace : m.place ((⟨.relative, List.replicate ups ".." ++ names⟩ : Path).child n) =
        m.workingDirectory.take (m.workingDirectory.length - ups) ++ (names ++ [n]) := by
      rw [Path.child, List.append_assoc, place, List.foldl_append, Position.foldl_enter_ups,
        Position.foldl_enter (hmem hnames)]
      rfl
    have hlength : (m.workingDirectory.take (m.workingDirectory.length - ups)).length =
        m.workingDirectory.length - ups := by
      rw [List.length_take]
      omega
    rw [hplace, written, List.drop_left' hlength, Path.child, List.append_assoc]

/-- A link that can be looked at stands in the tree, and its path is not too long. -/
theorem linkTarget?_eq_some {here : Path} {n target : String}
    (h : m.linkTarget? here n = some target) : (here.child n).parts.length ≤ pathLimit ∧
      m.root.find? (m.place here ++ [n]) = some (.link target) := by
  unfold linkTarget? at h
  split at h
  · cases h
  · rename_i hshort
    split at h
    · rename_i base target' hstop
      cases h
      obtain ⟨before, n', hsplit, -, rfl, hlink⟩ := m.advance_link hstop
      obtain ⟨rfl, hn⟩ := List.append_inj' hsplit rfl
      cases hn
      refine ⟨?_, hlink⟩
      have := (here.child n).length_parts_le
      omega
    · cases h

end Machine

/-! ## One step -/

namespace Resolve

variable (m : Machine)

/-- What one step does. -/
inductive Moves : State → State → Prop
  | finish {seen : List (Path × Option Path)} {here link : Path} {todo : List Todo} :
      Moves ⟨seen, here, .finished link :: todo⟩ ⟨(link, some here) :: seen, here, todo⟩
  | up {seen : List (Path × Option Path)} {here : Path} {todo : List Todo} :
      Moves ⟨seen, here, .name ".." :: todo⟩ ⟨seen, here.up, todo⟩
  | enter {seen : List (Path × Option Path)} {here : Path} {n : String} {todo : List Todo}
      (hname : n ≠ "..") (htarget : m.linkTarget? here n = none) :
      Moves ⟨seen, here, .name n :: todo⟩ ⟨seen, here.child n, todo⟩
  | reuse {seen : List (Path × Option Path)} {here known : Path} {n target : String}
      {todo : List Todo} (hname : n ≠ "..") (htarget : m.linkTarget? here n = some target)
      (hseen : seen.lookup (here.child n) = some (some known)) :
      Moves ⟨seen, here, .name n :: todo⟩ ⟨seen, known, todo⟩
  | follow {seen : List (Path × Option Path)} {here : Path} {n target : String} {todo : List Todo}
      (hname : n ≠ "..") (htarget : m.linkTarget? here n = some target)
      (hseen : seen.lookup (here.child n) = none) :
      Moves ⟨seen, here, .name n :: todo⟩
        ⟨(here.child n, none) :: seen, linkStart here target,
          (Path.names target).map .name ++ .finished (here.child n) :: todo⟩

/-- A link has been met on the way to its own target. -/
def TurnsBack (s : State) : Prop := ∃ n todo target, s.todo = .name n :: todo ∧ n ≠ ".." ∧
  m.linkTarget? s.here n = some target ∧ s.seen.lookup (s.here.child n) = some none

variable {m} {s t : State}

theorem step_eq_on_iff : step m s = .on t ↔ Moves m s t := by
  constructor
  · intro h
    obtain ⟨seen, here, todo⟩ := s
    unfold step at h
    split at h
    · cases h
    · rename_i htodo
      cases h
      dsimp only at htodo
      subst htodo
      exact .finish
    · rename_i htodo
      dsimp only at htodo
      subst htodo
      split at h
      · rename_i hup
        cases h
        subst hup
        exact .up
      · rename_i hname
        dsimp only at h
        split at h
        · rename_i htarget
          cases h
          exact .enter hname htarget
        · rename_i htarget
          split at h
          · rename_i hseen
            cases h
            exact .reuse hname htarget hseen
          · cases h
          · rename_i hseen
            cases h
            exact .follow hname htarget hseen
  · intro h
    cases h with
    | finish => rfl
    | up => rfl
    | enter hname htarget => simp only [step, if_neg hname, htarget]
    | reuse hname htarget hseen => simp only [step, if_neg hname, htarget, hseen]
    | follow hname htarget hseen => simp only [step, if_neg hname, htarget, hseen]

/-- Every state can take a step, has come to an end or turns back. -/
theorem moves_or_ends (s : State) :
    (∃ t, Moves m s t) ∨ s.todo = [] ∨ TurnsBack m s := by
  obtain ⟨seen, here, todo⟩ := s
  cases todo with
  | nil => exact .inr (.inl rfl)
  | cons what todo =>
    cases what with
    | finished link => exact .inl ⟨_, .finish⟩
    | name n =>
      by_cases hup : n = ".."
      · subst hup
        exact .inl ⟨_, .up⟩
      · cases htarget : m.linkTarget? here n with
        | none => exact .inl ⟨_, .enter hup htarget⟩
        | some target =>
          cases hseen : seen.lookup (here.child n) with
          | none => exact .inl ⟨_, .follow hup htarget hseen⟩
          | some known =>
            cases known with
            | none => exact .inr (.inr ⟨n, todo, target, rfl, hup, htarget, hseen⟩)
            | some known => exact .inl ⟨_, .reuse hup htarget hseen⟩

/-! ## The fuel -/

variable (m) in
/-- The weight of the links that have not been met, in all the ways in which they are written. -/
def potential (seen : List (Path × Option Path)) : Nat :=
  ∑ form ∈ Finset.range (Machine.pathLimit + 1),
    m.root.unspent (fun pos => decide (m.written form pos ∈ seen.map Prod.fst)) []

theorem potential_cons_le (link : Path) (known : Option Path) (seen : List (Path × Option Path)) :
    potential m ((link, known) :: seen) ≤ potential m seen := by
  refine Finset.sum_le_sum fun form _ => Entry.unspent_mono (fun pos h => ?_) [] m.root
  rw [decide_eq_true_eq] at h ⊢
  exact List.mem_cons_of_mem _ h

/-- A link that has not been met pays for its target. -/
theorem potential_follow {here : Path} (htidy : here.Tidy) {n target : String} (hname : n ≠ "..")
    (htarget : m.linkTarget? here n = some target) {seen : List (Path × Option Path)}
    (hseen : seen.lookup (here.child n) = none) :
    potential m ((here.child n, none) :: seen) + ((Path.names target).length + 1) ≤
      potential m seen := by
  obtain ⟨hlength, hlink⟩ := m.linkTarget?_eq_some htarget
  obtain ⟨form, hform, hwritten⟩ := m.exists_written htidy hname
  rw [m.place_child _ hname] at hwritten
  have hrange : form ∈ Finset.range (Machine.pathLimit + 1) := by
    rw [Finset.mem_range]
    omega
  have hnew : m.written form (m.place here ++ [n]) ∉ seen.map Prod.fst := by
    rw [← hwritten]
    intro hmem
    obtain ⟨⟨link, known⟩, hmem, hkey⟩ := List.mem_map.mp hmem
    rw [List.lookup_eq_none_iff] at hseen
    have := hseen _ hmem
    simp_all
  have hmore : ∀ form pos, decide (m.written form pos ∈ seen.map Prod.fst) = true →
      decide (m.written form pos ∈ ((here.child n, (none : Option Path)) :: seen).map Prod.fst) =
        true := by
    intro form pos h
    rw [decide_eq_true_eq] at h ⊢
    exact List.mem_cons_of_mem _ h
  have hspend := Entry.unspent_spend (hmore form) (m.place here ++ [n]) [] hlink
    (decide_eq_false hnew) (by
      rw [decide_eq_true_eq, List.nil_append, ← hwritten]
      exact List.mem_cons_self)
  unfold potential
  rw [← Finset.add_sum_erase _ _ hrange, ← Finset.add_sum_erase _ _ hrange]
  have hothers := Finset.sum_le_sum fun f (_ : f ∈ (Finset.range (Machine.pathLimit + 1)).erase form) =>
    Entry.unspent_mono (hmore f) [] m.root
  omega

theorem mem_of_lookup {link : Path} {known : Option Path} {seen : List (Path × Option Path)}
    (h : seen.lookup link = some known) : (link, known) ∈ seen := by
  obtain ⟨before, after, rfl, -⟩ := List.lookup_eq_some_iff.mp h
  exact List.mem_append_right _ List.mem_cons_self

/-- What holds of every path that has been written. -/
structure State.All (P : Path → Prop) (s : State) : Prop where
  here : P s.here
  known : ∀ link p, (link, some p) ∈ s.seen → P p

/-- What holds of the root, of the directory above and of the names that are entered goes on to hold. -/
theorem State.All.moves {P : Path → Prop} (hroot : P (.ofPosition [])) (hup : ∀ p, P p → P p.up)
    (hs : s.All P) (hchild : ∀ n todo, s.todo = .name n :: todo → n ≠ ".." →
      m.linkTarget? s.here n = none → P (s.here.child n)) (h : Moves m s t) : t.All P := by
  cases h with
  | finish =>
    refine ⟨hs.here, fun link p hmem => ?_⟩
    rcases List.mem_cons.mp hmem with hmem | hmem
    · cases hmem
      exact hs.here
    · exact hs.known link p hmem
  | up => exact ⟨hup _ hs.here, hs.known⟩
  | enter hname htarget => exact ⟨hchild _ _ rfl hname htarget, hs.known⟩
  | reuse _ _ hseen => exact ⟨hs.known _ _ (mem_of_lookup hseen), hs.known⟩
  | follow =>
    refine ⟨?_, fun link p hmem => ?_⟩
    · dsimp only [linkStart]
      split
      · exact hs.here
      · exact hroot
    · rcases List.mem_cons.mp hmem with hmem | hmem
      · cases hmem
      · exact hs.known link p hmem

theorem begin_all {P : Path → Prop} {p : Path} (h : P (begin p).here) : (begin p).All P :=
  ⟨h, fun link q hmem => by cases hmem⟩

theorem tidy_moves (hs : s.All Path.Tidy) (h : Moves m s t) : t.All Path.Tidy :=
  hs.moves (.absolute [] List.not_mem_nil) (fun _ hp => hp.up)
    (fun _ _ _ hname _ => hs.here.child hname) h

variable (m) in
/-- What the steps to come use up. -/
def measure (s : State) : Nat := s.todo.length + potential m s.seen

theorem measure_moves (hs : s.All Path.Tidy) (h : Moves m s t) : measure m t < measure m s := by
  unfold measure
  cases h with
  | @finish seen here link todo =>
    have := potential_cons_le (m := m) link (some here) seen
    simp only [List.length_cons]
    omega
  | up => simp
  | enter => simp
  | reuse => simp
  | @follow seen here n target todo hname htarget hseen =>
    have hpaid : potential m ((here.child n, none) :: seen) + ((Path.names target).length + 1) ≤
        potential m seen := potential_follow hs.here hname htarget hseen
    simp only [List.length_append, List.length_map, List.length_cons]
    omega

variable (m) in
/-- Steps lead from a state to another. -/
abbrev Reaches : State → State → Prop := Relation.ReflTransGen (Moves m)

variable (m) in
/-- Steps lead to an end, and the path stands there. -/
def Ends (s : State) (p : Path) : Prop := ∃ t, Reaches m s t ∧
  (t.todo = [] ∧ p = t.here ∨
    ∃ n todo, TurnsBack m t ∧ t.todo = .name n :: todo ∧ p = State.rest ⟨t.seen, t.here.child n, todo⟩)

theorem run_ends (fuel : Nat) (hs : s.All Path.Tidy) (hfuel : measure m s < fuel) :
    Ends m s (run m fuel s) := by
  induction fuel generalizing s with
  | zero => exact absurd hfuel (Nat.not_lt_zero _)
  | succ fuel ih =>
    rcases moves_or_ends (m := m) s with ⟨t, hmove⟩ | hdone | hback
    · have hlast : measure m t < fuel := by
        have := measure_moves hs hmove
        omega
      obtain ⟨u, hreach, hend⟩ := ih (tidy_moves hs hmove) hlast
      have hrun : run m (fuel + 1) s = run m fuel t := by
        rw [run, step_eq_on_iff.mpr hmove]
      rw [hrun]
      exact ⟨u, .head hmove hreach, hend⟩
    · refine ⟨s, .refl, .inl ⟨hdone, ?_⟩⟩
      simp only [run, step, hdone]
    · obtain ⟨n, todo, target, htodo, hname, htarget, hseen⟩ := hback
      refine ⟨s, .refl, .inr ⟨n, todo, ⟨n, todo, target, htodo, hname, htarget, hseen⟩, htodo, ?_⟩⟩
      simp only [run, step, htodo, if_neg hname, htarget, hseen]

theorem begin_tidy (p : Path) : (begin p).All Path.Tidy := by
  refine begin_all ?_
  unfold begin
  split
  · exact .relative 0 [] List.not_mem_nil
  · exact .absolute [] List.not_mem_nil

/-- The fuel is enough for every path. -/
theorem begin_ends (m : Machine) (p : Path) : Ends m (begin p) (run m (fuel m p) (begin p)) := by
  refine run_ends _ (begin_tidy p) ?_
  have hforms : potential m [] ≤ m.root.linkWeight * (Machine.pathLimit + 1) := by
    calc potential m []
        ≤ ∑ _form ∈ Finset.range (Machine.pathLimit + 1), m.root.linkWeight :=
          Finset.sum_le_sum fun form _ => Entry.unspent_le _ [] m.root
      _ = m.root.linkWeight * (Machine.pathLimit + 1) := by
          rw [Finset.sum_const_nat fun _ _ => rfl, Finset.card_range, Nat.mul_comm]
  have htodo : (begin p).todo.length = p.parts.length := List.length_map _
  have hseen : (begin p).seen = [] := rfl
  unfold measure fuel
  rw [hseen, htodo]
  omega

theorem moves_unique {t' : State} (h : Moves m s t) (h' : Moves m s t') : t = t' :=
  Next.on.inj ((step_eq_on_iff.mpr h).symm.trans (step_eq_on_iff.mpr h'))

/-- Where there is nothing left to do, steps have come to their end. -/
theorem ends_unique {p : Path} (h : Ends m s p) (hreach : Reaches m s t) (hdone : t.todo = []) :
    p = t.here := by
  have hstill : ∀ {u v : State}, u.todo = [] ∨ TurnsBack m u → Reaches m u v → u = v := by
    intro u v hu hreach
    cases hreach.cases_head with
    | inl h => exact h
    | inr h =>
      obtain ⟨w, hmove, -⟩ := h
      exfalso
      rcases hu with hdone | ⟨n, todo, target, htodo, hname, htarget, hseen⟩
      · cases hmove <;> cases hdone
      · have := step_eq_on_iff.mpr hmove
        simp [step, htodo, hname, htarget, hseen] at this
  obtain ⟨u, hu, hend⟩ := h
  have hstop : u.todo = [] ∨ TurnsBack m u :=
    hend.imp (fun h => h.1) fun ⟨_, _, h, _⟩ => h
  have hunique : Relator.RightUnique (Moves m) := fun _ _ _ => moves_unique
  have hsame : u = t := by
    rcases Relation.ReflTransGen.total_of_right_unique hunique hu hreach with h | h
    · exact hstill hstop h
    · exact (hstill (.inl hdone) h).symm
  subst hsame
  rcases hend with ⟨-, rfl⟩ | ⟨n, todo, -, htodo, -⟩
  · rfl
  · rw [hdone] at htodo
    cases htodo

end Resolve

end AssemblyBrowser
