import AssemblyBrowser.FileSystem.Resolve
import AssemblyBrowser.Proofs.FileSystem.Names
/-!
Where names lead. `Machine.Leads` says it without regard to what stands in the way: two dots lead one
up, a link leads on along its target. Main statements: it determines where the names lead, and a walk of
the system that arrives does so there.
-/
namespace AssemblyBrowser

/-! ## Places in a tree -/

namespace Entry

@[simp] theorem find?_nil (e : Entry) : e.find? [] = some e := rfl

@[simp] theorem find?_singleton (e : Entry) (n : String) : e.find? [n] = e.child? n := by
  rw [find?]
  cases e.child? n <;> rfl

theorem find?_cons (e : Entry) (n : String) (q : Position) :
    e.find? (n :: q) = (e.child? n).bind (·.find? q) := by
  rw [find?]
  cases e.child? n <;> rfl

/-- What stands at a place below a place is found from there. -/
theorem find?_append (e : Entry) (p q : Position) :
    e.find? (p ++ q) = (e.find? p).bind (·.find? q) := by
  induction p generalizing e with
  | nil => rfl
  | cons n p ih =>
    rw [List.cons_append, find?_cons, find?_cons]
    cases e.child? n with
    | none => rfl
    | some c => exact ih c

/-- Only a directory has something in it. -/
theorem child?_eq_some {e c : Entry} {n : String} (h : e.child? n = some c) :
    ∃ es, e = .directory es ∧ Assoc.find? n es = some c := by
  cases e with
  | directory es => exact ⟨es, rfl, h⟩
  | file => cases h
  | link => cases h

theorem directory_of_find?_append {e c : Entry} {p : Position} {n : String} {q : Position}
    (h : e.find? (p ++ n :: q) = some c) : ∃ es, e.find? p = some (.directory es) := by
  rw [find?_append] at h
  obtain ⟨d, hd, h⟩ := Option.bind_eq_some_iff.mp h
  rw [find?_cons] at h
  obtain ⟨c', hc', -⟩ := Option.bind_eq_some_iff.mp h
  obtain ⟨es, rfl, -⟩ := child?_eq_some hc'
  exact ⟨es, hd⟩

end Entry

/-! ## Proper trees -/

namespace Entry

mutual
/-- In every directory the names are proper, and no two are the same. No target of a link holds
NUL. -/
def Proper : Entry → Prop
  | .file .. => True
  | .link target => '\x00' ∉ target.toList
  | .directory es => (Assoc.keys es).Nodup ∧ ProperList es

def ProperList : List (String × Entry) → Prop
  | [] => True
  | (n, e) :: es => ProperName n ∧ Proper e ∧ ProperList es
end

theorem ProperList.find? {n : String} {c : Entry} {es : List (String × Entry)}
    (hes : ProperList es) (h : Assoc.find? n es = some c) : ProperName n ∧ c.Proper := by
  induction es with
  | nil => cases h
  | cons e es ih =>
    obtain ⟨n', e⟩ := e
    obtain ⟨hname, he, hes⟩ := hes
    simp only [Assoc.find?] at h
    split at h
    · rename_i hn
      cases h
      exact ⟨hn ▸ hname, he⟩
    · exact ih hes h

/-- Whatever stands in a proper tree is proper, and its place has proper names. -/
theorem Proper.find? {e c : Entry} {q : Position} (he : e.Proper) (h : e.find? q = some c) :
    (∀ n ∈ q, ProperName n) ∧ c.Proper := by
  induction q generalizing e with
  | nil =>
    cases h
    exact ⟨fun n hn => absurd hn List.not_mem_nil, he⟩
  | cons n q ih =>
    rw [find?_cons] at h
    obtain ⟨d, hd, hc⟩ := Option.bind_eq_some_iff.mp h
    obtain ⟨es, rfl, hd⟩ := child?_eq_some hd
    obtain ⟨hname, hproper⟩ := he.2.find? hd
    obtain ⟨hnames, hc⟩ := ih hproper hc
    exact ⟨List.forall_mem_cons.mpr ⟨hname, hnames⟩, hc⟩

end Entry

/-- What every machine has: a proper tree, and a working directory in it. -/
structure Machine.Sound (m : Machine) : Prop where
  proper : m.root.Proper
  working : ∃ es, m.root.find? m.workingDirectory = some (.directory es)

/-- A machine whose user works in the root, with the given entries there. -/
def Machine.inRoot (es : List (String × Entry)) : Machine where
  root := .directory es
  workingDirectory := []
  environment := ∅
  user := "user"
  homes := [("user", "/")]
  privileged := false
  platform := "Linux"
  hostReply := .failed

theorem Machine.sound_inRoot {es : List (String × Entry)} (h : (Entry.directory es).Proper) :
    (Machine.inRoot es).Sound := ⟨h, es, rfl⟩

/-- No link stands on the way to a place, nor there. -/
def Machine.LinkFree (m : Machine) (pos : Position) : Prop :=
  ∀ q, q <+: pos → ∀ target, m.root.find? q ≠ some (.link target)

namespace Machine

variable {m : Machine} {pos : Position}

theorem LinkFree.above (h : m.LinkFree pos) {q : Position} (hq : q <+: pos) : m.LinkFree q :=
  fun _ hr => h _ (hr.trans hq)

theorem LinkFree.dropLast (h : m.LinkFree pos) : m.LinkFree pos.dropLast :=
  h.above (List.dropLast_prefix pos)

theorem LinkFree.concat (h : m.LinkFree pos) {n : String}
    (hn : ∀ target, m.root.find? (pos ++ [n]) ≠ some (.link target)) : m.LinkFree (pos ++ [n]) := by
  intro q hq
  rcases List.prefix_concat_iff.mp hq with rfl | hq
  · exact hn
  · exact h q hq

/-- Above anything there are only directories. -/
theorem linkFree_of_find? {e : Entry} (h : m.root.find? pos = some e) (he : ∀ target, e ≠ .link target) :
    m.LinkFree pos := by
  rintro q ⟨r, rfl⟩ target hlink
  cases r with
  | nil =>
    rw [List.append_nil, hlink] at h
    exact he target (Option.some.inj h).symm
  | cons n r =>
    obtain ⟨es', hes⟩ := Entry.directory_of_find?_append h
    rw [hlink] at hes
    cases hes

theorem Sound.linkFree_start (hm : m.Sound) (p : Path) : m.LinkFree (m.start p) := by
  obtain ⟨es, hes⟩ := hm.working
  unfold start
  split
  · exact linkFree_of_find? hes fun _ h => by cases h
  · exact (linkFree_of_find? hes fun _ h => by cases h).above List.nil_prefix

end Machine

/-! ## Names without links -/

namespace Position

@[simp] theorem enter_up (pos : Position) : pos.enter ".." = pos.dropLast := rfl

theorem enter_name {n : String} (h : n ≠ "..") (pos : Position) : pos.enter n = pos ++ [n] :=
  if_neg h

/-- Without two dots every name leads one further. -/
theorem foldl_enter {names : List String} (h : ".." ∉ names) (pos : Position) :
    names.foldl enter pos = pos ++ names := by
  induction names generalizing pos with
  | nil => simp
  | cons n names ih =>
    rw [List.mem_cons, not_or] at h
    rw [List.foldl_cons, enter_name (Ne.symm h.1), ih h.2, List.append_assoc, List.singleton_append]

theorem foldl_enter_ups (k : Nat) (pos : Position) :
    (List.replicate k "..").foldl enter pos = pos.take (pos.length - k) := by
  induction k generalizing pos with
  | zero => simp
  | succ k ih =>
    rw [List.replicate_succ, List.foldl_cons, enter_up, ih, List.dropLast_eq_take, List.length_take,
      List.take_take]
    congr 1
    omega

end Position

namespace Machine

variable (m : Machine)

theorem place_append (p : Path) (names : List String) :
    m.place ⟨p.anchor, p.parts ++ names⟩ = names.foldl Position.enter (m.place p) := by
  rw [place, List.foldl_append]
  rfl

theorem place_child (p : Path) {n : String} (h : n ≠ "..") : m.place (p.child n) = m.place p ++ [n] := by
  rw [Path.child, place_append, List.foldl_cons, List.foldl_nil, Position.enter_name h]

@[simp] theorem place_up (p : Path) : m.place p.up = (m.place p).dropLast := by
  unfold Path.up
  cases hlast : p.parts.getLast? with
  | none =>
    have hparts : p.parts = [] := List.getLast?_eq_none_iff.mp hlast
    dsimp only
    split
    · rw [Path.child, place_append]
      rfl
    · rename_i hanchor
      simp [place, hparts, start, hanchor]
  | some last =>
    obtain ⟨parts, hparts⟩ := List.getLast?_eq_some_iff.mp hlast
    dsimp only
    split
    · rw [Path.child, place_append]
      rfl
    · rename_i hne
      have hchild : p = (⟨p.anchor, parts⟩ : Path).child last := by
        cases p
        simp_all [Path.child]
      rw [hparts, List.dropLast_concat]
      conv_rhs => rw [hchild, place_child _ _ hne, List.dropLast_concat]

/-! ## Walks of the system -/

variable {pos dest : Position} {names : List String}

/-- What stands at a place that is reached from a directory by one name. -/
theorem find?_step {es : List (String × Entry)} (h : m.root.find? pos = some (.directory es))
    (n : String) : m.root.find? (pos ++ [n]) = Assoc.find? n es := by
  rw [Entry.find?_append, h]
  exact Entry.find?_singleton _ n

/-- A walk that stops at a link has followed the names before it, and finds it in the tree. -/
theorem advance_link {base : Position} {target : String} {rest : List String}
    (h : m.advance pos names = .ok (.link base target rest)) :
    ∃ before n, names = before ++ n :: rest ∧ n ≠ ".." ∧ base = before.foldl Position.enter pos ∧
      m.root.find? (base ++ [n]) = some (.link target) := by
  induction names generalizing pos with
  | nil => cases h
  | cons n names ih =>
    simp only [advance] at h
    split at h
    · rename_i es hes
      split at h
      · cases h
      · split at h
        · rename_i hup
          obtain ⟨before, n', hsplit, hname, hbase, hlink⟩ := ih h
          exact ⟨n :: before, n', by rw [hsplit]; rfl, hname, by rw [hbase, hup]; rfl, hlink⟩
        · rename_i hname
          split at h
          · cases h
          · split at h
            · cases h
            · rename_i hfind
              cases h
              exact ⟨[], n, rfl, hname, rfl, by rw [m.find?_step hes, hfind]⟩
            · obtain ⟨before, n', hsplit, hname', hbase, hlink⟩ := ih h
              refine ⟨n :: before, n', by rw [hsplit]; rfl, hname', ?_, hlink⟩
              rw [hbase, List.foldl_cons, Position.enter_name hname]
    · cases h
    · cases h

/-! ## Where names lead -/

/-- From a place the names lead to another one in so many steps. -/
inductive Leads : Nat → Position → List String → Position → Prop
  | done (pos : Position) : Leads 0 pos [] pos
  | up {k : Nat} {pos dest : Position} {names : List String} :
      Leads k pos.dropLast names dest → Leads (k + 1) pos (".." :: names) dest
  | enter {k : Nat} {pos dest : Position} {n : String} {names : List String} (hname : n ≠ "..")
      (hplain : ∀ target, m.root.find? (pos ++ [n]) ≠ some (.link target)) :
      Leads k (pos ++ [n]) names dest → Leads (k + 1) pos (n :: names) dest
  | follow {k : Nat} {pos dest : Position} {n target : String} {names : List String}
      (hname : n ≠ "..") (hlink : m.root.find? (pos ++ [n]) = some (.link target)) :
      Leads k (linkBase pos target) (Path.names target ++ names) dest →
      Leads (k + 1) pos (n :: names) dest

namespace Leads

variable {m} {k k' : Nat} {dest' mid : Position} {names' : List String}

theorem unique (h : m.Leads k pos names dest) (h' : m.Leads k' pos names dest') :
    k = k' ∧ dest = dest' := by
  induction h generalizing k' with
  | done pos =>
    cases h'
    exact ⟨rfl, rfl⟩
  | up _ ih =>
    cases h' with
    | up h' =>
      obtain ⟨rfl, hdest⟩ := ih h'
      exact ⟨rfl, hdest⟩
    | enter hname => exact absurd rfl hname
    | follow hname => exact absurd rfl hname
  | enter hname hplain _ ih =>
    cases h' with
    | up => exact absurd rfl hname
    | enter _ _ h' =>
      obtain ⟨rfl, hdest⟩ := ih h'
      exact ⟨rfl, hdest⟩
    | follow _ hlink => exact absurd hlink (hplain _)
  | follow hname hlink _ ih =>
    cases h' with
    | up => exact absurd rfl hname
    | enter _ hplain => exact absurd hlink (hplain _)
    | follow _ hlink' h' =>
      cases hlink.symm.trans hlink'
      obtain ⟨rfl, hdest⟩ := ih h'
      exact ⟨rfl, hdest⟩

/-- Names that lead somewhere together lead somewhere one part after the other. -/
theorem split (h : m.Leads k pos (names ++ names') dest) :
    ∃ i j mid, m.Leads i pos names mid ∧ m.Leads j mid names' dest ∧ k = i + j := by
  generalize hall : names ++ names' = all at h
  induction h generalizing names with
  | done pos =>
    obtain ⟨rfl, rfl⟩ := List.append_eq_nil_iff.mp hall
    exact ⟨0, 0, pos, .done pos, .done pos, rfl⟩
  | @up k pos dest _ h ih =>
    cases names with
    | nil =>
      rw [List.nil_append] at hall
      exact ⟨0, k + 1, pos, .done pos, hall ▸ .up h, by omega⟩
    | cons n names =>
      cases hall
      obtain ⟨i, j, mid, hi, hj, hk⟩ := ih rfl
      exact ⟨i + 1, j, mid, .up hi, hj, by omega⟩
  | @enter k pos dest n _ hname hplain h ih =>
    cases names with
    | nil =>
      rw [List.nil_append] at hall
      exact ⟨0, k + 1, pos, .done pos, hall ▸ .enter hname hplain h, by omega⟩
    | cons n names =>
      cases hall
      obtain ⟨i, j, mid, hi, hj, hk⟩ := ih rfl
      exact ⟨i + 1, j, mid, .enter hname hplain hi, hj, by omega⟩
  | @follow k pos dest n target _ hname hlink h ih =>
    cases names with
    | nil =>
      rw [List.nil_append] at hall
      exact ⟨0, k + 1, pos, .done pos, hall ▸ .follow hname hlink h, by omega⟩
    | cons n names =>
      cases hall
      obtain ⟨i, j, mid, hi, hj, hk⟩ := ih (List.append_assoc ..)
      exact ⟨i + 1, j, mid, .follow hname hlink hi, hj, by omega⟩

end Leads

/-- Names along which a walk comes to a link lead where its target and the rest lead. -/
theorem leads_of_advance {stop : Stop} (h : m.advance pos names = .ok stop)
    (hrest : ∀ base target rest, stop = .link base target rest →
      ∃ k, m.Leads k (linkBase base target) (Path.names target ++ rest) dest)
    (harrived : ∀ pos', stop = .arrived pos' → pos' = dest) : ∃ k, m.Leads k pos names dest := by
  induction names generalizing pos with
  | nil =>
    cases h
    obtain rfl := harrived pos rfl
    exact ⟨0, .done pos⟩
  | cons n names ih =>
    simp only [advance] at h
    split at h
    · rename_i es hes
      split at h
      · cases h
      · split at h
        · rename_i hup
          obtain ⟨k, hk⟩ := ih h
          exact ⟨k + 1, hup ▸ .up hk⟩
        · rename_i hname
          split at h
          · cases h
          · split at h
            · cases h
            · rename_i target hfind
              cases h
              obtain ⟨k, hk⟩ := hrest _ _ _ rfl
              exact ⟨k + 1, .follow hname (by rw [m.find?_step hes, hfind]) hk⟩
            · rename_i hplain hfind
              obtain ⟨k, hk⟩ := ih h
              refine ⟨k + 1, .enter hname (fun target ht => ?_) hk⟩
              rw [m.find?_step hes, hfind] at ht
              exact hplain target (Option.some.inj ht)
    · cases h
    · cases h

/-- A walk that arrives does so where the names lead. -/
theorem leads_of_walk {links : Nat} (h : m.walk links pos names = .ok dest) :
    ∃ k, m.Leads k pos names dest := by
  induction links generalizing pos names with
  | zero =>
    rw [walk] at h
    split at h
    · cases h
    · rename_i hstop
      cases h
      refine m.leads_of_advance hstop (fun _ _ _ h => by cases h) fun _ h => ?_
      cases h
      rfl
    · cases h
  | succ links ih =>
    rw [walk] at h
    split at h
    · cases h
    · rename_i hstop
      cases h
      refine m.leads_of_advance hstop (fun _ _ _ h => by cases h) fun _ h => ?_
      cases h
      rfl
    · rename_i hstop
      refine m.leads_of_advance hstop (fun _ _ _ h' => ?_) fun _ h => by cases h
      cases h'
      exact ih h

end Machine

end AssemblyBrowser
