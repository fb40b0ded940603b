import AssemblyBrowser.Proofs.FileSystem.Canonical
import AssemblyBrowser.Proofs.OrderedMap
/-!
What a search of a directory finds. Main statements: it comes to each assembly file below the directory
once, and where there are no links, the result is the sorted list of the places of these files.
-/
namespace AssemblyBrowser

namespace Discovery

variable (m : Machine) {p q : Path} {es : List (String × Entry)} {dirs : List String} {n : String}
  {e : Entry}

theorem isAssemblyName_iff :
    isAssemblyName n = true ↔ ∃ suffix ∈ suffixes, suffix.toList <:+ (Text.lower n).toList := by
  simp [isAssemblyName, endsWith, List.any_eq_true, List.isPrefixOf_iff_prefix, List.reverse_prefix]

/-! ## What a search comes to -/

/-- A search of the directory at a path comes to what stands at a place below it: the name is that of
an assembly file, it is no directory nor a link to one, and the directories above are entered. -/
structure Finds (p : Path) (es : List (String × Entry)) (dirs : List String) (n : String) (e : Entry) :
    Prop where
  stands : (Entry.directory es).find? (dirs ++ [n]) = some e
  named : isAssemblyName n = true
  plain : e.isDirectory = false
  leaf : ∀ target, e = .link target → isDirectory m (p.within (dirs ++ [n])) = false
  kept : ∀ d ∈ dirs, d ∉ excluded
  listed : ∀ before, before ≠ [] → before <+: dirs → (m.listing? (p.within before)).isSome

variable {m}

theorem finds_nil : Finds m p es [] n e ↔ Assoc.find? n es = some e ∧ isAssemblyName n = true ∧
    e.isDirectory = false ∧ ∀ target, e = .link target → isDirectory m (p.child n) = false := by
  constructor
  · intro h
    exact ⟨by simpa [Entry.child?, Entry.entries] using h.stands, h.named, h.plain, h.leaf⟩
  · rintro ⟨hstands, hnamed, hplain, hleaf⟩
    refine ⟨by simpa [Entry.child?, Entry.entries] using hstands, hnamed, hplain, hleaf,
      fun d hd => absurd hd List.not_mem_nil, fun before hne hbefore => ?_⟩
    exact absurd (List.prefix_nil.mp hbefore) hne

theorem finds_cons {d : String} : Finds m p es (d :: dirs) n e ↔
    ∃ es', Assoc.find? d es = some (.directory es') ∧ d ∉ excluded ∧
      (m.listing? (p.child d)).isSome ∧ Finds m (p.child d) es' dirs n e := by
  constructor
  · intro h
    have hstands := h.stands
    rw [List.cons_append, Entry.find?_cons] at hstands
    obtain ⟨c, hc, hrest⟩ := Option.bind_eq_some_iff.mp hstands
    obtain ⟨n', names, hnames⟩ := List.exists_cons_of_ne_nil (List.concat_ne_nil n dirs)
    obtain ⟨es', hes'⟩ := Entry.directory_of_find?_append (p := []) (hnames ▸ hrest)
    cases hes'
    refine ⟨es', hc, h.kept d List.mem_cons_self, ?_, hrest, h.named, h.plain, ?_, ?_, ?_⟩
    · exact h.listed [d] (List.cons_ne_nil _ _) (List.cons_prefix_cons.mpr ⟨rfl, List.nil_prefix⟩)
    · intro target htarget
      rw [← Path.within_cons]
      exact h.leaf target htarget
    · exact fun d' hd' => h.kept d' (List.mem_cons_of_mem _ hd')
    · intro before _ hbefore
      rw [← Path.within_cons]
      exact h.listed _ (List.cons_ne_nil _ _) (List.cons_prefix_cons.mpr ⟨rfl, hbefore⟩)
  · rintro ⟨es', hd, hkept, hlisted, h⟩
    refine ⟨?_, h.named, h.plain, ?_, List.forall_mem_cons.mpr ⟨hkept, h.kept⟩, ?_⟩
    · rw [List.cons_append, Entry.find?_cons]
      exact Option.bind_eq_some_iff.mpr ⟨_, hd, h.stands⟩
    · intro target htarget
      rw [List.cons_append, Path.within_cons]
      exact h.leaf target htarget
    · intro before hne hbefore
      cases before with
      | nil => exact absurd rfl hne
      | cons d' before =>
        obtain ⟨rfl, hrest⟩ := List.cons_prefix_cons.mp hbefore
        rw [Path.within_cons]
        cases before with
        | nil => simpa using hlisted
        | cons d'' before => exact h.listed _ (List.cons_ne_nil _ _) hrest

theorem mem_inEntries {es : List (String × Entry)} :
    q ∈ inEntries m p es ↔ ∃ x ∈ es, q ∈ inEntry m p x.1 x.2 := by
  induction es with
  | nil => simp [inEntries]
  | cons x es ih =>
    obtain ⟨name, e⟩ := x
    rw [inEntries, List.mem_append, ih]
    simp

/-- What a search comes to is listed. -/
theorem Finds.mem (h : Finds m p es dirs n e) : p.within (dirs ++ [n]) ∈ inEntries m p es := by
  induction dirs generalizing p es with
  | nil =>
    obtain ⟨hstands, hnamed, hplain, hleaf⟩ := finds_nil.mp h
    refine mem_inEntries.mpr ⟨_, Assoc.mem_of_find? hstands, ?_⟩
    change p.child n ∈ inEntry m p n e
    cases e with
    | file => simp [inEntry, hnamed]
    | link target => simp [inEntry, hnamed, hleaf target rfl]
    | directory => cases hplain
  | cons d dirs ih =>
    obtain ⟨es', hd, hkept, hlisted, h⟩ := finds_cons.mp h
    refine mem_inEntries.mpr ⟨_, Assoc.mem_of_find? hd, ?_⟩
    rw [List.cons_append, Path.within_cons]
    simp only [inEntry]
    rw [if_neg]
    · exact ih h
    · simp [hkept, Option.isNone_iff_eq_none, Option.isSome_iff_ne_none.mp hlisted]

mutual
/-- What is listed of an entry has been come to. -/
theorem finds_of_inEntry (p : Path) (name : String) (all : List (String × Entry)) : ∀ e : Entry,
    e.Proper → Assoc.find? name all = some e → q ∈ inEntry m p name e →
    ∃ dirs n e', Finds m p all dirs n e' ∧ q = p.within (dirs ++ [n])
  | .file data mode => by
    intro _ hall hq
    simp only [inEntry] at hq
    split at hq
    · rename_i hnamed
      obtain rfl := List.mem_singleton.mp hq
      exact ⟨[], name, _, finds_nil.mpr ⟨hall, hnamed, rfl, fun _ h => by cases h⟩, rfl⟩
    · cases hq
  | .link target => by
    intro _ hall hq
    simp only [inEntry] at hq
    split at hq
    · rename_i hleaf
      rw [Bool.and_eq_true, Bool.not_eq_true'] at hleaf
      obtain rfl := List.mem_singleton.mp hq
      exact ⟨[], name, _, finds_nil.mpr ⟨hall, hleaf.1, rfl, fun _ _ => hleaf.2⟩, rfl⟩
    · cases hq
  | .directory es => by
    intro hproper hall hq
    simp only [inEntry] at hq
    split at hq
    · cases hq
    · rename_i hentered
      rw [Bool.or_eq_true, not_or] at hentered
      obtain ⟨dirs, n, e', h, rfl⟩ := finds_of_inEntries (p.child name) es es hproper.2
        (fun x hx => Assoc.find?_of_mem hproper.1 hx) hq
      refine ⟨name :: dirs, n, e', finds_cons.mpr ⟨es, hall, ?_, ?_, h⟩, ?_⟩
      · simpa using hentered.1
      · simpa [Option.isSome_iff_ne_none] using hentered.2
      · rw [List.cons_append, Path.within_cons]

theorem finds_of_inEntries (p : Path) (all : List (String × Entry)) : ∀ es : List (String × Entry),
    Entry.ProperList es → (∀ x ∈ es, Assoc.find? x.1 all = some x.2) → q ∈ inEntries m p es →
    ∃ dirs n e, Finds m p all dirs n e ∧ q = p.within (dirs ++ [n])
  | [] => fun _ _ hq => by cases hq
  | (name, e) :: es => by
    intro hproper hall hq
    rw [inEntries, List.mem_append] at hq
    rcases hq with hq | hq
    · exact finds_of_inEntry p name all e hproper.2.1 (hall _ List.mem_cons_self) hq
    · exact finds_of_inEntries p all es hproper.2.2
        (fun x hx => hall x (List.mem_cons_of_mem _ hx)) hq
end

/-- A search lists what it comes to. -/
theorem mem_inEntries_iff (hes : (Entry.directory es).Proper) : q ∈ inEntries m p es ↔
    ∃ dirs n e, Finds m p es dirs n e ∧ q = p.within (dirs ++ [n]) := by
  constructor
  · exact finds_of_inEntries p es es hes.2 fun x hx => Assoc.find?_of_mem hes.1 hx
  · rintro ⟨dirs, n, e, h, rfl⟩
    exact h.mem

/-- What is listed of an entry is at its name or below. -/
theorem within_of_inEntry {name : String} (he : e.Proper) (hq : q ∈ inEntry m p name e) :
    ∃ names, q = p.within (name :: names) := by
  obtain ⟨dirs, n, e', h, rfl⟩ := finds_of_inEntry p name [(name, e)] e he (if_pos rfl) hq
  obtain ⟨first, names, hnames⟩ := List.exists_cons_of_ne_nil (List.concat_ne_nil n dirs)
  have hstands := h.stands
  rw [hnames, Entry.find?_cons] at hstands
  obtain ⟨c, hc, -⟩ := Option.bind_eq_some_iff.mp hstands
  have hfirst : (first, c) ∈ [(name, e)] := Assoc.mem_of_find? hc
  cases List.mem_singleton.mp hfirst
  exact ⟨names, by rw [hnames]⟩

theorem within_injective {names names' : List String} (h : p.within names = p.within names') :
    names = names' :=
  List.append_cancel_left (congrArg Path.parts h)

mutual
theorem inEntry_nodup (p : Path) (name : String) : ∀ e : Entry, e.Proper →
    (inEntry m p name e).Nodup
  | .file .. => fun _ => by
    rw [inEntry]
    split <;> simp
  | .link _ => fun _ => by
    rw [inEntry]
    split <;> simp
  | .directory es => fun he => by
    rw [inEntry]
    split
    · exact List.nodup_nil
    · exact inEntries_nodup (p.child name) es he.1 he.2

/-- Nothing is listed twice. -/
theorem inEntries_nodup (p : Path) : ∀ es : List (String × Entry), (Assoc.keys es).Nodup →
    Entry.ProperList es → (inEntries m p es).Nodup
  | [] => fun _ _ => List.nodup_nil
  | (name, e) :: es => fun hnames hproper => by
    obtain ⟨hname, hnames⟩ := List.nodup_cons.mp hnames
    rw [inEntries, List.nodup_append]
    refine ⟨inEntry_nodup p name e hproper.2.1, inEntries_nodup p es hnames hproper.2.2, ?_⟩
    rintro q hq _ hq' rfl
    obtain ⟨names, rfl⟩ := within_of_inEntry hproper.2.1 hq
    obtain ⟨dirs, n, e', h, hnames'⟩ := finds_of_inEntries p es es hproper.2.2
      (fun x hx => Assoc.find?_of_mem hnames hx) hq'
    have hstands := h.stands
    rw [← within_injective hnames', Entry.find?_cons] at hstands
    obtain ⟨c, hc, -⟩ := Option.bind_eq_some_iff.mp hstands
    exact hname (List.mem_map.mpr ⟨_, Assoc.mem_of_find? hc, rfl⟩)
end

/-! ## Sorting -/

@[simp] theorem mem_sort {text : String} {texts : List String} : text ∈ sort texts ↔ text ∈ texts :=
  List.mem_mergeSort

@[simp] theorem nodup_sort {texts : List String} : (sort texts).Nodup ↔ texts.Nodup :=
  (List.mergeSort_perm texts _).nodup_iff

/-- Texts of which no two are the same are in strict order. -/
theorem pairwise_sort {texts : List String} (h : texts.Nodup) : (sort texts).Pairwise (· < ·) := by
  have hsorted : (sort texts).Pairwise fun a b => decide (a ≤ b) = true := by
    refine List.pairwise_mergeSort (fun a b c hab hbc => ?_) (fun a b => ?_) texts
    · rw [decide_eq_true_eq] at hab hbc ⊢
      exact String.le_trans hab hbc
    · rw [Bool.or_eq_true, decide_eq_true_eq, decide_eq_true_eq]
      exact String.le_total a b
  refine List.Pairwise.imp₂ (fun a b hle hne => ?_) hsorted (nodup_sort.mpr h)
  exact Std.lt_of_le_of_ne (of_decide_eq_true hle) hne

end Discovery

namespace Machine

variable {m : Machine} {p q : Path} {pos : Position} {es : List (String × Entry)} {e : Entry}
  {names : List String} {directory : String}

/-! ## Clean paths -/

theorem mem_parts_of_expandHome {n : String} (hp : m.expandHome (.ofString directory) = .ok p)
    (hn : n ∈ p.parts) : ∃ text, n ∈ Path.names text := by
  unfold expandHome at hp
  split at hp
  · rename_i first rest hanchor hparts
    split at hp
    · split at hp
      · cases hp
      · split at hp
        · cases hp
        · rename_i home _
          dsimp only at hp
          split at hp
          · cases hp
          · cases hp
            rcases List.mem_append.mp hn with hn | hn
            · exact ⟨_, hn⟩
            · have hmem : n ∈ (Path.ofString directory).parts := hparts ▸ List.mem_cons_of_mem _ hn
              exact ⟨directory, hmem⟩
    · cases hp
      exact ⟨directory, hn⟩
  · cases hp
    exact ⟨directory, hn⟩

theorem clean_of_expandHome (hp : m.expandHome (.ofString directory) = .ok p)
    (hnull : p.hasNull = false) : p.Clean := by
  intro n hn
  obtain ⟨text, htext⟩ := mem_parts_of_expandHome hp hn
  obtain ⟨hempty, hdot, hslash, -⟩ := Path.mem_names htext
  refine ⟨hempty, hdot, hslash, fun hmem => ?_⟩
  rw [Path.hasNull, List.any_eq_false] at hnull
  exact hnull n hn (List.contains_iff_mem.mpr hmem)

/-- No NUL is met on the way of a clean path. -/
theorem Sound.not_holdsNull (hm : m.Sound) (hq : q.Clean) : ¬m.HoldsNull q := by
  have hnull : ∀ {p : Path}, p.Clean → p.hasNull = false := by
    intro p hp
    rw [Path.hasNull, List.any_eq_false]
    exact fun n hn hmem => (hp n hn).no_null (List.contains_iff_mem.mp hmem)
  rintro (h | h)
  · rw [hnull hq] at h
    cases h
  · have hplace : (Path.ofPosition (m.canonical q)).Clean := hm.clean_canonical hq
    rw [m.stat_null_iff, hnull hplace] at h
    cases h

/-! ## What is below a directory -/

/-- What stands at the end of a path stands at the place that the path leads to. -/
theorem find?_of_stat (hs : m.stat p = .ok (pos, e)) : m.root.find? pos = some e :=
  (m.stat_ok_iff.mp hs).2.2.2

theorem find?_below (hs : m.stat p = .ok (pos, .directory es))
    (h : (Entry.directory es).find? names = some e) : m.root.find? (pos ++ names) = some e := by
  rw [Entry.find?_append, find?_of_stat hs]
  exact h

theorem Sound.properName_below (hm : m.Sound) (hs : m.stat p = .ok (pos, .directory es))
    (h : (Entry.directory es).find? names = some e) : ∀ n ∈ pos ++ names, ProperName n :=
  (hm.proper.find? (find?_below hs h)).1

/-- A path to a directory leads on to what is below it and is no link. -/
theorem Sound.settles_below (hm : m.Sound) (hs : m.stat p = .ok (pos, .directory es))
    (hsees : ¬m.Overlooks p) (h : (Entry.directory es).find? names = some e)
    (he : ∀ target, e ≠ .link target) : m.Settles (p.within names) (pos ++ names) := by
  have hup : ".." ∉ names := fun hmem =>
    (hm.properName_below hs h _ (List.mem_append_right _ hmem)).not_up rfl
  exact (settles_of_stat hs hsees).within hup (linkFree_of_find? (find?_below hs h) he)

/-- Where there is no link, none leads around in a circle. -/
theorem LinkFree.stat_ne_linkLoop (h : m.LinkFree pos) (hup : ".." ∉ pos) :
    m.stat (.ofPosition pos) ≠ .error (.errno .linkLoop) := by
  have hadvance : ∀ base target rest, m.advance [] pos ≠ .ok (.link base target rest) := by
    intro base target rest hstop
    obtain ⟨before, n, hsplit, -, hbase, hlink⟩ := m.advance_link hstop
    have hbefore : ".." ∉ before := fun hmem => hup (hsplit ▸ List.mem_append_left _ hmem)
    rw [Position.foldl_enter hbefore, List.nil_append] at hbase
    refine h (before ++ [n]) ⟨rest, by rw [hsplit, List.append_assoc]; rfl⟩ target (hbase ▸ hlink)
  intro hs
  rcases m.stat_errno hs with h | h | hwalk
  · cases h
  · cases h
  · unfold walk at hwalk
    split at hwalk
    · rename_i herror
      cases hwalk
      rcases m.advance_error _ herror with h | h | h | h <;> cases h
    · cases hwalk
    · rename_i hstop
      exact hadvance _ _ _ hstop

/-! ## The result of a search -/

theorem mapM_resolve {qs : List Path} (h : ∀ q ∈ qs, ¬m.HoldsNull q ∧ ¬m.Circles q) :
    qs.mapM m.resolve = .ok (qs.map m.canonical) := by
  induction qs with
  | nil => rfl
  | cons q qs ih =>
    obtain ⟨hq, hqs⟩ := List.forall_mem_cons.mp h
    have hresolved : ¬Fails (m.resolve q) := fun hfails =>
      (m.resolve_fails_iff.mp hfails).elim hq.1 hq.2
    obtain ⟨pos, hpos⟩ := not_fails_iff.mp hresolved
    rw [List.mapM_cons, hpos, ih hqs, m.resolve_ok hpos]
    rfl

/-- Where nothing that is found leads around in a circle, the result is made of the places that the
paths found are resolved to. -/
theorem findAssemblies_eq (hne : directory ≠ "") (hp : m.expandHome (.ofString directory) = .ok p)
    (hlist : m.listing? p = some es)
    (hsafe : ∀ q ∈ Discovery.inEntries m p es, ¬m.HoldsNull q ∧ ¬m.Circles q) :
    m.findAssemblies (some directory) =
      .ok (Discovery.sort ((Discovery.inEntries m p es).map fun q => (m.canonical q).text)) := by
  obtain ⟨pos, hs, -⟩ := m.listing?_eq_some_iff.mp hlist
  have hthere : m.isDirectory p = .ok true := by
    simp only [isDirectory, leadsTo, hs, Entry.isDirectory]
  unfold findAssemblies
  split
  · rename_i h
    cases h
  · rename_i h
    cases h
    exact absurd rfl hne
  · rename_i text _ h
    cases h
    rw [hp]
    simp only [bind, Except.bind, hthere, hlist, Option.getD_some, mapM_resolve hsafe, List.map_map]
    rfl

end Machine

namespace Discovery

variable {m : Machine} {p : Path} {pos : Position} {es : List (String × Entry)} {dirs : List String}
  {n : String} {e : Entry}

/-! ## Where found files are -/

theorem Finds.clean (h : Finds m p es dirs n e) (hm : m.Sound)
    (hs : m.stat p = .ok (pos, .directory es)) (hp : p.Clean) : (p.within (dirs ++ [n])).Clean :=
  hp.append fun n' hn' =>
    (hm.properName_below hs h.stands n' (List.mem_append_right _ hn')).toCleanName

/-- A file that is no link is resolved to where it is found. -/
theorem Finds.canonical_eq (h : Finds m p es dirs n e) (hm : m.Sound)
    (hs : m.stat p = .ok (pos, .directory es)) (hsees : ¬m.Overlooks p)
    (he : ∀ target, e ≠ .link target) :
    m.canonical (p.within (dirs ++ [n])) = pos ++ (dirs ++ [n]) :=
  (hm.settles_below hs hsees h.stands he).canonical_eq

theorem Finds.not_circles (h : Finds m p es dirs n e) (hm : m.Sound)
    (hs : m.stat p = .ok (pos, .directory es)) (hsees : ¬m.Overlooks p)
    (he : ∀ target, e ≠ .link target) : ¬m.Circles (p.within (dirs ++ [n])) := by
  unfold Machine.Circles
  rw [h.canonical_eq hm hs hsees he]
  refine (Machine.linkFree_of_find? (Machine.find?_below hs h.stands) he).stat_ne_linkLoop fun hup => ?_
  exact (hm.properName_below hs h.stands _ hup).not_up rfl

/-- Without links, what a search comes to depends on names alone. -/
theorem finds_iff_of_plain
    (hplain : ∀ names target, (Entry.directory es).find? names ≠ some (.link target))
    (hreadable : ∀ dirs es', (Entry.directory es).find? dirs = some (.directory es') →
      (m.listing? (p.within dirs)).isSome) :
    Finds m p es dirs n e ↔ (Entry.directory es).find? (dirs ++ [n]) = some e ∧
      e.isDirectory = false ∧ (∃ suffix ∈ suffixes, suffix.toList <:+ (Text.lower n).toList) ∧
      ∀ d ∈ dirs, d ∉ excluded := by
  rw [← isAssemblyName_iff]
  constructor
  · exact fun h => ⟨h.stands, h.plain, h.named, h.kept⟩
  · rintro ⟨hstands, hfile, hnamed, hkept⟩
    refine ⟨hstands, hnamed, hfile, fun target htarget => ?_, hkept, fun before _ hbefore => ?_⟩
    · exact absurd (htarget ▸ hstands) (hplain _ target)
    · obtain ⟨after, rfl⟩ := hbefore
      obtain ⟨n', names, hnames⟩ := List.exists_cons_of_ne_nil (List.concat_ne_nil n after)
      rw [List.append_assoc, hnames] at hstands
      obtain ⟨es', hes'⟩ := Entry.directory_of_find?_append hstands
      exact hreadable before es' hes'

end Discovery

namespace Machine

variable {m : Machine} {p : Path} {pos : Position} {es : List (String × Entry)} {directory : String}

/-- A machine with one assembly file in the root and another one in a directory that is not entered. -/
def plainMachine : Machine := .inRoot [("Lib.dll", .file .empty 0o644),
  ("node_modules", .directory [("Hidden.dll", .file .empty 0o644)])]

end Machine

end AssemblyBrowser
