import AssemblyBrowser.Proofs.FileSystem.Discovery
/-!
What links do to a search. It looks at names and places of links, and lists what they lead to. Main
statement: a search is safe unless its root is lost, or a link that it finds misleads it: around in a
circle, into a directory that is not entered, or to where something else leads that it finds.
-/
namespace AssemblyBrowser.Machine

variable (m : Machine) {p : Path} {pos : Position} {es : List (String × Entry)} {dirs : List String}
  {n directory : String} {e : Entry}

/-- A place lies in a directory below another place that a search does not enter. -/
def LiesInExcluded (pos place : Position) : Prop :=
  ∃ rest, place = pos ++ rest ∧ ∃ d ∈ rest.dropLast, d ∈ Discovery.excluded

/-- A search gives a result, in which no path is listed twice, and none lies in a directory below the
root that is not entered. -/
def SearchesSafely (directory : String) : Prop :=
  ∃ paths, m.findAssemblies (some directory) = .ok paths ∧ paths.Nodup ∧
    ∀ p pos es, m.expandHome (.ofString directory) = .ok p → m.stat p = .ok (pos, .directory es) →
      ∀ text ∈ paths, ¬LiesInExcluded pos (Path.names text)

/-- There is no such home directory, or it cannot be told what is at the path. -/
def Lost (directory : String) : Prop :=
  Fails (m.expandHome (.ofString directory)) ∨
    ∃ p, m.expandHome (.ofString directory) = .ok p ∧ m.Barred p

/-- What is found at some names below a directory leads around in a circle, into a directory that is not
entered, or to where something else leads that is found. -/
def Misleads (p : Path) (pos : Position) (es : List (String × Entry)) (names : List String) : Prop :=
  m.Circles (p.within names) ∨ LiesInExcluded pos (m.canonical (p.within names)) ∨
    ∃ dirs n e, Discovery.Finds m p es dirs n e ∧ dirs ++ [n] ≠ names ∧
      m.canonical (p.within (dirs ++ [n])) = m.canonical (p.within names)

variable {m}

/-! ## Searching a directory -/

/-- A search of a directory is safe if nothing that it finds misleads it, and only then. -/
theorem searchesSafely_iff_of_listing (hm : m.Sound) (hne : directory ≠ "")
    (hp : m.expandHome (.ofString directory) = .ok p) (hs : m.stat p = .ok (pos, .directory es))
    (hlist : m.listing? p = some es) : m.SearchesSafely directory ↔
      ∀ dirs n e, Discovery.Finds m p es dirs n e → ¬m.Misleads p pos es (dirs ++ [n]) := by
  have hproper : (Entry.directory es).Proper := (hm.proper.find? (find?_of_stat hs)).2
  have hclean : p.Clean := clean_of_expandHome hp (m.stat_ok_iff.mp hs).1
  have hfinds : ∀ q, q ∈ Discovery.inEntries m p es ↔
      ∃ dirs n e, Discovery.Finds m p es dirs n e ∧ q = p.within (dirs ++ [n]) := fun _ =>
    Discovery.mem_inEntries_iff hproper
  have hnames : ∀ {dirs n e}, Discovery.Finds m p es dirs n e →
      Path.names (m.canonical (p.within (dirs ++ [n]))).text = m.canonical (p.within (dirs ++ [n])) :=
    fun h => Position.names_text (hm.clean_canonical (h.clean hm hs hclean))
  constructor
  · rintro ⟨paths, hok, hnodup, hout⟩ dirs n e h hmisleads
    have hsafe : ∀ q ∈ Discovery.inEntries m p es, ¬m.HoldsNull q ∧ ¬m.Circles q := by
      intro q hq
      rw [← not_or]
      intro hlost
      have hfails := (m.findAssemblies_fails_iff directory).mpr
        ⟨hne, .inr ⟨p, hp, .inr ⟨es, hlist, q, hq, hlost⟩⟩⟩
      rw [hok] at hfails
      exact not_fails_ok _ hfails
    cases (findAssemblies_eq hne hp hlist hsafe).symm.trans hok
    rw [Discovery.nodup_sort] at hnodup
    rcases hmisleads with hcircle | hlies | ⟨dirs', n', e', h', hdiff, hsame⟩
    · exact (hsafe _ h.mem).2 hcircle
    · refine hout p pos es hp hs _ (Discovery.mem_sort.mpr (List.mem_map_of_mem h.mem)) ?_
      rw [hnames h]
      exact hlies
    · exact hdiff (Discovery.within_injective
        (List.inj_on_of_nodup_map hnodup h'.mem h.mem (congrArg Position.text hsame)))
  · intro hnone
    have hsafe : ∀ q ∈ Discovery.inEntries m p es, ¬m.HoldsNull q ∧ ¬m.Circles q := by
      intro q hq
      obtain ⟨dirs, n, e, h, rfl⟩ := (hfinds q).mp hq
      exact ⟨hm.not_holdsNull (h.clean hm hs hclean), fun hcircle => hnone _ _ _ h (.inl hcircle)⟩
    refine ⟨_, findAssemblies_eq hne hp hlist hsafe, Discovery.nodup_sort.mpr ?_, ?_⟩
    · refine List.Nodup.map_on (fun q hq q' hq' htext => ?_)
        (Discovery.inEntries_nodup p es hproper.1 hproper.2)
      obtain ⟨dirs, n, e, h, rfl⟩ := (hfinds q).mp hq
      obtain ⟨dirs', n', e', h', rfl⟩ := (hfinds q').mp hq'
      by_contra hdiff
      refine hnone _ _ _ h' (.inr (.inr ⟨_, _, _, h, fun heq => hdiff (by rw [heq]), ?_⟩))
      rw [← hnames h, htext, hnames h']
    · intro p' pos' es' hp' hs' text htext hlies
      cases hp.symm.trans hp'
      cases hs.symm.trans hs'
      obtain ⟨q, hq, rfl⟩ := List.mem_map.mp (Discovery.mem_sort.mp htext)
      obtain ⟨dirs, n, e, h, rfl⟩ := (hfinds q).mp hq
      rw [hnames h] at hlies
      exact hnone _ _ _ h (.inr (.inl hlies))

/-- Where no link misleads, nothing does. -/
theorem not_misleads_of_links (hm : m.Sound) (hs : m.stat p = .ok (pos, .directory es))
    (hsees : ¬m.Overlooks p) (hlinks : ∀ dirs n target, Discovery.Finds m p es dirs n (.link target) →
      ¬m.Misleads p pos es (dirs ++ [n])) (h : Discovery.Finds m p es dirs n e) :
    ¬m.Misleads p pos es (dirs ++ [n]) := by
  by_cases he : ∃ target, e = .link target
  · obtain ⟨target, rfl⟩ := he
    exact hlinks dirs n target h
  · have hplain : ∀ target, e ≠ .link target := fun target htarget => he ⟨target, htarget⟩
    have hplace := h.canonical_eq hm hs hsees hplain
    rintro (hcircle | ⟨rest, hrest, d, hd, hexcluded⟩ | ⟨dirs', n', e', h', hdiff, hsame⟩)
    · exact h.not_circles hm hs hsees hplain hcircle
    · rw [hplace] at hrest
      rw [← List.append_cancel_left hrest, List.dropLast_concat] at hd
      exact h.kept d hd hexcluded
    · by_cases he' : ∃ target, e' = .link target
      · obtain ⟨target, rfl⟩ := he'
        exact hlinks dirs' n' target h' (.inr (.inr ⟨dirs, n, e, h, Ne.symm hdiff, hsame.symm⟩))
      · rw [hplace, h'.canonical_eq hm hs hsees fun target htarget => he' ⟨target, htarget⟩] at hsame
        exact hdiff (List.append_cancel_left hsame)

theorem findAssemblies_of_unlisted (hp : m.expandHome (.ofString directory) = .ok p)
    (hopen : ¬m.Barred p) (hlist : m.listing? p = none) :
    m.findAssemblies (some directory) = .ok [] := by
  unfold findAssemblies
  split
  · rfl
  · rfl
  · rename_i text _ h
    cases h
    have hknown : ¬Fails (m.isDirectory p) := fun hfails => hopen ((m.leadsTo_fails_iff _).mp hfails)
    obtain ⟨there, hthere⟩ := not_fails_iff.mp hknown
    rw [hp]
    simp only [bind, Except.bind, hthere, hlist, Option.getD_none]
    cases there <;> simp [Discovery.inEntries, Discovery.sort, pure, Except.pure]

/-- A machine with a link to itself. -/
def circularMachine : Machine := .inRoot [("Lib.dll", .link "Lib.dll")]

end AssemblyBrowser.Machine
