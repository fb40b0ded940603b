import AssemblyBrowser.Proofs.FileSystem.Confinement
import AssemblyBrowser.Proofs.FileSystem.Discovery
/-!
The places to which typed paths are resolved. Main statements: they are clean, links are left in them
only where the typed path leaves them, and the path to a file at a place without links is resolved to
that place itself.
-/
namespace AssemblyBrowser

/-- The text of a place is read as the path to it. -/
theorem Path.ofString_text {pos : Position} (h : ∀ n ∈ pos, CleanName n) :
    Path.ofString pos.text = .ofPosition pos := by
  have hanchor : anchorOf pos.text.toList = .root := by
    rw [Position.toList_text]
    cases pos with
    | nil => rfl
    | cons n pos =>
      -- the first name does not begin with a second slash
      have hn := h n List.mem_cons_self
      cases hcs : n.toList with
      | nil => exact absurd (String.toList_eq_nil_iff.mp hcs) hn.nonempty
      | cons c cs =>
        have hc : c ≠ '/' := fun heq => hn.no_slash (by simp [hcs, heq])
        cases pos <;> simp [anchorOf, hcs, hc]
  rw [ofString, hanchor, Position.names_text h, ofPosition]

namespace Machine

variable {m : Machine} {typed : String} {pos : Position} {data : FileData}

theorem not_up_foldl_enter {names : List String} (h : ".." ∉ pos) :
    ".." ∉ names.foldl Position.enter pos := by
  induction names generalizing pos with
  | nil => exact h
  | cons n names ih =>
    apply ih
    unfold Position.enter
    split
    · exact fun hmem => h (List.mem_of_mem_dropLast hmem)
    · rename_i hn
      simp [h, Ne.symm hn]

/-- A path is resolved to a place without two dots. -/
theorem Sound.not_up_canonical (hm : m.Sound) (p : Path) : ".." ∉ m.canonical p := by
  apply not_up_foldl_enter
  obtain ⟨es, hes⟩ := hm.working
  unfold start
  split
  · exact fun hmem => ((hm.proper.find? hes).1 _ hmem).not_up rfl
  · exact List.not_mem_nil

theorem Names.clean (h : m.Names typed pos) (hm : m.Sound) : ∀ n ∈ pos, CleanName n := by
  obtain ⟨-, p, hp, hpos⟩ := h
  have hnull : p.hasNull = false := by
    cases hp : p.hasNull with
    | false => rfl
    | true =>
      rw [resolve, hp] at hpos
      cases hpos
  rw [m.resolve_ok hpos]
  exact hm.clean_canonical (clean_of_expandHome hp hnull)

theorem Names.not_up (h : m.Names typed pos) (hm : m.Sound) : ".." ∉ pos := by
  obtain ⟨-, p, -, hpos⟩ := h
  rw [m.resolve_ok hpos]
  exact hm.not_up_canonical p

/-- Links are left in the place that a path is resolved to only where the path leaves them. -/
theorem Names.linkFree_iff (h : m.Names typed pos) (hm : m.Sound) :
    m.LinkFree pos ↔ ¬m.LeavesLink typed pos := by
  obtain ⟨-, p, hp, hpos⟩ := h
  constructor
  · rintro hfree ⟨⟨q, target, hq, hlink⟩, -⟩
    exact hfree q hq target hlink
  · intro hleaves q hq target hlink
    refine hleaves ⟨⟨q, target, hq, hlink⟩, p, hp, ?_⟩
    by_contra hnone
    rw [not_or] at hnone
    have hfree := hm.linkFree_canonical hnone.2 hnone.1
    rw [← m.resolve_ok hpos] at hfree
    exact hfree q hq target hlink

/-- The path to a file is resolved to itself if no link is in it. -/
theorem LinkFree.resolve_text (hfree : m.LinkFree pos) (hclean : ∀ n ∈ pos, CleanName n)
    (hup : ".." ∉ pos) (hread : m.Readable pos data) : m.resolve (.ofString pos.text) = .ok pos := by
  obtain ⟨dest, mode, hstat, -⟩ := hread
  have hroot : m.Settles (.ofPosition []) [] := ⟨[], .ofPosition [], .refl, rfl⟩
  have hcanonical : m.canonical (.ofPosition pos) = pos :=
    (hroot.within hup hfree).canonical_eq
  have hnull : (Path.ofPosition pos).hasNull = false := (m.stat_ok_iff.mp hstat).1
  simp only [Path.ofString_text hclean, resolve, hnull, hcanonical, hstat, Bool.false_eq_true, if_false]

/-- If the path to a place is resolved to a place with that path, it is the place itself. -/
theorem Names.eq_of_resolve_text (h : m.Names typed pos) (hm : m.Sound) {pos' : Position}
    (htext : pos'.text = pos.text) (hresolve : m.resolve (.ofString pos.text) = .ok pos') :
    pos' = pos := by
  have hclean := h.clean hm
  have hclean' : ∀ n ∈ pos', CleanName n := by
    rw [Path.ofString_text hclean] at hresolve
    rw [m.resolve_ok hresolve]
    exact hm.clean_canonical hclean
  exact Position.text_injective hclean' hclean htext

end Machine

end AssemblyBrowser
