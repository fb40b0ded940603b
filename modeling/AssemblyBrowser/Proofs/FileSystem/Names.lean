import AssemblyBrowser.FileSystem.Path
import Mathlib.Data.List.Basic
/-!
Names in written paths. Main statements: no name that is read from a text is empty, a dot or has a slash
in it, and what is read from the text of a place is that place.
-/
namespace AssemblyBrowser

/-! ## Pieces of texts -/

namespace Text

variable {separator : Char} {piece cs : List Char}

theorem splitList_of_not_mem (h : separator ∉ cs) : splitList separator cs = [cs] := by
  induction cs with
  | nil => rfl
  | cons c cs ih =>
    rw [List.mem_cons, not_or] at h
    rw [splitList, if_neg (Ne.symm h.1), ih h.2]

theorem splitList_append (h : separator ∉ piece) :
    splitList separator (piece ++ separator :: cs) = piece :: splitList separator cs := by
  induction piece with
  | nil => rw [List.nil_append, splitList, if_pos rfl]
  | cons c piece ih =>
    rw [List.mem_cons, not_or] at h
    rw [List.cons_append, splitList, if_neg (Ne.symm h.1), ih h.2]

/-- A text is split where its pieces have been joined. -/
theorem splitList_intercalate {pieces : List (List Char)} (hne : pieces ≠ [])
    (h : ∀ piece ∈ pieces, separator ∉ piece) :
    splitList separator ([separator].intercalate pieces) = pieces := by
  induction pieces with
  | nil => exact absurd rfl hne
  | cons piece pieces ih =>
    obtain ⟨hpiece, hpieces⟩ := List.forall_mem_cons.mp h
    cases pieces with
    | nil => rw [List.intercalate_singleton, splitList_of_not_mem hpiece]
    | cons piece' pieces =>
      rw [List.intercalate_cons_cons, List.append_assoc, List.singleton_append,
        splitList_append hpiece, ih (List.cons_ne_nil _ _) hpieces]

theorem mem_splitList (h : piece ∈ splitList separator cs) :
    separator ∉ piece ∧ ∀ c ∈ piece, c ∈ cs := by
  induction cs generalizing piece with
  | nil =>
    obtain rfl := List.mem_singleton.mp h
    exact ⟨List.not_mem_nil, fun c hc => hc⟩
  | cons c cs ih =>
    rw [splitList] at h
    split at h
    · rcases List.mem_cons.mp h with rfl | h
      · exact ⟨List.not_mem_nil, fun c hc => absurd hc List.not_mem_nil⟩
      · exact ⟨(ih h).1, fun c hc => List.mem_cons_of_mem _ ((ih h).2 c hc)⟩
    · rename_i hc
      split at h
      · obtain rfl := List.mem_singleton.mp h
        exact ⟨fun hmem => hc (List.mem_singleton.mp hmem).symm, fun c hmem =>
          List.mem_singleton.mp hmem ▸ List.mem_cons_self⟩
      · rename_i first pieces hsplit
        rw [hsplit] at ih
        rcases List.mem_cons.mp h with rfl | h
        · obtain ⟨hnot, hsub⟩ := ih List.mem_cons_self
          refine ⟨fun hmem => ?_, List.forall_mem_cons.mpr ⟨List.mem_cons_self, fun c hmem =>
            List.mem_cons_of_mem _ (hsub c hmem)⟩⟩
          rcases List.mem_cons.mp hmem with rfl | hmem
          · exact hc rfl
          · exact hnot hmem
        · obtain ⟨hnot, hsub⟩ := ih (List.mem_cons_of_mem _ h)
          exact ⟨hnot, fun c hmem => List.mem_cons_of_mem _ (hsub c hmem)⟩

end Text

/-! ## Names -/

/-- A name that a path can hold. -/
structure CleanName (n : String) : Prop where
  nonempty : n ≠ ""
  not_dot : n ≠ "."
  no_slash : '/' ∉ n.toList
  no_null : '\x00' ∉ n.toList

/-- A name that something in a directory can have. -/
structure ProperName (n : String) : Prop extends CleanName n where
  not_up : n ≠ ".."

instance (n : String) : Decidable (ProperName n) :=
  decidable_of_iff (n ≠ "" ∧ n ≠ "." ∧ '/' ∉ n.toList ∧ '\x00' ∉ n.toList ∧ n ≠ "..")
    ⟨fun ⟨h₁, h₂, h₃, h₄, h₅⟩ => ⟨⟨h₁, h₂, h₃, h₄⟩, h₅⟩,
      fun ⟨⟨h₁, h₂, h₃, h₄⟩, h₅⟩ => ⟨h₁, h₂, h₃, h₄, h₅⟩⟩

namespace Path

theorem mem_names {s n : String} (h : n ∈ names s) :
    n ≠ "" ∧ n ≠ "." ∧ '/' ∉ n.toList ∧ ∀ c ∈ n.toList, c ∈ s.toList := by
  obtain ⟨hsplit, hkept⟩ := List.mem_filter.mp h
  obtain ⟨piece, hpiece, rfl⟩ := List.mem_map.mp hsplit
  obtain ⟨hnot, hsub⟩ := Text.mem_splitList hpiece
  rw [Bool.and_eq_true, decide_eq_true_eq, decide_eq_true_eq] at hkept
  rw [String.toList_ofList]
  exact ⟨hkept.1, hkept.2, hnot, hsub⟩

theorem cleanName_of_mem_names {s n : String} (hs : '\x00' ∉ s.toList) (h : n ∈ names s) :
    CleanName n := by
  obtain ⟨hempty, hdot, hslash, hsub⟩ := mem_names h
  exact ⟨hempty, hdot, hslash, fun hnull => hs (hsub _ hnull)⟩

end Path

namespace Position

variable {pos pos' : Position}

theorem toList_text (pos : Position) :
    pos.text.toList = '/' :: ['/'].intercalate (pos.map String.toList) := by
  unfold text Path.text Path.ofPosition
  simp [Path.anchorText, String.toList_intercalate]

/-- The text of a place is read as the place. -/
theorem names_text (h : ∀ n ∈ pos, CleanName n) : Path.names pos.text = pos := by
  have hkept : pos.filter (fun n => n ≠ "" && n ≠ ".") = pos :=
    List.filter_eq_self.mpr fun n hn => by simp [(h n hn).nonempty, (h n hn).not_dot]
  have hsplit : Text.splitList '/' pos.text.toList =
      [] :: Text.splitList '/' (['/'].intercalate (pos.map String.toList)) := by
    rw [toList_text, Text.splitList, if_pos rfl]
  unfold Path.names Text.split
  rw [hsplit, List.map_cons, List.filter_cons_of_neg (by simp)]
  cases pos with
  | nil => simp [Text.splitList]
  | cons n pos =>
    have hslash : ∀ piece ∈ (n :: pos).map String.toList, '/' ∉ piece := by
      intro piece hpiece
      obtain ⟨n', hn', rfl⟩ := List.mem_map.mp hpiece
      exact (h n' hn').no_slash
    rw [Text.splitList_intercalate (by simp) hslash, List.map_map]
    simpa [Function.comp_def] using hkept

theorem text_injective (h : ∀ n ∈ pos, CleanName n) (h' : ∀ n ∈ pos', CleanName n)
    (heq : pos.text = pos'.text) : pos = pos' := by
  rw [← names_text h, heq, names_text h']

end Position

end AssemblyBrowser
