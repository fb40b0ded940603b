import AssemblyBrowser.Text.Blank
/-!
What trimming leaves: a text that begins and ends with characters that are no blanks is left as it is,
and the blanks around it are taken away.
-/
namespace AssemblyBrowser.Text

/-- The text neither begins nor ends with a character that satisfies `p`. -/
structure Bare (p : Char → Bool) (cs : List Char) : Prop where
  first : ∀ c ∈ cs.head?, p c = false
  last : ∀ c ∈ cs.getLast?, p c = false

instance decidableBare (p : Char → Bool) (cs : List Char) : Decidable (Bare p cs) :=
  decidable_of_iff (cs.head?.any p = false ∧ cs.getLast?.any p = false) <| by
    simp only [Option.any_eq_false]
    exact ⟨fun h => ⟨h.1, h.2⟩, fun h => ⟨h.first, h.last⟩⟩

namespace Bare

variable {p : Char → Bool} {cs : List Char}

theorem reverse (h : Bare p cs) : Bare p cs.reverse where
  first := by simpa using h.last
  last := by simpa using h.first

theorem dropWhile (h : Bare p cs) : cs.dropWhile p = cs := by
  cases cs with
  | nil => rfl
  | cons c cs =>
    have hc : p c = false := h.first c rfl
    simp [hc]

/-- Only what stands around the text is dropped. -/
theorem strip_append (h : Bare p cs) (hne : cs ≠ []) {before behind : List Char}
    (hbefore : ∀ c ∈ before, p c = true) (hbehind : ∀ c ∈ behind, p c = true) :
    stripList p (before ++ (cs ++ behind)) = cs := by
  have hfront : (before ++ (cs ++ behind)).dropWhile p = cs ++ behind := by
    obtain ⟨c, rest, rfl⟩ := List.exists_cons_of_ne_nil hne
    have hc : p c = false := h.first c rfl
    rw [List.dropWhile_append_of_pos hbefore]
    simp [hc]
  have hback : (cs ++ behind).reverse.dropWhile p = cs.reverse := by
    have hall : ∀ c ∈ behind.reverse, p c = true := fun c hc => hbehind c (List.mem_reverse.mp hc)
    rw [List.reverse_append, List.dropWhile_append_of_pos hall]
    exact h.reverse.dropWhile
  rw [stripList, hfront, hback, List.reverse_reverse]

theorem strip (h : Bare p cs) : stripList p cs = cs := by
  rw [stripList, h.dropWhile, h.reverse.dropWhile, List.reverse_reverse]

end Bare

/-- Blanks around a text that has none at its ends are taken away. -/
theorem trim_append {before s behind : String} (hs : Bare isBlank s.toList) (hne : s ≠ "")
    (hbefore : ∀ c ∈ before.toList, isBlank c = true)
    (hbehind : ∀ c ∈ behind.toList, isBlank c = true) : trim (before ++ s ++ behind) = s := by
  have hcs : s.toList ≠ [] := fun h => hne (String.toList_inj.mp h)
  rw [trim, trimList, String.toList_append, String.toList_append, List.append_assoc,
    hs.strip_append hcs hbefore hbehind, String.ofList_toList]

end AssemblyBrowser.Text
