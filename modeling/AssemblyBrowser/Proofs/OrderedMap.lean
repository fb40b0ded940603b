import AssemblyBrowser.OrderedMap
/-!
Look-ups in ordered maps after an erasure or a filter and in maps made of a list, and the keys of a map.
-/
namespace AssemblyBrowser

variable {κ α : Type} [DecidableEq κ]

namespace Assoc

theorem find?_filter (p : κ → Bool) (k : κ) (es : List (κ × α)) :
    find? k (es.filter fun e => p e.1) = if p k then find? k es else none := by
  induction es with
  | nil => simp [find?]
  | cons e es ih =>
    obtain ⟨k', v⟩ := e
    by_cases hk : k' = k
    · subst hk
      cases hp : p k' <;> simp [find?, hp, ih]
    · cases hp : p k' <;> simp [find?, hp, hk, ih]

theorem find?_erase (k k' : κ) (es : List (κ × α)) :
    find? k' (erase k es) = if k' = k then none else find? k' es := by
  have h := find?_filter (fun k' => decide (k' ≠ k)) k' es
  by_cases hk : k' = k <;> simpa [erase, hk] using h

theorem find?_isSome_iff (k : κ) (es : List (κ × α)) : (find? k es).isSome ↔ k ∈ keys es := by
  induction es with
  | nil => simp [find?, keys]
  | cons e es ih =>
    obtain ⟨k', v⟩ := e
    by_cases hk : k' = k
    · simp [find?, keys, hk]
    · simp only [find?, hk, if_false, ih, keys, List.map_cons, List.mem_cons, Ne.symm hk, false_or]

theorem find?_of_mem {k : κ} {v : α} {es : List (κ × α)} (hd : (keys es).Nodup)
    (h : (k, v) ∈ es) : find? k es = some v := by
  induction es with
  | nil => cases h
  | cons e es ih =>
    obtain ⟨k', v'⟩ := e
    obtain ⟨hnot, hd⟩ := List.nodup_cons.mp hd
    rcases List.mem_cons.mp h with he | hm
    · obtain ⟨rfl, rfl⟩ := Prod.mk.inj he
      simp [find?]
    · have hne : k' ≠ k := fun e => hnot (List.mem_map.mpr ⟨(k, v), hm, e.symm⟩)
      simp [find?, hne, ih hd hm]

theorem mem_of_find? {k : κ} {v : α} {es : List (κ × α)} (h : find? k es = some v) : (k, v) ∈ es := by
  induction es with
  | nil => cases h
  | cons e es ih =>
    obtain ⟨k', v'⟩ := e
    rw [find?] at h
    split at h
    · rename_i hk
      cases h
      exact hk ▸ List.mem_cons_self
    · exact List.mem_cons_of_mem _ (ih h)

/-- A key that is not there yet goes to the end. -/
theorem put_of_notMem {k : κ} {es : List (κ × α)} (h : k ∉ keys es) (v : α) :
    put k v es = es ++ [(k, v)] := by
  induction es with
  | nil => rfl
  | cons e es ih =>
    obtain ⟨k', v'⟩ := e
    obtain ⟨hne, hnot⟩ : ¬k = k' ∧ k ∉ keys es := by simpa [keys] using h
    rw [put, if_neg (Ne.symm hne), ih hnot, List.cons_append]

theorem find?_append (k : κ) (es es' : List (κ × α)) :
    find? k (es ++ es') = (find? k es).or (find? k es') := by
  induction es with
  | nil => rfl
  | cons e es ih =>
    by_cases hk : e.1 = k
    · simp [find?, hk]
    · simp [find?, hk, ih]

/-- Entries that are put leave the values of other keys. -/
theorem find?_foldl_put {k : κ} {new : List (κ × α)} (h : k ∉ keys new) (es : List (κ × α)) :
    find? k (new.foldl (fun es (k, v) => put k v es) es) = find? k es := by
  induction new generalizing es with
  | nil => rfl
  | cons e new ih =>
    obtain ⟨hne, hnot⟩ : ¬k = e.1 ∧ k ∉ keys new := by simpa [keys] using h
    rw [List.foldl_cons, ih hnot, find?_put_ne hne]

end Assoc

namespace OrderedMap

@[simp] theorem find?_empty (k : κ) : (∅ : OrderedMap κ α).find? k = none := rfl

omit [DecidableEq κ] in
@[simp] theorem keys_empty : (∅ : OrderedMap κ α).keys = [] := rfl

theorem find?_put (m : OrderedMap κ α) (k k' : κ) (v : α) :
    (m.put k v).find? k' = if k' = k then some v else m.find? k' := by
  by_cases h : k' = k
  · rw [h, find?_put_self, if_pos rfl]
  · rw [find?_put_ne m h, if_neg h]

theorem find?_filter (m : OrderedMap κ α) (p : κ → Bool) (k : κ) :
    (m.filter p).find? k = if p k then m.find? k else none := Assoc.find?_filter p k m.entries

theorem find?_erase (m : OrderedMap κ α) (k k' : κ) :
    (m.erase k).find? k' = if k' = k then none else m.find? k' := Assoc.find?_erase k k' m.entries

theorem keys_erase (m : OrderedMap κ α) (k : κ) :
    (m.erase k).keys = m.keys.filter fun k' => k' ≠ k := Assoc.keys_erase k m.entries

theorem keys_put (m : OrderedMap κ α) (k : κ) (v : α) :
    (m.put k v).keys = if k ∈ m.keys then m.keys else m.keys ++ [k] := Assoc.keys_put k v m.entries

theorem find?_putAll_of_notMem (m : OrderedMap κ α) {k : κ} {es : List (κ × α)}
    (h : k ∉ Assoc.keys es) : (m.putAll es).find? k = m.find? k := by
  induction es generalizing m with
  | nil => rfl
  | cons e es ih =>
    obtain ⟨hne, hnot⟩ : ¬k = e.1 ∧ k ∉ Assoc.keys es := by simpa [Assoc.keys] using h
    have hrest := ih (m.put e.1 e.2) hnot
    rw [find?_put_ne m hne] at hrest
    exact hrest

/-- The last value of a key counts. -/
theorem find?_ofList {k : κ} {v : α} {before after : List (κ × α)} (h : k ∉ Assoc.keys after) :
    (ofList (before ++ (k, v) :: after)).find? k = some v := by
  have hsplit : ofList (before ++ (k, v) :: after) =
      (((empty : OrderedMap κ α).putAll before).put k v).putAll after := List.foldl_append
  rw [hsplit, find?_putAll_of_notMem _ h, find?_put_self]

theorem contains_iff (m : OrderedMap κ α) (k : κ) : m.contains k = true ↔ k ∈ m.keys :=
  Assoc.find?_isSome_iff k m.entries

end OrderedMap

end AssemblyBrowser
