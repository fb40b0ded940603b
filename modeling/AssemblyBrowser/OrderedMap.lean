/-!
Finite maps that remember the order in which their keys first came. A key that is put again keeps
its place and takes the new value; a key that is erased and put again goes to the end.
-/
namespace AssemblyBrowser

variable {κ α : Type} [DecidableEq κ]

/-! Association lists, on which the maps are built. -/
namespace Assoc

def find? (k : κ) : List (κ × α) → Option α
  | [] => none
  | (k', v) :: rest => if k' = k then some v else find? k rest

def put (k : κ) (v : α) : List (κ × α) → List (κ × α)
  | [] => [(k, v)]
  | (k', v') :: rest => if k' = k then (k, v) :: rest else (k', v') :: put k v rest

def erase (k : κ) (es : List (κ × α)) : List (κ × α) := es.filter fun e => e.1 ≠ k

def keys {κ α : Type} (es : List (κ × α)) : List κ := es.map Prod.fst

theorem keys_put (k : κ) (v : α) (es : List (κ × α)) :
    keys (put k v es) = if k ∈ keys es then keys es else keys es ++ [k] := by
  induction es with
  | nil => simp [keys, put]
  | cons e es ih =>
    obtain ⟨k', v'⟩ := e
    by_cases h : k' = k
    · simp [keys, put, h]
    · have hk : ¬k = k' := fun e => h e.symm
      simp only [keys, put, h, if_false, List.map_cons, List.mem_cons, hk, false_or] at ih ⊢
      rw [ih]
      by_cases hm : k ∈ List.map Prod.fst es <;> simp [hm]

theorem nodup_put {k : κ} {v : α} {es : List (κ × α)} (h : (keys es).Nodup) :
    (keys (put k v es)).Nodup := by
  rw [keys_put]
  split
  · exact h
  · rename_i hk
    refine List.nodup_append.2 ⟨h, by simp, ?_⟩
    intro a ha b hb e
    obtain rfl := List.mem_singleton.1 hb
    exact hk (e ▸ ha)

theorem keys_erase (k : κ) (es : List (κ × α)) :
    keys (erase k es) = (keys es).filter fun k' => k' ≠ k := by
  simp [keys, erase, List.filter_map, Function.comp_def]

theorem nodup_erase {k : κ} {es : List (κ × α)} (h : (keys es).Nodup) :
    (keys (erase k es)).Nodup := by
  rw [keys_erase]
  exact h.filter _

@[simp] theorem find?_put_self (k : κ) (v : α) (es : List (κ × α)) :
    find? k (put k v es) = some v := by
  induction es with
  | nil => simp [find?, put]
  | cons e es ih =>
    obtain ⟨k', v'⟩ := e
    by_cases h : k' = k <;> simp [find?, put, h, ih]

theorem find?_put_ne {k k' : κ} (h : k' ≠ k) (v : α) (es : List (κ × α)) :
    find? k' (put k v es) = find? k' es := by
  induction es with
  | nil => simp [find?, put, Ne.symm h]
  | cons e es ih =>
    obtain ⟨k₀, v₀⟩ := e
    by_cases hk : k₀ = k
    · simp [find?, put, hk, Ne.symm h]
    · simp [find?, put, hk, ih]

end Assoc

structure OrderedMap (κ α : Type) where
  entries : List (κ × α)
  nodup : (Assoc.keys entries).Nodup
deriving DecidableEq

namespace OrderedMap

def empty : OrderedMap κ α := ⟨[], by simp [Assoc.keys]⟩

instance : EmptyCollection (OrderedMap κ α) := ⟨empty⟩
instance : Inhabited (OrderedMap κ α) := ⟨empty⟩

def find? (m : OrderedMap κ α) (k : κ) : Option α := Assoc.find? k m.entries

def put (m : OrderedMap κ α) (k : κ) (v : α) : OrderedMap κ α :=
  ⟨Assoc.put k v m.entries, Assoc.nodup_put m.nodup⟩

def erase (m : OrderedMap κ α) (k : κ) : OrderedMap κ α :=
  ⟨Assoc.erase k m.entries, Assoc.nodup_erase m.nodup⟩

def keys (m : OrderedMap κ α) : List κ := Assoc.keys m.entries

/-- Keeps the entries whose keys pass. -/
def filter (m : OrderedMap κ α) (p : κ → Bool) : OrderedMap κ α :=
  ⟨m.entries.filter fun e => p e.1, by
    have h := m.nodup
    unfold Assoc.keys at h ⊢
    exact h.sublist (List.filter_sublist.map Prod.fst)⟩

def values (m : OrderedMap κ α) : List α := m.entries.map Prod.snd

def contains (m : OrderedMap κ α) (k : κ) : Bool := (m.find? k).isSome

/-- Puts the entries in turn. -/
def putAll (m : OrderedMap κ α) (es : List (κ × α)) : OrderedMap κ α :=
  es.foldl (fun m e => m.put e.1 e.2) m

def ofList (es : List (κ × α)) : OrderedMap κ α := putAll empty es

@[simp] theorem find?_put_self (m : OrderedMap κ α) (k : κ) (v : α) :
    (m.put k v).find? k = some v := Assoc.find?_put_self k v m.entries

theorem find?_put_ne (m : OrderedMap κ α) {k k' : κ} (h : k' ≠ k) (v : α) :
    (m.put k v).find? k' = m.find? k' := Assoc.find?_put_ne h v m.entries

end OrderedMap

end AssemblyBrowser
