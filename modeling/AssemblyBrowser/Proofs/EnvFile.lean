import AssemblyBrowser.Proofs.OrderedMap
import AssemblyBrowser.Proofs.Text.Blank
import AssemblyBrowser.Settings.EnvFile
/-!
Settings in files. Main statement: a line `KEY=value` sets the key, if no later line does, to the value,
from which one pair of equal quotes has been taken away.
-/
namespace AssemblyBrowser

theorem Text.cutList?_append {separator : Char} {before : List Char} (h : separator ∉ before)
    (after : List Char) : cutList? separator (before ++ separator :: after) = some (before, after) := by
  induction before with
  | nil => simp [cutList?]
  | cons c before ih =>
    obtain ⟨hc, hbefore⟩ : separator ≠ c ∧ separator ∉ before := by simpa using h
    rw [List.cons_append, cutList?, if_neg hc.symm, ih hbefore]
    rfl

namespace EnvFile

/-- The line sets the key. -/
def Sets (key line : String) : Prop := ∃ value, settingList? line.toList = some (key.toList, value)

/-- The text stands between two equal quotes. -/
def Quoted (cs : List Char) : Prop :=
  ∃ q inside, (q = '"' ∨ q = '\'') ∧ cs = q :: (inside ++ [q])

theorem unquoteList_quoted {q : Char} (h : q = '"' ∨ q = '\'') (inside : List Char) :
    unquoteList (q :: (inside ++ [q])) = inside := by
  rcases h with rfl | rfl <;> simp [unquoteList]

theorem unquoteList_of_not_quoted {cs : List Char} (h : ¬Quoted cs) : unquoteList cs = cs := by
  cases cs with
  | nil => rfl
  | cons q rest =>
    rw [unquoteList]
    split
    · next hends =>
      obtain ⟨hq, hlast⟩ : (q = '"' ∨ q = '\'') ∧ rest.getLast? = some q := by simpa using hends
      obtain ⟨inside, rfl⟩ := List.getLast?_eq_some_iff.mp hlast
      exact absurd ⟨q, inside, hq, rfl⟩ h
    · rfl

/-- A name that can stand in front of the sign of equality. -/
structure IsKey (key : String) : Prop where
  bare : Text.Bare Text.isBlank key.toList
  nonempty : key.toList ≠ []
  notComment : key.toList.head? ≠ some '#'
  uncut : '=' ∉ key.toList

theorem settingList?_assign {key value : String} (hkey : IsKey key)
    (hvalue : Text.Bare Text.isBlank value.toList) :
    settingList? (key ++ "=" ++ value).toList = some (key.toList, unquoteList value.toList) := by
  have hline : (key ++ "=" ++ value).toList = key.toList ++ '=' :: value.toList := by
    simp [String.toList_append]
  obtain ⟨c, cs, hhead⟩ := List.exists_cons_of_ne_nil hkey.nonempty
  have hbare : Text.Bare Text.isBlank (key.toList ++ '=' :: value.toList) := by
    constructor
    · intro d hd
      rw [hhead] at hd
      exact hkey.bare.first d (by rw [hhead]; exact hd)
    · intro d hd
      cases hcs : value.toList with
      | nil =>
        obtain rfl : '=' = d := by simpa [hcs] using hd
        rfl
      | cons e more =>
        refine hvalue.last d ?_
        simpa [hcs, List.getLast?_append, List.getLast?_cons_cons] using hd
  have hcomment : (key.toList ++ '=' :: value.toList).head? ≠ some '#' := by
    rw [hhead]
    intro h
    exact hkey.notComment (by rw [hhead]; exact h)
  have hempty : key.toList.isEmpty = false := by simpa using hkey.nonempty
  rw [hline, settingList?, Text.trimList, hbare.strip, if_neg hcomment,
    Text.cutList?_append hkey.uncut]
  simp only [Text.trimList, hkey.bare.strip, hvalue.strip, hempty, Bool.false_eq_true, if_false]

/-- The last line that sets a key decides on its value. -/
theorem find?_parse {text key value : String} {before after : List String} (hkey : IsKey key)
    (hvalue : Text.Bare Text.isBlank value.toList)
    (hlines : Text.lines text = before ++ (key ++ "=" ++ value) :: after)
    (hafter : ∀ line ∈ after, ¬Sets key line) :
    (parse text).find? key = some (String.ofList (unquoteList value.toList)) := by
  have hlists : Text.linesList text.toList = (Text.lines text).map String.toList := by
    simp [Text.lines, Function.comp_def]
  have hnot : key ∉ Assoc.keys (((after.map String.toList).filterMap settingList?).map
      fun e => (String.ofList e.1, String.ofList e.2)) := by
    intro hmem
    obtain ⟨entry, hentry, hname⟩ := List.mem_map.mp hmem
    obtain ⟨⟨k, v⟩, hkv, rfl⟩ := List.mem_map.mp hentry
    obtain ⟨line, hline, hset⟩ := List.mem_filterMap.mp hkv
    obtain ⟨l, hl, rfl⟩ := List.mem_map.mp hline
    have hk : k = key.toList := by rw [← hname, String.toList_ofList]
    exact hafter l hl ⟨v, hk ▸ hset⟩
  rw [parse, settings, hlists, hlines]
  simp only [List.map_append, List.map_cons, List.filterMap_append, List.filterMap_cons,
    settingList?_assign hkey hvalue, String.ofList_toList]
  exact OrderedMap.find?_ofList hnot

end EnvFile

end AssemblyBrowser
