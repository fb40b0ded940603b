import AssemblyBrowser.Proofs.Browser.Calls
import AssemblyBrowser.Proofs.Engine.Failures
import AssemblyBrowser.Proofs.Tree.Sited
/-!
Keys that were shown. Main statement: along any run, whatever engines, files and environment do, no look
for members or text meets a node that is no longer part of the tree, and a key that a list of members
shows is found again in its assembly, until the tree is refreshed, the language changes or the assembly
is removed. Another member may have come to the place by then, under the same key.
-/
namespace AssemblyBrowser

variable {σ : Type}

namespace Forest

/-! ## Failures of a tree -/

section

variable {τ : Type} {k : Backend τ} {P : Failure → Prop} (hk : ∀ c, Attempt.Raises P (k c))
  {s : Forest τ} {id : NodeId} {n : Node} {f : Failure}
include hk

/-- For an attached node a tree fails only as its engine does. -/
theorem children_fails (h : s.tree.flights = []) (hn : s.tree.Holds id n)
    (hf : ((children k.engine id).runFrom s).1 = .error f) : P f := by
  have ha : s.tree.isAttached id = true := (Tree.isAttached_of_node? hn.1).mpr hn.2
  have hfinish : ∀ r, (Tree.finishChildren id r s.tree).1 = .error f → r = .error f := by
    intro r hr
    cases r with
    | error f' =>
      simp only [Tree.finishChildren] at hr
      exact congrArg Except.error (Except.error.inj hr)
    | ok ms =>
      rw [Tree.finishChildren_ok h hn.1 ha] at hr
      cases hr
  rw [children_run _ h] at hf
  simp only [Tree.plan, Tree.planFetch, hn.1] at hf
  cases hc : n.children with
  | some kept =>
    rw [hc] at hf
    cases hf
  | none =>
    simp only [hc, ha, if_true] at hf
    split at hf
    · exact hk _ _ _ (hfinish _ hf)
    · cases hfinish _ hf

theorem code_fails (h : s.tree.flights = []) (hn : s.tree.Holds id n)
    (hf : ((code k.engine id).runFrom s).1 = .error f) : P f := by
  have ha : s.tree.isAttached id = true := (Tree.isAttached_of_node? hn.1).mpr hn.2
  have hfinish : ∀ r, (Tree.finishCode id r s.tree).1 = .error f → r = .error f := by
    intro r hr
    cases r with
    | error f' => exact hr
    | ok text =>
      rw [Tree.finishCode_ok h ha] at hr
      cases hr
  rw [code_run _ h] at hf
  simp only [Tree.plan, Tree.planFetch, hn.1] at hf
  cases hc : n.code with
  | some kept =>
    rw [hc] at hf
    cases hf
  | none =>
    simp only [hc, ha, if_true] at hf
    exact hk _ _ _ (hfinish _ hf)

end

end Forest

namespace Browser

variable (program : Program σ) {b : Browser σ}

/-! ## Nodes that are no longer part of the tree -/

/-- The failure of a node that is no longer part of the tree. -/
def IsStale (f : Failure) : Prop := ∃ key, f = .staleNode key

theorem not_stale_of_engine {f : Failure} (h : f.OfEngine) : ¬IsStale f := by
  rintro ⟨key, rfl⟩
  exact h

/-- What is meant by a key is found or reported. -/
theorem resolve_not_stale {key : String} {assembly : Option String} {f : Failure}
    (h : ((resolve key assembly).runFrom b).1 = .error f) : ¬IsStale f := by
  have hnode : ∀ owner, ((nodeOf key owner).runFrom b).1 = .error f → ¬IsStale f := by
    rintro owner hf ⟨k, rfl⟩
    exact nodeOf_reports key owner ⟨_, hf, rfl⟩
  cases assembly with
  | none => exact hnode none (resolve_none (b := b) key ▸ h)
  | some typed =>
    rw [resolve_some] at h
    split at h
    · exact hnode _ h
    · cases h
      rintro ⟨k, hk⟩
      cases hk
    · rename_i f' hmatch
      cases h
      rintro ⟨k, rfl⟩
      exact matchLoaded_error hmatch

/-- A call for members or text meets a node that is no longer part of the tree. -/
def MeetsStale (b : Browser σ) : ToolCall → Prop
  | .listMembers (some key) assembly limit =>
    ∃ f, ((listMembers program key assembly limit).runFrom b).1 = .error f ∧ IsStale f
  | .getCode key assembly _ =>
    ∃ f, IsStale f ∧ (((resolve key assembly).runFrom b).1 = .error f ∨
      ∃ id, ((resolve key assembly).runFrom b).1 = .ok id ∧
        ((Forest.code (Session.engine program) id).runFrom b.forest).1 = .error f)
  | _ => False

/-- The node that is meant is attached. -/
theorem holds_of_resolve (h : b.tree.Sited) {key : String} {assembly : Option String} {id : NodeId}
    (hid : ((resolve key assembly).runFrom b).1 = .ok id) : ∃ n, b.tree.Holds id n := by
  obtain ⟨path, hslot⟩ := slot_of_resolve hid
  obtain ⟨n, hn, hs⟩ := h.slots _ id hslot
  exact ⟨n, hn, hs ▸ hslot⟩

theorem not_meetsStale (h : b.tree.Sited) (c : ToolCall) : ¬b.MeetsStale program c := by
  have hraises := Session.backend_raises program
  unfold MeetsStale
  split
  · rintro ⟨f, hf, hstale⟩
    rw [listMembers_run] at hf
    split at hf
    · rename_i f' hresolve
      cases hf
      exact resolve_not_stale hresolve hstale
    · rename_i id hresolve
      obtain ⟨n, hn⟩ := holds_of_resolve h hresolve
      cases hr : ((Forest.children (Session.engine program) id).runFrom b.forest).1 with
      | ok ids =>
        rw [hr] at hf
        cases hf
      | error f' =>
        rw [hr] at hf
        cases hf
        rw [Session.engine_eq] at hr
        exact not_stale_of_engine (Forest.children_fails hraises h.idle hn hr) hstale
  · rintro ⟨f, hstale, hresolve | ⟨id, hresolve, hcode⟩⟩
    · exact resolve_not_stale hresolve hstale
    · obtain ⟨n, hn⟩ := holds_of_resolve h hresolve
      rw [Session.engine_eq] at hcode
      exact not_stale_of_engine (Forest.code_fails hraises h.idle hn hcode) hstale
  · exact id

/-! ## Keys that are found again -/

/-- What happens makes an assembly give up its places. -/
def Event.Releases (b : Browser σ) (assembly : String) : Event → Prop
  | .call .refreshTree => True
  | .call (.setLanguage language) =>
    ∃ l, Language.parse language.plain = .ok l ∧ b.tree.language ≠ l
  | .call (.removeAssembly typed) => ((matchLoaded typed).runFrom b).1 = .ok (some assembly)
  | _ => False

theorem Event.releases_of_wants {c : ToolCall} {p : TreeOperation} {assembly : String}
    (hp : b.Wants c p) (hr : b.tree.Releases assembly p) :
    Event.Releases b assembly (.call c) := by
  cases p with
  | refresh => cases c <;> trivial
  | setLanguage name =>
    cases c with
    | setLanguage language =>
      obtain rfl : name = language.plain := hp
      exact hr
    | _ => exact hp.elim
  | remove path =>
    cases c with
    | removeAssembly typed =>
      obtain rfl : path = assembly := hr
      exact hp
    | _ => exact hp.elim
  | add path => exact hr.elim
  | children id => exact hr.elim
  | code id => exact hr.elim

/-- What becomes of the tree in a call. -/
theorem call_becomes (h : b.tree.Sited) (c : ToolCall) :
    ((call program c).runFrom b).2.tree = b.tree ∨
      ∃ p, b.Wants c p ∧ b.tree.Becomes p ((call program c).runFrom b).2.tree := by
  have hnodes : ∀ slot id, b.tree.slots.find? slot = some id → ∃ n, b.tree.node? id = some n :=
    fun slot id hslot => (h.slots slot id hslot).imp fun _ hn => hn.1
  rcases call_tree program c hnodes with hsame | ⟨p, hp, world, hcarries⟩
  · exact .inl hsame
  · rw [hcarries]
    exact .inr ⟨p, hp, Tree.perform_becomes program p (s := ⟨b.tree, world⟩) h.idle⟩

/-- What happens leaves places to nodes of theirs, and to an assembly its places unless it gives them
up. -/
theorem Event.sited (h : b.tree.Sited) (x : Event) : (x.after program b).tree.Sited ∧
    ∀ a, ¬x.Releases b a → b.tree.Retains (x.after program b).tree a := by
  cases x with
  | happen g acts => exact ⟨h, fun _ _ _ hkey => hkey⟩
  | change machine => exact ⟨h, fun _ _ _ hkey => hkey⟩
  | call c =>
    have hafter : (Event.call c).after program b = ((Browser.call program c).runFrom b).2 := rfl
    rw [hafter]
    rcases call_becomes program h c with hsame | ⟨p, hp, hbecomes⟩
    · rw [hsame]
      exact ⟨h, fun _ _ _ hkey => hkey⟩
    · obtain ⟨hsited, hretains⟩ := h.becomes hbecomes
      exact ⟨hsited, fun a ha => hretains a fun hr => ha (Event.releases_of_wants hp hr)⟩

theorem sited_new (machine : Machine) (settings : Settings) (session : Session σ)
    (language : Language) : (new machine settings session language).tree.Sited :=
  (Tree.sited_fresh language).of_same rfl rfl rfl rfl

theorem following_sited (h : b.tree.Sited) (xs : List Event) :
    (following program xs b).tree.Sited := by
  induction xs generalizing b with
  | nil => exact h
  | cons x xs ih => exact ih (Event.sited program h x).1

/-- Nothing that happens in a run makes an assembly give up its places. -/
def Spares (assembly : String) : List Event → Browser σ → Prop :=
  Along program fun b x => ¬x.Releases b assembly

theorem following_retains (h : b.tree.Sited) {assembly : String} (xs : List Event)
    (hspares : Spares program assembly xs b) :
    b.tree.Retains (following program xs b).tree assembly := by
  induction xs generalizing b with
  | nil => exact fun _ hkey => hkey
  | cons x xs ih =>
    obtain ⟨hsited, hretains⟩ := Event.sited program h x
    exact fun key hkey => ih hsited hspares.2 key (hretains assembly hspares.1 key hkey)

/-- A call is answered with a list of members that shows a key of an assembly. -/
def Lists (b : Browser σ) (c : ToolCall) (assembly key : String) : Prop :=
  ∃ parent typed limit id n ids, c = .listMembers (some parent) typed limit ∧
    ((resolve parent typed).runFrom b).1 = .ok id ∧
    ((Forest.children (Session.engine program) id).runFrom b.forest).1 = .ok ids ∧
    let t := ((call program c).runFrom b).2.tree
    t.node? id = some n ∧ n.assembly = assembly ∧
    ((call program c).runFrom b).1 = .ok (Format.memberList
      (n.member.name ++ " (" ++ n.member.kind.name ++ ")") (entries t ids) limit (some assembly)) ∧
    ∃ e ∈ Format.takeLimit limit (entries t ids), e.key = key

/-- The keys in an answer have taken places when it is given. -/
theorem Lists.contains (h : b.tree.Sited) {c : ToolCall} {assembly key : String}
    (hlists : b.Lists program c assembly key) :
    ((call program c).runFrom b).2.tree.slots.contains (assembly, key) = true := by
  obtain ⟨parent, typed, limit, id, n, ids, rfl, hresolve, hids, hn, rfl, -, e, he, rfl⟩ := hlists
  obtain ⟨n₀, hn₀⟩ := holds_of_resolve h hresolve
  have htree : ((call program (.listMembers (some parent) typed limit)).runFrom b).2.tree =
      ((Forest.children (Session.engine program) id).runFrom b.forest).2.tree := by
    simp only [call, tell_state]
    rw [listMembers_run, hresolve]
    rfl
  rw [htree] at hn he ⊢
  have hseated := Forest.children_seated program (s := b.forest) h hn₀ hids
  have hassembly : n₀.assembly = n.assembly := by
    have hcarried :=
      (Tree.perform_becomes program (.children id) (s := b.forest) h.idle).carried
    obtain ⟨n', hn', hslot⟩ := hcarried id n₀ hn₀.1
    obtain rfl : n' = n := Option.some.inj (hn'.symm.trans hn)
    exact (congrArg Prod.fst hslot).symm
  obtain ⟨c, hc, rfl⟩ := List.mem_map.mp (List.mem_of_mem_take he)
  obtain ⟨j, hj, hnode⟩ := List.mem_filterMap.mp hc
  obtain ⟨c', hc', ha, hslot⟩ := hseated j hj
  obtain rfl : c' = c := Option.some.inj (hc'.symm.trans hnode)
  rw [← hassembly, ← ha]
  exact hslot

/-- A key whose place is taken is found. -/
theorem resolve_of_contains (h : b.tree.Sited) {assembly key : String}
    (hslot : b.tree.slots.contains (assembly, key) = true) :
    ∃ id n, (resolve key (some assembly)).runFrom b = (.ok id, b) ∧ b.tree.node? id = some n ∧
      b.tree.isAttached id = true ∧ n.key = key ∧ n.assembly = assembly := by
  obtain ⟨id, hid⟩ := Option.isSome_iff_exists.mp hslot
  obtain ⟨n, hn, hs⟩ := h.slots _ id hid
  exact ⟨id, n, resolve_slot (h.rooted _ id hid) hid, hn,
    (Tree.isAttached_of_node? hn).mpr (hs ▸ hid), congrArg Prod.snd hs, congrArg Prod.fst hs⟩

/-- Along any run no call for members or text meets a node that is no longer part of the tree, and a key
that a list of members has shown means an attached node with that key in that assembly, unless the tree
has been refreshed, its language changed or the assembly removed since. -/
theorem shown_keys_found (machine : Machine) (settings : Settings) (session : Session σ)
    (language : Language) (xs : List Event) :
    let start := new machine settings session language
    let b := following program xs start
    (∀ c, ¬b.MeetsStale program c) ∧
      ∀ ys c zs assembly key, xs = ys ++ .call c :: zs →
        (following program ys start).Lists program c assembly key →
        Spares program assembly zs (following program (ys ++ [.call c]) start) →
        ∃ id n, (resolve key (some assembly)).runFrom b = (.ok id, b) ∧
          b.tree.node? id = some n ∧ b.tree.isAttached id = true ∧ n.key = key ∧
          n.assembly = assembly := by
  intro start b
  have hsited (ys : List Event) : (following program ys start).tree.Sited :=
    following_sited program (sited_new machine settings session language) ys
  refine ⟨not_meetsStale program (hsited xs), fun ys c zs assembly key hxs hlists hspares => ?_⟩
  have hsplit : following program xs start =
      following program zs (following program (ys ++ [.call c]) start) := by
    rw [← following_append, List.append_assoc, List.singleton_append, ← hxs]
  refine resolve_of_contains (hsited xs) ?_
  rw [hsplit]
  refine following_retains program (hsited _) zs hspares key ?_
  rw [following_append]
  exact hlists.contains program (hsited ys)

/-- An assembly is added and its members are listed, and in between and afterwards its engine exits and a
call fails. -/
def listingRun : List Event :=
  [.call (.addAssembly "/work/a.dll"), .call (.listMembers (some "a") none 10), .happen 1 [.exit 0],
    .call (.addAssembly "/work/b.dll")]

theorem listingRun_lists : (following smallProgram [.call (.addAssembly "/work/a.dll")]
    smallBrowser).Lists smallProgram (.listMembers (some "a") none 10) "/work/a.dll" "k" := by
  refine ⟨"a", none, 10, 0, ⟨⟨"a", "n", .assembly, none⟩, "/work/a.dll", none, some [1], none⟩, [1],
    rfl, ?_⟩
  decide +kernel

theorem shown_keys_found_after_exit :
    let b := following smallProgram listingRun smallBrowser
    ∃ id n, (resolve "k" (some "/work/a.dll")).runFrom b = (.ok id, b) ∧ b.tree.node? id = some n ∧
      b.tree.isAttached id = true ∧ n.key = "k" ∧ n.assembly = "/work/a.dll" :=
  (shown_keys_found smallProgram _ _ _ _ listingRun).2 [.call (.addAssembly "/work/a.dll")] _ _
    "/work/a.dll" "k" rfl listingRun_lists ⟨id, id, trivial⟩

end Browser

end AssemblyBrowser
