import AssemblyBrowser.Engine.Script
import AssemblyBrowser.Proofs.Engine.Service
import AssemblyBrowser.Proofs.Tree.Rooted
import AssemblyBrowser.Proofs.Tree.Session
/-!
Restarts, stops and crashes between the operations of a tree. Over a steady engine every operation
ends as an oracle decides, whatever has happened to the engine in between, so that two runs with the
same operations cannot be told apart by their results, the tree or the assemblies.
-/
namespace AssemblyBrowser

/-- What may happen to an engine between two operations: it is restarted, stopped or looked after,
or children go. -/
def Interlude.IsDisturbance : Interlude → Prop
  | .ensureRunning | .restart | .stop | .status => True
  | .happen _ acts => ∀ a ∈ acts, a.IsDeparture

def operations : List Occurrence → List TreeOperation
  | [] => []
  | .operation p :: xs => p :: operations xs
  | .interlude _ :: xs => operations xs

def Oracle.reply (o : Oracle) : (c : Call) → Except Failure c.Reply
  | .load path => o.load path
  | .enumerate key assembly => o.enumerate key assembly
  | .decompile key l assembly => o.decompile key l assembly
  | .unload _ | .stop => .ok ()

/-- The answers about assemblies that are loaded. -/
def Catalogue.oracle (k : Catalogue) : Oracle where
  load path := Session.loadResult path (k.load path)
  enumerate key assembly := Session.childrenResult key (k.enumerate key assembly true)
  decompile key l assembly := Session.codeResult key (k.decompile key l assembly true)

namespace Tree

/-- How a plan ends over an oracle. -/
def Plan.conclude {α : Type} (o : Oracle) : Plan α → Except Failure α × Tree
  | .settled r t => (r, t)
  | .asks c finish => finish (o.reply c)

/-- How operations end over an oracle, one after another, and the tree then. -/
def consult (o : Oracle) : List TreeOperation → Tree → List Outcome × Tree
  | [], t => ([], t)
  | p :: ps, t =>
    let (r, t) := (t.plan p).conclude o
    let (rs, t) := consult o ps t
    (⟨p, r⟩ :: rs, t)

end Tree

variable {σ : Type} {program : Program σ} {k : Catalogue} {loaded : σ → Nat → String → Bool}
  {limit n : Nat}

namespace Session

variable {s : Session σ} {paths : List String}

theorem Poised.unload (h : s.Poised k loaded n paths) (path : String) :
    (s.unload path).Poised k loaded n (paths.filter fun p => p ≠ path) where
  equipped :=
    ⟨(h.equipped.sound.mapLoaded (·.erase path)).1, h.equipped.command, fun p hp =>
      h.equipped.accepted p (mem_unload.mp hp).1⟩
  remembers := by
    rw [← h.remembers]
    exact OrderedMap.keys_erase s.link.loaded path
  few := Nat.le_trans (List.length_filter_le _ _) h.few
  attended hr := by
    rw [isRunning_iff] at hr
    obtain ⟨g, c, hs, hnext, hloaded⟩ := h.attended (isRunning_iff.mpr hr)
    exact ⟨g, c, ⟨hs.child.of_children rfl rfl rfl, hs.installed, hs.channel, hs.isOpen, hs.idle⟩,
      hnext, fun p hp => hloaded p (List.mem_filter.mp hp).1⟩

theorem Poised.later (h : s.Poised k loaded n paths) : s.Poised k loaded (n + 1) paths where
  equipped := h.equipped
  remembers := h.remembers
  few := Nat.le_succ_of_le h.few
  attended hr := by
    obtain ⟨g, c, hs, hnext, hloaded⟩ := h.attended hr
    exact ⟨g, c, hs, Nat.le_succ_of_le hnext, hloaded⟩

/-- A call of a tree ends as the oracle says. -/
theorem Poised.backend (hp : program.IsSteady k loaded limit) (hn : n < limit) {t : Tree}
    (h : s.Poised k loaded n t.paths) {c : Call} (hc : t.Admits c) :
    Ends (backend program c) s (k.oracle.reply c)
      (Poised k loaded (n + 1) (t.pathsAfter c (k.oracle.reply c))) := by
  cases c with
  | load path =>
    obtain ⟨u, hrun, hu⟩ := h.load hp hn hc
    refine ⟨u, hrun, ?_⟩
    simp only [Oracle.reply, Catalogue.oracle]
    cases hres : loadResult path (k.load path) with
    | error f =>
      rw [hres] at hu
      exact hu
    | ok m =>
      rw [hres] at hu
      exact hu
  | enumerate key assembly => exact h.children hp hn hc key
  | decompile key l assembly => exact h.decompile hp hn hc key l
  | unload path => exact ⟨_, rfl, (h.unload path).later⟩
  | stop => cases hc

/-- No disturbance shows. -/
theorem Poised.interlude (hp : program.IsSteady k loaded limit) (hn : n ≤ limit)
    (h : s.Poised k loaded n paths) {i : Interlude} (hi : i.IsDisturbance) :
    (i.after program s).Poised k loaded n paths := by
  cases i with
  | ensureRunning =>
    obtain ⟨t, hrun, ht⟩ := h.ensureRunning hp hn
    rw [Interlude.after, hrun]
    exact ht.poised
  | restart =>
    obtain ⟨t, hrun, ht⟩ := h.restart hp hn
    rw [Interlude.after, hrun]
    exact ht.poised
  | stop =>
    obtain ⟨t, hrun, ht⟩ := h.stop
    rw [Interlude.after, hrun]
    exact ht
  | status => exact h.status
  | happen g acts =>
    simp only [Interlude.after, Supervisor.happen, Supervisor.acts]
    simp only [Interlude.IsDisturbance] at hi
    induction acts generalizing s with
    | nil => exact h
    | cons a acts ih =>
      exact ih (h.depart g (hi a List.mem_cons_self)) fun b hb => hi b (List.mem_cons_of_mem _ hb)

end Session

namespace Forest

/-- A tree over a poised session, which remembers the assemblies in the tree. -/
structure Poised (k : Catalogue) (loaded : σ → Nat → String → Bool) (n : Nat)
    (s : Forest (Session σ)) : Prop where
  idle : s.tree.flights = []
  rooted : s.tree.Rooted
  world : s.world.Poised k loaded n s.tree.paths

variable {s : Forest (Session σ)} (hp : program.IsSteady k loaded limit)
include hp

theorem Poised.perform (hn : n < limit) (h : s.Poised k loaded n) (p : TreeOperation) :
    let r := (p.perform (Session.engine program)).runFrom s
    (r.1, r.2.tree) = (s.tree.plan p).conclude k.oracle ∧ r.2.Poised k loaded (n + 1) := by
  rw [Session.engine_eq, perform_run _ h.idle]
  have hpaths := Tree.plan_paths h.idle p
  have hrooted := h.rooted.plan h.idle p
  cases hplan : s.tree.plan p with
  | settled r t =>
    rw [hplan] at hpaths hrooted
    exact ⟨rfl, hpaths.1, hrooted, hpaths.2.symm ▸ h.world.later⟩
  | asks c finish =>
    rw [hplan] at hpaths hrooted
    obtain ⟨hadmits, hrooted⟩ := hrooted
    obtain ⟨w, hrun, hw⟩ := h.world.backend hp hn hadmits
    obtain ⟨hidle, hsame⟩ := hpaths (k.oracle.reply c)
    simp only [follow, hrun]
    exact ⟨rfl, hidle, hrooted _, hsame.symm ▸ hw⟩

/-- However an engine is disturbed, the operations end as the oracle decides. -/
theorem Poised.browse (xs : List Occurrence) :
    ∀ {n : Nat} {s : Forest (Session σ)}, s.Poised k loaded n →
      (∀ i, .interlude i ∈ xs → i.IsDisturbance) → n + (operations xs).length ≤ limit →
      let r := browse program xs s
      (r.1, r.2.tree) = Tree.consult k.oracle (operations xs) s.tree ∧
        ∃ m, r.2.Poised k loaded m := by
  induction xs with
  | nil => exact fun h _ _ => ⟨rfl, _, h⟩
  | cons x xs ih =>
    intro n s h hx hlimit
    have hrest : ∀ i, .interlude i ∈ xs → i.IsDisturbance := fun i hi =>
      hx i (List.mem_cons_of_mem _ hi)
    cases x with
    | operation p =>
      rw [operations, List.length_cons] at hlimit
      obtain ⟨hr, h'⟩ := h.perform hp (by omega) p
      obtain ⟨hrs, hm⟩ := ih h' hrest (by omega)
      refine ⟨?_, hm⟩
      simp only [AssemblyBrowser.browse, operations, Tree.consult, ← hr, ← hrs]
    | interlude i =>
      rw [operations] at hlimit
      have hi := hx i List.mem_cons_self
      exact ih (s := { s with world := i.after program s.world })
        ⟨h.idle, h.rooted, h.world.interlude hp (by omega) hi⟩ hrest hlimit

omit hp in
theorem poised_planted (k : Catalogue) (loaded : σ → Nat → String → Bool) (l : Language)
    {settings : EngineSettings} {word : String} {words : List String}
    (hc : settings.command = some (word :: words)) (locator : Option Locator)
    (environment : OrderedMap String String) (w : σ) (traced : Bool) :
    ((Session.new settings locator environment w traced).planted l).Poised k loaded 0 where
  idle := rfl
  rooted := Tree.rooted_fresh l
  world := {
    equipped := ⟨Session.sound_new settings locator environment w traced, ⟨word, words, hc⟩,
      fun p hp => (by cases hp)⟩
    remembers := rfl
    few := Nat.le_refl 0
    attended := fun hr => by cases hr }

/-- Two runs with the same operations, in which the engine is disturbed in different ways between
the operations, give the same results and end with the same tree and the same assemblies. -/
theorem disturbances_invisible (settings : EngineSettings) {word : String} {words : List String}
    (hc : settings.command = some (word :: words)) (locator : Option Locator)
    (environment : OrderedMap String String) (w : σ) (traced : Bool) (l : Language)
    (xs ys : List Occurrence) (hx : ∀ i, .interlude i ∈ xs → i.IsDisturbance)
    (hy : ∀ i, .interlude i ∈ ys → i.IsDisturbance) (hsame : operations xs = operations ys)
    (hlimit : (operations xs).length ≤ limit) :
    let s := (Session.new settings locator environment w traced).planted l
    (AssemblyBrowser.browse program xs s).1 = (AssemblyBrowser.browse program ys s).1 ∧
      (AssemblyBrowser.browse program xs s).2.tree = (AssemblyBrowser.browse program ys s).2.tree ∧
      (AssemblyBrowser.browse program xs s).2.world.loadedAssemblies =
        (AssemblyBrowser.browse program ys s).2.world.loadedAssemblies := by
  intro s
  have hs := poised_planted k loaded l hc locator environment w traced
  obtain ⟨hrx, m, hmx⟩ := hs.browse hp xs hx (by omega)
  obtain ⟨hry, m', hmy⟩ := hs.browse hp ys hy (by rw [← hsame]; omega)
  have hruns := hrx.trans ((congrArg (Tree.consult k.oracle · s.tree) hsame).trans hry.symm)
  obtain ⟨houtcomes, htree⟩ := Prod.mk.inj hruns
  refine ⟨houtcomes, htree, ?_⟩
  rw [hmx.world.remembers, hmy.world.remembers, htree]

end Forest

/-! ## An engine that forgets -/

/-- The beginning of a request, up to its command. -/
def requestHead (c : Command) (id : Nat) : List Char :=
  '{' :: (Json.Printer.string "id" ++ ':' :: ((toString (id : Int)).toList ++
    ',' :: (Json.Printer.string "command" ++ ':' :: Json.Printer.string c.name)))

/-- The id of a request, if it has one digit. -/
def idOf (line : String) : Nat := (((line.toList.take 20).drop 6).headD '0').toNat - 48

def isLoad (line : String) : Bool := ((line.toList.take 20).drop 19).head? = some 'l'

def forgetfulBody : Fields :=
  [("assembly", .object [("key", .text "k"), ("name", .text "n"), ("kind", .text "assembly")]),
    ("members", .array [.object [("key", .text "t"), ("name", .text "T"), ("kind", .text "type")]]),
    ("code", .text "text")]

def forgetfulAnswer (loaded : Bool) : Answer :=
  if loaded then .success forgetfulBody else .failure none Response.defaultFailure

def forgetfulCatalogue : Catalogue where
  load _ := forgetfulAnswer true
  enumerate _ _ := forgetfulAnswer
  decompile _ _ _ := forgetfulAnswer

theorem toList_line (q : Question) (id : Nat) :
    ∃ rest, (q.line id).toList = requestHead q.command id ++ rest := by
  refine ⟨',' :: (Json.Printer.string "arguments" ++
    ':' :: (Json.Printer.value .compact 1 (.object q.arguments) ++ ['}', '\n'])), ?_⟩
  have hbreak : "\n".toList = ['\n'] := rfl
  simp only [Question.line, Request.encode, Request.toJson, Json.print, Json.Printer.value,
    Json.integer, Json.Printer.members, Json.Printer.opening, Json.Printer.colon,
    Json.Printer.separator, Json.Printer.number, requestHead, String.toList_append,
    String.toList_ofList, List.append_assoc, List.cons_append, List.nil_append, List.append_nil,
    hbreak]

theorem take_line (q : Question) {id : Nat} (h : id ≤ 2) :
    (q.line id).toList.take 20 = (requestHead q.command id).take 20 := by
  have hlong : ∀ c : Command, ∀ id ≤ 2, 20 ≤ (requestHead c id).length := by
    intro c
    cases c <;> decide +kernel
  obtain ⟨rest, hr⟩ := toList_line q id
  rw [hr, List.take_append_of_le_length (hlong q.command id h)]

theorem idOf_line (q : Question) {id : Nat} (h : id ≤ 2) : idOf (q.line id) = id := by
  rw [idOf, take_line q h]
  revert id
  cases q.command <;> decide +kernel

theorem isLoad_line (q : Question) {id : Nat} (h : id ≤ 2) :
    isLoad (q.line id) = decide (q.command = .load) := by
  rw [isLoad, take_line q h]
  revert id
  cases q.command <;> decide +kernel

/-- A line printed for a message is read as that message. -/
theorem readLine_print (l : Json.Layout) (v : Json) (fields : Fields)
    (h : Json.Parser.document (Text.trimList (Json.Printer.value l 0 v)) = .ok (.object fields)) :
    Channel.readLine (Text.trim (v.print l)) = .ok (Channel.readMessage fields) := by
  simp only [Channel.readLine, decodeLine, Json.parse, Text.trim, Json.print, String.toList_ofList,
    h]

def forgetfulLine (id : Nat) (loaded : Bool) : String :=
  if loaded then Script.success (.integer id) (.object forgetfulBody)
  else Script.failure (.integer id) (.object [])

theorem readLine_forgetfulLine {id : Nat} (h : id ≤ 2) (loaded : Bool) :
    Channel.readLine (Text.trim (forgetfulLine id loaded)) =
      .ok (.response ⟨id, forgetfulAnswer loaded⟩) := by
  cases loaded with
  | true =>
    refine readLine_print _ _ [("id", .integer id), ("success", .bool true),
      ("body", .object forgetfulBody)] ?_
    revert id
    decide +kernel
  | false =>
    refine readLine_print _ _ [("id", .integer id), ("success", .bool false),
      ("error", .object [])] ?_
    revert id
    decide +kernel

/-- A process that has loaded nothing knows nothing. The state lists the processes that have loaded
something. -/
def forgetful : Program (List Nat) where
  launch w := (.started {} [.print "\x7b\"event\": \"ready\"\x7d"], w)
  react w g line :=
    let w := if isLoad line then g :: w else w
    (⟨[.print (forgetfulLine (idOf line) (w.contains g))], none⟩, w)

theorem forgetful_steady :
    forgetful.IsSteady forgetfulCatalogue (fun w g _ => w.contains g) 2 where
  starts w := ⟨{}, _, rfl, .ready (by decide +kernel) fun _ h => by cases h⟩
  answers w g id q h := by
    have hreply : ∀ loaded,
        Replies id (forgetfulAnswer loaded) [.print (forgetfulLine id loaded)] := fun loaded =>
      .reply (readLine_forgetfulLine h loaded) fun _ h => by cases h
    refine ⟨rfl, ?_⟩
    simp only [forgetful, idOf_line q h, isLoad_line q h]
    cases q with
    | load path =>
      simp only [Question.command, decide_true, if_true, List.contains_cons, BEq.rfl, Bool.true_or]
      exact hreply true
    | enumerate key assembly => exact hreply (w.contains g)
    | decompile key l assembly => exact hreply (w.contains g)
  keeps w g id q path h hw := by
    simp only [forgetful]
    split
    · simp
    · exact hw
  takes w g id path h _ := by
    simp [forgetful, isLoad_line (.load path) h, Question.command]

/-- An assembly is added and its members are listed, and in between the engine is restarted and
exits. -/
def disturbedRun : List Occurrence :=
  [.operation (.add "a.dll"), .interlude .restart, .interlude (.happen 2 [.exit 1]),
    .operation (.children 0)]

/-- The same operations and nothing else. -/
def plainRun : List Occurrence := [.operation (.add "a.dll"), .operation (.children 0)]

def forgetfulSession : Session (List Nat) := .new plainSettings none ∅ [] false

theorem disturbedRun_disturbances : ∀ i, .interlude i ∈ disturbedRun → i.IsDisturbance := by
  intro i hi
  simp only [disturbedRun, List.mem_cons, List.not_mem_nil, reduceCtorEq, false_or, or_false,
    Occurrence.interlude.injEq] at hi
  obtain rfl | rfl := hi
  · trivial
  · intro a ha
    obtain rfl := List.mem_singleton.mp ha
    trivial

theorem plainRun_disturbances : ∀ i, .interlude i ∈ plainRun → i.IsDisturbance := by
  intro i hi
  simp [plainRun] at hi

namespace Forest

theorem plainRun_outcomes : (browse forgetful plainRun (forgetfulSession.planted .csharp)).1 =
    [⟨.add "a.dll", .ok true⟩, ⟨.children 0, .ok [1]⟩] := by
  have hcommand : plainSettings.command = some ["engine"] := rfl
  have hs := poised_planted forgetfulCatalogue (fun w g _ => w.contains g) .csharp hcommand none ∅
    [] false
  rw [← forgetfulSession] at hs
  obtain ⟨hrun, -⟩ := hs.browse forgetful_steady plainRun plainRun_disturbances (Nat.le_refl 2)
  have houtcomes := (Prod.mk.inj hrun).1
  rw [houtcomes]
  rfl

theorem disturbances_invisible_forgetful :
    forgetful.IsSteady forgetfulCatalogue (fun w g _ => w.contains g) 2 ∧
      plainSettings.command = some ["engine"] ∧
      (∀ i, .interlude i ∈ disturbedRun → i.IsDisturbance) ∧
      (∀ i, .interlude i ∈ plainRun → i.IsDisturbance) ∧
      operations disturbedRun = operations plainRun ∧ (operations disturbedRun).length ≤ 2 ∧
      let r := browse forgetful disturbedRun (forgetfulSession.planted .csharp)
      let r' := browse forgetful plainRun (forgetfulSession.planted .csharp)
      r.1 = [⟨.add "a.dll", .ok true⟩, ⟨.children 0, .ok [1]⟩] ∧ r.1 = r'.1 ∧
        r.2.tree = r'.2.tree ∧ r.2.world.loadedAssemblies = r'.2.world.loadedAssemblies := by
  have h := disturbances_invisible forgetful_steady plainSettings rfl none ∅ [] false .csharp
    disturbedRun plainRun disturbedRun_disturbances plainRun_disturbances rfl (Nat.le_refl 2)
  dsimp only at h
  rw [← forgetfulSession] at h
  exact ⟨forgetful_steady, rfl, disturbedRun_disturbances, plainRun_disturbances, rfl,
    Nat.le_refl 2, h.1.trans plainRun_outcomes, h⟩

end Forest

end AssemblyBrowser
