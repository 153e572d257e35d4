import Trellis.Proofs.Graph.Resolve
import Trellis.Site
/-!
# Site — what a memory of graphs keeps

A site is asked for graphs and pages, and told to forget some of them, while its
documents are edited. Whatever comes in which order, a graph that it remembers is
the one that its root had at some time since it was forgotten last
(`Running.current_of_mem`), and what fails is not remembered. If no document is
edited, that time does not matter, and the site answers as one that resolves every
graph anew (`Running.remembering_exact`).
-/

namespace Trellis

namespace Site

variable {site : Site} {library : Library} {root : String}

/-! ## What is remembered -/

/-- A site before it was asked for anything. Without a capacity it remembers
nothing. -/
def fresh (settings : Settings) (maker : View.Maker) (capacity : Option Nat) : Site :=
  { settings, maker, memory := capacity.map .empty }

/-- A site that is made is fresh. -/
theorem make_eq (settings : Settings) (remembered : Nat) :
    make settings remembered = settings.maker.map fun maker =>
      fresh settings maker (if remembered = 0 then none else some remembered) := by
  unfold make fresh
  cases settings.maker with
  | error e => rfl
  | ok maker => by_cases h : remembered = 0 <;> simp [h, Except.map]

/-- The graphs that are remembered, by root. -/
def remembered (site : Site) : List (String × Graph) :=
  (site.memory.map Recent.entries).getD []

@[simp] theorem remembered_fresh (settings : Settings) (maker : View.Maker)
    (capacity : Option Nat) : (fresh settings maker capacity).remembered = [] := by
  cases capacity <;> simp [fresh, remembered]

@[simp] theorem remembered_forgetAll (site : Site) : site.forgetAll.remembered = [] := by
  unfold forgetAll remembered
  cases site.memory <;> simp

/-- Forgetting takes the graph of a root and no other. -/
theorem mem_remembered_forget_iff {entry : String × Graph} :
    entry ∈ (site.forget root).remembered ↔ entry ∈ site.remembered ∧ entry.1 ≠ root := by
  unfold forget remembered
  cases site.memory with
  | none => simp
  | some memory => exact Recent.mem_remove_iff

/-- **A graph comes from memory or is resolved anew.** -/
theorem compose_cases (site : Site) (library : Library) (root : String) :
    (∃ graph memory, site.compose library root = (.ok graph, { site with memory }) ∧
      (root, graph) ∈ site.remembered ∧
      ∀ entry ∈ ({ site with memory } : Site).remembered, entry ∈ site.remembered) ∨
    site.compose library root = site.resolveAnew library root := by
  unfold compose
  split
  · next graph memory hfetch =>
    left
    obtain ⟨before, hbefore, hfound⟩ := Option.map_eq_some_iff.1 hfetch
    have hremembered : site.remembered = before.entries := by rw [remembered, hbefore]; rfl
    obtain ⟨hmem, hkept⟩ := Recent.mem_of_fetch hfound
    rw [hremembered]
    exact ⟨graph, some memory, rfl, hmem, hkept⟩
  · exact .inr rfl

/-- Composing changes nothing but the memory. -/
theorem compose_settled (site : Site) (library : Library) (root : String) :
    (site.compose library root).2.settings = site.settings ∧
      (site.compose library root).2.maker = site.maker := by
  rcases compose_cases site library root with ⟨graph, memory, h, -⟩ | h
  · rw [h]
    exact ⟨rfl, rfl⟩
  · rw [h]
    unfold resolveAnew
    split <;> exact ⟨rfl, rfl⟩

/-- **What cannot be composed leaves no trace.** -/
theorem compose_of_error {failure : Failure}
    (h : (site.compose library root).1 = .error failure) :
    (site.compose library root).2 = site := by
  rcases compose_cases site library root with ⟨graph, memory, hcompose, -⟩ | hcompose
  · rw [hcompose] at h
    cases h
  · rw [hcompose] at h ⊢
    unfold resolveAnew at h ⊢
    split at h
    · rfl
    · cases h

/-- A graph that is remembered now was so before, or it is the root's. -/
theorem mem_remembered_compose {entry : String × Graph}
    (h : entry ∈ (site.compose library root).2.remembered) :
    entry ∈ site.remembered ∨ entry.1 = root ∧ Graph.resolve library root = .ok entry.2 := by
  rcases compose_cases site library root with ⟨graph, memory, hcompose, -, hkept⟩ | hcompose
  · rw [hcompose] at h
    exact .inl (hkept entry h)
  · rw [hcompose] at h
    unfold resolveAnew at h
    split at h
    · exact .inl h
    · next graph hgraph =>
      unfold remembered at h ⊢
      cases hmemory : site.memory with
      | none => simp [hmemory] at h
      | some memory =>
        rw [hmemory] at h
        rcases Recent.mem_of_store h with rfl | h
        · exact .inr ⟨rfl, hgraph⟩
        · exact .inl h

/-- Where memory is right, the graph is what resolving gives. -/
theorem compose_of_right
    (hright : ∀ entry ∈ site.remembered, Graph.resolve library entry.1 = .ok entry.2) :
    (site.compose library root).1 = Graph.resolve library root := by
  rcases compose_cases site library root with ⟨graph, memory, hcompose, hmem, -⟩ | hcompose
  · rw [hcompose]
    exact (hright _ hmem).symm
  · rw [hcompose]
    unfold resolveAnew
    split
    · next hfailed => exact hfailed.symm
    · next hgraph => exact hgraph.symm

/-! ## A site in use -/

/-- **What comes to a site and to its documents.** -/
inductive Event where
  /-- The graph of a root is asked for. -/
  | compose (root : String)
  /-- A page is asked for that enters claims. -/
  | render (root : String) (layers : Layers) (claims : Hydration.Claims) (nonce : Option String)
  /-- A page on its own is asked for. -/
  | renderPage (root : String) (layers : Layers) (nonce : String)
  /-- The graph of a root is to be forgotten. -/
  | forget (root : String)
  /-- All graphs are to be forgotten. -/
  | forgetAll
  /-- A document is written, in place of the one that was there. -/
  | add (name source : String)
  /-- A document is removed. -/
  | remove (name : String)
  /-- All documents are removed. -/
  | clear

namespace Event

/-- The root whose graph is asked for. -/
def root? : Event → Option String
  | compose root | render root .. | renderPage root .. => some root
  | _ => none

/-- Whether the graph of a root is to be forgotten. -/
def Forgets (root : String) : Event → Prop
  | forget root' => root' = root
  | forgetAll => True
  | _ => False

/-- Whether documents are edited. -/
def Edits : Event → Prop
  | add .. | remove .. | clear => True
  | _ => False

end Event

/-- What a site answers. -/
inductive Answer where
  /-- A graph, or why there is none. -/
  | graph (graph : Except Failure Graph)
  /-- A page, or why there is none, and the claims with those of the page. -/
  | page (page : Except Failure View.Rendered) (claims : Hydration.Claims)
  /-- Nothing was asked for. -/
  | done

/-- A site with its documents. -/
structure Running where
  /-- The site. -/
  site : Site
  /-- The documents. -/
  collection : Collection

namespace Running

/-- The site with other documents. -/
def withDocuments (s : Running) (documents : Keyed String) : Running :=
  { s with collection := { s.collection with documents } }

/-- **What one event brings about.** -/
def step (s : Running) : Event → Answer × Running
  | .compose root =>
    let (graph, site) := s.site.compose s.collection.library root
    (.graph graph, { s with site })
  | .render root layers claims nonce =>
    let outcome := s.site.render s.collection.library root layers claims nonce
    (.page outcome.page outcome.claims, { s with site := outcome.site })
  | .renderPage root layers nonce =>
    let outcome := s.site.renderPage s.collection.library root layers nonce
    (.page outcome.page outcome.claims, { s with site := outcome.site })
  | .forget root => (.done, { s with site := s.site.forget root })
  | .forgetAll => (.done, { s with site := s.site.forgetAll })
  | .add name source => (.done, s.withDocuments (s.collection.documents.insert name source))
  | .remove name => (.done, s.withDocuments (s.collection.documents.erase name))
  | .clear => (.done, s.withDocuments [])

/-- A site with its documents after events. -/
def after (s : Running) (events : List Event) : Running :=
  events.foldl (fun s event => (s.step event).2) s

/-- The answers to events. -/
def answers (s : Running) : List Event → List Answer
  | [] => []
  | event :: events => (s.step event).1 :: (s.step event).2.answers events

variable {s : Running} {event : Event} {events : List Event} {name : String} {g : Graph}

@[simp] theorem after_nil (s : Running) : s.after [] = s := rfl

@[simp] theorem after_cons (s : Running) (event : Event) (events : List Event) :
    s.after (event :: events) = (s.step event).2.after events := rfl

@[simp] theorem after_concat (s : Running) (events : List Event) (event : Event) :
    s.after (events ++ [event]) = ((s.after events).step event).2 := by
  simp [after]

/-- Whoever asks for a graph leaves what composing it leaves. -/
theorem step_of_root? (h : event.root? = some root) :
    (s.step event).2 = { s with site := (s.site.compose s.collection.library root).2 } := by
  have hrender (layers : Layers) (claims : Hydration.Claims) (nonce : Option String) :
      (s.site.render s.collection.library root layers claims nonce).site =
        (s.site.compose s.collection.library root).2 := by
    unfold Site.render
    split <;> simp [*]
  cases event <;> cases h
  · rfl
  · exact congrArg (Running.mk · s.collection) (hrender ..)
  · exact congrArg (Running.mk · s.collection) (hrender ..)

/-- **What is remembered after an event** was so before, or it was resolved for the
event. Nothing is remembered that the event lets forget. -/
theorem mem_remembered_step (h : (name, g) ∈ (s.step event).2.site.remembered) :
    ¬ event.Forgets name ∧
      ((name, g) ∈ s.site.remembered ∨ Graph.resolve s.collection.library name = .ok g) := by
  have hasked (root : String) (hroot : event.root? = some root) :
      (name, g) ∈ s.site.remembered ∨ Graph.resolve s.collection.library name = .ok g := by
    rw [step_of_root? hroot] at h
    rcases mem_remembered_compose h with h | ⟨hname, hgraph⟩
    · exact .inl h
    · obtain rfl : name = root := hname
      exact .inr hgraph
  cases event with
  | compose root | render root | renderPage root => exact ⟨id, hasked root rfl⟩
  | forget root =>
    obtain ⟨h, hne⟩ := mem_remembered_forget_iff.1 h
    exact ⟨fun hforgets => hne (Eq.symm hforgets), .inl h⟩
  | forgetAll => simp [step] at h
  | add | remove | clear => exact ⟨id, .inl h⟩

/-- Only edits change the documents. -/
theorem collection_step (h : ¬ event.Edits) : (s.step event).2.collection = s.collection := by
  cases event <;> first | rfl | exact absurd trivial h

/-! ## How old a graph may be -/

/-- **A graph is current** if its root had it at some time in a run, and was not to
be forgotten since. -/
def Current (s : Running) (events : List Event) (name : String) (g : Graph) : Prop :=
  ∃ earlier later, events = earlier ++ later ∧ (∀ event ∈ later, ¬ event.Forgets name) ∧
    Graph.resolve (s.after earlier).collection.library name = .ok g

/-- What was current stays so until it is to be forgotten. -/
theorem Current.concat (h : s.Current events name g) (hkept : ¬ event.Forgets name) :
    s.Current (events ++ [event]) name g := by
  obtain ⟨earlier, later, rfl, hlater, hgraph⟩ := h
  refine ⟨earlier, later ++ [event], List.append_assoc .., ?_, hgraph⟩
  intro e he
  rcases List.mem_append.1 he with he | he
  · exact hlater e he
  · rw [List.mem_singleton.1 he]
    exact hkept

/-- **What is remembered is current**, if nothing was remembered at first. -/
theorem current_of_mem (hfresh : s.site.remembered = [])
    (h : (name, g) ∈ (s.after events).site.remembered) : s.Current events name g := by
  induction events using List.reverseRecOn with
  | nil =>
    rw [after_nil, hfresh] at h
    cases h
  | append_singleton events event ih =>
    rw [after_concat] at h
    obtain ⟨hkept, hold | hnew⟩ := mem_remembered_step h
    · exact (ih hold).concat hkept
    · exact ⟨events, [event], rfl, fun e he => List.mem_singleton.1 he ▸ hkept, hnew⟩

/-! ## Answers without a memory -/

/-- **What a site answers that resolves every graph anew.** -/
def afresh (settings : Settings) (maker : View.Maker) (library : Library) : Event → Answer
  | .compose root => .graph (Graph.resolve library root)
  | .render root layers claims nonce => page root layers claims nonce
  | .renderPage root layers nonce =>
    page root layers [] (if settings.hydration.nonce then some nonce else none)
  | _ => .done
where
  /-- The page of a graph that is resolved for it. -/
  page (root : String) (layers : Layers) (claims : Hydration.Claims) (nonce : Option String) :
      Answer :=
    match Graph.resolve library root with
    | .error failure => .page (.error failure) claims
    | .ok graph =>
      let (claims, page) := View.render maker graph layers claims nonce
      .page page claims

/-- Events change neither the settings nor how pages are made. -/
theorem step_settled (s : Running) (event : Event) :
    (s.step event).2.site.settings = s.site.settings ∧
      (s.step event).2.site.maker = s.site.maker := by
  cases h : event.root? with
  | some root =>
    rw [step_of_root? h]
    exact compose_settled s.site s.collection.library root
  | none => cases event <;> cases h <;> exact ⟨rfl, rfl⟩

/-- Where memory is right, the answer is as without one. -/
theorem answer_of_right (hright : ∀ entry ∈ s.site.remembered,
    Graph.resolve s.collection.library entry.1 = .ok entry.2) :
    (s.step event).1 = afresh s.site.settings s.site.maker s.collection.library event := by
  have hpage (root : String) (layers : Layers) (claims : Hydration.Claims)
      (nonce : Option String) :
      Answer.page (s.site.render s.collection.library root layers claims nonce).page
          (s.site.render s.collection.library root layers claims nonce).claims =
        afresh.page s.site.maker s.collection.library root layers claims nonce := by
    have hcompose : (s.site.compose s.collection.library root).1 =
        Graph.resolve s.collection.library root := compose_of_right hright
    have hmaker := (compose_settled s.site s.collection.library root).2
    unfold Site.render afresh.page
    rw [← hcompose]
    split
    · next heq => simp only [heq]
    · next heq => simp only [heq] at hmaker ⊢; rw [hmaker]
  cases event with
  | compose root => exact congrArg Answer.graph (compose_of_right hright)
  | render root layers claims nonce => exact hpage root layers claims nonce
  | renderPage root layers nonce => exact hpage root layers [] _
  | forget | forgetAll | add | remove | clear => rfl

/-- **Without edits a memory that is right does not show.** -/
theorem answers_eq_map_afresh (hright : ∀ entry ∈ s.site.remembered,
    Graph.resolve s.collection.library entry.1 = .ok entry.2)
    (hedits : ∀ event ∈ events, ¬ event.Edits) :
    s.answers events =
      events.map (afresh s.site.settings s.site.maker s.collection.library) := by
  induction events generalizing s with
  | nil => rfl
  | cons event events ih =>
    have hsame : (s.step event).2.collection = s.collection :=
      collection_step (hedits event List.mem_cons_self)
    have hright' : ∀ entry ∈ (s.step event).2.site.remembered,
        Graph.resolve (s.step event).2.collection.library entry.1 = .ok entry.2 := by
      intro entry hentry
      rw [hsame]
      rcases (mem_remembered_step hentry).2 with hold | hnew
      · exact hright entry hold
      · exact hnew
    rw [answers, ih hright' fun e he => hedits e (List.mem_cons_of_mem event he), hsame,
      (step_settled s event).1, (step_settled s event).2, answer_of_right hright, List.map_cons]

/-- **What a memory keeps, over every run.** Whatever a site was asked for while its
documents were edited, a graph that it remembers under a name has that root and is
current. What cannot be composed leaves all as it was. And if no document is edited,
each answer is that of a site that resolves every graph anew. -/
theorem remembering_exact (settings : Settings) (maker : View.Maker) (capacity : Option Nat)
    (collection : Collection) (events : List Event) :
    let s : Running := ⟨fresh settings maker capacity, collection⟩
    (∀ name g, (name, g) ∈ (s.after events).site.remembered →
      g.root = name ∧ s.Current events name g) ∧
    (∀ event root failure, event.root? = some root →
      ((s.after events).site.compose (s.after events).collection.library root).1 =
        .error failure →
      ((s.after events).step event).2 = s.after events) ∧
    ((∀ event ∈ events, ¬ event.Edits) →
      s.answers events = events.map (afresh settings maker collection.library)) := by
  intro s
  have hfresh : s.site.remembered = [] := remembered_fresh settings maker capacity
  refine ⟨fun name g h => ?_, fun event root failure hroot hfailed => ?_, fun hedits => ?_⟩
  · have hcurrent := current_of_mem hfresh h
    obtain ⟨earlier, -, -, -, hgraph⟩ := id hcurrent
    exact ⟨(Graph.extends_of_resolve hgraph).1, hcurrent⟩
  · rw [step_of_root? hroot, compose_of_error hfailed]
  · refine answers_eq_map_afresh (fun entry hentry => ?_) hedits
    rw [hfresh] at hentry
    cases hentry

/-- A document that is edited shows only when its graph is forgotten. -/
example (maker : View.Maker) :
    let s : Running := ⟨fresh {} maker (some 1), ⟨[("page", "old")], []⟩⟩
    let sources (s : Running) := s.site.remembered.flatMap fun entry =>
      entry.2.members.map fun member => member.2.source
    sources (s.after [.compose "page", .add "page" "new", .compose "page"]) = ["old"] ∧
      sources (s.after [.compose "page", .add "page" "new", .forget "page", .compose "page"]) =
        ["new"] := by
  cbv

end Running

end Site

end Trellis
