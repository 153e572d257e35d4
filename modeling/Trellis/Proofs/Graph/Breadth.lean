import Mathlib.Data.List.Chain
import Mathlib.Data.List.Perm.Subperm
import Trellis.Directory
import Trellis.Proofs.Graph.References
/-!
# Graph — how long references go on

A library says how many different names with a source there can be along
references from source to source. A collection has no more than its documents.
A directory answers under endlessly many names, but a name that is referred to
stands in one of its files, so it keeps what it says as well
(`Directory.bounded_library`).
-/

namespace Trellis

open Trellis.Graph

/-- **What a library says of its breadth**: references from source to source
lead over no more different names. -/
def Library.Bounded (library : Library) : Prop :=
  ∀ path : List String, path.IsChain (Refers library) → path.Nodup →
    (∀ name ∈ path, Loads library name) → path.length ≤ library.breadth

/-- A library that has a source under so many names only. -/
theorem Library.bounded_of_stored {library : Library} {stored : List String}
    (hlength : stored.length ≤ library.breadth)
    (hstored : ∀ name source, library.fetch name = .ok (some source) → name ∈ stored) :
    library.Bounded := by
  intro path _ hnodup hloads
  have hsubset : path ⊆ stored := by
    intro name hname
    obtain ⟨source, -, hfetch, -⟩ := hloads name hname
    exact hstored name source hfetch
  exact Nat.le_trans (hnodup.subperm hsubset).length_le hlength

/-- Everything on a path but its start is referred to. -/
theorem exists_rel_of_mem {α : Type} {r : α → α → Prop} {first b : α} {rest : List α}
    (h : (first :: rest).IsChain r) (hb : b ∈ rest) : ∃ a, r a b := by
  induction rest generalizing first with
  | nil => cases hb
  | cons second rest ih =>
    obtain ⟨hfirst, hmore⟩ := List.isChain_cons_cons.1 h
    rcases List.mem_cons.1 hb with rfl | hb
    · exact ⟨first, hfirst⟩
    · exact ih hmore hb

/-! ## Collections -/

/-- **A collection has no sources but its documents.** -/
theorem Collection.bounded_library (c : Collection) : c.library.Bounded := by
  refine Library.bounded_of_stored (Nat.le_of_eq (List.length_map Prod.fst)) ?_
  intro name source hfetch
  have hget : c.documents.get? name = some source := by
    unfold library fetch at hfetch
    dsimp only at hfetch
    split at hfetch
    · cases hfetch
    · exact Except.ok.inj hfetch
  exact Keyed.mem_keys_iff.2 ⟨source, hget⟩

/-! ## Directories -/

namespace Directory

variable {d : Directory} {sources : SourceDirectory} {name path content : String}
  {here names : List String}

theorem mem_of_entryAt? (h : d.entryAt? here = some (.text content)) :
    (here, FileEntry.text content) ∈ d.entries := by
  unfold entryAt? at h
  split at h
  · next entry hfind =>
    have hpath := List.find?_some hfind
    have hentry : entry.2 = .text content := Option.some.inj h
    obtain ⟨there, _⟩ := entry
    obtain rfl : there = here := by simpa using hpath
    subst hentry
    exact List.mem_of_find?_eq_some hfind
  · split at h
    · cases h
    · cases h

theorem walkOutside_ne_text : walkOutside names ≠ .ok (.text content) := by
  induction names with
  | nil => simp [walkOutside]
  | cons name names ih =>
    unfold walkOutside
    split
    · exact ih
    · split <;> simp

/-- Walking ends at a file of the directory. -/
theorem exists_mem_of_walk (h : d.walk here names = .ok (.text content)) :
    ∃ there, (there, FileEntry.text content) ∈ d.entries := by
  induction names generalizing here with
  | nil =>
    unfold walk at h
    split at h
    · next entry hentry =>
      obtain rfl := Except.ok.inj h
      exact ⟨here, mem_of_entryAt? hentry⟩
    · cases h
  | cons name names ih =>
    unfold walk at h
    split at h
    · cases h
    · split at h
      · split at h
        · exact absurd h walkOutside_ne_text
        · exact ih h
      · split at h
        · cases h
        · exact ih h
    · cases h

theorem exists_mem_of_walkFrom (h : d.walkFrom names = .ok (.text content)) :
    ∃ there, (there, FileEntry.text content) ∈ d.entries := by
  unfold walkFrom at h
  split at h
  · split at h
    · exact exists_mem_of_walk h
    · exact absurd h walkOutside_ne_text
  · cases h

/-- **What is read is the text of a file.** -/
theorem exists_mem_of_read (h : d.read path = .ok content) :
    ∃ there, (there, FileEntry.text content) ∈ d.entries := by
  have hentry : d.entryOf path = .ok (.text content) := by
    unfold read at h
    split at h
    · cases h
    · cases h
    · cases h
    · next hentry =>
      obtain rfl := Except.ok.inj h
      exact hentry
  unfold entryOf at hentry
  dsimp only at hentry
  split at hentry
  · cases hentry
  · split at hentry
    · cases hentry
    · split at hentry
      · cases hentry
      · cases hentry
      · next hwalk =>
        split at hentry
        · cases hentry
        · obtain rfl := Except.ok.inj hentry
          exact exists_mem_of_walkFrom hwalk

theorem exists_mem_of_fetch (h : d.fetch sources name = .ok (some content)) :
    ∃ there, (there, FileEntry.text content) ∈ d.entries := by
  unfold fetch at h
  split at h
  · cases h
  · split at h
    · next hread =>
      obtain rfl := Option.some.inj (Except.ok.inj h)
      exact exists_mem_of_read hread
    · cases h
    · cases h

/-- What a file refers to. -/
def referencesIn : FileEntry → List String
  | .text content =>
    match Component.ofSource content with
    | .ok component => referencesOf component content
    | .error _ => []
  | _ => []

/-- The files refer to no more names than they have characters. -/
theorem length_references_le (d : Directory) :
    (d.entries.flatMap fun entry => referencesIn entry.2).length ≤ d.volume := by
  have hfile (content : String) : (referencesIn (.text content)).length ≤ content.length := by
    simp only [referencesIn]
    split
    · next component hcomponent =>
      rw [← String.length_toList]
      exact length_referencesOf_le hcomponent
    · exact Nat.zero_le _
  unfold volume
  -- the volume is summed from the left, so the sum so far goes along
  rw [← Nat.zero_add (List.length _)]
  generalize 0 = n
  generalize d.entries = entries
  induction entries generalizing n with
  | nil => exact Nat.le_refl n
  | cons entry entries ih =>
    obtain ⟨there, file⟩ := entry
    rw [List.flatMap_cons, List.length_append, List.foldl_cons]
    cases file with
    | text content =>
      have hfirst := hfile content
      have hmore := ih (n + content.length)
      dsimp only
      omega
    | binary =>
      have hmore := ih n
      simpa [referencesIn] using hmore
    | folder =>
      have hmore := ih n
      simpa [referencesIn] using hmore

/-- What something refers to stands in a file. -/
theorem mem_references_of_refers {other : String}
    (h : Refers (d.library sources) name other) :
    other ∈ d.entries.flatMap fun entry => referencesIn entry.2 := by
  obtain ⟨source, component, hfetch, hcomponent, hmentions⟩ := h
  obtain ⟨there, hentry⟩ := exists_mem_of_fetch hfetch
  refine List.mem_flatMap.2 ⟨_, hentry, ?_⟩
  simp only [referencesIn, hcomponent]
  exact mem_referencesOf.2 hmentions

/-- **A directory is as broad as it says.** The names behind the first on a path
of references stand in its files. -/
theorem bounded_library (d : Directory) (sources : SourceDirectory) :
    (d.library sources).Bounded := by
  intro path hchain hnodup _
  cases path with
  | nil => exact Nat.zero_le _
  | cons first rest =>
    have hsubset : rest ⊆ d.entries.flatMap fun entry => referencesIn entry.2 := by
      intro other hother
      obtain ⟨name, hrefers⟩ := exists_rel_of_mem hchain hother
      exact mem_references_of_refers hrefers
    have hrest := (((List.nodup_cons.1 hnodup).2).subperm hsubset).length_le
    have hvolume := length_references_le d
    show rest.length + 1 ≤ d.volume + 1
    omega

end Directory

end Trellis
