import Trellis.Graph.Fingerprint
import Trellis.Proofs.Graph.Standing
import Trellis.Proofs.Json.Strings
import Trellis.Proofs.Text.Cut
/-!
# Graph — what a fingerprint tells

A fingerprint is the hash of one message: names and sources, a null character behind each.
Cut at the null characters, the message falls into the pieces of the names and the sources
(`message_eq_iff`), so a null character inside of a source cannot be told from one behind
it. Where no root and no source holds one, the names hold none either, and the message gives
back the sources. A single document that changes is told in any case
(`eq_of_message_insert`).
-/

namespace Trellis

/-! ## Bytes and digits -/

namespace Digest

/-- Listing bytes from an index on. -/
theorem toList_loop_eq (bytes : ByteArray) (i : Nat) (listed : List UInt8) :
    ByteArray.toList.loop bytes i listed = listed.reverse ++ bytes.data.toList.drop i := by
  fun_induction ByteArray.toList.loop bytes i listed with
  | case1 i listed hi ih =>
    have hlength : i < bytes.data.toList.length := by simpa using hi
    rw [ih, List.drop_eq_getElem_cons hlength]
    simp [ByteArray.get!, hi]
  | case2 i listed hi =>
    rw [List.drop_eq_nil_of_le (by simpa using Nat.le_of_not_lt hi), List.append_nil]

theorem toList_eq_data (bytes : ByteArray) : bytes.toList = bytes.data.toList := by
  rw [ByteArray.toList, toList_loop_eq, List.reverse_nil, List.nil_append, List.drop_zero]

/-- Different numbers have different digits. -/
theorem digitChar_inj {n k : Nat} (hn : n < 16) (hk : k < 16) (h : n.digitChar = k.digitChar) :
    n = k := by
  have hvalue := Json.hexValue?_digitChar hn
  rw [h, Json.hexValue?_digitChar hk] at hvalue
  exact (Option.some.inj hvalue).symm

/-- **Different bytes are written differently.** -/
theorem hex_injective : Function.Injective hex := by
  intro a b h
  have htext := String.ofList_inj.1 h
  clear h
  induction a generalizing b with
  | nil =>
    cases b with
    | nil => rfl
    | cons y b => cases htext
  | cons x a ih =>
    cases b with
    | nil => cases htext
    | cons y b =>
      simp only [List.flatMap_cons, List.cons_append, List.nil_append] at htext
      obtain ⟨hhigh, htext⟩ := List.cons.inj htext
      obtain ⟨hlow, htext⟩ := List.cons.inj htext
      have hx := x.toNat_lt
      have hy := y.toNat_lt
      have hsixteens := digitChar_inj (by omega) (by omega) hhigh
      have hones := digitChar_inj (by omega) (by omega) hlow
      have hsame : x.toNat = y.toNat := by omega
      rw [UInt8.toNat_inj.1 hsame, ih htext]

end Digest

namespace Graph

variable {library library' : Library} {root root' : String} {g h : Graph}
  {m m' : Keyed String} {name source : String}

/-! ## Messages -/

/-- The bytes that are hashed for sources. -/
def message (sources : Keyed String) : List UInt8 :=
  (String.ofList (fingerprintText sources)).toUTF8.toList

theorem fingerprint_eq (g : Graph) :
    g.fingerprint = Digest.hex (Digest.sha256 (message g.sources)) := rfl

theorem message_inj : message m = message m' ↔ fingerprintText m = fingerprintText m' := by
  rw [message, message, Digest.toList_eq_data, Digest.toList_eq_data, Array.toList_inj]
  constructor
  · intro h
    exact String.ofList_inj.1 (String.toByteArray_inj.1 (ByteArray.ext h))
  · intro h
    rw [h]

theorem fingerprintText_cons (name source : String) (m : Keyed String) :
    fingerprintText ((name, source) :: m) =
      name.toList ++ '\x00' :: (source.toList ++ '\x00' :: fingerprintText m) := by
  simp [fingerprintText]

/-- The pieces of names and sources between null characters, in order. -/
def cuts (sources : Keyed String) : List (List Char) :=
  sources.flatMap fun entry =>
    Text.pieces '\x00' entry.1.toList ++ Text.pieces '\x00' entry.2.toList

theorem pieces_fingerprintText (m : Keyed String) :
    Text.pieces '\x00' (fingerprintText m) = cuts m ++ [[]] := by
  induction m with
  | nil => rfl
  | cons entry m ih =>
    obtain ⟨name, source⟩ := entry
    rw [fingerprintText_cons, Text.pieces_append, Text.pieces_append, ih]
    simp [cuts]

/-- **What a message tells** is what names and sources are cut into. -/
theorem message_eq_iff : message m = message m' ↔ cuts m = cuts m' := by
  rw [message_inj]
  constructor
  · intro h
    have hpieces := pieces_fingerprintText m
    rw [h, pieces_fingerprintText] at hpieces
    exact (List.append_cancel_right hpieces).symm
  · intro h
    refine Text.pieces_injective '\x00' ?_
    rw [pieces_fingerprintText, h, pieces_fingerprintText]

/-- A null character inside of a source can be taken for one behind it. -/
example :
    cuts [("a", "x"), ("b", "y\x00b\x00z")] = cuts [("a", "x\x00b\x00y"), ("b", "z")] := by
  decide

/-! ## One document alone -/

/-- **A document that is changed or added makes another message**, whatever is in it. -/
theorem eq_of_message_insert (h : message (m.insert name source) = message m) :
    m.insert name source = m := by
  rw [message_inj] at h
  induction m with
  | nil => simp [Keyed.insert, fingerprintText] at h
  | cons entry m ih =>
    obtain ⟨k, v⟩ := entry
    rw [Keyed.insert] at h ⊢
    split at h
    · next hkey =>
      -- what is behind the changed source ends the text, so the sources end alike
      rw [if_pos hkey]
      subst hkey
      rw [fingerprintText_cons, fingerprintText_cons] at h
      have hsources := List.append_cancel_right (List.cons.inj (List.append_cancel_left h)).2
      rw [String.toList_inj.1 hsources]
    · next hkey =>
      split at h
      · next hlt =>
        have hlength := congrArg List.length h
        rw [fingerprintText_cons, List.length_append, List.length_cons, List.length_append,
          List.length_cons] at hlength
        omega
      · next hlt =>
        rw [if_neg hkey, if_neg hlt]
        rw [fingerprintText_cons, fingerprintText_cons] at h
        have hmore := (List.cons.inj (List.append_cancel_left h)).2
        have htext := (List.cons.inj (List.append_cancel_left hmore)).2
        rw [ih htext]

/-! ## Sources without null characters -/

/-- That there is no null character in names and sources. -/
def NullFree (sources : Keyed String) : Prop :=
  ∀ entry ∈ sources, '\x00' ∉ entry.1.toList ∧ '\x00' ∉ entry.2.toList

theorem cuts_cons_of_nullFree (h : NullFree ((name, source) :: m)) :
    cuts ((name, source) :: m) = name.toList :: source.toList :: cuts m := by
  obtain ⟨⟨hname, hsource⟩, -⟩ := List.forall_mem_cons.1 h
  rw [cuts, List.flatMap_cons, Text.pieces_eq_singleton hname, Text.pieces_eq_singleton hsource]
  rfl

/-- **Without null characters the message gives back the sources.** -/
theorem eq_of_cuts (hm : NullFree m) (hm' : NullFree m') (h : cuts m = cuts m') : m = m' := by
  induction m generalizing m' with
  | nil =>
    cases m' with
    | nil => rfl
    | cons entry m' =>
      rw [cuts_cons_of_nullFree hm'] at h
      cases h
  | cons entry m ih =>
    obtain ⟨name, source⟩ := entry
    cases m' with
    | nil =>
      rw [cuts_cons_of_nullFree hm] at h
      cases h
    | cons entry' m' =>
      obtain ⟨name', source'⟩ := entry'
      rw [cuts_cons_of_nullFree hm, cuts_cons_of_nullFree hm'] at h
      obtain ⟨hname, h⟩ := List.cons.inj h
      obtain ⟨hsource, h⟩ := List.cons.inj h
      rw [String.toList_inj.1 hname, String.toList_inj.1 hsource,
        ih (List.forall_mem_cons.1 hm).2 (List.forall_mem_cons.1 hm').2 h]

/-- That there is no null character in the root's name and in the sources of a graph. -/
structure Clean (g : Graph) : Prop where
  root : '\x00' ∉ g.root.toList
  members : ∀ entry ∈ g.members, '\x00' ∉ entry.2.source.toList

instance (g : Graph) : Decidable g.Clean :=
  decidable_of_iff ('\x00' ∉ g.root.toList ∧ ∀ entry ∈ g.members, '\x00' ∉ entry.2.source.toList)
    ⟨fun h => ⟨h.1, h.2⟩, fun h => ⟨h.root, h.members⟩⟩

/-- All names of such a graph are without null characters. -/
theorem Clean.nullFree (hclean : g.Clean) (h : resolve library root = .ok g) :
    NullFree g.sources := by
  obtain ⟨hroot, -⟩ := extends_of_resolve h
  intro entry hentry
  obtain ⟨⟨name, member⟩, hmember, rfl⟩ := List.mem_map.1 (Keyed.mem_of_mem_ofList hentry)
  refine ⟨?_, hclean.members _ hmember⟩
  have hname : name ∈ g.order := List.mem_map.2 ⟨_, hmember, rfl⟩
  rcases root_or_infix_of_mem_order h hname with rfl | ⟨other, hother, hpart⟩
  · exact hroot ▸ hclean.root
  · exact fun hmem => hclean.members other hother (hpart.subset hmem)

/-! ## Fingerprints -/

/-- **What the messages and the fingerprints of two graphs tell** of their sources. -/
structure Tells (g h : Graph) : Prop where
  /-- The messages are the same exactly if names and sources fall into the same pieces at null
  characters. -/
  same_iff : message g.sources = message h.sources ↔ cuts g.sources = cuts h.sources
  /-- If one document was changed or added, the messages differ. -/
  single : ∀ {name source}, h.sources = g.sources.insert name source →
    g.sources ≠ h.sources → message g.sources ≠ message h.sources
  /-- If no root and no source holds a null character, different sources have different
  messages, -/
  different : g.Clean → h.Clean → g.sources ≠ h.sources → message g.sources ≠ message h.sources
  /-- and equal fingerprints are those of equal sources, or of two messages with one hash. -/
  collision : g.Clean → h.Clean → g.fingerprint = h.fingerprint → g.sources = h.sources ∨
    (message g.sources ≠ message h.sources ∧
      Digest.sha256 (message g.sources) = Digest.sha256 (message h.sources))

/-- **Fingerprints tell sources apart** that hold no null characters, as far as the hash does,
and with null characters those that one document makes different. -/
theorem fingerprint_tells (hg : resolve library root = .ok g)
    (hh : resolve library' root' = .ok h) : Tells g h := by
  have hdifferent (hcleanG : g.Clean) (hcleanH : h.Clean) (hne : g.sources ≠ h.sources) :
      message g.sources ≠ message h.sources := fun hsame =>
    hne (eq_of_cuts (hcleanG.nullFree hg) (hcleanH.nullFree hh) (message_eq_iff.1 hsame))
  refine ⟨message_eq_iff, ?_, hdifferent, ?_⟩
  · intro name source hinsert hne hsame
    rw [hinsert] at hne hsame
    exact hne (eq_of_message_insert hsame.symm).symm
  · intro hcleanG hcleanH hprint
    by_cases hsources : g.sources = h.sources
    · exact .inl hsources
    · rw [fingerprint_eq, fingerprint_eq] at hprint
      exact .inr ⟨hdifferent hcleanG hcleanH hsources, Digest.hex_injective hprint⟩

/-- A page with a note. -/
def noted (note : String) : Collection where
  documents := [("note", note), ("page", "{{> note}}")]

/-- The fingerprint tells that the note was changed. -/
theorem fingerprint_tells_note :
    ∃ g h, resolve (noted "hi").library "page" = .ok g ∧
      resolve (noted "changed").library "page" = .ok h ∧ g.Clean ∧ h.Clean ∧
      message g.sources ≠ message h.sources := by
  have hfirst : (resolve (noted "hi").library "page").map sources =
      .ok [("note", "hi"), ("page", "{{> note}}")] := by decide +kernel
  have hsecond : (resolve (noted "changed").library "page").map sources =
      .ok [("note", "changed"), ("page", "{{> note}}")] := by decide +kernel
  have hclean : ∀ note ∈ ["hi", "changed"], ∀ g ∈ (resolve (noted note).library "page").toOption,
      g.Clean := by decide +kernel
  obtain ⟨g, hg, hsources⟩ := Except.map_eq_ok_iff.1 hfirst
  obtain ⟨h, hh, hsources'⟩ := Except.map_eq_ok_iff.1 hsecond
  have hcleanG : g.Clean := hclean "hi" (by decide) g (by rw [hg]; rfl)
  have hcleanH : h.Clean := hclean "changed" (by decide) h (by rw [hh]; rfl)
  refine ⟨g, h, hg, hh, hcleanG, hcleanH, (fingerprint_tells hg hh).different hcleanG hcleanH ?_⟩
  rw [hsources, hsources']
  decide

end Graph

end Trellis
