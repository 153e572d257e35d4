import Trellis.FilePath
import Trellis.Proofs.Text.Cut
/-!
# FilePath — where the path of a document leads

A path leads through its components: the root of the file system or the directory
that it starts from, and then names and steps back. Joining puts the components of
a name behind those of the root (`components_join`), and an extension is put on the
last name (`components_withExtension`). So the path of a document goes below the
root by the names that the document's name is made of. A name of slashes and points
alone has none, and then it is the root itself that is taken for a file
(`pathOf_exact`).
-/

namespace Trellis

namespace FilePath

/-- **A component of a path**: the root of the file system, the directory that the
path starts from, the directory above, or a name. -/
inductive Component where
  | root
  | here
  | above
  | named (name : List Char)
  deriving DecidableEq

/-- The component that a part which is not hollow stands for. -/
def Component.ofPart (part : List Char) : Component :=
  if isParent part then .above else .named part

/-- What the parts of a path start from. A slash in front leaves an empty part
there. -/
def start : List (List Char) → List Component
  | [] :: _ :: _ => [.root]
  | ['.'] :: _ => [.here]
  | _ => []

/-- The components that parts lead through. Hollow ones lead nowhere. -/
def steps (ps : List (List Char)) : List Component :=
  (ps.filter fun part => !isHollow part).map Component.ofPart

/-- **The components of a path.** -/
def components (path : String) : List Component :=
  start (parts path) ++ steps (parts path)

/-- A component with an extension, if it is a name that has none. -/
def Component.extended (extension : List Char) : Component → Component
  | .named name =>
    if extension.isEmpty || (extension? name).isSome then .named name
    else .named (name ++ '.' :: extension)
  | c => c

/-- Components with an extension on the last one. -/
def extendLast (extension : List Char) (cs : List Component) : List Component :=
  cs.dropLast ++ (cs.getLast?.map (Component.extended extension)).toList

variable {extension : List Char} {ps qs : List (List Char)} {part : List Char}
  {cs ds : List Component} {c : Component}

/-! ## Components of a list of parts -/

@[simp] theorem extendLast_concat (extension : List Char) (cs : List Component) (c : Component) :
    extendLast extension (cs ++ [c]) = cs ++ [c.extended extension] := by
  simp [extendLast]

theorem extendLast_append (h : ds ≠ []) :
    extendLast extension (cs ++ ds) = cs ++ extendLast extension ds := by
  obtain ⟨ds, d, rfl⟩ := (List.eq_nil_or_concat ds).resolve_left h
  rw [List.concat_eq_append, ← List.append_assoc, extendLast_concat, extendLast_concat,
    List.append_assoc]

@[simp] theorem length_extendLast (extension : List Char) (cs : List Component) :
    (extendLast extension cs).length = cs.length := by
  rcases List.eq_nil_or_concat cs with rfl | ⟨cs, c, rfl⟩
  · rfl
  · simp

@[simp] theorem extendLast_nil (cs : List Component) : extendLast [] cs = cs := by
  rcases List.eq_nil_or_concat cs with rfl | ⟨cs, c, rfl⟩
  · rfl
  · rw [List.concat_eq_append, extendLast_concat]
    cases c <;> rfl

theorem steps_append (ps qs : List (List Char)) : steps (ps ++ qs) = steps ps ++ steps qs := by
  simp only [steps, List.filter_append, List.map_append]

theorem steps_singleton (h : isHollow part = false) : steps [part] = [.ofPart part] := by
  simp [steps, h]

/-- What parts start from is settled by the first of them, if there are more. -/
theorem start_append (hps : ps ≠ []) (hqs : qs ≠ []) {qs' : List (List Char)} (hqs' : qs' ≠ []) :
    start (ps ++ qs) = start (ps ++ qs') := by
  obtain ⟨p, ps, rfl⟩ := List.exists_cons_of_ne_nil hps
  cases ps with
  | nil =>
    obtain ⟨q, qs, rfl⟩ := List.exists_cons_of_ne_nil hqs
    obtain ⟨q', qs', rfl⟩ := List.exists_cons_of_ne_nil hqs'
    unfold start
    split <;> simp_all
  | cons p' ps =>
    unfold start
    split <;> simp_all

/-- And by the first of them alone, if that is not empty. -/
theorem start_append_of_ne (hps : ps ≠ []) (hempty : ps ≠ [[]]) (qs : List (List Char)) :
    start (ps ++ qs) = start ps := by
  obtain ⟨p, ps, rfl⟩ := List.exists_cons_of_ne_nil hps
  cases ps with
  | nil =>
    unfold start
    split <;> simp_all
  | cons p' ps =>
    unfold start
    split <;> simp_all

/-- Nothing stands before a name in front. -/
theorem start_of_solid (h : isHollow part = false) (ps : List (List Char)) :
    start (part :: ps) = [] := by
  unfold start
  split <;> simp_all [isHollow]

/-! ## Joining -/

theorem parts_ne_nil (path : String) : parts path ≠ [] :=
  Text.pieces_ne_nil '/' path.toList

/-- Only the empty path has one empty part. -/
theorem parts_ne_singleton {path : String} (h : path ≠ "") : parts path ≠ [[]] := by
  intro hparts
  have hpath : [ '/' ].intercalate (parts path) = path.toList := by
    rw [parts, Text.pieces_eq_splitOn, List.intercalate_splitOn]
  rw [hparts] at hpath
  exact h (String.toList_eq_nil_iff.1 hpath.symm)

/-- **Joining puts the steps of a path behind the root.** -/
theorem components_join {root : String} (hroot : root ≠ "") (relative : String) :
    components (join root relative) = components root ++ steps (parts relative) := by
  unfold join
  have hempty : root.isEmpty = false := by simpa using hroot
  by_cases hslash : root.toList.getLast? = some '/'
  · -- the root ends in a slash, so the last of its parts is empty
    obtain ⟨front, hfront⟩ := List.getLast?_eq_some_iff.1 hslash
    have hparts : parts root = Text.pieces '/' front ++ [[]] := by
      rw [parts, hfront, Text.pieces_append]
      rfl
    have hjoined : parts (root ++ relative) = Text.pieces '/' front ++ parts relative := by
      rw [parts, String.toList_append, hfront, List.append_assoc, List.singleton_append,
        Text.pieces_append]
      rfl
    have hstart := start_append (Text.pieces_ne_nil '/' front) (parts_ne_nil relative)
      (List.cons_ne_nil [] [])
    have hhollow : steps [[]] = [] := rfl
    simp only [hempty, hslash, beq_self_eq_true, Bool.or_true, if_true, components, hjoined, hparts,
      hstart, steps_append, hhollow, List.append_nil, List.append_assoc]
  · have hjoined : parts (root ++ "/" ++ relative) = parts root ++ parts relative := by
      rw [parts, String.toList_append, String.toList_append]
      exact (congrArg (Text.pieces '/') (by simp)).trans (Text.pieces_append '/' root.toList _)
    have hstart := start_append_of_ne (parts_ne_nil root) (parts_ne_singleton hroot) (parts relative)
    simp only [hempty, beq_iff_eq, hslash, Bool.or_eq_true, Bool.false_eq_true, or_self, if_false,
      components, hjoined, hstart, steps_append, List.append_assoc]

/-! ## Extensions -/

/-- A name with an extension is neither hollow nor a step back. -/
theorem solid_extended (hpart : isHollow part = false) (hne : extension ≠ []) :
    isHollow (part ++ '.' :: extension) = false ∧ isParent (part ++ '.' :: extension) = false := by
  obtain ⟨c, part, rfl⟩ := List.exists_cons_of_ne_nil (l := part) (by rintro rfl; cases hpart)
  obtain ⟨d, extension, rfl⟩ := List.exists_cons_of_ne_nil hne
  constructor
  · simp [isHollow]
  · cases part <;> simp [isParent]

/-- Parts up to the last one that is not hollow, and those behind it. -/
theorem exists_hollow_tail (path : String) :
    ∃ tail, parts path = ((parts path).reverse.dropWhile isHollow).reverse ++ tail ∧
      steps tail = [] := by
  refine ⟨((parts path).reverse.takeWhile isHollow).reverse, ?_, ?_⟩
  · rw [← List.reverse_append, List.takeWhile_append_dropWhile, List.reverse_reverse]
  · rw [steps, List.filter_eq_nil_iff.2, List.map_nil]
    intro p hp
    have hhollow := List.all_eq_true.1 List.all_takeWhile p (List.mem_reverse.1 hp)
    simp [hhollow]

/-- The text that is put together from parts has these parts. -/
theorem parts_extended {extension : String} (hps : ∀ p ∈ ps ++ [part], '/' ∉ p)
    (hslash : '/' ∉ extension.toList) :
    parts ("/".intercalate ((ps ++ [part]).map String.ofList) ++ "." ++ extension) =
      ps ++ [part ++ '.' :: extension.toList] := by
  have hpieces : ∀ p ∈ ps ++ [part ++ '.' :: extension.toList], '/' ∉ p := by
    intro p hp
    rcases List.mem_append.1 hp with hp | hp
    · exact hps p (List.mem_append_left _ hp)
    · rw [List.mem_singleton.1 hp]
      have hpart := hps part (by simp)
      simp [hpart, hslash]
  have htext : ("/".intercalate ((ps ++ [part]).map String.ofList) ++ "." ++ extension).toList =
      ['/'].intercalate (ps ++ [part ++ '.' :: extension.toList]) := by
    rw [Text.intercalate_concat_append, String.toList_append, String.toList_append,
      String.toList_intercalate, List.map_map]
    simp [Function.comp_def]
  rw [parts, htext, Text.pieces_eq_splitOn, List.splitOn_intercalate '/' hpieces (by simp)]

/-- The last part that is not hollow may change without a change in front. -/
theorem start_append_solid {part' : List Char} (h : isHollow part = false)
    (h' : isHollow part' = false) (ps tail : List (List Char)) :
    start (ps ++ [part']) = start (ps ++ [part] ++ tail) := by
  cases ps with
  | nil => rw [List.nil_append, List.nil_append, start_of_solid h', List.singleton_append,
      start_of_solid h]
  | cons first others =>
    rw [List.append_assoc]
    exact start_append (List.cons_ne_nil _ _) (List.cons_ne_nil _ _) (List.cons_ne_nil _ _)

/-- A name that is one takes the extension, and a step back or a name with an
extension does not. -/
theorem extended_ofPart (hne : extension ≠ []) (part : List Char) :
    (Component.ofPart part).extended extension =
      if isParent part || (extension? part).isSome then .ofPart part
      else .named (part ++ '.' :: extension) := by
  have hkept : extension.isEmpty = false := List.isEmpty_eq_false_iff.2 hne
  unfold Component.ofPart
  split
  · next hparent => simp [Component.extended, hparent]
  · next hparent => simp [Component.extended, hparent, hkept]

/-- **An extension is put on the last name of a path**, if that has none. -/
theorem components_withExtension {extension : String} (hne : extension ≠ "")
    (hslash : '/' ∉ extension.toList) (path : String) :
    components (withExtension path extension) =
      extendLast extension.toList (components path) := by
  have hne' : extension.toList ≠ [] := fun hnil => hne (String.toList_eq_nil_iff.1 hnil)
  -- hollow parts at the end lead nowhere, and what stands before them decides
  obtain ⟨tail, htail, hall⟩ := exists_hollow_tail path
  unfold withExtension
  split
  · next hnil =>
    rw [hnil] at htail
    have hnone : steps (parts path) = [] := by
      rw [htail]
      exact hall
    rw [components, hnone, List.append_nil]
    unfold start
    split <;> rfl
  · next name before hkeep =>
    have hsolid : isHollow name = false := by
      have hhead := List.head?_dropWhile_not isHollow (parts path).reverse
      rw [hkeep] at hhead
      simpa using hhead
    rw [hkeep, List.reverse_cons] at htail
    have hcomponents : components path =
        start (parts path) ++ steps before.reverse ++ [Component.ofPart name] := by
      rw [components]
      conv => enter [1, 2]; rw [htail]
      rw [steps_append, steps_append, hall, steps_singleton hsolid, List.append_nil,
        List.append_assoc]
    rw [hcomponents, extendLast_concat, extended_ofPart hne']
    split
    · exact hcomponents
    · obtain ⟨hsolid', hparent'⟩ := solid_extended hsolid hne'
      have hthere : ∀ p ∈ before.reverse ++ [name], '/' ∉ p := by
        intro p hp
        have hmem : p ∈ parts path := by
          rw [htail]
          exact List.mem_append_left tail hp
        exact Text.not_mem_of_mem_pieces hmem
      have hstart : start (before.reverse ++ [name ++ '.' :: extension.toList]) =
          start (parts path) := by
        rw [htail]
        exact start_append_solid hsolid hsolid' before.reverse tail
      have hlast : Component.ofPart (name ++ '.' :: extension.toList) =
          .named (name ++ '.' :: extension.toList) := by
        rw [Component.ofPart, hparent']
        rfl
      rw [List.reverse_cons, components, parts_extended hthere hslash, hstart, steps_append,
        steps_singleton hsolid', hlast, List.append_assoc]

/-! ## Components of names -/

theorem above_mem_steps {ps : List (List Char)} :
    .above ∈ steps ps ↔ ∃ part ∈ ps, isParent part = true := by
  simp only [steps, List.mem_map, List.mem_filter, Component.ofPart]
  constructor
  · rintro ⟨part, ⟨hpart, -⟩, habove⟩
    split at habove
    · exact ⟨part, hpart, ‹_›⟩
    · cases habove
  · rintro ⟨part, hpart, hparent⟩
    have hdots : part = ['.', '.'] := by simpa [isParent] using hparent
    exact ⟨part, ⟨hpart, by rw [hdots]; rfl⟩, if_pos hparent⟩

theorem above_not_mem_start (ps : List (List Char)) : .above ∉ start ps := by
  unfold start
  split <;> simp

/-- What leads nowhere upwards leads through names. -/
theorem named_of_mem_steps (habove : .above ∉ steps ps) (hc : c ∈ steps ps) :
    ∃ name, c = .named name := by
  obtain ⟨part, hpart, rfl⟩ := List.mem_map.1 hc
  unfold Component.ofPart at hc ⊢
  split
  · next hparent =>
    exact absurd (above_mem_steps.2 ⟨part, (List.mem_filter.1 hpart).1, hparent⟩) habove
  · exact ⟨part, rfl⟩

end FilePath

namespace SourceDirectory

open FilePath

/-- A name without the slashes in front of it. -/
def relative (name : String) : String :=
  String.ofList (name.toList.dropWhile (· == '/'))

/-- **A name is refused** if it is blank or has a step to the directory above. -/
def Refused (name : String) : Prop :=
  Text.isBlankText name.toList = true ∨ .above ∈ components (relative name)

/-- The names that the name of a document leads through. -/
def below (name : String) : List Component :=
  steps (parts (relative name))

variable {d : SourceDirectory} {name : String}

theorem refused_iff :
    Refused name ↔
      (Text.isBlankText name.toList || (parts (relative name)).any isParent) = true := by
  rw [Refused, Bool.or_eq_true, List.any_eq_true, components, List.mem_append, above_mem_steps]
  simp only [above_not_mem_start, false_or]

theorem pathOf_of_refused (h : Refused name) :
    d.pathOf name = .error (.invalid (.documentName name)) :=
  if_pos (refused_iff.1 h)

/-- The path of a name that is not refused. -/
theorem exists_pathOf (hroot : d.root ≠ "") (hslash : '/' ∉ d.extension.toList)
    (h : ¬ Refused name) :
    ∃ path, d.pathOf name = .ok path ∧
      components path = extendLast d.extension.toList (components d.root ++ below name) := by
  refine ⟨_, if_neg fun hrefused => h (refused_iff.2 hrefused), ?_⟩
  have hjoin : components (join d.root (relative name)) = components d.root ++ below name :=
    components_join hroot (relative name)
  split
  · next hempty =>
    have hnone : d.extension.toList = [] := by simpa using hempty
    rw [hnone, extendLast_nil]
    exact hjoin
  · next hempty =>
    rw [← hjoin]
    exact components_withExtension (by simpa using hempty) hslash _

/-- **Where the path of a document leads.** A name is refused if it is blank or
steps to the directory above. Any other name has a path, which leads through the
root and then through the names that it is made of, and puts an extension on the
last of them if that has none. So it goes below the root if there are names in it.
If there are none, it is the root itself that gets the extension. -/
theorem pathOf_exact (hroot : d.root ≠ "") (hslash : '/' ∉ d.extension.toList) (name : String) :
    (d.pathOf name = .error (.invalid (.documentName name)) ↔ Refused name) ∧
      (¬ Refused name →
        ∃ path, d.pathOf name = .ok path ∧
          (∀ c ∈ below name, ∃ n, c = .named n) ∧
          (below name ≠ [] →
            components path =
              components d.root ++ extendLast d.extension.toList (below name)) ∧
          (below name = [] →
            components path = extendLast d.extension.toList (components d.root)) ∧
          ((∃ more, more ≠ [] ∧ components path = components d.root ++ more) ↔
            below name ≠ [])) := by
  refine ⟨⟨fun herror => ?_, pathOf_of_refused⟩, fun h => ?_⟩
  · refine Classical.byContradiction fun h => ?_
    obtain ⟨path, hpath, -⟩ := exists_pathOf hroot hslash h
    cases herror.symm.trans hpath
  obtain ⟨path, hpath, hcomponents⟩ := exists_pathOf hroot hslash h
  have hbelow (hne : below name ≠ []) :
      components path = components d.root ++ extendLast d.extension.toList (below name) :=
    hcomponents.trans (extendLast_append hne)
  refine ⟨path, hpath, fun c hc => ?_, hbelow, fun hnil => ?_, ?_, fun hne => ?_⟩
  · exact named_of_mem_steps (fun habove => h (.inr (List.mem_append_right _ habove))) hc
  · rw [hcomponents, hnil, List.append_nil]
  · rintro ⟨more, hmore, heq⟩ hnil
    have hlength := congrArg List.length (hcomponents.symm.trans heq)
    rw [length_extendLast, List.length_append, List.length_append, hnil] at hlength
    exact hmore (List.length_eq_zero_iff.1 (Nat.add_left_cancel hlength).symm)
  · refine ⟨_, fun hnil => hne ?_, hbelow hne⟩
    have hlength := length_extendLast d.extension.toList (below name)
    rw [hnil] at hlength
    exact List.length_eq_zero_iff.1 hlength.symm

/-- Below a root that ends in a slash, a name with hollow parts gets its extension
behind the last name that it has. -/
theorem pathOf_exact_hollow :
    "shop/" ≠ "" ∧ '/' ∉ "sfc".toList ∧ ¬ Refused "//pages/./home/." ∧
      ∃ path, (SourceDirectory.mk "shop/" "sfc").pathOf "//pages/./home/." = .ok path ∧
        components path =
          [.named "shop".toList, .named "pages".toList, .named "home.sfc".toList] := by
  have hroot : "shop/" ≠ "" := by decide
  have hslash : '/' ∉ "sfc".toList := by decide
  have hkept : ¬ Refused "//pages/./home/." := by
    rw [refused_iff]
    decide +kernel
  obtain ⟨path, hpath, -, hbelow, -⟩ :=
    (pathOf_exact (d := ⟨"shop/", "sfc"⟩) hroot hslash "//pages/./home/.").2 hkept
  refine ⟨hroot, hslash, hkept, path, hpath, (hbelow (by decide +kernel)).trans ?_⟩
  decide +kernel

/-- A point alone takes the root for a file, beside the directory. -/
example : ((SourceDirectory.make "templates" "sfc").pathOf ".").toOption = some "templates.sfc" := by
  decide +kernel

end SourceDirectory

end Trellis
