import Mathlib.Data.List.Induction
import AnanicyRs.Lib.Text

/-!
Contract: Unix paths as `std::path` reads them.

Owns the component view of a path text, `PathBuf::push` on texts, `Path::parent`
and `Path::join` on components, and lexical containment: `AtOrBelow base path`
says that `path` continues `base` component by component without a `..`.
`components_push` connects the two views: appending a relative text to a
non-empty one appends its components. `components_collect` goes the other way:
the components of a text, pushed one after the other, have themselves as components.

Does not own symbolic links or any other file-system state.
-/

set_option autoImplicit false

namespace AnanicyRs.Lib.UnixPath

/-! ## Components -/

/-- `std::path::Component`, without the prefixes only Windows has. -/
inductive Component where
  | rootDir
  | curDir
  | parentDir
  | normal (name : String)
deriving DecidableEq, Repr

/-- A path as the list of its components, which is how paths are compared. -/
abbrev Path := List Component

/-- The component of one `/`-separated segment. Empty and `.` segments have
none; a leading `.` is handled by `headComponent`. -/
def segment (text : List Char) : Option Component :=
  if text = [] ∨ text = ['.'] then none
  else if text = ['.', '.'] then some .parentDir
  else some (.normal (String.ofList text))

def bodyComponents (text : List Char) : Path :=
  (text.splitOn '/').filterMap segment

/-- The root, or the leading `.` that a relative path keeps. -/
def headComponent (text : List Char) : Path :=
  if text.head? = some '/' then [.rootDir]
  else if (text.splitOn '/').head? = some ['.'] then [.curDir]
  else []

def components (text : String) : Path :=
  headComponent text.toList ++ bodyComponents text.toList

example : components "/sys//fs/./cgroup/" =
    [.rootDir, .normal "sys", .normal "fs", .normal "cgroup"] := by decide

def isAbsolute (text : String) : Bool := text.toList.head? == some '/'

/-- `PathBuf::push`: an absolute argument replaces the whole path. -/
def push (base rel : String) : String :=
  if isAbsolute rel then rel
  else if base.toList.getLast?.all (· == '/') then base ++ rel
  else base ++ "/" ++ rel

def parent (path : Path) : Option Path :=
  match path.getLast? with
  | none => none
  | some .rootDir => none
  | some _ => some path.dropLast

/-- `Path::join` with a relative text. -/
def join (path : Path) (rel : String) : Path := path ++ bodyComponents rel.toList

/-! ## Components of a pushed path -/

theorem bodyComponents_append_slash (left right : List Char) :
    bodyComponents (left ++ '/' :: right) = bodyComponents left ++ bodyComponents right := by
  rw [bodyComponents, List.splitOn_append_cons_self, List.filterMap_append]
  rfl

@[simp] theorem bodyComponents_nil : bodyComponents [] = [] := rfl

theorem headComponent_append_slash (left right : List Char) :
    headComponent (left ++ '/' :: right) = headComponent (left ++ ['/']) := by
  have sameHead : (left ++ '/' :: right).head? = (left ++ ['/']).head? := by
    cases left <;> rfl
  have sameSegment : ∀ rest : List Char,
      ((left ++ '/' :: rest).splitOn '/').head? = (left.splitOn '/').head? := by
    intro rest
    rw [List.splitOn_append_cons_self, List.head?_append_of_ne_nil _
      (List.splitOn_ne_nil '/' left)]
  rw [headComponent, headComponent, sameHead, sameSegment right, sameSegment []]

theorem headComponent_append_slash_nil {left : List Char} (nonempty : left ≠ []) :
    headComponent (left ++ ['/']) = headComponent left := by
  have sameHead : (left ++ ['/']).head? = left.head? := by
    rw [List.head?_append_of_ne_nil _ nonempty]
  have sameSegment : ((left ++ ['/']).splitOn '/').head? = (left.splitOn '/').head? := by
    rw [List.splitOn_append_cons_self, List.head?_append_of_ne_nil _
      (List.splitOn_ne_nil '/' left)]
  rw [headComponent, headComponent, sameHead, sameSegment]

theorem push_absolute {base rel : String} (absolute : isAbsolute rel = true) :
    push base rel = rel := by
  rw [push, if_pos absolute]

/-- `PathBuf::push` of a relative text on a non-empty one appends components. -/
theorem components_push {base rel : String} (nonempty : base ≠ "")
    (relative : isAbsolute rel = false) :
    components (push base rel) = join (components base) rel := by
  have baseChars : base.toList ≠ [] := by
    intro empty
    exact nonempty (String.toList_inj.mp empty)
  rw [push, if_neg (by simp [relative])]
  by_cases slash : base.toList.getLast?.all (· == '/') = true
  · obtain ⟨front, last, split⟩ : ∃ front last, base.toList = front ++ [last] :=
      ⟨_, _, (List.dropLast_append_getLast baseChars).symm⟩
    have lastSlash : last = '/' := by
      simpa [split] using slash
    subst lastSlash
    rw [if_pos slash, components, components, join, String.toList_append, split,
      List.append_assoc, List.singleton_append, headComponent_append_slash,
      bodyComponents_append_slash, bodyComponents_append_slash, bodyComponents_nil,
      List.append_nil, List.append_assoc]
  · rw [if_neg slash, components, components, join, String.toList_append,
      String.toList_append]
    change headComponent ((base.toList ++ ['/']) ++ rel.toList) ++
      bodyComponents ((base.toList ++ ['/']) ++ rel.toList) = _
    rw [List.append_assoc, List.singleton_append, headComponent_append_slash,
      headComponent_append_slash_nil baseChars, bodyComponents_append_slash,
      List.append_assoc]

theorem push_empty (rel : String) : push "" rel = rel := by
  rw [push]
  split
  · rfl
  · rw [if_pos (by decide)]
    exact String.empty_append

/-! ## Components back to a text -/

def Component.text : Component → String
  | .rootDir => "/"
  | .curDir => "."
  | .parentDir => ".."
  | .normal name => name

/-- `components.collect::<PathBuf>()`: the components pushed one after the other. -/
def collect (path : Path) : String :=
  path.foldl (fun text component => push text component.text) ""

example : collect (components "/sys//fs/./cgroup/") = "/sys/fs/cgroup" := by decide

/-- What a segment of a text can be. -/
def Component.Inner : Component → Prop
  | .rootDir => False
  | .curDir => False
  | .parentDir => True
  | .normal name => '/' ∉ name.toList ∧ segment name.toList = some (.normal name)

/-- The root and a leading `.` are first or nowhere. -/
def WellFormed : Path → Prop
  | [] => True
  | first :: rest =>
      (first = .rootDir ∨ first = .curDir ∨ first.Inner) ∧ ∀ inner ∈ rest, inner.Inner

theorem notMem_of_mem_splitOn (sep : Char) :
    ∀ text : List Char, ∀ part ∈ text.splitOn sep, sep ∉ part
  | [] => by simp
  | c :: rest => by
      have inductionHypothesis := notMem_of_mem_splitOn sep rest
      intro part member
      rw [List.splitOn_cons_eq_if_modifyHead] at member
      by_cases isSep : (c == sep) = true
      · rw [if_pos isSep] at member
        rcases List.mem_cons.mp member with rfl | inRest
        · exact List.not_mem_nil
        · exact inductionHypothesis part inRest
      · rw [if_neg isSep] at member
        cases parts : rest.splitOn sep with
        | nil => exact absurd parts (List.splitOn_ne_nil sep rest)
        | cons first others =>
            rw [parts, List.modifyHead_cons] at member
            rw [parts] at inductionHypothesis
            rcases List.mem_cons.mp member with rfl | inOthers
            · have notSep : sep ≠ c := by
                rintro rfl
                exact isSep (by simp)
              rw [List.mem_cons, not_or]
              exact ⟨notSep, inductionHypothesis first (by simp)⟩
            · exact inductionHypothesis part (by simp [inOthers])

theorem inner_of_mem_bodyComponents {text : List Char} {component : Component}
    (member : component ∈ bodyComponents text) : component.Inner := by
  rw [bodyComponents, List.mem_filterMap] at member
  obtain ⟨part, inSplit, isComponent⟩ := member
  have noSlash := notMem_of_mem_splitOn '/' text part inSplit
  have original := isComponent
  unfold segment at isComponent
  split_ifs at isComponent with skipped dots
  · rw [← Option.some.inj isComponent]
    trivial
  · obtain rfl := Option.some.inj isComponent
    rw [Component.Inner, String.toList_ofList]
    exact ⟨noSlash, original⟩

theorem components_wellFormed (text : String) : WellFormed (components text) := by
  have body : ∀ inner ∈ bodyComponents text.toList, inner.Inner :=
    fun _ member => inner_of_mem_bodyComponents member
  unfold components headComponent
  split_ifs with absolute dotted
  · exact ⟨.inl rfl, body⟩
  · exact ⟨.inr (.inl rfl), body⟩
  · rw [List.nil_append]
    cases all : bodyComponents text.toList with
    | nil => trivial
    | cons first rest =>
        rw [all] at body
        exact ⟨.inr (.inr (body first (by simp))), fun inner later => body inner (by simp [later])⟩

theorem WellFormed.dropLast {path : Path} (wellFormed : WellFormed path) :
    WellFormed path.dropLast := by
  cases path with
  | nil => trivial
  | cons first rest =>
      cases rest with
      | nil => trivial
      | cons second others =>
          rw [List.dropLast_cons_of_ne_nil (by simp)]
          exact ⟨wellFormed.1, fun inner member =>
            wellFormed.2 inner (List.dropLast_subset _ member)⟩

theorem Component.Inner.body {component : Component} (inner : component.Inner) :
    isAbsolute component.text = false ∧ bodyComponents component.text.toList = [component] := by
  cases component with
  | rootDir => exact inner.elim
  | curDir => exact inner.elim
  | parentDir => exact ⟨by decide, by decide⟩
  | normal name =>
      obtain ⟨noSlash, isNormal⟩ := inner
      constructor
      · rw [isAbsolute, Component.text]
        cases chars : name.toList with
        | nil => rfl
        | cons first rest =>
            have notSlash : first ≠ '/' := by
              rintro rfl
              exact noSlash (by simp [chars])
            simpa using notSlash
      · rw [bodyComponents, Component.text, List.splitOn_eq_singleton noSlash,
          List.filterMap_cons_some isNormal, List.filterMap_nil]

theorem components_text {component : Component}
    (first : component = .rootDir ∨ component = .curDir ∨ component.Inner) :
    components component.text = [component] := by
  rcases first with rfl | rfl | inner
  · decide
  · decide
  · obtain ⟨relative, body⟩ := inner.body
    have noHead : headComponent component.text.toList = [] := by
      cases component with
      | rootDir => exact inner.elim
      | curDir => exact inner.elim
      | parentDir => decide
      | normal name =>
          have isNormal := inner.2
          unfold headComponent
          rw [if_neg (by simpa [isAbsolute] using relative), if_neg]
          rw [Component.text, List.splitOn_eq_singleton inner.1, List.head?_cons,
            Option.some.injEq]
          intro dot
          simp [segment, dot] at isNormal
    rw [components, noHead, body]
    rfl

/-- Collecting components loses nothing: the text has the same components again. -/
theorem components_collect {path : Path} (wellFormed : WellFormed path) :
    components (collect path) = path := by
  induction path using List.reverseRecOn with
  | nil => decide
  | append_singleton front last inductionHypothesis =>
      have pushed : collect (front ++ [last]) = push (collect front) last.text := by
        rw [collect, List.foldl_append]
        rfl
      rw [pushed]
      cases front with
      | nil =>
          rw [collect, List.foldl_nil, push_empty, components_text wellFormed.1]
          rfl
      | cons first rest =>
          have shorter := wellFormed.dropLast
          rw [List.dropLast_concat] at shorter
          have frontAgain := inductionHypothesis shorter
          have nonempty : collect (first :: rest) ≠ "" := by
            intro empty
            rw [empty] at frontAgain
            exact absurd frontAgain (by simp [components, headComponent])
          obtain ⟨relative, body⟩ := (wellFormed.2 last (by simp)).body
          rw [components_push nonempty relative, frontAgain, join, body]

/-! ## Traversal -/

private theorem infix_of_mem_splitOn (sep : Char) :
    ∀ text : List Char,
      (∀ part ∈ (text.splitOn sep).head?, part <+: text) ∧
        ∀ part ∈ text.splitOn sep, part <:+: text
  | [] => by simp
  | c :: rest => by
      obtain ⟨headPrefix, allInfix⟩ := infix_of_mem_splitOn sep rest
      rw [List.splitOn_cons_eq_if_modifyHead]
      by_cases isSep : (c == sep) = true
      · rw [if_pos isSep]
        refine ⟨by simp, ?_⟩
        intro part member
        rcases List.mem_cons.mp member with rfl | inRest
        · exact List.nil_infix
        · exact List.infix_cons (allInfix part inRest)
      · rw [if_neg isSep]
        cases parts : rest.splitOn sep with
        | nil => exact absurd parts (List.splitOn_ne_nil sep rest)
        | cons first others =>
            have firstPrefix : c :: first <+: c :: rest := by
              rw [List.prefix_cons_inj]
              exact headPrefix first (by simp [parts])
            refine ⟨by simpa using firstPrefix, ?_⟩
            intro part member
            rw [List.modifyHead_cons] at member
            rcases List.mem_cons.mp member with rfl | inOthers
            · exact firstPrefix.isInfix
            · exact List.infix_cons (allInfix part (by simp [parts, inOthers]))

/-- A `..` component can only come from two adjacent dots in the text. -/
theorem dots_of_parentDir_mem {text : List Char}
    (member : Component.parentDir ∈ bodyComponents text) : ['.', '.'] <:+: text := by
  rw [bodyComponents, List.mem_filterMap] at member
  obtain ⟨part, inSplit, isParent⟩ := member
  have dots : part = ['.', '.'] := by
    unfold segment at isParent
    split_ifs at isParent with skipped dots
    · exact dots
    · simp at isParent
  rw [← dots]
  exact (infix_of_mem_splitOn '/' text).2 part inSplit

theorem parentDir_notMem_components {text : String}
    (noDots : ¬ ['.', '.'] <:+: text.toList) : Component.parentDir ∉ components text := by
  intro member
  rcases List.mem_append.mp member with inHead | inBody
  · unfold headComponent at inHead
    split_ifs at inHead <;> simp at inHead
  · exact noDots (dots_of_parentDir_mem inBody)

/-! ## Lexical containment -/

theorem prefix_dropLast {root path : Path} (below : root <+: path) (strict : path ≠ root) :
    root <+: path.dropLast := by
  obtain ⟨rest, rfl⟩ := below
  have nonempty : rest ≠ [] := by
    rintro rfl
    exact strict (List.append_nil root)
  rw [List.dropLast_append_of_ne_nil nonempty]
  exact List.prefix_append root _

/-- `path` is `base` or lies below it: it continues `base` without a `..`. -/
def AtOrBelow (base path : Path) : Prop :=
  ∃ rest, path = base ++ rest ∧ Component.parentDir ∉ rest

theorem atOrBelow_iff (base path : Path) :
    AtOrBelow base path ↔ base <+: path ∧ Component.parentDir ∉ path.drop base.length := by
  constructor
  · intro given
    rcases given with ⟨rest, rfl, noDots⟩
    exact ⟨List.prefix_append base rest, by simpa using noDots⟩
  · intro given
    rcases given with ⟨⟨rest, rfl⟩, noDots⟩
    exact ⟨rest, rfl, by simpa using noDots⟩

instance (base path : Path) : Decidable (AtOrBelow base path) :=
  decidable_of_iff _ (atOrBelow_iff base path).symm

theorem AtOrBelow.refl (path : Path) : AtOrBelow path path :=
  ⟨[], by simp, by simp⟩

theorem AtOrBelow.trans {base middle path : Path} (lower : AtOrBelow base middle)
    (upper : AtOrBelow middle path) : AtOrBelow base path := by
  obtain ⟨first, rfl, firstClean⟩ := lower
  obtain ⟨second, rfl, secondClean⟩ := upper
  refine ⟨first ++ second, by simp, ?_⟩
  rw [List.mem_append]
  exact not_or.mpr ⟨firstClean, secondClean⟩

theorem AtOrBelow.join {base path : Path} (below : AtOrBelow base path) {rel : String}
    (clean : Component.parentDir ∉ bodyComponents rel.toList) :
    AtOrBelow base (UnixPath.join path rel) :=
  below.trans ⟨bodyComponents rel.toList, rfl, clean⟩

/-- The parent of a path strictly below `base` is still at or below it. -/
theorem AtOrBelow.dropLast {base path : Path} (below : AtOrBelow base path)
    (strict : path ≠ base) : AtOrBelow base path.dropLast := by
  obtain ⟨rest, rfl, clean⟩ := below
  have nonempty : rest ≠ [] := by
    rintro rfl
    exact strict (List.append_nil base)
  refine ⟨rest.dropLast, List.dropLast_append_of_ne_nil nonempty, ?_⟩
  intro member
  exact clean (List.dropLast_subset rest member)

theorem parent_eq_some {path up : Path} (isParent : parent path = some up) :
    path ≠ [] ∧ up = path.dropLast := by
  unfold parent at isParent
  split at isParent
  · simp at isParent
  · simp at isParent
  next last notRoot lastEq =>
    refine ⟨?_, (Option.some.inj isParent).symm⟩
    rintro rfl
    simp at lastEq

theorem rootDir_notMem_components {text : String} (relative : isAbsolute text = false) :
    Component.rootDir ∉ components text := by
  have notRoot : ¬ text.toList.head? = some '/' := by simpa [isAbsolute] using relative
  rw [components, List.mem_append, not_or]
  constructor
  · rw [headComponent, if_neg notRoot]
    split <;> simp
  · intro member
    exact inner_of_mem_bodyComponents member

/-- The parent of a path that a relative push has made longer is the path without its last
component. -/
theorem parent_push {base rel : String} (relative : isAbsolute rel = false)
    (longer : components (push base rel) ≠ components base) :
    parent (components (push base rel)) = some (components (push base rel)).dropLast := by
  obtain ⟨rest, split, noRoot⟩ : ∃ rest, components (push base rel) = components base ++ rest ∧
      Component.rootDir ∉ rest := by
    by_cases empty : base = ""
    · subst empty
      rw [push_empty]
      exact ⟨components rel, rfl, rootDir_notMem_components relative⟩
    · refine ⟨bodyComponents rel.toList, components_push empty relative, ?_⟩
      exact fun member => inner_of_mem_bodyComponents member
  have nonempty : rest ≠ [] := by
    rintro rfl
    exact longer (split.trans (List.append_nil _))
  have isLast : (components base ++ rest).getLast? = some (rest.getLast nonempty) := by
    rw [List.getLast?_append_of_ne_nil _ nonempty, List.getLast?_eq_some_getLast nonempty]
  have notRoot : rest.getLast nonempty ≠ .rootDir := by
    intro isRoot
    exact noRoot (isRoot ▸ List.getLast_mem nonempty)
  rw [split, parent, isLast]
  cases atEnd : rest.getLast nonempty with
  | rootDir => exact absurd atEnd notRoot
  | _ => rfl

/-- Pushing a relative text without `..` stays at or below the base. -/
theorem atOrBelow_push {base rel : String} (relative : isAbsolute rel = false)
    (noDots : ¬ ['.', '.'] <:+: rel.toList) :
    AtOrBelow (components base) (components (push base rel)) := by
  by_cases empty : base = ""
  · subst empty
    rw [push_empty]
    exact ⟨components rel, rfl, parentDir_notMem_components noDots⟩
  · rw [components_push empty relative]
    refine ⟨bodyComponents rel.toList, rfl, ?_⟩
    intro member
    exact noDots (dots_of_parentDir_mem member)

end AnanicyRs.Lib.UnixPath
