import AnanicyRs.Core.Inheritance

/-!
Contract: a directory of rule files as one list of lines.

Owns the lines a directory stands for (`directoryLines`), the fact that they do not
depend on the order in which a walk lists the files, and the store `load_directory`
leaves: the names it knows, its cold cache, its view, and the rule a name selects in
it after any lookups.
-/

set_option autoImplicit false

namespace AnanicyRs.Core.Rules

open AnanicyRs.Lib
open AnanicyRs.Lib.Json

variable {ρ κ : Type}

def fileLines (flags : LoadFlags) (file : RuleFile) : List String :=
  if wanted flags file then (file.content.map Text.lines).getD [] else []

/-- The lines a directory stands for, in load order. -/
def directoryLines (flags : LoadFlags) (tree : RuleTree) : List String :=
  if tree.isDir then (sortedFiles tree).flatMap (fileLines flags) else []

/-- Whatever order a walk lists the files in, they are loaded in the same one. -/
theorem sortedFiles_eq_of_perm {left right : RuleTree} (sameFiles : left.files.Perm right.files) :
    sortedFiles left = sortedFiles right := by
  have sorted : ∀ tree : RuleTree, (sortedFiles tree).Pairwise fun one other =>
      decide (one.path ≤ other.path) = true := by
    intro tree
    refine List.pairwise_mergeSort ?_ ?_ tree.files
    · intro first second third firstLe secondLe
      simp only [decide_eq_true_eq] at firstLe secondLe ⊢
      exact le_trans firstLe secondLe
    · intro first second
      simpa using le_total first.path second.path
  refine List.Perm.eq_of_pairwise ?_ (sorted left) (sorted right)
    ((List.mergeSort_perm _ _).trans (sameFiles.trans (List.mergeSort_perm _ _).symm))
  intro one other oneListed otherListed oneLe otherLe
  simp only [decide_eq_true_eq] at oneLe otherLe
  have oneMember : one ∈ left.files := (List.mergeSort_perm _ _).mem_iff.mp oneListed
  have otherMember : other ∈ left.files :=
    sameFiles.mem_iff.mpr ((List.mergeSort_perm _ _).mem_iff.mp otherListed)
  exact List.inj_on_of_nodup_map left.distinct oneMember otherMember (le_antisymm oneLe otherLe)

theorem directoryLines_eq_of_perm {left right : RuleTree} (sameDir : left.isDir = right.isDir)
    (sameFiles : left.files.Perm right.files) (flags : LoadFlags) :
    directoryLines flags left = directoryLines flags right := by
  rw [directoryLines, directoryLines, sameDir, sortedFiles_eq_of_perm sameFiles]

theorem loadLines_append (crates : Crates ρ κ) (left right : List String) (rules : Rules ρ κ) :
    loadLines crates (left ++ right) rules =
      loadLines crates right (loadLines crates left rules) :=
  List.foldl_append

theorem loadFiles_eq (crates : Crates ρ κ) (flags : LoadFlags) (files : List RuleFile)
    (rules : Rules ρ κ) :
    loadFiles crates flags files rules =
      loadLines crates (files.flatMap (fileLines flags)) rules := by
  induction files generalizing rules with
  | nil => rfl
  | cons file rest inductionHypothesis =>
      have oneFile : (if wanted flags file then loadFile crates file.content rules else rules) =
          loadLines crates (fileLines flags file) rules := by
        unfold fileLines loadFile
        cases wanted flags file <;> cases file.content <;> rfl
      calc loadFiles crates flags (file :: rest) rules
          = loadFiles crates flags rest (loadLines crates (fileLines flags file) rules) := by
            rw [← oneFile]
            rfl
        _ = loadLines crates ((file :: rest).flatMap (fileLines flags)) rules := by
            rw [inductionHypothesis, List.flatMap_cons, loadLines_append]

/-! ## Lookups -/

def afterLookups (crates : Crates ρ κ) (looked : List String) (rules : Rules ρ κ) : Rules ρ κ :=
  looked.foldl (fun current name => (getRule crates name current).2) rules

/-- Lookups touch the cache alone, and keep it coherent. -/
theorem afterLookups_eq (crates : Crates ρ κ) (looked : List String) {rules : Rules ρ κ}
    (coherent : CacheCoherent crates rules) :
    ∃ cache, afterLookups crates looked rules = { rules with resolvedCache := cache } ∧
      CacheCoherent crates (afterLookups crates looked rules) := by
  induction looked generalizing rules with
  | nil => exact ⟨rules.resolvedCache, rfl, coherent⟩
  | cons name rest inductionHypothesis =>
      obtain ⟨cache, lookedUp, kept⟩ := getRule_snd crates name rules
      have nextCoherent : CacheCoherent crates (getRule crates name rules).2 := by
        rw [lookedUp]
        exact kept coherent
      obtain ⟨later, isLater, laterCoherent⟩ := inductionHypothesis nextCoherent
      refine ⟨later, ?_, laterCoherent⟩
      change afterLookups crates rest (getRule crates name rules).2 = _
      rw [isLater, lookedUp]

/-- The rule whose pattern is the first in load order to match. -/
def patternRule (crates : Crates ρ κ) (definitions : List (String × Document)) (name : String) :
    Option String :=
  (definitions.find? (patternMatches crates name)).map Prod.fst

/-- The rule a name selects: its own, or that of the first pattern that matches. -/
def selected (crates : Crates ρ κ) (definitions : List (String × Document)) (name : String) :
    Option String :=
  if name ∈ definitions.map Prod.fst then some name else patternRule crates definitions name

/-- After any lookups, the name a lookup answers with is the one selected by the
definitions. -/
theorem name_getRule {crates : Crates ρ κ} {definitions : List (String × Document)}
    {rules : Rules ρ κ} (tracks : Tracks crates definitions rules)
    (coherent : CacheCoherent crates rules) (looked : List String) (name : String) :
    ((getRule crates name (afterLookups crates looked rules)).1.map Prod.fst) =
      selected crates definitions name := by
  obtain ⟨cache, isLater, laterCoherent⟩ := afterLookups_eq crates looked coherent
  have laterTracks : Tracks crates definitions (afterLookups crates looked rules) := by
    rw [isLater]
    exact ⟨tracks.known, tracks.inRange, tracks.matchers⟩
  have best : findBestMatch crates (afterLookups crates looked rules) name =
      selected crates definitions name := findBestMatch_eq laterTracks name
  rw [getRule_fst laterCoherent]
  cases isSelected : selected crates definitions name with
  | none =>
      rw [best, isSelected]
      rfl
  | some declared =>
      obtain ⟨rule, resolved⟩ := resolve_some laterTracks
        (findBestMatch_defined laterTracks (best.trans isSelected))
      rw [best, isSelected, resolved]
      rfl

/-! ## The store of a directory -/

/-- The store of a process with table `names` that loaded a directory into a fresh one. -/
def loaded (crates : Crates ρ κ) (flags : LoadFlags) (order : IterationOrder) (tree : RuleTree)
    (names : NameTable) : Rules ρ κ :=
  loadDirectory crates flags order tree (new crates names)

theorem loaded_isDir (crates : Crates ρ κ) (flags : LoadFlags) (order : IterationOrder)
    {tree : RuleTree} (isDir : tree.isDir = true) (names : NameTable) :
    loaded crates flags order tree names =
      precomputeInheritance crates order
        (loadLines crates (directoryLines flags tree) (cleared crates (new crates names))) := by
  unfold loaded loadDirectory directoryLines
  rw [if_pos isDir, if_pos isDir, loadFiles_eq]

theorem loaded_notDir (crates : Crates ρ κ) (flags : LoadFlags) (order : IterationOrder)
    {tree : RuleTree} (notDir : tree.isDir = false) (names : NameTable) :
    loaded crates flags order tree names = new crates names ∧ directoryLines flags tree = [] := by
  simp [loaded, loadDirectory, directoryLines, notDir]

theorem tracks_cleared (crates : Crates ρ κ) (rules : Rules ρ κ) :
    Tracks crates [] (cleared crates rules) where
  known := by simp [cleared]
  inRange := by simp [cleared]
  matchers := rfl

theorem tracks_precomputeInheritance {crates : Crates ρ κ}
    {definitions : List (String × Document)} {rules : Rules ρ κ}
    (tracks : Tracks crates definitions rules) (order : IterationOrder) :
    Tracks crates definitions (precomputeInheritance crates order rules) where
  known := tracks.known
  inRange name index found := by
    rw [precomputeInheritance_eq, List.length_map]
    exact tracks.inRange name index found
  matchers := tracks.matchers

section Loaded

variable (crates : Crates ρ κ) (flags : LoadFlags) (order : IterationOrder) (tree : RuleTree)
  (names : NameTable)

theorem tracks_loaded :
    Tracks crates (programLines crates (directoryLines flags tree))
      (loaded crates flags order tree names) := by
  cases isDir : tree.isDir with
  | true =>
      rw [loaded_isDir crates flags order isDir]
      exact tracks_precomputeInheritance
        (tracks_loadLines (tracks_cleared crates _) (directoryLines flags tree)) order
  | false =>
      obtain ⟨blank, noLines⟩ := loaded_notDir crates flags order isDir names
      rw [blank, noLines]
      exact tracks_new crates names

theorem coherent_loaded : CacheCoherent crates (loaded crates flags order tree names) := by
  cases isDir : tree.isDir with
  | true =>
      rw [loaded_isDir crates flags order isDir]
      exact Cache.coherent_clear crates.cache _ _
  | false =>
      rw [(loaded_notDir crates flags order isDir names).1]
      exact Cache.coherent_empty crates.cache _

theorem loaded_grows : NameTable.Grows names (loaded crates flags order tree names).names := by
  cases isDir : tree.isDir with
  | true =>
      rw [loaded_isDir crates flags order isDir, precomputeInheritance_eq]
      apply NameTable.Grows.trans _ (inheritedNames_grows order _)
      rw [loadLines_eq]
      exact loadPrograms_grows crates _ (cleared crates (new crates names))
  | false =>
      rw [(loaded_notDir crates flags order isDir names).1]
      exact NameTable.Grows.refl names

/-- Whatever the process interned before, a directory leaves the store its lines
state. -/
theorem view_loaded (notFull : (loaded crates flags order tree names).names.NotFull) :
    (loaded crates flags order tree names).view (loaded crates flags order tree names).names =
      specStore crates (directoryLines flags tree) := by
  cases isDir : tree.isDir with
  | true =>
      rw [loaded_isDir crates flags order isDir] at notFull ⊢
      have lines := view_loadLines (tracks_cleared crates (new crates names)) rfl
        (directoryLines flags tree) (inheritedNames_grows order _) notFull
      exact (view_precomputeInheritance crates order _ notFull).trans
        (congrArg StoreView.inheritAll lines)
  | false =>
      obtain ⟨blank, noLines⟩ := loaded_notDir crates flags order isDir names
      rw [blank, noLines]
      rfl

end Loaded

/-- `{"name":"firefox"}`. -/
def browserDefinitions : List (String × Document) :=
  [("\x7b\"name\":\"firefox\"\x7d", ⟨.object [("name", .string "firefox")], by decide⟩)]

def browserTree : RuleTree where
  isDir := true
  files := [⟨["browsers.rules"], some "\x7b\"name\":\"firefox\"\x7d"⟩]
  distinct := by decide

def everyFlag : LoadFlags := ⟨true, true, true⟩

example : directoryLines everyFlag browserTree = ["\x7b\"name\":\"firefox\"\x7d"] := by
  decide +kernel

end AnanicyRs.Core.Rules
