import AnanicyRs.Core.Rule
import AnanicyRs.Lib.Cache
import AnanicyRs.Lib.Text

/-!
Contract: the rule store of `crates/ananicy-core/src/rules.rs`.

Owns the model of `Rules`: loading a line, a file and a directory, the inheritance
pass, and the lookup of a process name through the resolved-rule cache. The store is
kept together with the name table its rules index, which the source holds in a
process-wide static.

Taken from other crates, as arguments in `Crates`: the JSON parser, the regex engine
and the cache. A hash map is an `AList`; the one place that depends on its iteration
order takes the order as an argument (`IterationOrder`). Log lines are left out.
-/

set_option autoImplicit false

namespace AnanicyRs.Core

open AnanicyRs.Lib
open AnanicyRs.Lib.Json

/-- What the store calls in other crates. -/
structure Crates (ρ κ : Type) where
  fromStr : String → Option Document
  build : String → Option ρ
  -- `Matcher::is_match`, where a spent match budget is no match.
  isMatch : ρ → String → Bool
  cache : Cache.LossyCache κ String (Option String)

structure Matcher (ρ : Type) where
  compiled : ρ
  name : String

/-- `Rules`, with the name table. -/
structure Rules (ρ κ : Type) where
  names : NameTable
  programs : AList fun _ : String => Nat
  rules : List Rule
  types : AList fun _ : String => Document
  cgroups : AList fun _ : String => Document
  regexPrograms : List (Matcher ρ)
  resolvedCache : κ

/-- The three `*_load` settings `load_directory` reads. -/
structure LoadFlags where
  ruleLoad : Bool
  typeLoad : Bool
  cgroupLoad : Bool
deriving DecidableEq, Repr

/-- The entries of the type map in the order an iteration meets them. -/
structure IterationOrder where
  visit : List (Sigma fun _ : String => Document) → List (Sigma fun _ : String => Document)
  perm : ∀ entries, (visit entries).Perm entries

/-- A regular file below the rules directory: the components of its path, and its
text if it can be read. -/
structure RuleFile where
  path : List String
  content : Option String
deriving DecidableEq, Repr

/-- The rules directory as a walk finds it. -/
structure RuleTree where
  isDir : Bool
  files : List RuleFile
  distinct : (files.map RuleFile.path).Nodup

def maxCacheableName : Nat := 256

namespace Rules

variable {ρ κ : Type}

/-- `Rules::new`, in a process whose name table is `names`. -/
def new (crates : Crates ρ κ) (names : NameTable) : Rules ρ κ where
  names := names
  programs := ∅
  rules := []
  types := ∅
  cgroups := ∅
  regexPrograms := []
  resolvedCache := crates.cache.empty

/-! ## Lines -/

inductive Definition where
  | program (name : String) (document : Document)
  | type (name : String) (document : Document)
  | cgroup (name : String) (document : Document)

/-- The text from the first `{` to the last `}` of a line that is not a comment. -/
def ruleText (line : String) : Option String :=
  let chars := Text.trimChars line.toList
  if chars.isEmpty || chars.head? == some '#' then none
  else
    let fromBrace := chars.dropWhile (· ≠ '{')
    let throughBrace := (fromBrace.reverse.dropWhile (· ≠ '}')).reverse
    if throughBrace.isEmpty then none else some (String.ofList throughBrace)

/-- The store a parsed line belongs to: a `name` decides over a `type`, and a
`type` over a `cgroup`. -/
def classify (document : Document) : Option Definition :=
  match document.value.getStr "name" with
  | some name => some (.program name document)
  | none =>
      match document.value.getStr "type" with
      | some typeName => some (.type typeName document)
      | none =>
          match document.value.getStr "cgroup" with
          | some cgroupName => some (.cgroup cgroupName document)
          | none => none

def definitionOf (crates : Crates ρ κ) (line : String) : Option Definition :=
  (ruleText line).bind fun text => (crates.fromStr text).bind classify

/-- `2^32`: an index is stored as a `u32`. -/
def indexModulus : Nat := 2 ^ 32

/-- The slot of a program rule, and the rules with that slot in place. -/
def reserve (rules : Rules ρ κ) (name : String) : Nat × List Rule :=
  match rules.programs.lookup name with
  | some index => (index, rules.rules)
  | none => (rules.rules.length % indexModulus, rules.rules ++ [Rule.default])

/-- `Matcher::compile` on the `name_regex` of a definition, if it has one. -/
def matcherOf (crates : Crates ρ κ) (name : String) (document : Document) :
    Option (Matcher ρ) :=
  (document.value.getStr "name_regex").bind fun pattern =>
    (crates.build pattern).map fun compiled => ⟨compiled, name⟩

/-- The program-rule branch of `load_rule_from_named`. -/
def loadProgram (crates : Crates ρ κ) (name : String) (document : Document)
    (rules : Rules ρ κ) : Rules ρ κ :=
  let (index, reserved) := rules.reserve name
  let (filled, names) :=
    if index < reserved.length then
      let (rule, names) := Rule.fromJson document.value rules.names
      (reserved.set index rule, names)
    else (reserved, rules.names)
  { rules with
    names
    programs := rules.programs.insert name index
    rules := filled
    regexPrograms := rules.regexPrograms ++ (matcherOf crates name document).toList }

def define (crates : Crates ρ κ) (definition : Definition) (rules : Rules ρ κ) : Rules ρ κ :=
  match definition with
  | .program name document => loadProgram crates name document rules
  | .type name document => { rules with types := rules.types.insert name document }
  | .cgroup name document => { rules with cgroups := rules.cgroups.insert name document }

def loadRuleFromNamed (crates : Crates ρ κ) (line : String) (rules : Rules ρ κ) :
    Bool × Rules ρ κ :=
  match definitionOf crates line with
  | some definition => (true, define crates definition rules)
  | none => (false, rules)

def loadRuleFromString (crates : Crates ρ κ) (line : String) (rules : Rules ρ κ) :
    Bool × Rules ρ κ :=
  loadRuleFromNamed crates line rules

def loadLines (crates : Crates ρ κ) (lines : List String) (rules : Rules ρ κ) : Rules ρ κ :=
  lines.foldl (fun current line => (loadRuleFromNamed crates line current).2) rules

/-- `Rules::load_file`, given what reading the file answered. -/
def loadFile (crates : Crates ρ κ) (content : Option String) (rules : Rules ρ κ) : Rules ρ κ :=
  match content with
  | some text => loadLines crates (Text.lines text) rules
  | none => rules

/-! ## Inheritance -/

/-- The base rule of each type, read in iteration order. -/
def resolveBases : List (Sigma fun _ : String => Document) → StateM NameTable (List (String × Rule))
  | [] => pure []
  | entry :: rest => do
      let base ← Rule.fromJson entry.2.value
      let others ← resolveBases rest
      pure ((entry.1, { base with typeName := .none }) :: others)

/-- The overlay of one rule on the type it names. -/
def inheritType (names : NameTable) (bases : List (String × Rule)) (rule : Rule) : Rule :=
  match rule.typeName.asStr names with
  | none => rule
  | some typeName =>
      match bases.lookup typeName with
      | none => rule
      | some base => rule.inherit base

def precomputeInheritance (crates : Crates ρ κ) (order : IterationOrder) (rules : Rules ρ κ) :
    Rules ρ κ :=
  let resolved := resolveBases (order.visit rules.types.entries) rules.names
  { rules with
    names := resolved.2
    rules := rules.rules.map (inheritType resolved.2 resolved.1)
    resolvedCache := crates.cache.clear rules.resolvedCache }

/-! ## Directories -/

/-- `Path::extension` of a file name. -/
def extension (fileName : String) : Option String :=
  let parts := fileName.toList.splitOn '.'
  if parts.length < 2 ∨ parts.dropLast = [[]] then none
  else parts.getLast?.map String.ofList

/-- The extension test of `load_directory`. -/
def wanted (flags : LoadFlags) (file : RuleFile) : Bool :=
  let ext := ((file.path.getLast?.bind extension)).getD ""
  (ext == "rules" && flags.ruleLoad) || (ext == "types" && flags.typeLoad) ||
    (ext == "cgroups" && flags.cgroupLoad)

def sortedFiles (tree : RuleTree) : List RuleFile :=
  tree.files.mergeSort fun left right => decide (left.path ≤ right.path)

/-- The store `load_directory` starts from: everything but the name table is gone. -/
def cleared (crates : Crates ρ κ) (rules : Rules ρ κ) : Rules ρ κ where
  names := rules.names
  programs := ∅
  rules := []
  types := ∅
  cgroups := ∅
  regexPrograms := []
  resolvedCache := crates.cache.clear rules.resolvedCache

def loadFiles (crates : Crates ρ κ) (flags : LoadFlags) (files : List RuleFile)
    (rules : Rules ρ κ) : Rules ρ κ :=
  files.foldl (fun current file =>
    if wanted flags file then loadFile crates file.content current else current) rules

def loadDirectory (crates : Crates ρ κ) (flags : LoadFlags) (order : IterationOrder)
    (tree : RuleTree) (rules : Rules ρ κ) : Rules ρ κ :=
  if tree.isDir then
    precomputeInheritance crates order
      (loadFiles crates flags (sortedFiles tree) (cleared crates rules))
  else rules

/-! ## Lookup -/

def resolve (rules : Rules ρ κ) (name : Option String) : Option (String × Rule) :=
  name.bind fun declared =>
    (rules.programs.lookup declared).bind fun index =>
      (rules.rules[index]?).map fun rule => (declared, rule)

/-- The first pattern in load order that matches and belongs to a rule. -/
def firstMatcher (crates : Crates ρ κ) (rules : Rules ρ κ) (targetName : String) :
    Option String :=
  (rules.regexPrograms.find? fun matcher =>
    crates.isMatch matcher.compiled targetName && (rules.programs.lookup matcher.name).isSome).map
      Matcher.name

def findBestMatch (crates : Crates ρ κ) (rules : Rules ρ κ) (targetName : String) :
    Option String :=
  if (rules.programs.lookup targetName).isSome then some targetName
  else firstMatcher crates rules targetName

def getRule (crates : Crates ρ κ) (name : String) (rules : Rules ρ κ) :
    Option (String × Rule) × Rules ρ κ :=
  let (cached, cache) := crates.cache.get name rules.resolvedCache
  match cached with
  | some answer => (rules.resolve answer, { rules with resolvedCache := cache })
  | none =>
      let bestMatch := findBestMatch crates rules name
      let remembered :=
        if Text.byteLen name.toList ≤ maxCacheableName then crates.cache.put name bestMatch cache
        else cache
      (rules.resolve bestMatch, { rules with resolvedCache := remembered })

def size (rules : Rules ρ κ) : Nat := rules.rules.length

/-- `Rules::iter_rules`, in one iteration order of the map. -/
def iterRules (rules : Rules ρ κ) : List (String × Rule) :=
  rules.programs.entries.filterMap fun entry =>
    (rules.rules[entry.2]?).map fun rule => (entry.1, rule)

/-! ## The cache of a lookup -/

def CacheCoherent (crates : Crates ρ κ) (rules : Rules ρ κ) : Prop :=
  Cache.Coherent crates.cache (findBestMatch crates rules) rules.resolvedCache

/-- Through a coherent cache, `get_rule` answers what the tables say. -/
theorem getRule_fst {crates : Crates ρ κ} {rules : Rules ρ κ}
    (coherent : CacheCoherent crates rules) (name : String) :
    (getRule crates name rules).1 = rules.resolve (findBestMatch crates rules name) := by
  unfold getRule
  cases found : (crates.cache.get name rules.resolvedCache).1 with
  | none => simp [found]
  | some answer => simp [found, coherent.get_eq found]

/-- A lookup changes the cache and nothing else. -/
theorem getRule_snd (crates : Crates ρ κ) (name : String) (rules : Rules ρ κ) :
    ∃ cache, (getRule crates name rules).2 = { rules with resolvedCache := cache } ∧
      (CacheCoherent crates rules → Cache.Coherent crates.cache (findBestMatch crates rules) cache) := by
  unfold getRule
  cases found : (crates.cache.get name rules.resolvedCache).1 with
  | some answer => exact ⟨_, by simp [found], fun coherent => coherent.get name⟩
  | none =>
      refine ⟨_, by simp [found]; rfl, fun coherent => ?_⟩
      split
      · exact (coherent.get name).put name
      · exact coherent.get name

end Rules

end AnanicyRs.Core
