import AnanicyRs.Lib.Grouping
import AnanicyRs.Lib.Json
import AnanicyRs.Lib.Text

/-!
Contract: `dump autogroup` of `src/dump.rs`, as a way of writing down what `dump proc` does.

Owns `get_autogroup_from_str`, the object a `ProcessInfo` becomes, and the loop of
`dump_autogroup` over these objects. Over it stand the groups as a typed map (`gather`), which
the loop renders.

Nothing gets lost on the way and nothing comes twice (`dumpAutogroup_regroups`): as long as the
threads of a group agree on its nice value, what `dump proc` says of them can be read back
(`readBack_dumpAutogroup`).

Does not own where the other fields of a `ProcessInfo` come from, nor the text syntax of JSON.
-/

set_option autoImplicit false

namespace AnanicyRs.Daemon.Autogroup

open AnanicyRs.Lib
open AnanicyRs.Lib.Grouping
open AnanicyRs.Lib.Json
open AnanicyRs.Lib.Sorted

/-! ## A process -/

def autogroupPrefix : List Char := "/autogroup-".toList

def autogroupValue (group nice : Int32) : Members :=
  [("group", .number (.ofI32 group)), ("nice", .number (.ofI32 nice))]

/-- `get_autogroup_from_str`, on the content of `/proc/<pid>/autogroup`. -/
def getAutogroupFromStr (s : String) : Option Members :=
  let s := Text.trimChars s.toList
  if autogroupPrefix.isPrefixOf s then
    match Text.splitWhitespaceChars s with
    | first :: second :: third :: _ =>
        if second = "nice".toList then
          match Text.parseI32Chars (first.drop autogroupPrefix.length), Text.parseI32Chars third with
          | some group, some nice => some (autogroupValue group nice)
          | _, _ => none
        else none
    | _ => none
  else none

/-- `ProcessInfo` of `crates/ananicy-platform/src/process_info.rs`, with the text its
`autogroup` is read from. -/
structure ProcessInfo where
  pid : Int32
  tpid : Int32
  exe : Option String
  comm : String
  cmd : String
  stat : String
  statName : String
  autogroupText : String
  sched : String
  rtprio : Int32
  nice : Int32
  latencyNice : Int32
  ionice : Value
  oomScoreAdj : Int32
  cmdline : List String
  rule : Option String

def ProcessInfo.autogroup (info : ProcessInfo) : Option Members :=
  getAutogroupFromStr info.autogroupText

def ofI32 (n : Int32) : Value := .number (.ofI32 n)

/-- The members of `serde_json::to_value`. -/
def ProcessInfo.members (info : ProcessInfo) : Members :=
  [("autogroup", (info.autogroup.map Value.object).getD .null),
    ("cmd", .string info.cmd),
    ("cmdline", .array (info.cmdline.map .string)),
    ("comm", .string info.comm),
    ("exe", (info.exe.map Value.string).getD .null),
    ("ionice", info.ionice),
    ("latency_nice", ofI32 info.latencyNice),
    ("nice", ofI32 info.nice),
    ("oom_score_adj", ofI32 info.oomScoreAdj),
    ("pid", ofI32 info.pid),
    ("rtprio", ofI32 info.rtprio)] ++
  (info.rule.map fun rule => ("rule", .string rule)).toList ++
  [("sched", .string info.sched),
    ("stat", .string info.stat),
    ("stat_name", .string info.statName),
    ("tpid", ofI32 info.tpid)]

/-- The map `get_process_info_map` fills, one thread after the other. -/
def processInfoMap (infos : List ProcessInfo) : Members :=
  infos.foldl (fun held info => insertMember (toString info.tpid.toInt) (.object info.members) held)
    []

/-! ## The dump -/

def asI64 : Value → Option Int64
  | .number n => n.asI64
  | _ => none

def groupNum (autogroup : Members) : String :=
  toString (((autogroup.lookup "group").bind asI64).getD 0).toInt

def niceOf (autogroup : Members) : Value := (autogroup.lookup "nice").getD .null

/-- The object under `autogroup`. Entries without one are skipped. -/
def autogroupOf : Value → Option Members
  | .object info =>
      match info.lookup "autogroup" with
      | some (.object autogroup) => some autogroup
      | _ => none
  | _ => none

/-- One round of the loop of `dump_autogroup`. -/
def dumpStep (autogroupMap : Members) (entry : String × Value) : Members :=
  match autogroupOf entry.2 with
  | none => autogroupMap
  | some autogroup =>
      let group := groupNum autogroup
      let opened :=
        if (autogroupMap.lookup group).isSome then autogroupMap
        else insertMember group
          (.object (insertMember "proc" (.object []) (insertMember "nice" (niceOf autogroup) [])))
          autogroupMap
      let info := removeMember "autogroup" entry.2.members
      match opened.lookup group with
      | some (.object held) =>
          match held.lookup "proc" with
          | some (.object procMap) =>
              insertMember group
                (.object (insertMember "proc" (.object (insertMember entry.1 (.object info) procMap))
                  held)) opened
          | _ => opened
      | _ => opened

def dumpAutogroup (processInfoMap : Members) : Members := processInfoMap.foldl dumpStep []

/-! ## The groups -/

structure Group where
  nice : Value
  proc : Members

def Group.toValue (group : Group) : Value :=
  .object [("nice", group.nice), ("proc", .object group.proc)]

def render (groups : SortedMap String Group) : Members :=
  groups.entries.map fun entry => (entry.1, entry.2.toValue)

/-- The group an entry belongs to. -/
def keyOf (entry : String × Value) : Option String := (autogroupOf entry.2).map groupNum

/-- An entry as it is put below its group. -/
def stripped (entry : String × Value) : String × Value :=
  (entry.1, .object (removeMember "autogroup" entry.2.members))

def Group.start (entry : String × Value) : Group :=
  ⟨niceOf ((autogroupOf entry.2).getD []), []⟩

def Group.add (group : Group) (entry : String × Value) : Group :=
  { group with proc := insertMember entry.1 (stripped entry).2 group.proc }

def gatherStep (groups : SortedMap String Group) (entry : String × Value) :
    SortedMap String Group :=
  match keyOf entry with
  | none => groups
  | some key => groups.update key fun held => (held.getD (.start entry)).add entry

def gather (infos : Members) : SortedMap String Group := infos.foldl gatherStep .empty

theorem lookup_render (groups : SortedMap String Group) (key : String) :
    (render groups).lookup key = (groups.lookup key).map Group.toValue := by
  unfold render SortedMap.lookup
  induction groups.entries with
  | nil => rfl
  | cons head rest inductionHypothesis =>
      rw [List.map_cons, List.lookup_cons, List.lookup_cons, inductionHypothesis]
      by_cases same : key = head.1
      · simp [same]
      · simp [beq_false_of_ne same]

/-- A group is rendered where it stands. -/
theorem render_update (groups : SortedMap String Group) (key : String) (group : Group) :
    render (groups.update key fun _ => group) =
      insertMember key group.toValue (render groups) := by
  unfold render SortedMap.update
  rw [insertMember_eq]
  dsimp only
  induction groups.entries with
  | nil => rfl
  | cons head rest inductionHypothesis =>
      rw [List.map_cons, SortedMap.updateEntries, SortedMap.updateEntries]
      split
      · rfl
      · split
        · rfl
        · rw [List.map_cons, inductionHypothesis]

theorem gathers_gatherStep : Gathers (fun groups : SortedMap String Group => groups.lookup)
    gatherStep keyOf Group.start Group.add where
  lookup_step := by
    intro groups entry key
    unfold gatherStep
    cases isKey : keyOf entry with
    | none => simp
    | some found =>
        rw [SortedMap.lookup_update]
        by_cases same : key = found
        · simp [same]
        · simp [same, Ne.symm same]

/-- The round of a group that is there: its `proc` gets the entry. -/
theorem add_toValue (group : Group) (entry : String × Value) :
    Value.object (insertMember "proc" (.object (insertMember entry.1
      (.object (removeMember "autogroup" entry.2.members)) group.proc))
        [("nice", group.nice), ("proc", .object group.proc)]) = (group.add entry).toValue := by
  have behind : ¬ "proc" < "nice" := by
    decide
  have other : ¬ "proc" = "nice" := by
    decide
  simp [insertMember, behind, other, Group.add, Group.toValue, stripped]

theorem start_toValue (nice : Value) :
    Value.object (insertMember "proc" (.object []) (insertMember "nice" nice [])) =
      (Group.mk nice []).toValue := by
  have behind : ¬ "proc" < "nice" := by
    decide
  have other : ¬ "proc" = "nice" := by
    decide
  simp [insertMember, behind, other, Group.toValue]

/-- The loop keeps the groups as objects of the map it prints. -/
theorem dumpStep_render (groups : SortedMap String Group) (entry : String × Value) :
    dumpStep (render groups) entry = render (gatherStep groups entry) := by
  cases isGroup : autogroupOf entry.2 with
  | none => simp [dumpStep, gatherStep, keyOf, isGroup]
  | some autogroup =>
      have isKey : keyOf entry = some (groupNum autogroup) := by
        simp [keyOf, isGroup]
      have isStart : Group.start entry = ⟨niceOf autogroup, []⟩ := by
        simp [Group.start, isGroup]
      -- The groups with that of the entry among them, and what is under its key.
      obtain ⟨opened, isOpened, group, found, known, others⟩ :
          ∃ opened : SortedMap String Group,
            (if ((render groups).lookup (groupNum autogroup)).isSome then render groups
              else insertMember (groupNum autogroup) (.object (insertMember "proc" (.object [])
                (insertMember "nice" (niceOf autogroup) []))) (render groups)) = render opened ∧
            ∃ group, opened.lookup (groupNum autogroup) = some group ∧
              group = (groups.lookup (groupNum autogroup)).getD (.start entry) ∧
              ∀ other, other ≠ groupNum autogroup → opened.lookup other = groups.lookup other := by
        rw [lookup_render, Option.isSome_map]
        cases held : groups.lookup (groupNum autogroup) with
        | some group => exact ⟨groups, rfl, group, held, rfl, fun _ _ => rfl⟩
        | none =>
            refine ⟨groups.update (groupNum autogroup) fun _ => .start entry, ?_, .start entry,
              groups.lookup_update_self _ _, rfl, fun _ different =>
                groups.lookup_update_ne different _⟩
            rw [render_update, isStart, start_toValue]
            rfl
      have rendered : dumpStep (render groups) entry =
          render (opened.update (groupNum autogroup) fun _ => group.add entry) := by
        unfold dumpStep
        rw [isGroup]
        dsimp only
        rw [isOpened, lookup_render, found, render_update, ← add_toValue]
        rfl
      rw [rendered]
      apply congrArg render
      apply SortedMap.ext_lookup
      intro other
      rw [gathers_gatherStep.lookup_step, isKey, SortedMap.lookup_update]
      by_cases same : other = groupNum autogroup
      · rw [if_pos same, if_pos (congrArg some same.symm), known, same]
      · rw [if_neg same, if_neg fun equal => same (Option.some.inj equal).symm, others other same]

theorem dumpAutogroup_eq (infos : Members) : dumpAutogroup infos = render (gather infos) := by
  have rendered : ∀ groups : SortedMap String Group,
      infos.foldl dumpStep (render groups) = render (infos.foldl gatherStep groups) := by
    induction infos with
    | nil => exact fun _ => rfl
    | cons entry rest inductionHypothesis =>
        intro groups
        rw [List.foldl_cons, List.foldl_cons, dumpStep_render, inductionHypothesis]
  exact rendered .empty

/-! ## What is in a group -/

theorem foldl_add (entries : Members) : ∀ group : Group, entries.foldl Group.add group =
    ⟨group.nice, (entries.map stripped).foldl
      (fun held extra => insertMember extra.1 extra.2 held) group.proc⟩ := by
  induction entries with
  | nil => exact fun _ => rfl
  | cons entry rest inductionHypothesis =>
      intro group
      exact inductionHypothesis (group.add entry)

theorem ascending_stripped {entries : Members} (ascending : Ascending entries) :
    Ascending (entries.map stripped) := by
  unfold Ascending at ascending ⊢
  rw [List.map_map]
  exact ascending

/-- A group has the entries that belong to it, in order, and the nice value of the first. -/
theorem lookup_gather {infos : Members} (ascending : Ascending infos) (key : String) :
    (gather infos).lookup key =
      match infos.filter fun entry => keyOf entry = some key with
      | [] => none
      | first :: rest =>
          some ⟨niceOf ((autogroupOf first.2).getD []), (first :: rest).map stripped⟩ := by
  unfold gather
  rw [gathers_gatherStep.lookup_foldl]
  have inOrder : Ascending (infos.filter fun entry => keyOf entry = some key) :=
    ascending.filter _
  cases found : infos.filter fun entry => keyOf entry = some key with
  | nil => rfl
  | cons first rest =>
      rw [found] at inOrder
      dsimp only
      rw [foldl_add, show (SortedMap.empty : SortedMap String Group).lookup key = none from rfl,
        Option.getD_none]
      rw [show (Group.start first).proc = [] from rfl,
        insertMembers_of_perm (ascending_stripped inOrder) (.refl _)]
      rfl

/-- A group that is there has a first entry. -/
theorem of_lookup_gather {infos : Members} (ascending : Ascending infos) {key : String}
    {group : Group} (isGroup : (gather infos).lookup key = some group) :
    ∃ first rest, (infos.filter fun entry => keyOf entry = some key) = first :: rest ∧
      group = ⟨niceOf ((autogroupOf first.2).getD []), (first :: rest).map stripped⟩ := by
  rw [lookup_gather ascending] at isGroup
  cases found : infos.filter fun entry => keyOf entry = some key with
  | nil =>
      rw [found] at isGroup
      exact absurd isGroup (by simp)
  | cons first rest =>
      rw [found] at isGroup
      exact ⟨first, rest, rfl, (Option.some.inj isGroup).symm⟩

theorem ascending_proc {infos : Members} (ascending : Ascending infos) {key : String}
    {group : Group} (isGroup : (gather infos).lookup key = some group) : Ascending group.proc := by
  obtain ⟨first, rest, found, rfl⟩ := of_lookup_gather ascending isGroup
  have filtered : Ascending (infos.filter fun entry => keyOf entry = some key) :=
    ascending.filter _
  rw [found] at filtered
  exact ascending_stripped filtered

theorem mem_gather_iff {infos : Members} (ascending : Ascending infos) (key : String)
    (task : String × Value) :
    (∃ group, (gather infos).lookup key = some group ∧ task ∈ group.proc) ↔
      ∃ entry ∈ infos, keyOf entry = some key ∧ stripped entry = task := by
  constructor
  · intro ⟨group, isGroup, inGroup⟩
    obtain ⟨first, rest, found, rfl⟩ := of_lookup_gather ascending isGroup
    obtain ⟨entry, inFiltered, isTask⟩ := List.mem_map.mp inGroup
    rw [← found, List.mem_filter] at inFiltered
    exact ⟨entry, inFiltered.1, of_decide_eq_true inFiltered.2, isTask⟩
  · intro ⟨entry, inInfos, isKey, isTask⟩
    have inFiltered : entry ∈ infos.filter fun entry => keyOf entry = some key :=
      List.mem_filter.mpr ⟨inInfos, decide_eq_true isKey⟩
    rw [lookup_gather ascending]
    cases found : infos.filter fun entry => keyOf entry = some key with
    | nil =>
        rw [found] at inFiltered
        exact absurd inFiltered List.not_mem_nil
    | cons first rest =>
        rw [found] at inFiltered
        exact ⟨_, rfl, List.mem_map.mpr ⟨entry, inFiltered, isTask⟩⟩

/-- An entry with its group, if it has one. -/
def placed (entry : String × Value) : Option (String × String × Value) :=
  (keyOf entry).map fun key => (key, stripped entry)

theorem map_placed_sublist (infos : Members) :
    ((infos.filterMap placed).map fun task => task.2.1).Sublist (infos.map Prod.fst) := by
  induction infos with
  | nil => exact .slnil
  | cons entry rest inductionHypothesis =>
      cases isKey : keyOf entry with
      | none =>
          rw [List.filterMap_cons_none (by simp [placed, isKey])]
          exact inductionHypothesis.cons _
      | some key =>
          have isPlaced : placed entry = some (key, stripped entry) := by
            simp [placed, isKey]
          rw [List.filterMap_cons_some isPlaced]
          exact inductionHypothesis.cons_cons _

/-- The entries of all groups are the entries that have one, each of them once. -/
theorem perm_placed {infos : Members} (ascending : Ascending infos) :
    ((gather infos).entries.flatMap fun group => group.2.proc.map fun task => (group.1, task)).Perm
      (infos.filterMap placed) := by
  have inGroups : ∀ group ∈ (gather infos).entries,
      (gather infos).lookup group.1 = some group.2 := by
    intro group listed
    exact ((gather infos).mem_entries_iff group.1 group.2).mp listed
  refine (List.perm_ext_iff_of_nodup ?_ ?_).mpr ?_
  · rw [List.nodup_flatMap]
    constructor
    · intro group listed
      have inOrder := ascending_proc ascending (inGroups group listed)
      exact (List.Nodup.of_map _ inOrder.nodup).map fun _ _ same => (Prod.mk.inj same).2
    · refine (List.pairwise_map.mp (gather infos).ascending).imp fun before => ?_
      intro task inFirst inSecond
      obtain ⟨_, _, first⟩ := List.mem_map.mp inFirst
      obtain ⟨_, _, second⟩ := List.mem_map.mp inSecond
      exact before.ne (Prod.mk.inj (first.trans second.symm)).1
  · exact List.Nodup.of_map _ ((map_placed_sublist infos).nodup ascending.nodup)
  · intro task
    obtain ⟨key, task⟩ := task
    rw [List.mem_flatMap, List.mem_filterMap]
    constructor
    · intro ⟨group, listed, inGroup⟩
      obtain ⟨other, inProc, isTask⟩ := List.mem_map.mp inGroup
      obtain ⟨isKey, rfl⟩ := Prod.mk.inj isTask
      obtain ⟨entry, inInfos, hasKey, isEntry⟩ :=
        (mem_gather_iff ascending group.1 other).mp ⟨group.2, inGroups group listed, inProc⟩
      refine ⟨entry, inInfos, ?_⟩
      rw [placed, hasKey, ← isEntry, ← isKey]
      rfl
    · intro ⟨entry, inInfos, isPlaced⟩
      obtain ⟨found, hasKey, same⟩ := Option.map_eq_some_iff.mp isPlaced
      obtain ⟨rfl, rfl⟩ := Prod.mk.inj same
      obtain ⟨group, isGroup, inProc⟩ :=
        (mem_gather_iff ascending found (stripped entry)).mpr ⟨entry, inInfos, hasKey, rfl⟩
      exact ⟨(found, group), ((gather infos).mem_entries_iff found group).mpr isGroup,
        List.mem_map_of_mem inProc⟩

/-! ## The dump and the processes -/

/-- What a dump lists, each process beside the group it is listed under. -/
def tasksOf (entry : String × Value) : List (String × String × Value) :=
  ((entry.2.get "proc").map Value.members).getD [] |>.map fun task => (entry.1, task)

theorem get_proc (group : Group) : group.toValue.get "proc" = some (.object group.proc) := by
  have other : ("proc" == "nice") = false := by
    decide
  simp [Value.get, Group.toValue, Value.members, List.lookup_cons, other]

theorem get_nice (group : Group) : group.toValue.get "nice" = some group.nice := rfl

theorem tasksOf_render (key : String) (group : Group) :
    tasksOf (key, group.toValue) = group.proc.map fun task => (key, task) := by
  unfold tasksOf
  dsimp only
  rw [get_proc]
  rfl

theorem flatMap_render (groups : SortedMap String Group) :
    (render groups).flatMap tasksOf =
      groups.entries.flatMap fun group => group.2.proc.map fun task => (group.1, task) := by
  rw [render, List.flatMap_map]
  apply List.flatMap_congr
  intro group _
  exact tasksOf_render group.1 group.2

/-- `dump autogroup` is `dump proc` by groups. A group is there if some process is in it, with
the nice value of the first of them and all of them in order; and over all groups, the
processes that have one are listed, each of them once. -/
theorem dumpAutogroup_regroups {infos : Members} (ascending : Ascending infos) :
    Ascending (dumpAutogroup infos) ∧
    (∀ key, (dumpAutogroup infos).lookup key =
      match infos.filter fun entry => keyOf entry = some key with
      | [] => none
      | first :: rest => some (.object
          [("nice", niceOf ((autogroupOf first.2).getD [])),
            ("proc", .object ((first :: rest).map stripped))])) ∧
    ((dumpAutogroup infos).flatMap tasksOf).Perm (infos.filterMap placed) := by
  rw [dumpAutogroup_eq]
  refine ⟨?_, ?_, ?_⟩
  · unfold Ascending render
    rw [List.map_map]
    exact (gather infos).ascending
  · intro key
    rw [lookup_render, lookup_gather ascending]
    cases infos.filter fun entry => keyOf entry = some key <;> rfl
  · rw [flatMap_render]
    exact perm_placed ascending

/-! ## Reading the dump back -/

/-- The process of an entry, with the autogroup the entry is of. -/
def putBack (entry : String × Value) : Members :=
  (tasksOf entry).map fun task =>
    (task.2.1, .object (insertMember "autogroup"
      (.object [("group", ofI32 ((Text.parseI32 entry.1).getD 0)),
        ("nice", (entry.2.get "nice").getD .null)]) task.2.2.members))

/-- What `dump proc` says of the processes that `dump autogroup` lists. -/
def readBack (dumped : Members) : Members :=
  (dumped.flatMap putBack).foldl (fun held extra => insertMember extra.1 extra.2 held) []

theorem groupNum_value (group nice : Int32) :
    groupNum (autogroupValue group nice) = toString group.toInt := by
  have least := group.le_toInt
  have most := group.toInt_lt
  have read := Number.toInt_asI64 (Number.holds_ofI32 group)
  rw [if_pos (by omega)] at read
  obtain ⟨value, isValue, same⟩ := Option.map_eq_some_iff.mp read
  have found : ((autogroupValue group nice).lookup "group").bind asI64 = some value := isValue
  rw [groupNum, found, ← same]
  rfl

/-- A value as `dump proc` lists it, if it is of an autogroup whose nice value is known. -/
structure Reported (nice : Int32 → Int32) (value : Value) : Prop where
  isObject : ∃ members, value = .object members
  ascending : Ascending value.members
  ofGroup : ∀ autogroup, autogroupOf value = some autogroup →
    ∃ group, autogroup = autogroupValue group (nice group)

/-- The process of an entry below a group, by what is known of the group. -/
def restored (nice : Int32 → Int32) (task : String × String × Value) : String × Value :=
  let group := (Text.parseI32 task.1).getD 0
  (task.2.1, .object (insertMember "autogroup" (.object (autogroupValue group (nice group)))
    task.2.2.members))

theorem restored_placed {nice : Int32 → Int32} {entry : String × Value}
    (reported : Reported nice entry.2) :
    (placed entry).map (restored nice) = if (keyOf entry).isSome then some entry else none := by
  cases isGroup : autogroupOf entry.2 with
  | none => simp [placed, keyOf, isGroup]
  | some autogroup =>
      obtain ⟨group, rfl⟩ := reported.ofGroup autogroup isGroup
      obtain ⟨members, isObject⟩ := reported.isObject
      obtain ⟨name, value⟩ := entry
      subst isObject
      have inOrder : Ascending members := reported.ascending
      have found : members.lookup "autogroup" =
          some (.object (autogroupValue group (nice group))) := by
        unfold autogroupOf at isGroup
        dsimp only at isGroup
        split at isGroup
        next isAutogroup =>
          rw [isAutogroup, Option.some.inj isGroup]
        next => exact absurd isGroup (by simp)
      have isKey : keyOf (name, Value.object members) = some (toString group.toInt) := by
        simp [keyOf, isGroup, groupNum_value]
      rw [placed, isKey, Option.map_some, Option.map_some, Option.isSome_some, if_pos rfl]
      apply congrArg some
      show (name, Value.object (insertMember "autogroup" _ (removeMember "autogroup" members))) = _
      dsimp only
      rw [Text.parseI32_toString, Option.getD_some, insertMember_removeMember inOrder found]

/-- The nice value of a group is that of its processes. -/
theorem nice_gather {nice : Int32 → Int32} {infos : Members} (ascending : Ascending infos)
    (reported : ∀ entry ∈ infos, Reported nice entry.2) {key : String} {group : Group}
    (isGroup : (gather infos).lookup key = some group) :
    group.nice = ofI32 (nice ((Text.parseI32 key).getD 0)) := by
  obtain ⟨first, rest, found, rfl⟩ := of_lookup_gather ascending isGroup
  have listed : first ∈ infos.filter fun entry => keyOf entry = some key := by
    rw [found]
    exact List.mem_cons_self
  obtain ⟨inInfos, hasKey⟩ := List.mem_filter.mp listed
  obtain ⟨autogroup, isAutogroup, isKey⟩ :=
    Option.map_eq_some_iff.mp (of_decide_eq_true hasKey)
  obtain ⟨number, rfl⟩ := (reported first inInfos).ofGroup autogroup isAutogroup
  rw [groupNum_value] at isKey
  rw [← isKey, Text.parseI32_toString]
  dsimp only
  rw [isAutogroup]
  rfl

theorem putBack_render {nice : Int32 → Int32} {infos : Members} (ascending : Ascending infos)
    (reported : ∀ entry ∈ infos, Reported nice entry.2) :
    (render (gather infos)).flatMap putBack =
      ((gather infos).entries.flatMap fun group =>
        group.2.proc.map fun task => (group.1, task)).map (restored nice) := by
  rw [render, List.flatMap_map, List.map_flatMap]
  apply List.flatMap_congr
  intro group listed
  have isGroup := ((gather infos).mem_entries_iff group.1 group.2).mp listed
  unfold putBack
  rw [tasksOf_render, get_nice, nice_gather ascending reported isGroup, List.map_map, List.map_map]
  apply List.map_congr_left
  intro task _
  simp only [Function.comp_apply, restored, autogroupValue, ofI32, Option.getD_some]

theorem filterMap_restored {nice : Int32 → Int32} {infos : Members}
    (reported : ∀ entry ∈ infos, Reported nice entry.2) :
    (infos.filterMap placed).map (restored nice) =
      infos.filter fun entry => (keyOf entry).isSome := by
  induction infos with
  | nil => rfl
  | cons entry rest inductionHypothesis =>
      have head := restored_placed (reported entry List.mem_cons_self)
      have tail := inductionHypothesis fun other member =>
        reported other (List.mem_cons_of_mem entry member)
      rw [List.map_filterMap] at tail ⊢
      rw [List.filterMap_cons, List.filter_cons, head, tail]
      by_cases grouped : (keyOf entry).isSome = true
      · rw [if_pos grouped, if_pos grouped]
      · rw [if_neg grouped, if_neg grouped]

theorem readBack_of_reported {nice : Int32 → Int32} {infos : Members}
    (ascending : Ascending infos) (reported : ∀ entry ∈ infos, Reported nice entry.2) :
    readBack (dumpAutogroup infos) = infos.filter fun entry => (keyOf entry).isSome := by
  apply insertMembers_of_perm (ascending.filter _)
  rw [dumpAutogroup_eq, putBack_render ascending reported, ← filterMap_restored reported]
  exact (perm_placed ascending).map _

/-! ## The processes of `dump proc` -/

theorem getAutogroupFromStr_some {text : String} {autogroup : Members}
    (read : getAutogroupFromStr text = some autogroup) :
    ∃ group nice, autogroup = autogroupValue group nice := by
  unfold getAutogroupFromStr at read
  dsimp only at read
  split at read
  · split at read
    · split at read
      · split at read
        next group nice _ _ => exact ⟨group, nice, (Option.some.inj read).symm⟩
        next => exact absurd read (by simp)
      · exact absurd read (by simp)
    · exact absurd read (by simp)
  · exact absurd read (by simp)

/-- `/proc/<pid>/autogroup`. -/
def autogroupContent (group nice : Int32) : String :=
  "/autogroup-" ++ toString group.toInt ++ " nice " ++ toString nice.toInt ++ "\n"

theorem solid_toString (n : Int) : (toString n).toList ≠ [] ∧
    ∀ c ∈ (toString n).toList, Text.isWhitespace c = false := by
  have digits (m : Nat) : Nat.toDigits 10 m ≠ [] ∧
      ∀ c ∈ Nat.toDigits 10 m, Text.isWhitespace c = false := by
    constructor
    · intro empty
      obtain ⟨first, rest, isDigits, -⟩ := Text.head_toDigits m
      simp [isDigits] at empty
    · intro c member
      exact Text.isWhitespace_of_digit (Text.digit_of_mem_toDigits member)
  cases n with
  | ofNat m =>
      rw [show (toString (Int.ofNat m)).toList = Nat.toDigits 10 m from String.toList_ofList]
      exact digits m
  | negSucc m =>
      have printed : (toString (Int.negSucc m)).toList = '-' :: Nat.toDigits 10 (m + 1) := by
        show ("-" ++ String.ofList (Nat.toDigits 10 (m + 1))).toList = _
        rw [String.toList_append, String.toList_ofList, String.toList_ofList]
        rfl
      rw [printed]
      constructor
      · simp
      · intro c member
        rcases List.mem_cons.mp member with rfl | later
        · decide
        · exact (digits (m + 1)).2 c later

theorem solid_autogroupPrefix : ∀ c ∈ autogroupPrefix, Text.isWhitespace c = false := by
  intro c member
  have noBlank : autogroupPrefix.any Text.isWhitespace = false := by decide +kernel
  exact eq_false_of_ne_true (List.any_eq_false.mp noBlank c member)

theorem solid_nice : "nice".toList ≠ [] ∧ ∀ c ∈ "nice".toList, Text.isWhitespace c = false := by
  constructor
  · decide +kernel
  · intro c member
    have noBlank : "nice".toList.any Text.isWhitespace = false := by decide +kernel
    exact eq_false_of_ne_true (List.any_eq_false.mp noBlank c member)

theorem head_autogroupPrefix : ∃ rest, autogroupPrefix = '/' :: rest :=
  ⟨"autogroup-".toList, by decide +kernel⟩

theorem toList_line {start group blanks nice line : String} {word : List Char}
    (isBlanks : blanks.toList = ' ' :: (word ++ [' '])) (isLine : line.toList = ['\n']) :
    (start ++ group ++ blanks ++ nice ++ line).toList =
      ((start.toList ++ group.toList) ++ ' ' :: (word ++ ' ' :: nice.toList)) ++ ['\n'] := by
  simp [isBlanks, isLine]

section Line

variable {groupChars niceChars : List Char}
  (groupSolid : ∀ c ∈ groupChars, Text.isWhitespace c = false)
  (niceNonempty : niceChars ≠ []) (niceSolid : ∀ c ∈ niceChars, Text.isWhitespace c = false)

include niceNonempty niceSolid in
/-- Only the end of the line is trimmed. -/
theorem trimChars_line :
    Text.trimChars (((autogroupPrefix ++ groupChars) ++
        ' ' :: ("nice".toList ++ ' ' :: niceChars)) ++ ['\n']) =
      (autogroupPrefix ++ groupChars) ++ ' ' :: ("nice".toList ++ ' ' :: niceChars) := by
  obtain ⟨rest, isPrefix⟩ := head_autogroupPrefix
  rw [Text.trimChars_concat_blank (by decide)]
  apply Text.trimChars_of_ends
  · intro c isFirst
    rw [isPrefix, List.cons_append, List.cons_append, List.head?_cons] at isFirst
    rw [← Option.some.inj isFirst]
    decide
  · intro c isLast
    apply niceSolid
    apply List.mem_of_getLast?
    rw [← isLast, List.getLast?_append, List.getLast?_cons, List.getLast?_append,
      List.getLast?_cons]
    cases last : niceChars.getLast? with
    | none => exact absurd (List.getLast?_eq_none_iff.mp last) niceNonempty
    | some c => rfl

include groupSolid niceNonempty niceSolid in
theorem splitWhitespaceChars_line :
    Text.splitWhitespaceChars
        ((autogroupPrefix ++ groupChars) ++ ' ' :: ("nice".toList ++ ' ' :: niceChars)) =
      [autogroupPrefix ++ groupChars, "nice".toList, niceChars] := by
  have nonempty : autogroupPrefix ++ groupChars ≠ [] := by
    obtain ⟨rest, isPrefix⟩ := head_autogroupPrefix
    rw [isPrefix]
    simp
  have firstSolid : ∀ c ∈ autogroupPrefix ++ groupChars, Text.isWhitespace c = false := by
    intro c member
    rcases List.mem_append.mp member with inPrefix | inGroup
    · exact solid_autogroupPrefix c inPrefix
    · exact groupSolid c inGroup
  rw [Text.splitWhitespaceChars_word (by decide) _ _ nonempty firstSolid,
    Text.splitWhitespaceChars_word (by decide) _ "nice".toList solid_nice.1 solid_nice.2,
    Text.splitWhitespaceChars_last niceChars niceNonempty niceSolid]

end Line

/-- What the kernel prints of an autogroup is read back. -/
theorem getAutogroupFromStr_content (group nice : Int32) :
    getAutogroupFromStr (autogroupContent group nice) = some (autogroupValue group nice) := by
  obtain ⟨-, groupSolid⟩ := solid_toString group.toInt
  obtain ⟨niceNonempty, niceSolid⟩ := solid_toString nice.toInt
  have readGroup : Text.parseI32Chars (toString group.toInt).toList = some group :=
    Text.parseI32_toString group
  have readNice : Text.parseI32Chars (toString nice.toInt).toList = some nice :=
    Text.parseI32_toString nice
  have parts : (autogroupContent group nice).toList =
      ((autogroupPrefix ++ (toString group.toInt).toList) ++
        ' ' :: ("nice".toList ++ ' ' :: (toString nice.toInt).toList)) ++ ['\n'] :=
    toList_line (by decide +kernel) (by decide +kernel)
  generalize (toString group.toInt).toList = groupChars at groupSolid readGroup parts
  generalize (toString nice.toInt).toList = niceChars at niceNonempty niceSolid readNice parts
  have starts : autogroupPrefix.isPrefixOf
      ((autogroupPrefix ++ groupChars) ++ ' ' :: ("nice".toList ++ ' ' :: niceChars)) = true := by
    rw [List.isPrefixOf_iff_prefix, List.append_assoc]
    exact List.prefix_append _ _
  unfold getAutogroupFromStr
  dsimp only
  rw [parts, trimChars_line niceNonempty niceSolid, if_pos starts,
    splitWhitespaceChars_line groupSolid niceNonempty niceSolid]
  dsimp only
  rw [if_pos rfl, List.drop_left, readGroup, readNice]

theorem autogroupOf_members (info : ProcessInfo) :
    autogroupOf (.object info.members) = info.autogroup := by
  unfold autogroupOf ProcessInfo.members
  cases info.autogroup <;> rfl

theorem ascending_members (info : ProcessInfo) : Ascending info.members := by
  have inOrder : ∀ rule : List String, rule = [] ∨ rule = ["rule"] →
      (["autogroup", "cmd", "cmdline", "comm", "exe", "ionice", "latency_nice", "nice",
        "oom_score_adj", "pid", "rtprio"] ++ rule ++
          ["sched", "stat", "stat_name", "tpid"]).Pairwise (· < ·) := by
    intro rule isRule
    rcases isRule with rfl | rfl <;> decide
  cases isRule : info.rule with
  | none => simpa [Ascending, ProcessInfo.members, isRule] using inOrder [] (.inl rfl)
  | some rule => simpa [Ascending, ProcessInfo.members, isRule] using inOrder ["rule"] (.inr rfl)

theorem processInfoMap_spec (infos : List ProcessInfo) :
    Ascending (processInfoMap infos) ∧
    ∀ entry ∈ processInfoMap infos, ∃ info ∈ infos,
      entry = (toString info.tpid.toInt, .object info.members) := by
  have step : ∀ (rest : List ProcessInfo) (held : Members), Ascending held →
      (∀ entry ∈ held, ∃ info ∈ infos, entry = (toString info.tpid.toInt, .object info.members)) →
      (∀ info ∈ rest, info ∈ infos) →
      let filled := rest.foldl (fun held info =>
        insertMember (toString info.tpid.toInt) (.object info.members) held) held
      Ascending filled ∧ ∀ entry ∈ filled, ∃ info ∈ infos,
        entry = (toString info.tpid.toInt, .object info.members) := by
    intro rest
    induction rest with
    | nil => exact fun held ascending known _ => ⟨ascending, known⟩
    | cons info rest inductionHypothesis =>
        intro held ascending known listed
        apply inductionHypothesis
        · exact ascending.insert _ _
        · intro entry member
          rcases mem_insertMember member with isInfo | old
          · exact ⟨info, listed info List.mem_cons_self, isInfo⟩
          · exact known entry old
        · intro other member
          exact listed other (List.mem_cons_of_mem info member)
  exact step infos [] ascending_nil (by simp) fun _ => id

/-- As long as the processes of an autogroup agree on its nice value, what `dump proc` says of
all processes that have one is read back from `dump autogroup`, whatever else is said of them
and in whatever order they were scanned. -/
theorem readBack_dumpAutogroup (nice : Int32 → Int32) (infos : List ProcessInfo)
    (oneNice : ∀ info ∈ infos, ∀ group value,
      info.autogroup = some (autogroupValue group value) → value = nice group) :
    readBack (dumpAutogroup (processInfoMap infos)) =
      (processInfoMap infos).filter fun entry => (keyOf entry).isSome := by
  obtain ⟨ascending, known⟩ := processInfoMap_spec infos
  apply @readBack_of_reported nice _ ascending
  intro entry member
  obtain ⟨info, inInfos, rfl⟩ := known entry member
  constructor
  · exact ⟨info.members, rfl⟩
  · exact ascending_members info
  · intro autogroup isAutogroup
    rw [autogroupOf_members] at isAutogroup
    obtain ⟨group, value, rfl⟩ := getAutogroupFromStr_some isAutogroup
    refine ⟨group, ?_⟩
    rw [oneNice info inInfos group value isAutogroup]

/-- A thread of which nothing but its autogroup is told. -/
def thread (pid tpid : Int32) (autogroupText : String) : ProcessInfo where
  pid := pid
  tpid := tpid
  exe := none
  comm := "a"
  cmd := "a"
  stat := ""
  statName := ""
  autogroupText := autogroupText
  sched := "normal"
  rtprio := 0
  nice := 0
  latencyNice := 0
  ionice := .array [.string "none", .null]
  oomScoreAdj := 0
  cmdline := ["a"]
  rule := none

/-- Two threads of one autogroup, one of another, and one of none. -/
def threads : List ProcessInfo :=
  [thread 7 7 (autogroupContent 3 7), thread 7 8 (autogroupContent 3 7),
    thread 20 20 (autogroupContent 12 (-3)), thread 2 2 ""]

theorem autogroupValue_inj {group other nice otherNice : Int32}
    (same : autogroupValue group nice = autogroupValue other otherNice) :
    group = other ∧ nice = otherNice := by
  have inj : ∀ {left right : Int32}, Number.ofI32 left = Number.ofI32 right → left = right := by
    intro left right sameNumber
    have isLeft := Number.toInt_asI64 (Number.holds_ofI32 left)
    have isRight := Number.toInt_asI64 (Number.holds_ofI32 right)
    have leftLeast := left.le_toInt
    have leftMost := left.toInt_lt
    have rightLeast := right.le_toInt
    have rightMost := right.toInt_lt
    rw [sameNumber, isRight, if_pos (by omega), if_pos (by omega)] at isLeft
    exact (Int32.toInt_inj.mp (Option.some.inj isLeft)).symm
  simp only [autogroupValue, List.cons.injEq, Prod.mk.injEq, Value.number.injEq, true_and,
    and_true] at same
  exact ⟨inj same.1, inj same.2⟩

theorem autogroup_of_content {info : ProcessInfo} {group nice other value : Int32}
    (isContent : info.autogroupText = autogroupContent group nice)
    (isGroup : info.autogroup = some (autogroupValue other value)) :
    other = group ∧ value = nice := by
  rw [ProcessInfo.autogroup, isContent, getAutogroupFromStr_content] at isGroup
  exact autogroupValue_inj (Option.some.inj isGroup).symm

theorem readBack_dumpAutogroup_threads :
    readBack (dumpAutogroup (processInfoMap threads)) =
      (processInfoMap threads).filter fun entry => (keyOf entry).isSome := by
  apply readBack_dumpAutogroup fun group => if group = 3 then 7 else -3
  intro info member group value isGroup
  simp only [threads, List.mem_cons, List.not_mem_nil, or_false] at member
  rcases member with rfl | rfl | rfl | rfl
  · obtain ⟨rfl, rfl⟩ := autogroup_of_content rfl isGroup
    rfl
  · obtain ⟨rfl, rfl⟩ := autogroup_of_content rfl isGroup
    rfl
  · obtain ⟨rfl, rfl⟩ := autogroup_of_content rfl isGroup
    rfl
  · have none : (thread 2 2 "").autogroup = none := by
      decide +kernel
    rw [none] at isGroup
    exact absurd isGroup (by simp)

theorem dumpAutogroup_regroups_threads :
    Ascending (dumpAutogroup (processInfoMap threads)) ∧
      ((dumpAutogroup (processInfoMap threads)).flatMap tasksOf).Perm
        ((processInfoMap threads).filterMap placed) := by
  have regrouped := dumpAutogroup_regroups (processInfoMap_spec threads).1
  exact ⟨regrouped.1, regrouped.2.2⟩

end AnanicyRs.Daemon.Autogroup
