import AnanicyRs.Lib.NumberRanges

/-!
Contract: the CPU sets of `crates/ananicy-core/src/cpuset.rs`.

Owns `CpuSet`, whose mask has exactly one flag per CPU below its bound, its parser and
its printer. The other readers of CPU lists, in the platform crate, are not here.
-/

set_option autoImplicit false

namespace AnanicyRs.Core

open AnanicyRs.Lib

structure CpuSet where
  maxCores : Nat
  cores : List Bool
  sized : cores.length = maxCores
deriving DecidableEq, Repr

namespace CpuSet

def new (maxCores : Nat) : CpuSet := ⟨maxCores, List.replicate maxCores false, by simp⟩

def setCpu (set : CpuSet) (cpu : Nat) : CpuSet :=
  if cpu < set.maxCores then
    ⟨set.maxCores, set.cores.set cpu true, by rw [List.length_set, set.sized]⟩
  else set

def hasCpu (set : CpuSet) (cpu : Nat) : Bool := decide (cpu < set.maxCores) && set.cores.getD cpu false

def isEmpty (set : CpuSet) : Bool := !set.cores.any id

/-- `CpuSet::cores`, which `get_cores` collects. -/
def getCores (set : CpuSet) : List Nat :=
  set.cores.zipIdx.filterMap fun flag => if flag.1 then some flag.2 else none

/-- `for cpu in start..=end { cpuset.set_cpu(cpu) }`. -/
def setRange (set : CpuSet) (start stop : Nat) : CpuSet :=
  (List.range' start (stop + 1 - start)).foldl setCpu set

def addToken (maxCores : Nat) (token : List Char) (set : CpuSet) : Option CpuSet :=
  match Text.splitOnceChars '-' token with
  | some (startStr, endStr) =>
      (Text.parseU32Chars startStr).bind fun start =>
        (Text.parseU32Chars endStr).bind fun stop =>
          if stop < start ∨ maxCores ≤ stop then none else some (set.setRange start stop)
  | none =>
      (Text.parseU32Chars token).bind fun cpu =>
        if maxCores ≤ cpu then none else some (set.setCpu cpu)

/-- The token loop of `CpuSet::parse`; an empty token is allowed in the last place. -/
def addTokens (maxCores : Nat) : List (List Char) → CpuSet → Option CpuSet
  | [], set => some set
  | token :: rest, set =>
      let trimmed := Text.trimChars token
      if trimmed.isEmpty then
        if rest.isEmpty then some set else none
      else (addToken maxCores trimmed set).bind (addTokens maxCores rest)

def parse (s : String) (maxCores : Nat) : Option CpuSet :=
  let trimmed := Text.trimChars s.toList
  if trimmed.isEmpty then none
  else addTokens maxCores (trimmed.splitOn ',') (new maxCores)

/-- What the loop of `fmt` carries from one CPU to the next. -/
structure Printer where
  ranges : List String
  inRange : Bool
  rangeStart : Nat

def Printer.step (printer : Printer) (flag : Bool × Nat) : Printer :=
  if flag.1 && !printer.inRange then { printer with inRange := true, rangeStart := flag.2 }
  else if !flag.1 && printer.inRange then
    { printer with
      ranges := printer.ranges ++ [NumberRanges.rangeText printer.rangeStart (flag.2 - 1)]
      inRange := false }
  else printer

/-- `fmt`: a range that is still open after the last CPU ends there. -/
def toText (set : CpuSet) : String :=
  let printer := set.cores.zipIdx.foldl Printer.step ⟨[], false, 0⟩
  let ranges :=
    if printer.inRange then
      printer.ranges ++ [NumberRanges.rangeText printer.rangeStart (set.maxCores - 1)]
    else printer.ranges
  ",".intercalate ranges

end CpuSet

example : (CpuSet.parse " 0-1, 3," 4).map CpuSet.cores = some [true, true, false, true] := by
  decide

end AnanicyRs.Core
