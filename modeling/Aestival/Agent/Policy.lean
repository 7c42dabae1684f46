import Aestival.Library.Bytes
import Mathlib.Data.Int.Init

/-!
# The policy engine: rate limit and output filter

The parts of `policy_engine` that are computed in one piece: the critical section that limits the
messages of an actor (`rateLimit`), and the filter every reply of a model passes (`filterOutput`).
The token budget is kept in atomic variables and is modelled with the turns that use it.
-/

namespace Aestival

open Bytes

/-- The fields of `policy_engine::config` that are read. A budget of `0` is no limit. -/
structure PolicyConfig where
  maxMessagesPerMinute : Int32 := 10
  dailyTokenBudget : Int64 := 0
  deriving DecidableEq, Repr

def kRateWindowSeconds : Int := 60
def kRateGcThreshold : Nat := 1000
def kRateGcStaleSeconds : Int := 120

/-- The nanoseconds of a second. The steady clock counts nanoseconds. -/
def nanosPerSecond : Int := 1000000000

/-! ### The rate limit -/

/-- `rate_state`. A new entry has the epoch of the clock as the start of its window. -/
structure RateState where
  windowStart : Int := 0
  count : Int32 := 0
  deriving DecidableEq, Repr

/-- `rate_limits_`: the state of each actor, each actor once. -/
abbrev RateTable := List (Bytes × RateState)

/-- Overwrite the state of an actor. -/
def RateTable.set (table : RateTable) (actor : Bytes) (state : RateState) : RateTable :=
  if actor ∈ table.map Prod.fst then
    table.map fun p => if p.1 = actor then (actor, state) else p
  else table ++ [(actor, state)]

/-- Erase the stale entries of a table that has grown too large. -/
def RateTable.collect (table : RateTable) (now : Int) : RateTable :=
  if table.length > kRateGcThreshold then
    let old := now - kRateGcStaleSeconds * nanosPerSecond
    table.filter fun p => ¬ p.2.windowStart < old
  else table

/-- The critical section of `check_llm_call` at the time `now`: the table it leaves, and whether
the actor may go on. A refused actor has been counted. -/
def rateLimit (maxMessagesPerMinute : Int32) (table : RateTable) (actor : Bytes) (now : Int) :
    RateTable × Bool :=
  let state := (table.lookup actor).getD {}
  let elapsed := (now - state.windowStart).tdiv nanosPerSecond
  if elapsed ≥ kRateWindowSeconds ∨ elapsed < 0 then
    ((table.set actor { windowStart := now, count := 1 }).collect now, true)
  else
    let counted := table.set actor { state with count := state.count + 1 }
    if state.count + 1 > maxMessagesPerMinute then (counted, false) else (counted.collect now, true)

/-! ### The output filter -/

/-- The length of a marker `[SEARCH:…]` or `[FETCH:…]` at the start of `s`. It ends at the first
closing bracket; without one there is no marker. -/
def markerLength (s : Bytes) : Option Nat :=
  match [utf8 "[SEARCH:", utf8 "[FETCH:"].find? (·.isPrefixOf s) with
  | none => none
  | some tag =>
    let body := s.drop tag.length
    if 93 ∈ body then some (tag.length + body.idxOf 93 + 1) else none

/-- The tokens of a model's own markup. An output that holds one is blocked. -/
def systemTokens : List Bytes := [utf8 "<|im_start|>", utf8 "<|im_end|>", utf8 "<|system|>"]

/-- `filter_output`: strip the markers, then block what holds a system token. An empty result means
that the output is blocked. -/
def filterOutput (content : Bytes) : Bytes :=
  let s := eraseMatches markerLength 0 content
  if systemTokens.any (contains s) then [] else s

/-- A marker starts with an opening bracket. -/
theorem markerLength_eq_none {s : Bytes} (h : (91 : UInt8) ∉ s) : markerLength s = none := by
  have hbracket : ∀ tag ∈ [utf8 "[SEARCH:", utf8 "[FETCH:"], (91 : UInt8) ∈ tag := by decide
  have hnone : [utf8 "[SEARCH:", utf8 "[FETCH:"].find? (·.isPrefixOf s) = none := by
    rw [List.find?_eq_none]
    intro tag htag hprefix
    exact h ((List.isPrefixOf_iff_prefix.mp hprefix).subset (hbracket tag htag))
  rw [markerLength, hnone]

/-- An output without brackets and angles passes as it is. -/
theorem filterOutput_eq_self {s : Bytes} (hmarker : (91 : UInt8) ∉ s) (htoken : (60 : UInt8) ∉ s) :
    filterOutput s = s := by
  have herase : eraseMatches markerLength 0 s = s :=
    eraseMatches_eq_self fun t ht => markerLength_eq_none fun h => hmarker (ht.subset h)
  have hangle : ∀ token ∈ systemTokens, (60 : UInt8) ∈ token := by decide
  have hclean : systemTokens.any (contains s) = false := by
    rw [List.any_eq_false]
    intro token htok hcontains
    exact htoken ((of_decide_eq_true hcontains).subset (hangle token htok))
  rw [filterOutput, herase, hclean]
  rfl

end Aestival
