import Aestival.Library.LastResults
import Aestival.Management.Registry
import Aestival.Platform.TokenRefresh

/-!
# The log endpoint

`management_api::handle_logs` reads the parameters `level` and `limit` of its target and answers
with the last lines of the log file that hold the level in brackets.

What it should answer is said by `AnswersLogs`: the last `level` and the last `limit` count, a level
is looked for as `log::write` writes it, and no number outgrows an `int`. `answersLogs_iff` is what
holds. The scanner pairs each `=` with the `&` behind it, so a parameter without `=` swallows the
one behind it; a level in lower case is looked for in lower case, and is never written so; the limit
is bounded from above only; and a line that is not UTF-8 cannot be answered.
-/

namespace Aestival

open Bytes

/-! ### The log -/

/-- `log::level`. -/
inductive LogLevel where
  | debug
  | info
  | warn
  | error
  deriving DecidableEq, Repr

/-- `magic_enum::enum_name`. -/
def LogLevel.enumName : LogLevel → Bytes
  | .debug => utf8 "debug"
  | .info => utf8 "info"
  | .warn => utf8 "warn"
  | .error => utf8 "error"

/-- `to_level_text`. -/
def toLevelText (level : LogLevel) : Bytes :=
  level.enumName.map fun ch => if 97 ≤ ch ∧ ch ≤ 122 then ch - 32 else ch

/-- A text in brackets. -/
def bracketed (s : Bytes) : Bytes := utf8 "[" ++ s ++ utf8 "]"

/-- The line of `log::write`, at some time and in some thread. -/
def logLine (timestamp tid : Bytes) (level : LogLevel) (message : Bytes) : Bytes :=
  bracketed timestamp ++ utf8 " " ++ bracketed (toLevelText level) ++ utf8 " [tid=" ++ tid ++
    utf8 "] " ++ message

/-- A line holds the level it was written with. -/
theorem tag_mem_logLine (timestamp tid message : Bytes) (level : LogLevel) :
    contains (logLine timestamp tid level message) (bracketed (toLevelText level)) = true := by
  rw [contains, decide_eq_true_iff, logLine, List.append_assoc, List.append_assoc,
    List.append_assoc]
  exact List.infix_append _ _ _

/-- The lines that `std::getline` reads. -/
def getlines (content : Bytes) : List Bytes :=
  let pieces := content.splitOn 10
  if pieces.getLast? = some [] then pieces.dropLast else pieces

/-! ### The query -/

/-- `level_filter` and `limit`. -/
structure LogQuery where
  levelFilter : Bytes := []
  limit : Int32 := 100
  deriving DecidableEq, Repr

/-- One pair of key and value. What `std::stoi` throws is ignored. -/
def LogQuery.set (q : LogQuery) (key val : Bytes) : LogQuery :=
  if key = utf8 "level" then { q with levelFilter := val }
  else if key = utf8 "limit" then
    match stoi val with
    | some n => { q with limit := .ofInt n }
    | none => q
  else q

/-- The loop of `handle_logs` over the query, from `pos` on. The key goes up to the next `=`, and
the value from there to the next `&`. -/
def scanQuery (q : LogQuery) (query : Bytes) : LogQuery :=
  match _h : query.dropWhile (· ≠ 61) with
  | [] => q
  | _ :: behind =>
    let q := q.set (query.takeWhile (· ≠ 61)) (behind.takeWhile (· ≠ 38))
    scanQuery q (behind.dropWhile (· ≠ 38)).tail
termination_by query.length
decreasing_by
  have hle := (List.dropWhile_suffix (l := query) (· ≠ 61)).length_le
  have hle' := (List.dropWhile_suffix (l := behind) (· ≠ 38)).length_le
  rw [_h, List.length_cons] at hle
  rw [List.length_tail]
  omega

/-- The query of a target. -/
def parseLogQuery (target : Bytes) : LogQuery :=
  match target.dropWhile (· ≠ 63) with
  | [] => {}
  | _ :: query => scanQuery {} query

/-! ### The handler -/

/-- The test of a line. -/
def matchesFilter (filter line : Bytes) : Bool :=
  filter = [] || contains line (bracketed filter)

/-- `read_log_lines`, of a file with this content. -/
def readLogLines (content filter : Bytes) (limit : Int32) : List Bytes :=
  let all := (getlines content).filter (matchesFilter filter)
  let size := Int32.ofNat all.length
  let start := if size - limit > 0 then size - limit else 0
  (all.take size.toInt.toNat).drop start.toInt.toNat

/-- `handle_logs`. Without a log file that can be opened there are no lines, and what is not UTF-8
cannot be dumped. -/
def handleLogs (logFile : Option Bytes) (target : Bytes) : Except Failure (List Bytes) :=
  let q := parseLogQuery target
  let limit := if q.limit > 1000 then 1000 else q.limit
  let lines := match logFile with
    | some content => readLogLines content q.levelFilter limit
    | none => []
  if lines.all validUtf8 then .ok lines else .error .notUtf8

/-! ### What should be answered -/

/-- The value of a parameter, if it has this key. -/
def valueOf (key param : Bytes) : Option Bytes :=
  match param.dropWhile (· ≠ 61) with
  | [] => none
  | _ :: val => if param.takeWhile (· ≠ 61) = key then some val else none

/-- The last of these parameters that is a level. -/
def lastLevel (params : List Bytes) : Bytes :=
  (params.filterMap (valueOf (utf8 "level"))).getLast?.getD []

/-- The last of these parameters that is a limit. -/
def lastLimit (params : List Bytes) : Int :=
  ((params.filterMap (valueOf (utf8 "limit"))).filterMap stoi).getLast?.getD 100

/-- The lines that are asked for with a level: those with its tag, in lower or upper case. What is
no level asks for no particular lines. -/
def wantedLines (level : Bytes) : Option (Bytes → Bool) :=
  if level = [] then some fun _ => true
  else ([.debug, .info, .warn, .error].find? fun l : LogLevel =>
    level = l.enumName ∨ level = toLevelText l).map
      fun l line => contains line (bracketed (toLevelText l))

/-- The number of lines that is asked for. -/
def wantedCount (params : List Bytes) : Nat := (max 0 (min (lastLimit params) 1000)).toNat

/-- The target of a query. -/
def logsTarget (query : Bytes) : Bytes := utf8 "/api/v1/logs?" ++ query

/-- The endpoint answers the query safely and exactly. -/
structure AnswersLogs (content query : Bytes) : Prop where
  level : (parseLogQuery (logsTarget query)).levelFilter = lastLevel (query.splitOn 38)
  limit : (parseLogQuery (logsTarget query)).limit.toInt = lastLimit (query.splitOn 38)
  /-- the number of lines fits an `int` -/
  size_fits : (((getlines content).filter
    (matchesFilter (parseLogQuery (logsTarget query)).levelFilter)).length : Int) ≤ 2147483647
  /-- and the difference with the limit -/
  start_fits : (((getlines content).filter
    (matchesFilter (parseLogQuery (logsTarget query)).levelFilter)).length : Int) -
      min (parseLogQuery (logsTarget query)).limit.toInt 1000 ≤ 2147483647
  lines : ∀ wanted, wantedLines (lastLevel (query.splitOn 38)) = some wanted →
    handleLogs (some content) (logsTarget query) =
      .ok (((getlines content).filter wanted).rtake (wantedCount (query.splitOn 38)))

/-! ### When it is -/

/-- The parameters that do not stand directly behind one without `=`. `behind` says that the first
one does. -/
def seenFrom (behind : Bool) : List Bytes → List Bytes
  | [] => []
  | p :: ps =>
    if (61 : UInt8) ∈ p then (if behind then seenFrom false ps else p :: seenFrom false ps)
    else seenFrom true ps

/-- The parameters the scanner takes for what they are. -/
def seenParams (query : Bytes) : List Bytes := seenFrom false (query.splitOn 38)

/-- The lines with this level in brackets, as it stands in the query. -/
def levelLines (content query : Bytes) : List Bytes :=
  (getlines content).filter (matchesFilter (lastLevel (query.splitOn 38)))

/-- The inputs on which the endpoint answers as it should. -/
structure PlainLogQuery (content query : Bytes) : Prop where
  level_seen : lastLevel (seenParams query) = lastLevel (query.splitOn 38)
  limit_seen : lastLimit (seenParams query) = lastLimit (query.splitOn 38)
  size_fits : ((levelLines content query).length : Int) ≤ 2147483647
  start_fits : ((levelLines content query).length : Int) - min (lastLimit (query.splitOn 38)) 1000 ≤
    2147483647
  /-- Of the lines with the level as it stands or as it is written, the last ones hold both. -/
  level_case : ∀ wanted, wantedLines (lastLevel (query.splitOn 38)) = some wanted →
    ∀ line ∈ ((getlines content).filter fun line =>
      matchesFilter (lastLevel (query.splitOn 38)) line || wanted line).rtake
        (wantedCount (query.splitOn 38)),
      matchesFilter (lastLevel (query.splitOn 38)) line = true ∧ wanted line = true
  valid : ∀ wanted, wantedLines (lastLevel (query.splitOn 38)) = some wanted →
    ∀ line ∈ ((getlines content).filter wanted).rtake (wantedCount (query.splitOn 38)),
      validUtf8 line = true

/-! ### The scanner -/

section Scanner

variable {q : LogQuery} {query key val param : Bytes} {ps qs : List Bytes}

/-- A parameter with `=` is set, one without is passed over. -/
def LogQuery.setParam (q : LogQuery) (param : Bytes) : LogQuery :=
  match param.dropWhile (· ≠ 61) with
  | [] => q
  | _ :: val => q.set (param.takeWhile (· ≠ 61)) val

/-- One turn of the loop. -/
theorem scanQuery_key (hkey : (61 : UInt8) ∉ key) (behind : Bytes) :
    scanQuery q (key ++ 61 :: behind) =
      scanQuery (q.set key (behind.takeWhile (· ≠ 38))) (behind.dropWhile (· ≠ 38)).tail := by
  rw [scanQuery]
  split
  next h =>
    rw [dropWhile_separator hkey] at h
    cases h
  next behind' h =>
    rw [dropWhile_separator hkey, List.cons.injEq] at h
    rw [← h.2, takeWhile_separator hkey]

/-- The rest of a query behind a value. -/
theorem scanQuery_pair (hkey : (61 : UInt8) ∉ key) (hval : (38 : UInt8) ∉ val) (rest : Bytes) :
    scanQuery q (key ++ 61 :: (val ++ 38 :: rest)) = scanQuery (q.set key val) rest := by
  rw [scanQuery_key hkey, takeWhile_separator hval, dropWhile_separator hval, List.tail_cons]

theorem scanQuery_last (hkey : (61 : UInt8) ∉ key) (hval : (38 : UInt8) ∉ val) :
    scanQuery q (key ++ 61 :: val) = q.set key val := by
  have htake : val.takeWhile (· ≠ 38) = val :=
    List.takeWhile_eq_self_iff.mpr fun b hb => decide_eq_true (ne_of_mem_of_not_mem hb hval)
  rw [scanQuery_key hkey, htake, dropWhile_of_notMem hval, List.tail_nil, scanQuery]
  rfl

theorem scanQuery_bare (hquery : (61 : UInt8) ∉ query) : scanQuery q query = q := by
  rw [scanQuery]
  split
  next => rfl
  next h =>
    rw [dropWhile_of_notMem hquery] at h
    cases h

/-- A key with an ampersand is none of the two. -/
theorem LogQuery.set_of_mem (hkey : (38 : UInt8) ∈ key) : q.set key val = q := by
  rw [LogQuery.set, if_neg, if_neg]
  · rintro rfl
    exact absurd hkey (by decide)
  · rintro rfl
    exact absurd hkey (by decide)

theorem LogQuery.setParam_pair (hkey : (61 : UInt8) ∉ key) :
    q.setParam (key ++ 61 :: val) = q.set key val := by
  rw [LogQuery.setParam, dropWhile_separator hkey, takeWhile_separator hkey]

/-- The pieces of a text are parts of it. -/
theorem notMem_of_mem_splitOn {b c : UInt8} {s p : Bytes} (h : b ∉ s) (hp : p ∈ s.splitOn c) :
    b ∉ p := by
  induction hn : s.length using Nat.strong_induction_on generalizing s with
  | _ n ih =>
    subst hn
    -- the piece before the first separator, or one of the others
    by_cases hc : c ∈ s
    · obtain ⟨u, v, rfl, hu⟩ := List.eq_append_cons_of_mem hc
      rw [List.splitOn_append_cons_self_of_not_mem hu] at hp
      simp only [List.mem_append, List.mem_cons, not_or] at h
      rcases List.mem_cons.mp hp with rfl | hp
      · exact h.1
      · exact ih v.length (by simp only [List.length_append, List.length_cons]; omega) h.2.2 hp rfl
    · rw [List.splitOn_eq_singleton hc, List.mem_singleton] at hp
      exact hp ▸ h

theorem splitOn_append_of_notMem {c : UInt8} {u t p : Bytes} (hu : c ∉ u)
    (ht : t.splitOn c = p :: ps) : (u ++ t).splitOn c = (u ++ p) :: ps := by
  by_cases hc : c ∈ t
  · obtain ⟨v, w, rfl, hv⟩ := List.eq_append_cons_of_mem hc
    rw [List.splitOn_append_cons_self_of_not_mem hv, List.cons.injEq] at ht
    have huv : c ∉ u ++ v := fun h => (List.mem_append.mp h).elim hu hv
    rw [← List.append_assoc, List.splitOn_append_cons_self_of_not_mem huv, ht.1, ht.2]
  · rw [List.splitOn_eq_singleton hc, List.cons.injEq] at ht
    have hut : c ∉ u ++ t := fun h => (List.mem_append.mp h).elim hu hc
    rw [List.splitOn_eq_singleton hut, ht.1, ht.2]

theorem seenFrom_bare (hps : ∀ p ∈ ps, (61 : UInt8) ∉ p) (behind : Bool) :
    seenFrom behind ps = [] := by
  induction ps generalizing behind with
  | nil => rfl
  | cons p ps ih =>
    rw [seenFrom, if_neg (hps p List.mem_cons_self)]
    exact ih (fun r hr => hps r (List.mem_cons_of_mem p hr)) true

/-- Up to the first `=` the scanner reads one parameter, or some without `=` and one it passes
over. -/
theorem seenFrom_pair (hkey : (61 : UInt8) ∉ key) {t : Bytes} (ht : t.splitOn 38 = val :: ps)
    (behind : Bool) : seenFrom behind ((key ++ 61 :: t).splitOn 38) =
      if behind = true ∨ (38 : UInt8) ∈ key then seenFrom false ps
      else (key ++ 61 :: val) :: seenFrom false ps := by
  induction hn : key.length using Nat.strong_induction_on generalizing key behind with
  | _ n ih =>
    subst hn
    by_cases hamp : (38 : UInt8) ∈ key
    -- the key runs over parameters without `=`; behind the first of them the rest is a shorter key
    · obtain ⟨u, w, rfl, hu⟩ := List.eq_append_cons_of_mem hamp
      simp only [List.mem_append, List.mem_cons, not_or] at hkey
      have hlen : w.length < (u ++ 38 :: w).length := by
        simp only [List.length_append, List.length_cons]
        omega
      rw [List.append_assoc, List.cons_append, List.splitOn_append_cons_self_of_not_mem hu,
        seenFrom, if_neg hkey.1, ih w.length hlen hkey.2.2 true rfl, if_pos (.inl rfl),
          if_pos (.inr hamp)]
    · have hmem : (61 : UInt8) ∈ key ++ 61 :: val := by simp
      have hpiece : (38 : UInt8) ∉ key ++ [61] := by simpa using hamp
      have hsplit : (key ++ 61 :: t).splitOn 38 = (key ++ 61 :: val) :: ps := by
        have h := splitOn_append_of_notMem hpiece ht
        simpa using h
      rw [hsplit, seenFrom, if_pos hmem]
      cases behind with
      | true => rw [if_pos rfl, if_pos (.inl rfl)]
      | false => rw [if_neg Bool.false_ne_true, if_neg (by simpa using hamp)]

/-- The scanner sets the parameters it sees, in their order. -/
theorem scanQuery_eq (q : LogQuery) (query : Bytes) :
    scanQuery q query = (seenParams query).foldl LogQuery.setParam q := by
  induction hn : query.length using Nat.strong_induction_on generalizing q query with
  | _ n ih =>
    subst hn
    by_cases hpair : (61 : UInt8) ∈ query
    · obtain ⟨key, t, rfl, hkey⟩ := List.eq_append_cons_of_mem hpair
      -- the pair that is read, and the parameters it stands for
      have hset : ∀ val ps, t.splitOn 38 = val :: ps →
          (seenParams (key ++ 61 :: t)).foldl LogQuery.setParam q =
            (seenFrom false ps).foldl LogQuery.setParam (q.set key val) := by
        intro val ps ht
        rw [seenParams, seenFrom_pair hkey ht]
        by_cases hamp : (38 : UInt8) ∈ key
        · rw [if_pos (.inr hamp), LogQuery.set_of_mem hamp]
        · rw [if_neg (by simpa using hamp), List.foldl_cons, LogQuery.setParam_pair hkey]
      by_cases hamp : (38 : UInt8) ∈ t
      · obtain ⟨val, rest, rfl, hval⟩ := List.eq_append_cons_of_mem hamp
        have hsplit := List.splitOn_append_cons_self_of_not_mem hval rest
        rw [scanQuery_pair hkey hval, hset val _ hsplit]
        refine ih rest.length ?_ _ rest rfl
        simp only [List.length_append, List.length_cons]
        omega
      · rw [scanQuery_last hkey hamp, hset t [] (List.splitOn_eq_singleton hamp)]
        rfl
    · rw [scanQuery_bare hpair, seenParams,
        seenFrom_bare fun p hp => notMem_of_mem_splitOn hpair hp]
      rfl

/-- The value that a parameter has, and the level or the limit it sets. -/
theorem setParam_level (q : LogQuery) (p : Bytes) :
    (q.setParam p).levelFilter = (valueOf (utf8 "level") p).getD q.levelFilter := by
  rw [LogQuery.setParam, valueOf]
  split
  · rfl
  · rw [LogQuery.set]
    split_ifs with hlevel hlimit
    · rfl
    · cases stoi _ <;> rfl
    · rfl

theorem stoi_range {s : Bytes} {n : Int} (h : stoi s = some n) :
    -2147483648 ≤ n ∧ n ≤ 2147483647 := by
  rw [stoi, Option.ite_none_right_eq_some, Option.some.injEq] at h
  obtain ⟨⟨-, hrange⟩, rfl⟩ := h
  exact hrange

theorem setParam_limit (q : LogQuery) (p : Bytes) :
    (q.setParam p).limit.toInt =
      ((valueOf (utf8 "limit") p).bind stoi).getD q.limit.toInt := by
  rw [LogQuery.setParam, valueOf]
  split
  · rfl
  next val _ =>
    by_cases hlimit : p.takeWhile (· ≠ 61) = utf8 "limit"
    · have hlevel : ¬ utf8 "limit" = utf8 "level" := by decide
      rw [LogQuery.set, hlimit, if_neg hlevel, if_pos rfl, if_pos rfl, Option.bind_some]
      cases hn : stoi val with
      | none => rfl
      | some n =>
        obtain ⟨hlo, hhi⟩ := stoi_range hn
        exact Int32.toInt_ofInt_of_le (by omega) (by omega)
    · rw [LogQuery.set, if_neg hlimit, if_neg hlimit]
      split_ifs <;> rfl

theorem getLast?_filterMap_append {α β : Type*} (f : α → Option β) (l : List α) (x : α) (d : β) :
    ((l ++ [x]).filterMap f).getLast?.getD d = (f x).getD ((l.filterMap f).getLast?.getD d) := by
  rw [List.filterMap_append]
  cases hx : f x <;> simp [hx]

/-- The level that is set is the last one. -/
theorem levelFilter_foldl (ps : List Bytes) (q : LogQuery) :
    (ps.foldl LogQuery.setParam q).levelFilter =
      (ps.filterMap (valueOf (utf8 "level"))).getLast?.getD q.levelFilter := by
  -- the last parameter decides, so the induction is from the end
  induction ps using List.reverseRecOn with
  | nil => rfl
  | append_singleton ps p ih =>
    rw [List.foldl_append, List.foldl_cons, List.foldl_nil, setParam_level, ih,
      getLast?_filterMap_append]

/-- And so is the limit, of those that are numbers. -/
theorem limit_foldl (ps : List Bytes) (q : LogQuery) :
    (ps.foldl LogQuery.setParam q).limit.toInt =
      ((ps.filterMap (valueOf (utf8 "limit"))).filterMap stoi).getLast?.getD q.limit.toInt := by
  rw [List.filterMap_filterMap]
  induction ps using List.reverseRecOn with
  | nil => rfl
  | append_singleton ps p ih =>
    rw [List.foldl_append, List.foldl_cons, List.foldl_nil, setParam_limit, ih,
      getLast?_filterMap_append]

end Scanner

/-- What `handle_logs` takes from a query. -/
theorem parseLogQuery_target (query : Bytes) :
    (parseLogQuery (logsTarget query)).levelFilter = lastLevel (seenParams query) ∧
      (parseLogQuery (logsTarget query)).limit.toInt = lastLimit (seenParams query) := by
  have hparse : parseLogQuery (logsTarget query) = scanQuery {} query := by
    have hpath : (63 : UInt8) ∉ utf8 "/api/v1/logs" := by decide
    have htarget : logsTarget query = utf8 "/api/v1/logs" ++ 63 :: query := rfl
    rw [parseLogQuery, htarget, dropWhile_separator hpath]
  rw [hparse, scanQuery_eq]
  exact ⟨levelFilter_foldl _ _, limit_foldl _ _⟩

/-! ### The last lines -/

/-- As long as no number outgrows an `int`, the last lines are read. -/
theorem readLogLines_eq {content filter : Bytes} {limit : Int32}
    (hsize : (((getlines content).filter (matchesFilter filter)).length : Int) ≤ 2147483647)
    (hstart : (((getlines content).filter (matchesFilter filter)).length : Int) - limit.toInt ≤
      2147483647) :
    readLogLines content filter limit =
      ((getlines content).filter (matchesFilter filter)).rtake (max 0 limit.toInt).toNat := by
  rw [readLogLines]
  -- only the number of the lines counts from here on
  generalize (getlines content).filter (matchesFilter filter) = all at *
  have hlimit := limit.toInt_lt
  have hlen : (Int32.ofNat all.length).toInt = all.length := Int32.toInt_ofNat_of_lt (by omega)
  have hsub : (Int32.ofNat all.length - limit).toInt = all.length - limit.toInt := by
    rw [Int32.toInt_sub, hlen, Int.bmod_eq_of_le (by omega) (by omega)]
  -- the start is computed without overflow
  have hcut : (if Int32.ofNat all.length - limit > 0 then Int32.ofNat all.length - limit
      else 0).toInt = max 0 (all.length - limit.toInt) := by
    split_ifs with h
    · rw [gt_iff_lt, Int32.lt_iff_toInt_lt, hsub] at h
      simp only [Int32.toInt_zero] at h
      omega
    · rw [gt_iff_lt, Int32.lt_iff_toInt_lt, hsub] at h
      simp only [Int32.toInt_zero] at h ⊢
      omega
  simp only [hlen, hcut, Int.toNat_natCast, List.take_length, List.rtake]
  -- a limit below zero leaves nothing, however far behind the end the start is
  by_cases hpos : 0 ≤ limit.toInt
  · congr 1
    omega
  · rw [List.drop_eq_nil_of_le (by omega), List.drop_eq_nil_of_le (by omega)]

/-- The answer, in the same case. -/
theorem handleLogs_eq {content query level : Bytes} {limit : Int}
    (hlevel : (parseLogQuery (logsTarget query)).levelFilter = level)
    (hlimit : (parseLogQuery (logsTarget query)).limit.toInt = limit)
    (hsize : (((getlines content).filter (matchesFilter level)).length : Int) ≤ 2147483647)
    (hstart : (((getlines content).filter (matchesFilter level)).length : Int) - min limit 1000 ≤
      2147483647) (lines : List Bytes) :
    handleLogs (some content) (logsTarget query) = .ok lines ↔
      ((getlines content).filter (matchesFilter level)).rtake (max 0 (min limit 1000)).toNat =
        lines ∧ ∀ line ∈ lines, validUtf8 line = true := by
  -- the cap on 32-bit integers is `min`
  have hcap : (if (parseLogQuery (logsTarget query)).limit > 1000 then 1000
      else (parseLogQuery (logsTarget query)).limit).toInt = min limit 1000 := by
    have h1000 : (1000 : Int32).toInt = 1000 := rfl
    split_ifs with h
    · rw [gt_iff_lt, Int32.lt_iff_toInt_lt, h1000, hlimit] at h
      omega
    · rw [gt_iff_lt, Int32.lt_iff_toInt_lt, h1000, hlimit] at h
      omega
  simp only [handleLogs]
  generalize (if (parseLogQuery (logsTarget query)).limit > 1000 then 1000
    else (parseLogQuery (logsTarget query)).limit) = capped at *
  rw [hlevel, readLogLines_eq hsize (by rwa [hcap]), hcap]
  split_ifs with hvalid
  · constructor
    · intro h
      cases h
      exact ⟨rfl, List.all_eq_true.mp hvalid⟩
    · rintro ⟨rfl, -⟩
      rfl
  · constructor
    · intro h
      cases h
    · rintro ⟨rfl, hlines⟩
      exact absurd (List.all_eq_true.mpr hlines) hvalid

/-- The endpoint answers exactly the queries whose level and limit it sees, and of whose lines the
last ones hold the level as it stands in the query and as it is written. -/
theorem answersLogs_iff (content query : Bytes) :
    AnswersLogs content query ↔ PlainLogQuery content query := by
  obtain ⟨hlevel, hlimit⟩ := parseLogQuery_target query
  constructor
  · intro h
    -- what the bot reads of the query is what was asked for
    have hseen := hlevel.symm.trans h.level
    have hlast := hlimit.symm.trans h.limit
    have hsize := h.size_fits
    have hstart := h.start_fits
    rw [h.level] at hsize hstart
    rw [h.limit] at hstart
    refine ⟨hseen, hlast, hsize, hstart, ?_, ?_⟩
    · intro wanted hwanted
      -- then the two lists of lines are equal only if the filters agree
      have hlines := (handleLogs_eq h.level h.limit hsize hstart _).mp (h.lines wanted hwanted)
      exact rtake_filter_eq_iff.mp hlines.1
    · intro wanted hwanted
      exact ((handleLogs_eq h.level h.limit hsize hstart _).mp (h.lines wanted hwanted)).2
  · intro h
    rw [h.level_seen] at hlevel
    rw [h.limit_seen] at hlimit
    refine ⟨hlevel, hlimit, ?_, ?_, ?_⟩
    · rw [hlevel]
      exact h.size_fits
    · rw [hlevel, hlimit]
      exact h.start_fits
    · intro wanted hwanted
      rw [handleLogs_eq hlevel hlimit h.size_fits h.start_fits]
      exact ⟨rtake_filter_eq_iff.mpr (h.level_case wanted hwanted), h.valid wanted hwanted⟩

/-- `level=error` is answered without the line that was written with that level. -/
theorem lower_case_level_lost :
    ¬ AnswersLogs (utf8 "[t] [ERROR] [tid=1] x\n") (utf8 "level=error") := by
  intro h
  obtain ⟨hlevel, hlimit⟩ := parseLogQuery_target (utf8 "level=error")
  have hread : lastLevel (seenParams (utf8 "level=error")) = utf8 "error" := by decide
  have hdefault : lastLimit (seenParams (utf8 "level=error")) = 100 := by decide
  have hwanted : wantedLines (lastLevel ((utf8 "level=error").splitOn 38)) =
      some fun line => contains line (bracketed (toLevelText .error)) := rfl
  have hlines := h.lines _ hwanted
  rw [handleLogs_eq (hlevel.trans hread) (hlimit.trans hdefault) (by decide) (by decide)] at hlines
  exact absurd hlines.1 (by decide)

end Aestival
