import Aestival.Library.JsDate
import Aestival.Library.Json
import Aestival.Library.StableSort
import Aestival.Library.Uri
import Aestival.Web.Routes
import Mathlib.Data.List.Perm.Subperm

/-!
# The list of conversations

`GET /api/ui/conversations` reads the database of every agent, takes the conversations that each
`SELECT … LIMIT ?` returns, and sorts all of them by `last_at` (`listConversations`). Nothing is cut
off behind the sort, and the limit has an upper bound only, so the answer may be longer than the
limit.

`MostRecent` says what is wanted of the answer, over the databases on the disk (`agentDatabases`).
The order in which the database returns conversations with the same `last_at` is left open
(`SortsByLast`).
-/

namespace Aestival

/-! ### The limit -/

/-- The value of the digits of a radix at the beginning of a text. -/
def digitsValue (radix : Nat) (s : JsString) : Option Int :=
  let isDigit := fun c => (JsString.hexValue c).any (· < radix)
  match s.takeWhile isDigit with
  | [] => none
  | digits => some (digits.foldl (fun n c => n * radix + (JsString.hexValue c).getD 0) 0 : Nat)

/-- `parseInt(s)`: `none` is `NaN`. -/
def parseInt (s : JsString) : Option Int :=
  let unsigned := fun s => match s with
    | 0x30 :: 0x78 :: rest => digitsValue 16 rest
    | 0x30 :: 0x58 :: rest => digitsValue 16 rest
    | rest => digitsValue 10 rest
  match s.dropWhile JsString.isSpace with
  | 0x2D :: rest => (unsigned rest).map (- ·)
  | 0x2B :: rest => unsigned rest
  | rest => unsigned rest

/-- `Math.min(parseInt(req.query.limit) || 20, 100)`. The query value is a text, or is made one. -/
def limitOf (query : Option JsString) : Int :=
  match query.bind parseInt with
  | none => 20
  | some n => min (if n = 0 then 20 else n) 100

/-! ### The databases -/

/-- A row of the table `messages`, with the columns the list reads. -/
structure MessageRow where
  convoId : JsString
  role : JsString
  nick : JsString
  createdAt : Int
  deriving DecidableEq

/-- A row of the statement. -/
structure ConvoRow where
  convoId : JsString
  msgCount : Nat
  firstAt : Int
  lastAt : Int
  title : Option JsString
  deriving DecidableEq

/-- The columns that are selected for a `convo_id`. -/
def convoRow (rows : List MessageRow) (convoId : JsString) : ConvoRow :=
  let group := rows.filter (·.convoId = convoId)
  let users := group.filter (·.role = js "user")
  { convoId
    msgCount := group.length
    firstAt := (group.map (·.createdAt)).min?.getD 0
    lastAt := (group.map (·.createdAt)).max?.getD 0
    title := (users.find? fun m => users.all fun m' => m.createdAt ≤ m'.createdAt).map (·.nick) }

/-- `GROUP BY m.convo_id`. -/
def conversationsOf (rows : List MessageRow) : List ConvoRow :=
  (rows.map (·.convoId)).dedup.map (convoRow rows)

/-- `ORDER BY last_at DESC` puts the rows into some order with falling times. -/
def SortsByLast (orderBy : List ConvoRow → List ConvoRow) : Prop :=
  ∀ rows, (orderBy rows).Perm rows ∧ StableSort.SortedBy (·.lastAt) (orderBy rows)

/-- `LIMIT`: a negative one takes all. -/
def takeLimit {α : Type} (limit : Int) (rows : List α) : List α :=
  if limit < 0 then rows else rows.take limit.toNat

/-- The limit is bound as a double, and a statement fails if that is no integer of 64 bits; of the
numbers below the range those that are rounded into it fail as well. -/
def isLimit (limit : Int) : Bool := -2 ^ 63 + 512 < limit

/-- An entry of the directory of the contexts, with the file `conversations.db` in it. A link to a
directory is none. -/
structure ContextEntry where
  name : JsString
  isDirectory : Bool
  database : Option (List MessageRow)

/-- The directory of the contexts; `root` is the file `conversations.db` of older versions. -/
structure Contexts where
  entries : List ContextEntry
  root : Option (List MessageRow)
  names : (entries.map (·.name)).Nodup := by decide

/-- `discoverAgents`. If the directory cannot be read it counts as empty. -/
def discoverAgents (contexts : Contexts) : List JsString :=
  let agents := (contexts.entries.filter fun e => e.isDirectory && e.database.isSome).map (·.name)
  if js "default" ∉ agents ∧ contexts.root.isSome then agents ++ [js "default"] else agents

/-- `openDb`. -/
def openDb (contexts : Contexts) (agentId : JsString) : Option (List MessageRow) :=
  let safeId := sanitizeAgentId agentId
  ((contexts.entries.find? (·.name = safeId)).bind (·.database)).or
    (if safeId = js "default" then contexts.root else none)

/-! ### The handler -/

/-- What ends the handler with the status 500. -/
inductive ListFailure where
  | statement
  | invalidTime
  deriving DecidableEq

/-- An entry of the answer. -/
structure Conversation where
  agentId : JsString
  convoId : JsString
  convoType : JsString
  messageCount : Nat
  firstAt : JsString
  lastAt : JsString
  title : JsString
  deriving DecidableEq

def formatConvoId (convoId : JsString) : JsString :=
  if js "c2c:" <+: convoId then js "用户:" ++ (convoId.drop 4).take 12 ++ js "…"
  else if js "group:" <+: convoId then js "群聊:" ++ convoId.drop 6
  else if js "guild:" <+: convoId then js "频道:" ++ convoId.drop 6
  else if js "dm:" <+: convoId then js "频道私信:" ++ convoId.drop 3
  else convoId

def convoType (convoId : JsString) : JsString :=
  if js "c2c:" <+: convoId then js "私聊"
  else if js "group:" <+: convoId then js "群聊"
  else if js "guild:" <+: convoId then js "频道"
  else if js "dm:" <+: convoId then js "频道私信"
  else js "其他"

/-- `toISOString` throws for a time that no date has. -/
def isoTime (t : Int) : Except ListFailure JsString :=
  match JsDate.toISOString t with
  | some s => .ok s
  | none => .error .invalidTime

/-- The entry that is pushed for a row. -/
def listEntry (agentId : JsString) (r : ConvoRow) : Except ListFailure Conversation := do
  let firstAt ← isoTime r.firstAt
  let lastAt ← isoTime r.lastAt
  pure {
    agentId
    convoId := r.convoId
    convoType := convoType r.convoId
    messageCount := r.msgCount
    firstAt
    lastAt
    title := (r.title.getD []).orElse (formatConvoId r.convoId) }

/-- The statement on one database. -/
def selectConversations (orderBy : List ConvoRow → List ConvoRow) (rows : List MessageRow)
    (limit : Int) : Except ListFailure (List ConvoRow) :=
  if isLimit limit then .ok (takeLimit limit (orderBy (conversationsOf rows)))
  else .error .statement

/-- The loop over the agents. -/
def collectConversations (orderBy : List ConvoRow → List ConvoRow) (contexts : Contexts)
    (limit : Int) : List JsString → Except ListFailure (List Conversation)
  | [] => pure []
  | agentId :: agentIds =>
    match openDb contexts agentId with
    | none => collectConversations orderBy contexts limit agentIds
    | some rows => do
      let selected ← selectConversations orderBy rows limit
      let items ← selected.mapM (listEntry agentId)
      let others ← collectConversations orderBy contexts limit agentIds
      pure (items ++ others)

/-- `GET /api/ui/conversations`. -/
def listConversations (orderBy : List ConvoRow → List ConvoRow) (contexts : Contexts)
    (query : Option JsString) : Except ListFailure (List Conversation) := do
  let all ← collectConversations orderBy contexts (limitOf query) (discoverAgents contexts)
  pure (StableSort.stableSort (fun c => JsDate.collate c.lastAt) all)

/-! ### What is wanted -/

/-- The limit that is wanted: within 1 to 100, and 20 without a number. -/
def wantedLimit (query : Option JsString) : Nat :=
  match query.bind parseInt with
  | none => 20
  | some n => (max 1 (min n 100)).toNat

/-- The databases of the agents, on the disk: those in the directories, and `root` for `default`, if
it has no other. -/
def agentDatabases (contexts : Contexts) : List (JsString × List MessageRow) :=
  let databases := contexts.entries.filterMap fun e => e.database.map (e.name, ·)
  if js "default" ∈ databases.map Prod.fst then databases
  else databases ++ (contexts.root.map (js "default", ·)).toList

/-- The conversations of databases, each with its agent. -/
def conversationsIn (databases : List (JsString × List MessageRow)) : List (JsString × ConvoRow) :=
  databases.flatMap fun (agentId, rows) => (conversationsOf rows).map (agentId, ·)

/-- All conversations. -/
def allConversations (contexts : Contexts) : List (JsString × ConvoRow) :=
  conversationsIn (agentDatabases contexts)

/-- The `limit` most recent conversations, newest first. -/
structure MostRecent (limit : Nat) (all chosen : List (JsString × ConvoRow)) : Prop where
  length_eq : chosen.length = min limit all.length
  recent : ∃ others, (chosen ++ others).Perm all ∧
    ∀ c ∈ chosen, ∀ d ∈ others, d.2.lastAt ≤ c.2.lastAt
  newest_first : StableSort.SortedBy (·.2.lastAt) chosen

/-- The answer has the most recent conversations. -/
def RespectsLimit (orderBy : List ConvoRow → List ConvoRow) (contexts : Contexts)
    (query : Option JsString) : Prop :=
  ∃ chosen answer, listConversations orderBy contexts query = .ok answer ∧
    chosen.mapM (fun c => listEntry c.1 c.2) = Except.ok answer ∧
    MostRecent (wantedLimit query) (allConversations contexts) chosen

/-! ### The first ones of every part -/

section Parts

variable {α : Type} {limit : Int} {n : Nat}

/-- What a limit cuts off. -/
def dropLimit (limit : Int) (rows : List α) : List α :=
  if limit < 0 then [] else rows.drop limit.toNat

theorem takeLimit_append_dropLimit (rows : List α) :
    takeLimit limit rows ++ dropLimit limit rows = rows := by
  rw [takeLimit, dropLimit]
  split
  · exact List.append_nil rows
  · exact List.take_append_drop _ rows

/-- The number of rows under a limit. -/
def countUnder (limit : Int) (n : Nat) : Nat := if limit < 0 then n else min n limit.toNat

theorem length_takeLimit (rows : List α) :
    (takeLimit limit rows).length = countUnder limit rows.length := by
  rw [takeLimit, countUnder]
  split
  · rfl
  · rw [List.length_take, Nat.min_comm]

theorem map_takeLimit {β : Type} (f : α → β) (rows : List α) :
    (takeLimit limit rows).map f = takeLimit limit (rows.map f) := by
  rw [takeLimit, takeLimit]
  split
  · rfl
  · exact List.map_take

/-- If no more than `n` are taken from all parts together, at most `n` from each, then nothing is
left, or all are from one part. -/
theorem taken_from_one (hn : 0 < n) {parts : List (List α)}
    (h : (parts.flatMap (·.take n)).length ≤ n) :
    parts.flatMap (·.drop n) = [] ∨ ∃ part ∈ parts, parts.flatMap (·.take n) = part.take n ∧
      parts.flatMap (·.drop n) = part.drop n ∧ n ≤ part.length := by
  induction parts with
  | nil => exact .inl rfl
  | cons part parts ih =>
    rw [List.flatMap_cons, List.length_append, List.length_take] at h
    rcases ih (by omega) with hnone | ⟨one, hmem, htake, hdrop, hlong⟩
    · by_cases hlong : n < part.length
      · -- nothing is taken from the other parts
        have hothers : parts.flatMap (·.take n) = [] := by
          refine List.eq_nil_of_length_eq_zero ?_
          omega
        refine .inr ⟨part, List.mem_cons_self, ?_, ?_, hlong.le⟩
        · rw [List.flatMap_cons, hothers, List.append_nil]
        · rw [List.flatMap_cons, hnone, List.append_nil]
      · refine .inl ?_
        rw [List.flatMap_cons, hnone, List.append_nil]
        exact List.drop_eq_nil_of_le (Nat.not_lt.mp hlong)
    · -- the other parts give `n` already
      rw [htake, List.length_take] at h
      obtain rfl : part = [] := List.eq_nil_of_length_eq_zero (by omega)
      refine .inr ⟨one, List.mem_cons_of_mem _ hmem, ?_, ?_, hlong⟩
      · rw [List.flatMap_cons, htake, List.take_nil, List.nil_append]
      · rw [List.flatMap_cons, hdrop, List.drop_nil, List.nil_append]

theorem perm_takeLimit_dropLimit (parts : List (List α)) :
    (parts.flatMap (takeLimit limit) ++ parts.flatMap (dropLimit limit)).Perm parts.flatten := by
  have hperm := List.flatMap_append_perm parts (takeLimit limit) (dropLimit limit)
  simp only [takeLimit_append_dropLimit, List.flatMap_id'] at hperm
  exact hperm

end Parts

/-! ### The answer -/

variable {orderBy : List ConvoRow → List ConvoRow} {contexts : Contexts}
  {query : Option JsString} {limit : Int}

/-- The times of a row are those of a date. -/
def ConvoRow.Dated (r : ConvoRow) : Prop :=
  (JsDate.toISOString r.firstAt).isSome ∧ (JsDate.toISOString r.lastAt).isSome

/-- The entry for a row with such times. -/
def entryOf (c : JsString × ConvoRow) : Conversation where
  agentId := c.1
  convoId := c.2.convoId
  convoType := convoType c.2.convoId
  messageCount := c.2.msgCount
  firstAt := (JsDate.toISOString c.2.firstAt).getD []
  lastAt := (JsDate.toISOString c.2.lastAt).getD []
  title := (c.2.title.getD []).orElse (formatConvoId c.2.convoId)

theorem isoTime_eq_ok_iff {time : Int} {s : JsString} :
    isoTime time = .ok s ↔ JsDate.toISOString time = some s := by
  rw [isoTime]
  cases JsDate.toISOString time with
  | none => exact iff_of_false (by simp) (by simp)
  | some text => simp

theorem listEntry_eq_ok_iff {c : JsString × ConvoRow} {item : Conversation} :
    listEntry c.1 c.2 = .ok item ↔ c.2.Dated ∧ item = entryOf c := by
  simp only [listEntry, Except.bind_eq_ok_iff, isoTime_eq_ok_iff, ConvoRow.Dated,
    Option.isSome_iff_exists]
  constructor
  · rintro ⟨first, hfirst, last, hlast, hitem⟩
    refine ⟨⟨⟨first, hfirst⟩, last, hlast⟩, ?_⟩
    rw [entryOf, hfirst, hlast]
    exact (Except.ok.inj hitem).symm
  · rintro ⟨⟨⟨first, hfirst⟩, last, hlast⟩, rfl⟩
    refine ⟨first, hfirst, last, hlast, ?_⟩
    rw [entryOf, hfirst, hlast]
    rfl

theorem mapM_listEntry_eq_ok_iff {chosen : List (JsString × ConvoRow)}
    {answer : List Conversation} :
    chosen.mapM (fun c => listEntry c.1 c.2) = Except.ok answer ↔
      (∀ c ∈ chosen, c.2.Dated) ∧ answer = chosen.map entryOf := by
  induction chosen generalizing answer with
  | nil =>
    rw [List.mapM_nil]
    refine Iff.trans ?_ (and_iff_right (List.forall_mem_nil _)).symm
    exact ⟨fun h => (Except.ok.inj h).symm, fun h => h ▸ rfl⟩
  | cons c chosen ih =>
    simp only [List.mapM_cons, Except.bind_eq_ok_iff, listEntry_eq_ok_iff, ih,
      List.forall_mem_cons, List.map_cons]
    constructor
    -- one entry that has no date throws
    · rintro ⟨item, ⟨hc, rfl⟩, items, ⟨hall, rfl⟩, hanswer⟩
      exact ⟨⟨hc, hall⟩, (Except.ok.inj hanswer).symm⟩
    · rintro ⟨⟨hc, hall⟩, rfl⟩
      exact ⟨_, ⟨hc, rfl⟩, _, ⟨hall, rfl⟩, rfl⟩

/-- The agents with the databases that are opened for them. -/
def openedAgents (contexts : Contexts) : List (JsString × List MessageRow) :=
  (discoverAgents contexts).filterMap fun agentId => (openDb contexts agentId).map (agentId, ·)

/-- The conversations of an agent as its database orders them. -/
def orderedConversations (orderBy : List ConvoRow → List ConvoRow)
    (agent : JsString × List MessageRow) : List (JsString × ConvoRow) :=
  (orderBy (conversationsOf agent.2)).map (agent.1, ·)

/-- The conversations that the databases return. -/
def listedConversations (orderBy : List ConvoRow → List ConvoRow) (limit : Int)
    (agents : List (JsString × List MessageRow)) : List (JsString × ConvoRow) :=
  (agents.map (orderedConversations orderBy)).flatMap (takeLimit limit)

theorem listedConversations_cons (agent : JsString × List MessageRow)
    (agents : List (JsString × List MessageRow)) :
    listedConversations orderBy limit (agent :: agents) =
      takeLimit limit (orderedConversations orderBy agent) ++
        listedConversations orderBy limit agents :=
  List.flatMap_cons

theorem collectConversations_eq_ok_iff {agentIds : List JsString} {answer : List Conversation} :
    collectConversations orderBy contexts limit agentIds = .ok answer ↔
      let agents := agentIds.filterMap fun agentId => (openDb contexts agentId).map (agentId, ·)
      (agents = [] ∨ isLimit limit = true) ∧
        (∀ c ∈ listedConversations orderBy limit agents, c.2.Dated) ∧
        answer = (listedConversations orderBy limit agents).map entryOf := by
  induction agentIds generalizing answer with
  | nil =>
    constructor
    · rintro h
      exact ⟨.inl rfl, List.forall_mem_nil _, (Except.ok.inj h).symm⟩
    · rintro ⟨-, -, rfl⟩
      rfl
  | cons agentId agentIds ih =>
    rw [collectConversations, List.filterMap_cons]
    cases openDb contexts agentId with
    -- no database, no entries
    | none => exact ih
    | some rows =>
      -- the entries of one agent, and the limit for it
      have hitems (rows : List ConvoRow) : rows.mapM (listEntry agentId) =
          (rows.map (agentId, ·)).mapM fun c => listEntry c.1 c.2 := by
        rw [List.mapM_map]
        rfl
      have htake : takeLimit limit (orderedConversations orderBy (agentId, rows)) =
          (takeLimit limit (orderBy (conversationsOf rows))).map (agentId, ·) :=
        (map_takeLimit _ _).symm
      dsimp only [Option.map_some]
      simp only [selectConversations, Except.bind_eq_ok_iff, ih, hitems,
        mapM_listEntry_eq_ok_iff, listedConversations_cons, htake, List.forall_mem_append,
        List.map_append]
      -- a LIMIT that SQLite does not take throws
      by_cases hlimit : isLimit limit = true
      · rw [if_pos hlimit]
        constructor
        · rintro ⟨_, hselected, _, ⟨hdated, rfl⟩, _, ⟨-, hothers, rfl⟩, hanswer⟩
          obtain rfl := Except.ok.inj hselected
          exact ⟨.inr hlimit, ⟨hdated, hothers⟩, (Except.ok.inj hanswer).symm⟩
        · rintro ⟨-, ⟨hdated, hothers⟩, rfl⟩
          exact ⟨_, rfl, _, ⟨hdated, rfl⟩, _, ⟨.inr hlimit, hothers, rfl⟩, rfl⟩
      · rw [if_neg hlimit]
        refine iff_of_false ?_ ?_
        · rintro ⟨_, hselected, -⟩
          cases hselected
        · rintro ⟨hnone | hsome, -⟩
          · cases hnone
          · exact hlimit hsome

/-- What the answer is ordered by. -/
def timeText (c : JsString × ConvoRow) : List Nat :=
  JsDate.collate ((JsDate.toISOString c.2.lastAt).getD [])

/-- When there is an answer, and which. -/
theorem listConversations_eq_ok_iff {answer : List Conversation} :
    listConversations orderBy contexts query = .ok answer ↔
      (openedAgents contexts = [] ∨ isLimit (limitOf query) = true) ∧
        (∀ c ∈ listedConversations orderBy (limitOf query) (openedAgents contexts), c.2.Dated) ∧
        answer = (StableSort.stableSort timeText
          (listedConversations orderBy (limitOf query) (openedAgents contexts))).map entryOf := by
  rw [listConversations, Except.bind_eq_ok_iff]
  constructor
  -- the entries are made before they are sorted
  · rintro ⟨all, hall, hanswer⟩
    obtain ⟨hlimit, hdated, rfl⟩ := collectConversations_eq_ok_iff.mp hall
    refine ⟨hlimit, hdated, ?_⟩
    rw [← Except.ok.inj hanswer, StableSort.stableSort_map]
    rfl
  · rintro ⟨hlimit, hdated, rfl⟩
    refine ⟨_, collectConversations_eq_ok_iff.mpr ⟨hlimit, hdated, rfl⟩, ?_⟩
    rw [StableSort.stableSort_map]
    rfl

/-- The entries for two lists of rows are the same only if their times are. -/
theorem lastAt_eq_of_entryOf {chosen chosen' : List (JsString × ConvoRow)}
    (hdated : ∀ c ∈ chosen, c.2.Dated) (hdated' : ∀ c ∈ chosen', c.2.Dated)
    (h : chosen.map entryOf = chosen'.map entryOf) :
    chosen.map (·.2.lastAt) = chosen'.map (·.2.lastAt) := by
  induction chosen generalizing chosen' with
  | nil =>
    obtain rfl := List.map_eq_nil_iff.mp h.symm
    rfl
  | cons c chosen ih =>
    cases chosen' with
    | nil => cases h
    | cons c' chosen' =>
      obtain ⟨hhead, htail⟩ := List.cons.inj h
      obtain ⟨s, hs⟩ := Option.isSome_iff_exists.mp (hdated c List.mem_cons_self).2
      obtain ⟨s', hs'⟩ := Option.isSome_iff_exists.mp (hdated' c' List.mem_cons_self).2
      -- equal entries have equal texts of the last time
      have htext : s = s' := by
        have hlast := congrArg Conversation.lastAt hhead
        rwa [entryOf, entryOf, hs, hs'] at hlast
      -- and the text tells the time
      have htime := JsDate.eq_of_collate_toISOString hs hs' (congrArg JsDate.collate htext)
      rw [List.map_cons, List.map_cons, htime,
        ih (fun d hd => hdated d (List.mem_cons_of_mem _ hd))
          (fun d hd => hdated' d (List.mem_cons_of_mem _ hd)) htail]

end Aestival
