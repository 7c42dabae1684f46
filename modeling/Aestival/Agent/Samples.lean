import Aestival.Chat.Sqlite
import Aestival.Library.Positions
import Aestival.Library.Runs

/-!
# Samples of conversations

The self-iteration engine looks at the latest messages of all conversations. `pair_exchanges` walks
through them from old to new and pairs each message of a user with the answer to it. It has room for
one message at a time: a user who writes in another conversation before the answer has come takes
the place of the message that waits.
-/

namespace Aestival

open Bytes

/-! ### Rows -/

/-- `sample_row`. -/
structure SampleRow where
  convoId : Bytes
  createdAt : Bytes
  role : Role
  nick : Bytes
  content : Bytes
  deriving DecidableEq, Repr

/-- `conversation_sample`. -/
structure ConversationSample where
  convoId : Bytes
  timestamp : Bytes
  userMessage : Bytes
  botResponse : Bytes
  toolCalls : Nat
  deriving DecidableEq, Repr

/-- What `query_recent_messages` reads of a row. -/
def Row.sampleRow (r : Row) : SampleRow where
  convoId := cStr r.convoId
  createdAt := utf8 (toString r.createdAt)
  role := r.role
  nick := cStr r.nick
  content := cStr r.content

/-- `query_recent_messages`: the rows of users and of the assistant, the newest first. A negative
`LIMIT` is none. -/
def queryRecentMessages (db : SqliteBackend) (limit : Int) : List SampleRow :=
  let selected := db.rows.filter fun r => r.role = .user || r.role = .assistant
  let rows := (selected.insertionSort fun r s => s.Before r).map Row.sampleRow
  if limit < 0 then rows else rows.take limit.toNat

/-! ### Pairing -/

/-- The text of a message: in a group, the nick stands in front. -/
def SampleRow.text (r : SampleRow) : Bytes :=
  if r.nick = [] then r.content else utf8 "[" ++ r.nick ++ utf8 "]: " ++ r.content

/-- The calls that are counted: tags of the two kinds, once each. -/
def legacyToolCalls (response : Bytes) : Nat :=
  (if contains response (utf8 "[SEARCH:") then 1 else 0) +
    if contains response (utf8 "[FETCH:") then 1 else 0

/-- The locals of `pair_exchanges`. -/
structure PairingState where
  samples : List ConversationSample := []
  pendingConvo : Bytes := []
  pendingTs : Bytes := []
  pendingUser : Bytes := []
  deriving DecidableEq, Repr

namespace PairingState

/-- The sample the answer `r` makes with what is pending. -/
def sample (s : PairingState) (r : SampleRow) : ConversationSample where
  convoId := r.convoId
  timestamp := s.pendingTs
  userMessage := s.pendingUser
  botResponse := r.content
  toolCalls := legacyToolCalls r.content

/-- The body of the loop. -/
def step (s : PairingState) (r : SampleRow) : PairingState :=
  if r.role = .user then
    { s with pendingConvo := r.convoId, pendingTs := r.createdAt, pendingUser := r.text }
  else if r.role = .assistant ∧ r.convoId = s.pendingConvo ∧ s.pendingUser ≠ [] then
    { s with samples := s.samples ++ [s.sample r], pendingUser := [] }
  else s

/-- The loop, from the oldest row on. -/
def run (sorted : List SampleRow) : PairingState := sorted.foldl step {}

theorem run_concat (before : List SampleRow) (r : SampleRow) :
    run (before ++ [r]) = (run before).step r := by
  rw [run, List.foldl_append]
  rfl

end PairingState

/-- `pair_exchanges`, of rows with the newest first. -/
def pairExchanges (rows : List SampleRow) : List ConversationSample :=
  (PairingState.run rows.reverse).samples

/-! ### The pairs there should be -/

/-- The row of the conversation `convo` that was last. -/
def lastOf (convo : Bytes) (before : List SampleRow) : Option SampleRow :=
  latest (fun r => if r.convoId = convo then some r else none) before

/-- The sample of the message `u` and its answer `a`. -/
def exchange (u a : SampleRow) : ConversationSample where
  convoId := a.convoId
  timestamp := u.createdAt
  userMessage := u.text
  botResponse := a.content
  toolCalls := legacyToolCalls a.content

/-- The sample of a row with the rows before it: a row of the assistant answers the row before it in
its conversation, if that is a user's with a text. -/
def answered (x : List SampleRow × SampleRow) : Option ConversationSample :=
  if x.2.role = .assistant then
    match lastOf x.2.convoId x.1 with
    | some u => if u.role = .user ∧ u.text ≠ [] then some (exchange u x.2) else none
    | none => none
  else none

/-- The samples of all answers, in their order. -/
def exchanges (sorted : List SampleRow) : List ConversationSample :=
  (positions sorted).filterMap answered

/-! ### What the loop remembers -/

namespace PairingState

/-- The sample a row makes. -/
def emits (s : PairingState) (r : SampleRow) : Option ConversationSample :=
  if r.role = .assistant ∧ r.convoId = s.pendingConvo ∧ s.pendingUser ≠ [] then some (s.sample r)
  else none

theorem samples_step (s : PairingState) (r : SampleRow) :
    (s.step r).samples = s.samples ++ (s.emits r).toList := by
  rw [step, emits]
  split
  · next huser =>
    rw [if_neg fun h => by simp [huser] at h]
    exact (List.append_nil _).symm
  · split
    · rfl
    · exact (List.append_nil _).symm

/-- The result of the loop, position by position. -/
theorem samples_run (sorted : List SampleRow) :
    (run sorted).samples = (positions sorted).filterMap fun x => (run x.1).emits x.2 := by
  induction sorted using List.reverseRecOn with
  | nil => rfl
  | append_singleton before r ih =>
    rw [positions_concat, List.filterMap_append, ← ih, run_concat, samples_step,
      List.filterMap_cons]
    cases (run before).emits r with
    | none => rfl
    | some sample => rfl

end PairingState

/-- The message `u` waits for its answer: no row of its conversation came after it, and no other
user wrote. -/
def Waits (before : List SampleRow) (u : SampleRow) : Prop :=
  u.role = .user ∧ u.text ≠ [] ∧ ∃ front mid, before = front ++ u :: mid ∧
    ∀ r ∈ mid, r.convoId ≠ u.convoId ∧ r.role ≠ .user

/-- What is pending is the message `u`. -/
def PairingState.Holds (s : PairingState) (u : SampleRow) : Prop :=
  s.pendingConvo = u.convoId ∧ s.pendingTs = u.createdAt ∧ s.pendingUser = u.text

/-- A message that waits is pending. -/
theorem Waits.holds {before : List SampleRow} {u : SampleRow} (h : Waits before u) :
    (PairingState.run before).Holds u := by
  obtain ⟨huser, -, front, mid, rfl, hmid⟩ := h
  -- the rows behind `u` leave alone what is pending
  induction mid using List.reverseRecOn with
  | nil =>
    rw [PairingState.run_concat, PairingState.step, if_pos huser]
    exact ⟨rfl, rfl, rfl⟩
  | append_singleton mid r ih =>
    have hholds := ih fun q hq => hmid q (List.mem_append_left _ hq)
    obtain ⟨hconvo, hrole⟩ := hmid r (List.mem_append_right _ (List.mem_singleton_self r))
    rw [← List.cons_append, ← List.append_assoc, PairingState.run_concat, PairingState.step,
      if_neg hrole, if_neg fun h => hconvo (h.2.1.trans hholds.1)]
    exact hholds

/-- What is pending is a message that waits. -/
theorem exists_waits {before : List SampleRow}
    (hroles : ∀ r ∈ before, r.role = .user ∨ r.role = .assistant)
    (h : (PairingState.run before).pendingUser ≠ []) :
    ∃ u, Waits before u ∧ (PairingState.run before).Holds u := by
  induction before using List.reverseRecOn with
  | nil => exact absurd rfl h
  | append_singleton before r ih =>
    have hbefore : ∀ q ∈ before, q.role = .user ∨ q.role = .assistant :=
      fun q hq => hroles q (List.mem_append_left _ hq)
    rw [PairingState.run_concat, PairingState.step] at h ⊢
    by_cases huser : r.role = .user
    -- a message of a user waits from now on
    · rw [if_pos huser] at h ⊢
      exact ⟨r, ⟨huser, h, before, [], rfl, fun q hq => absurd hq List.not_mem_nil⟩, rfl, rfl, rfl⟩
    · rw [if_neg huser] at h ⊢
      split at h
      -- an answer has taken what was pending
      · exact absurd rfl h
      · next hanswer =>
        obtain ⟨u, ⟨hu, htext, front, mid, rfl, hmid⟩, hholds⟩ := ih hbefore h
        rw [if_neg hanswer]
        refine ⟨u, ⟨hu, htext, front, mid ++ [r], by simp, fun q hq => ?_⟩, hholds⟩
        rcases List.mem_append.mp hq with hq | hq
        · exact hmid q hq
        · -- an answer in the conversation of `u` would have taken what is pending
          obtain rfl := List.mem_singleton.mp hq
          have hassistant := (hroles q (List.mem_append_right _ (List.mem_singleton_self q)))
            |>.resolve_left huser
          exact ⟨fun hconvo => hanswer ⟨hassistant, hconvo.trans hholds.1.symm, h⟩, huser⟩

/-! ### Which answers make a sample -/

theorem lastOf_eq_some_iff {convo : Bytes} {before : List SampleRow} {u : SampleRow} :
    lastOf convo before = some u ↔ u.convoId = convo ∧ ∃ front mid, before = front ++ u :: mid ∧
      ∀ r ∈ mid, r.convoId ≠ convo := by
  induction before using List.reverseRecOn with
  | nil => simp [lastOf]
  | append_singleton before r ih =>
    rw [lastOf, latest_concat]
    by_cases hr : r.convoId = convo
    · rw [if_pos hr, Option.some_or, Option.some.injEq]
      constructor
      · rintro rfl
        exact ⟨hr, before, [], rfl, fun q hq => absurd hq List.not_mem_nil⟩
      · rintro ⟨hu, front, mid, heq, hmid⟩
        have hlast : ∀ q ∈ ([] : List SampleRow), ¬ q.convoId = convo :=
          fun q hq => absurd hq List.not_mem_nil
        exact (eq_of_last_split heq hr hlast hu hmid).2.1
    · rw [if_neg hr, Option.none_or, ← lastOf, ih]
      refine and_congr_right fun hu => ⟨?_, ?_⟩
      · rintro ⟨front, mid, rfl, hmid⟩
        refine ⟨front, mid ++ [r], by simp, fun q hq => ?_⟩
        rcases List.mem_append.mp hq with hq | hq
        · exact hmid q hq
        · exact List.mem_singleton.mp hq ▸ hr
      · rintro ⟨front, mid, heq, hmid⟩
        -- the last row is not of the conversation, so it is behind `u`
        rcases List.eq_nil_or_concat mid with rfl | ⟨mid, q, rfl⟩
        · obtain ⟨-, hru⟩ := List.append_inj' heq rfl
          exact absurd ((List.cons.inj hru).1 ▸ hu) hr
        · rw [List.concat_eq_append, ← List.cons_append, ← List.append_assoc] at heq
          refine ⟨front, mid, (List.append_inj' heq rfl).1, fun q' hq' => hmid q' ?_⟩
          rw [List.concat_eq_append]
          exact List.mem_append_left _ hq'

/-- The row before the answer in its conversation, when a message waits for it. -/
theorem Waits.lastOf_eq {before : List SampleRow} {u : SampleRow} (h : Waits before u) :
    lastOf u.convoId before = some u := by
  obtain ⟨-, -, front, mid, heq, hmid⟩ := h
  exact lastOf_eq_some_iff.mpr ⟨rfl, front, mid, heq, fun r hr => (hmid r hr).1⟩

theorem answered_eq_some_iff {before : List SampleRow} {a : SampleRow} {s : ConversationSample} :
    answered (before, a) = some s ↔ a.role = .assistant ∧ ∃ u, lastOf a.convoId before = some u ∧
      u.role = .user ∧ u.text ≠ [] ∧ exchange u a = s := by
  rw [answered]
  split
  · next hassistant =>
    rw [and_iff_right hassistant]
    cases lastOf a.convoId before with
    | none => simp
    | some u =>
      dsimp only
      split
      · next hu => simp [hu]
      · next hu =>
        refine iff_of_false nofun ?_
        rintro ⟨v, hv, huser, htext, -⟩
        exact hu (Option.some.inj hv ▸ ⟨huser, htext⟩)
  · next hassistant => exact iff_of_false nofun fun h => hassistant h.1

/-- The sample of an answer to a message that waits. -/
theorem Waits.emits_eq {before : List SampleRow} {u a : SampleRow} (h : Waits before u)
    (hassistant : a.role = .assistant) (hconvo : a.convoId = u.convoId) :
    (PairingState.run before).emits a = some (exchange u a) ∧
      answered (before, a) = some (exchange u a) := by
  obtain ⟨hpconvo, hpts, hpuser⟩ := h.holds
  constructor
  · rw [PairingState.emits, if_pos ⟨hassistant, hconvo.trans hpconvo.symm, hpuser ▸ h.2.1⟩,
      PairingState.sample, hpts, hpuser]
    rfl
  · exact answered_eq_some_iff.mpr ⟨hassistant, u, hconvo ▸ h.lastOf_eq, h.1, h.2.1, rfl⟩

/-- A row makes the sample it should, or none. -/
theorem emits_eq_or {before : List SampleRow} (a : SampleRow)
    (hroles : ∀ r ∈ before, r.role = .user ∨ r.role = .assistant) :
    (∃ u, Waits before u ∧ a.role = .assistant ∧ a.convoId = u.convoId) ∨
      (PairingState.run before).emits a = none := by
  by_cases hanswer : a.role = .assistant ∧ a.convoId = (PairingState.run before).pendingConvo ∧
      (PairingState.run before).pendingUser ≠ []
  · obtain ⟨u, hwaits, hholds⟩ := exists_waits hroles hanswer.2.2
    exact .inl ⟨u, hwaits, hanswer.1, hanswer.2.1.trans hholds.1⟩
  · exact .inr (if_neg hanswer)

/-- The answer `a` is the first row of its conversation after the message `u`, the rows `mid` lying
between them. -/
structure AnswersAfter (u : SampleRow) (mid : List SampleRow) (a : SampleRow) : Prop where
  user : u.role = .user
  text : u.text ≠ []
  assistant : a.role = .assistant
  convo : a.convoId = u.convoId
  others : ∀ r ∈ mid, r.convoId ≠ u.convoId

/-- Between a message and its answer no other user writes. -/
def Uninterrupted (sorted : List SampleRow) : Prop :=
  ∀ front u mid a after, sorted = front ++ u :: mid ++ a :: after → AnswersAfter u mid a →
    ∀ r ∈ mid, r.role ≠ .user

/-- An answer that is due a sample makes it, if and only if no other user wrote in between. -/
theorem emits_eq_answered_iff {front mid : List SampleRow} {u a : SampleRow}
    (hroles : ∀ r ∈ front ++ u :: mid, r.role = .user ∨ r.role = .assistant)
    (h : AnswersAfter u mid a) :
    (PairingState.run (front ++ u :: mid)).emits a = answered (front ++ u :: mid, a) ↔
      ∀ r ∈ mid, r.role ≠ .user := by
  constructor
  · intro heq
    have hlast : lastOf a.convoId (front ++ u :: mid) = some u :=
      lastOf_eq_some_iff.mpr ⟨h.convo.symm, front, mid, rfl, fun r hr => h.convo ▸ h.others r hr⟩
    have hsome := answered_eq_some_iff.mpr ⟨h.assistant, u, hlast, h.user, h.text, rfl⟩
    rcases emits_eq_or a hroles with ⟨v, hwaits, -, hconvo⟩ | hnone
    · -- the message that waits is `u`, since both are the last of the conversation
      obtain ⟨hv, -, front', mid', hsplit, hmid'⟩ := hwaits
      have hmid : ∀ r ∈ mid, ¬ r.convoId = v.convoId := fun r hr => by
        rw [← hconvo, h.convo]
        exact h.others r hr
      obtain ⟨-, -, rfl⟩ := eq_of_last_split hsplit (h.convo.symm.trans hconvo) hmid rfl
        fun r hr => (hmid' r hr).1
      exact fun r hr => (hmid' r hr).2
    · rw [hsome, hnone] at heq
      exact nomatch heq
  · intro hmid
    have hwaits : Waits (front ++ u :: mid) u :=
      ⟨h.user, h.text, front, mid, rfl, fun r hr => ⟨h.others r hr, hmid r hr⟩⟩
    obtain ⟨hemits, hanswered⟩ := hwaits.emits_eq h.assistant h.convo
    rw [hemits, hanswered]

/-- **Each exchange is sampled, as long as no other user writes before the answer.** -/
theorem pairExchanges_eq_iff {rows : List SampleRow}
    (hroles : ∀ r ∈ rows, r.role = .user ∨ r.role = .assistant) :
    pairExchanges rows = exchanges rows.reverse ↔ Uninterrupted rows.reverse := by
  have hbefore : ∀ {before a after}, rows.reverse = before ++ a :: after →
      ∀ r ∈ before, r.role = .user ∨ r.role = .assistant := by
    intro before a after heq r hr
    exact hroles r (List.mem_reverse.mp (heq ▸ List.mem_append_left _ hr))
  -- a row makes the sample it should or none, so only the missing ones count
  have hleaves : ∀ x ∈ positions rows.reverse,
      (PairingState.run x.1).emits x.2 = answered x ∨ (PairingState.run x.1).emits x.2 = none := by
    rintro ⟨before, a⟩ hx
    obtain ⟨after, heq⟩ := mem_positions.mp hx
    rcases emits_eq_or a (hbefore heq) with ⟨u, hwaits, hassistant, hconvo⟩ | hnone
    · obtain ⟨hemits, hanswered⟩ := hwaits.emits_eq hassistant hconvo
      exact .inl (hemits.trans hanswered.symm)
    · exact .inr hnone
  rw [pairExchanges, PairingState.samples_run, exchanges, filterMap_eq_filterMap_iff hleaves]
  constructor
  · intro h front u mid a after heq hanswers
    have hx := h (front ++ u :: mid, a) (mem_positions.mpr ⟨after, heq⟩)
    exact (emits_eq_answered_iff (hbefore heq) hanswers).mp hx
  · rintro h ⟨before, a⟩ hx
    obtain ⟨after, heq⟩ := mem_positions.mp hx
    cases hanswered : answered (before, a) with
    | none =>
      rcases hleaves _ hx with hemits | hemits
      · exact hemits.trans hanswered
      · exact hemits
    | some s =>
      -- the row answers `u`, and nothing of its conversation lies in between
      obtain ⟨hassistant, u, hlast, huser, htext, -⟩ := answered_eq_some_iff.mp hanswered
      obtain ⟨hconvo, front, mid, rfl, hmid⟩ := lastOf_eq_some_iff.mp hlast
      have hanswers : AnswersAfter u mid a :=
        ⟨huser, htext, hassistant, hconvo.symm, fun r hr => hconvo ▸ hmid r hr⟩
      rw [← hanswered]
      exact (emits_eq_answered_iff (hbefore heq) hanswers).mpr (h front u mid a after heq hanswers)

/-- The query reads rows of users and of the assistant. -/
theorem role_of_mem_queryRecentMessages {db : SqliteBackend} {limit : Int} {r : SampleRow}
    (hr : r ∈ queryRecentMessages db limit) : r.role = .user ∨ r.role = .assistant := by
  have hrows : r ∈ ((db.rows.filter fun r => r.role = .user || r.role = .assistant).insertionSort
      fun r s => s.Before r).map Row.sampleRow := by
    rw [queryRecentMessages] at hr
    split at hr
    · exact hr
    · exact List.mem_of_mem_take hr
  obtain ⟨row, hrow, rfl⟩ := List.mem_map.mp hrows
  have hselected := (List.mem_filter.mp ((List.mem_insertionSort _).mp hrow)).2
  simpa [Row.sampleRow] using hselected

/-- Two users write in conversations of their own, and the second before the first is answered. -/
def overlapping : SqliteBackend :=
  let asked := SqliteBackend.empty.insert (utf8 "a") { role := .user, content := utf8 "question" } 1
  let both := asked.insert (utf8 "b") { role := .user, content := utf8 "hello" } 2
  both.insert (utf8 "a") { role := .assistant, content := utf8 "answer" } 3

theorem pairExchanges_overlapping :
    pairExchanges (queryRecentMessages overlapping 30) =
        exchanges (queryRecentMessages overlapping 30).reverse ↔
      Uninterrupted (queryRecentMessages overlapping 30).reverse :=
  pairExchanges_eq_iff fun _ hr => role_of_mem_queryRecentMessages hr

/-- **An exchange is lost** when another user writes before the answer. -/
theorem exchange_lost :
    ¬ ∀ rows : List SampleRow, (∀ r ∈ rows, r.role = .user ∨ r.role = .assistant) →
      pairExchanges rows = exchanges rows.reverse := by
  intro hall
  have heq := hall (queryRecentMessages overlapping 30) fun _ hr =>
    role_of_mem_queryRecentMessages hr
  exact absurd heq (by decide)

end Aestival
