import Aestival.Chat.Sqlite

/-!
# The SQLite backend and the in-order list store

`load_run_of_everyAppendLast` is the refinement: whatever calls are made, as long as no append is
stamped earlier than a row of its conversation, every conversation loads exactly as the list store
has it. The condition is about the state an append meets. It fails when a `save` of `k` messages is
followed within `k - 1` milliseconds by an append to the same conversation
(`append_within_batch`): the appended row then sorts between the rows of the batch.

The proof carries `InOrder` through the calls. `InOrder.insert` is the one place where a row is
added; `save` is a deletion followed by insertions whose times grow with the position, so it needs
no condition.
-/

namespace Aestival

open Bytes

namespace SqliteBackend

variable {db : SqliteBackend} {c d : Bytes} {m : ChatMessage} {t : Int}

/-! ### The rows of a conversation after a statement -/

theorem rowsOf_insert_self (db : SqliteBackend) (c : Bytes) (m : ChatMessage) (t : Int) :
    ∃ r : Row, (db.insert c m t).rowsOf c = db.rowsOf c ++ [r] ∧ r.createdAt = t ∧
      (TextOk m → r.message = m) := by
  refine ⟨⟨db.lastId + 1, cStr c, m.role, cStr m.senderNick, cStr m.content, cStr m.toolCallId,
    cStr m.toolCallsJson, t⟩, ?_, rfl, fun h => ?_⟩
  · simp [rowsOf, SqliteBackend.insert]
  · simp only [Row.message, cStr_eq_self h.nick_nul, cStr_eq_self h.content_nul,
      cStr_eq_self h.toolCallId_nul, cStr_eq_self h.toolCallsJson_nul]

theorem rowsOf_insert_of_ne (h : cStr c ≠ cStr d) : (db.insert c m t).rowsOf d = db.rowsOf d := by
  simp [rowsOf, SqliteBackend.insert, h]

@[simp] theorem rowsOf_deleteConvo_self : (db.deleteConvo c).rowsOf c = [] := by
  simp [rowsOf, deleteConvo]

theorem rowsOf_deleteConvo_of_ne (h : cStr d ≠ cStr c) :
    (db.deleteConvo c).rowsOf d = db.rowsOf d := by
  simp only [rowsOf, deleteConvo, List.filter_filter]
  refine List.filter_congr fun r _ => ?_
  by_cases hr : r.convoId = cStr d
  · simp [hr, h]
  · simp [hr]

end SqliteBackend

/-! ### The refinement relation -/

/-- `db` implements `st` on the conversations of `ids`: ids grow with insertion, and in every
conversation the rows have nondecreasing times and carry the messages of `st`. -/
structure InOrder (ids : Set Bytes) (db : SqliteBackend) (st : ListStore) : Prop where
  /-- Rows are inserted with growing ids. -/
  ids_sorted : db.rows.Pairwise fun r s => r.id < s.id
  /-- No id is larger than the last one given out. -/
  ids_le : ∀ r ∈ db.rows, r.id ≤ db.lastId
  /-- In each conversation the times grow with insertion. -/
  times : ∀ c ∈ ids, (db.rowsOf c).Pairwise fun r s => r.createdAt ≤ s.createdAt
  /-- In each conversation the rows carry the list. -/
  messages : ∀ c ∈ ids, (db.rowsOf c).map Row.message = st.load c

namespace InOrder

variable {ids : Set Bytes} {db : SqliteBackend} {st : ListStore} {c : Bytes}

theorem initial (ids : Set Bytes) : InOrder ids .empty .empty where
  ids_sorted := List.Pairwise.nil
  ids_le := fun _ h => absurd h List.not_mem_nil
  times := fun _ _ => List.Pairwise.nil
  messages := fun _ _ => rfl

/-- `ORDER BY created_at, id` returns the rows of a conversation as they were inserted. -/
theorem load_eq (h : InOrder ids db st) (hc : c ∈ ids) : db.load c = st.load c := by
  have hids : (db.rowsOf c).Pairwise fun r s => r.id < s.id :=
    h.ids_sorted.sublist List.filter_sublist
  have hsorted : (db.rowsOf c).Pairwise Row.Before := by
    refine (hids.and (h.times c hc)).imp fun {r s} hrs => ?_
    rcases lt_or_eq_of_le hrs.2 with hlt | heq
    · exact Or.inl hlt
    · exact Or.inr ⟨heq, hrs.1.le⟩
  rw [SqliteBackend.load, hsorted.insertionSort_eq, h.messages c hc]

/-- Inserting a row that is not older than the rows of its conversation appends its message. -/
theorem insert (h : InOrder ids db st) (hinj : Set.InjOn cStr ids) (hc : c ∈ ids)
    {m : ChatMessage} (hm : TextOk m) {t : Int} (ht : ∀ r ∈ db.rowsOf c, r.createdAt ≤ t) :
    InOrder ids (db.insert c m t) (st.appendMessage c m) := by
  obtain ⟨r, hrows, hrt, hrm⟩ := SqliteBackend.rowsOf_insert_self db c m t
  -- the keys of the conversations differ up to their first NUL
  have hother : ∀ d ∈ ids, d ≠ c → (db.insert c m t).rowsOf d = db.rowsOf d := fun d hd hne =>
    SqliteBackend.rowsOf_insert_of_ne fun heq => hne (hinj hd hc heq.symm)
  constructor
  · -- the new id is above all ids of the table
    refine List.pairwise_append.mpr ⟨h.ids_sorted, List.pairwise_singleton .., ?_⟩
    intro a ha b hb
    obtain rfl := List.mem_singleton.mp hb
    exact Nat.lt_succ_of_le (h.ids_le a ha)
  -- the sequence has counted the new row
  · intro a ha
    rcases List.mem_append.mp ha with ha | ha
    · exact Nat.le_succ_of_le (h.ids_le a ha)
    · obtain rfl := List.mem_singleton.mp ha
      exact Nat.le_refl _
  -- the new row is the last in time as well
  · intro d hd
    by_cases hdc : d = c
    · subst hdc
      rw [hrows]
      refine List.pairwise_append.mpr ⟨h.times d hd, List.pairwise_singleton .., ?_⟩
      intro a ha b hb
      obtain rfl := List.mem_singleton.mp hb
      rw [hrt]
      exact ht a ha
    · rw [hother d hd hdc]
      exact h.times d hd
  · intro d hd
    by_cases hdc : d = c
    · subst hdc
      rw [hrows, List.map_append, h.messages d hd, List.map_singleton, hrm hm,
        ListStore.load_appendMessage]
    · rw [hother d hd hdc, h.messages d hd]
      exact (st.load_exec_ne (.appendMessage c m) hdc).symm

/-- Deleting the rows of a conversation empties it. -/
theorem deleteConvo (h : InOrder ids db st) (hinj : Set.InjOn cStr ids) (hc : c ∈ ids) :
    InOrder ids (db.deleteConvo c) (st.clearMessages c) := by
  -- the rows of the others stay
  have hother : ∀ d ∈ ids, d ≠ c → (db.deleteConvo c).rowsOf d = db.rowsOf d := fun d hd hne =>
    SqliteBackend.rowsOf_deleteConvo_of_ne fun heq => hne (hinj hd hc heq)
  -- fewer rows are in order still, and the highest id is not reused
  constructor
  · exact h.ids_sorted.sublist List.filter_sublist
  · exact fun r hr => h.ids_le r (List.mem_of_mem_filter hr)
  · intro d hd
    by_cases hdc : d = c
    · subst hdc
      rw [SqliteBackend.rowsOf_deleteConvo_self]
      exact List.Pairwise.nil
    · rw [hother d hd hdc]
      exact h.times d hd
  · intro d hd
    by_cases hdc : d = c
    · subst hdc
      simp
    · rw [hother d hd hdc, h.messages d hd]
      exact (st.load_exec_ne (.clearMessages c) hdc).symm

/-- The loop of `save` appends its messages: the `i`-th row is stamped `now + i`, so no row of the
conversation is later than the next one. -/
theorem insertFrom (hinj : Set.InjOn cStr ids) (hc : c ∈ ids) (now : Int) :
    ∀ (msgs : List ChatMessage) (i : Nat) {db : SqliteBackend} {st : ListStore},
      InOrder ids db st → (∀ m ∈ msgs, TextOk m) →
      (∀ r ∈ db.rowsOf c, r.createdAt ≤ now + i) →
      InOrder ids (db.insertFrom c now i msgs) (st.save c (st.load c ++ msgs)) := by
  intro msgs
  induction msgs with
  | nil =>
    intro i db st h _ _
    have hsame : st.save c (st.load c ++ []) = st := by
      rw [List.append_nil]
      exact Function.update_eq_self c st
    rw [hsame]
    exact h
  | cons m ms ih =>
    intro i db st h hm ht
    have hstep := h.insert hinj hc (hm m (List.mem_cons_self ..)) ht
    -- the rows of the conversation stay behind the time of the next message
    have hnext : ∀ r ∈ (db.insert c m (now + i)).rowsOf c, r.createdAt ≤ now + (i + 1 : Nat) := by
      intro r hr
      obtain ⟨s, hrows, hst, -⟩ := SqliteBackend.rowsOf_insert_self db c m (now + i)
      rw [hrows] at hr
      rcases List.mem_append.mp hr with hr | hr
      · have := ht r hr
        push_cast
        omega
      · obtain rfl := List.mem_singleton.mp hr
        rw [hst]
        push_cast
        omega
    have := ih (i + 1) hstep (fun x hx => hm x (List.mem_cons_of_mem _ hx)) hnext
    rw [ListStore.load_appendMessage] at this
    have hsave : (st.appendMessage c m).save c (st.load c ++ [m] ++ ms) =
        st.save c (st.load c ++ m :: ms) := by
      rw [List.append_assoc, List.singleton_append]
      exact Function.update_idem ..
    rw [hsave] at this
    exact this

/-- The loop of `save` on an empty conversation stores the list as it is. -/
theorem insertFrom_zero (h : InOrder ids db (st.clearMessages c)) (hinj : Set.InjOn cStr ids)
    (hc : c ∈ ids) (now : Int) {msgs : List ChatMessage} (hm : ∀ m ∈ msgs, TextOk m)
    (hrows : db.rowsOf c = []) :
    InOrder ids (db.insertFrom c now 0 msgs) (st.save c msgs) := by
  have hsave := insertFrom hinj hc now msgs 0 h hm (by simp [hrows])
  rw [ListStore.load_clearMessages, List.nil_append] at hsave
  have hst : (st.clearMessages c).save c msgs = st.save c msgs := Function.update_idem ..
  rw [hst] at hsave
  exact hsave

/-- **One call.** Every call preserves the relation, provided an append ends up last. -/
theorem exec (h : InOrder ids db st) (hinj : Set.InjOn cStr ids) {tc : TimedCall}
    (hc : tc.call.convoId ∈ ids) (htext : ∀ m ∈ tc.call.messages, TextOk m)
    (hlast : AppendsLast db tc) :
    InOrder ids (db.exec tc) (st.exec tc.call) := by
  obtain ⟨now, call⟩ := tc
  cases call with
  | save c msgs =>
    change c ∈ ids at hc
    exact (h.deleteConvo hinj hc).insertFrom_zero hinj hc now htext
      SqliteBackend.rowsOf_deleteConvo_self
  | appendMessage c m =>
    have hm : TextOk m := htext m (List.mem_singleton_self m)
    have hsan : { m with senderNick := sanitizeUtf8 m.senderNick
                         content := sanitizeUtf8 m.content } = m := by
      rw [sanitizeUtf8_of_valid hm.nick_utf8, sanitizeUtf8_of_valid hm.content_utf8]
    change InOrder ids (db.appendMessage now c m) _
    rw [SqliteBackend.appendMessage, hsan]
    exact h.insert hinj hc hm hlast
  | clearMessages c => exact h.deleteConvo hinj hc

/-- **A run of calls.** -/
theorem run (hinj : Set.InjOn cStr ids) :
    ∀ (calls : List TimedCall) {db : SqliteBackend} {st : ListStore}, InOrder ids db st →
      (∀ tc ∈ calls, tc.call.convoId ∈ ids) →
      (∀ tc ∈ calls, ∀ m ∈ tc.call.messages, TextOk m) →
      EveryAppendLast db calls → InOrder ids (db.run calls) (st.run calls) := by
  intro calls
  induction calls with
  | nil => intro db st h _ _ _; exact h
  | cons tc calls ih =>
    intro db st h hc ht hlast
    refine ih (h.exec hinj (hc tc (List.mem_cons_self ..)) (ht tc (List.mem_cons_self ..)) hlast.1)
      (fun x hx => hc x (List.mem_cons_of_mem _ hx))
      (fun x hx => ht x (List.mem_cons_of_mem _ hx)) hlast.2

end InOrder

/-- The condition on appends is about each call alone, so it holds along every prefix. -/
theorem EveryAppendLast.of_append :
    ∀ {calls rest : List TimedCall} {db : SqliteBackend},
      EveryAppendLast db (calls ++ rest) → EveryAppendLast db calls
  | [], _, _, _ => trivial
  | _ :: _, _, _, h => ⟨h.1, h.2.of_append⟩

/-- Calls after a point do not matter for what is admissible up to it. -/
theorem Admissible.of_append {ids : Set Bytes} {calls rest : List TimedCall}
    (h : Admissible ids (calls ++ rest)) : Admissible ids calls where
  clock := (List.pairwise_append.mp h.clock).1
  texts := fun tc htc => h.texts tc (List.mem_append_left _ htc)
  convos := fun tc htc => h.convos tc (List.mem_append_left _ htc)
  ids_inj := h.ids_inj

/-! ### The refinement and its limit -/

/-- **The backend refines the list store** along every run in which an append is never stamped
earlier than a row of its conversation: at each point of the run (`calls`, with `rest` still to
come) every conversation loads as the list store has it. -/
theorem load_run_of_everyAppendLast {ids : Set Bytes} (calls rest : List TimedCall)
    (h : Admissible ids (calls ++ rest)) (hlast : EveryAppendLast .empty (calls ++ rest)) :
    LoadsInOrder ids calls := by
  have hcalls := h.of_append
  intro c hc
  exact ((InOrder.initial ids).run hcalls.ids_inj calls hcalls.convos hcalls.texts
    hlast.of_append).load_eq hc

/-- Two messages saved at 0 ms and one appended at 2 ms: the run meets the condition. -/
theorem load_run_of_everyAppendLast_two_then_one :
    LoadsInOrder plainIds
      [⟨0, .save [99] [{ role := .user, content := [1] }, { role := .user, content := [2] }]⟩,
       ⟨2, .appendMessage [99] { role := .user, content := [3] }⟩] :=
  load_run_of_everyAppendLast _ [] (by decide) (by decide)

/-- **Where the refinement fails.** Two messages are saved at 0 ms, so the second row is stamped
1 ms; a message appended within the same millisecond is loaded between them. -/
theorem append_within_batch :
    ¬ ∀ calls : List TimedCall, Admissible plainIds calls → LoadsInOrder plainIds calls := by
  intro hall
  have hload := hall
    [⟨0, .save [99] [{ role := .user, content := [1] }, { role := .user, content := [2] }]⟩,
     ⟨0, .appendMessage [99] { role := .user, content := [3] }⟩] (by decide)
    [99] (by decide : (0 : UInt8) ∉ [(99 : UInt8)])
  exact absurd hload (by decide)

end Aestival
