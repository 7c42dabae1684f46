import Aestival.Agent.ToolLoop

/-!
# The reply of a turn

A reply should belong to its own turn: it should be the filtered text of an assistant message that
the tool loop of this turn has appended (`OwnReply`). The code looks for the last text of the whole
list, history included. So the reply is the turn's own exactly when the last response of the turn
is a text that is not empty (`reply_own_iff`). Otherwise, when the model has answered nothing or
has used up its rounds with tool calls, the last text of the history is sent once more
(`reply_stale`, `old_reply_sent_again`).
-/

namespace Aestival

open Bytes Prog

/-! ### The scan for the final reply -/

/-- The reply is made from an assistant message behind the ones the tool loop was given. -/
def OwnReply (before after : List ChatMessage) (reply : Bytes) : Prop :=
  ∃ m ∈ after.drop before.length, m.role = .assistant ∧ reply = filterOutput m.content

theorem filterOutput_nil : filterOutput [] = [] := filterOutput_eq_self List.not_mem_nil
    List.not_mem_nil

/-- The results of tools are no replies. -/
theorem role_of_mem_toolResults {calls : List ToolCall} {results : List ChatMessage}
    (h : ToolResults calls results) {m : ChatMessage} (hm : m ∈ results) : m.role = .tool := by
  induction h with
  | nil => exact absurd hm List.not_mem_nil
  | cons hhead _ ih =>
    rcases List.mem_cons.mp hm with rfl | hm
    · obtain ⟨result, rfl⟩ := hhead
      rfl
    · exact ih hm

namespace Transcript

variable {content : Bytes} {t : List ChatMessage}

/-- The assistant messages of a transcript have no text but the final one. -/
theorem content_of_assistant (h : Transcript content t) {m : ChatMessage} (hm : m ∈ t)
    (hrole : m.role = .assistant) : m.content = [] ∨ m.content = content := by
  induction h with
  | exhausted => exact absurd hm List.not_mem_nil
  | text content =>
    obtain rfl := List.mem_singleton.mp hm
    exact Or.inr rfl
  | round _ _ hresults _ ih =>
    rcases List.mem_cons.mp hm with rfl | hm
    · exact Or.inl rfl
    rcases List.mem_append.mp hm with hm | hm
    · rw [role_of_mem_toolResults hresults hm] at hrole
      cases hrole
    · exact ih hm

/-- The text of a transcript is in its last message. -/
theorem ends_with_text (h : Transcript content t) (hne : content ≠ []) :
    ∃ front, t = front ++ [{ role := .assistant, content }] := by
  induction h with
  | exhausted => exact absurd rfl hne
  | text content => exact ⟨[], rfl⟩
  | round _ _ _ _ ih =>
    obtain ⟨front, rfl⟩ := ih hne
    exact ⟨_ :: (_ ++ front), by rw [List.cons_append, List.append_assoc]⟩

/-- A transcript without a text holds no message the reply could be taken from. -/
theorem isReply_eq_false (h : Transcript [] t) {m : ChatMessage} (hm : m ∈ t) :
    isReply m = false := by
  by_cases hrole : m.role = .assistant
  · have hcontent : m.content = [] := (h.content_of_assistant hm hrole).elim id id
    simp [isReply, hcontent]
  · simp [isReply, hrole]

end Transcript

/-- Behind a text the scan stops at once. -/
theorem finalReply_text (messages : List ChatMessage) {content : Bytes} (hne : content ≠ []) :
    finalReply (messages ++ [{ role := .assistant, content }]) = content := by
  have hreply : isReply { role := .assistant, content } = true := by simp [isReply, hne]
  rw [finalReply, List.reverse_append, List.reverse_singleton, List.singleton_append,
    List.find?_cons_of_pos hreply]

/-- Without a text in the transcript the scan goes on into the history. -/
theorem finalReply_history (before : List ChatMessage) {t : List ChatMessage}
    (h : Transcript [] t) : finalReply (before ++ t) = finalReply before := by
  have hnone : t.reverse.find? isReply = none := by
    rw [List.find?_eq_none]
    intro m hm hreply
    rw [h.isReply_eq_false (List.mem_reverse.mp hm)] at hreply
    cases hreply
  rw [finalReply, List.reverse_append, List.find?_append, hnone, Option.none_or]
  rfl

/-- A reply made from the list behind a transcript is the turn's own exactly when the transcript
has a text. -/
theorem ownReply_iff {before t : List ChatMessage} {content reply : Bytes}
    (h : Transcript content t) (hreply : reply = filterOutput (finalReply (before ++ t)))
    (hne : reply ≠ []) : OwnReply before (before ++ t) reply ↔ content ≠ [] := by
  rw [OwnReply, List.drop_left]
  constructor
  · rintro ⟨m, hm, hrole, hfilter⟩ rfl
    -- every assistant message of the turn is empty, and so is what the filter makes of it
    have hcontent : m.content = [] := (h.content_of_assistant hm hrole).elim id id
    rw [hcontent, filterOutput_nil] at hfilter
    exact hne hfilter
  · intro hcontent
    obtain ⟨front, rfl⟩ := h.ends_with_text hcontent
    rw [← List.append_assoc, finalReply_text _ hcontent] at hreply
    exact ⟨_, List.mem_append_right _ (List.mem_singleton_self _), rfl, hreply⟩

/-! ### The turn -/

/-- What is shown of a turn: if it replies, the reply comes from the list behind the transcript of
the tool loop, and the last things it does are to store it and to send it. -/
def Replies (message : MessageEvent) (r : Except Thrown TurnEnd) (record : TurnRecord) : Prop :=
  ∀ before after reply, r = .ok (.replied before after reply) →
    (∃ t, after = before ++ t ∧ Transcript (lastText record) t) ∧
    reply = filterOutput (finalReply after) ∧ reply ≠ [] ∧
    ∃ sent, [⟨.append (conversationOf message) { role := .assistant, content := reply }, ()⟩,
      ⟨.reply message reply, .ok sent⟩] <:+ record

section Turn

variable {agent : AgentController} {message : MessageEvent} {record : TurnRecord}

theorem replies_error {err : Thrown} : Replies message (.error err) record := by
  intro before after reply h
  cases h

/-- The rule for a reply. -/
theorem wp_replyTo {α : Type} {dest : MessageEvent} {content : Bytes} {f : Bool → Turn α}
    {Q : Except Thrown α → TurnRecord → Prop}
    (hok : ∀ sent, wp recordMachine (fun _ _ => True) (f sent) Q
      (record ++ [⟨.reply dest content, .ok sent⟩]))
    (herror : ∀ err record', Q (.error err) record') :
    wp recordMachine (fun _ _ => True) (replyTo dest content >>= f) Q record := by
  rw [wp_bind]
  unfold replyTo
  rw [wp_act_bind]
  refine ⟨trivial, fun sent _ => ?_⟩
  rw [wp_ofExcept]
  cases sent with
  | ok sent => exact hok sent
  | error err => exact herror err _

/-- A notice is no reply of the model. -/
theorem wp_notice {content : Bytes} {ended : TurnEnd}
    (h : ∀ before after reply, ended ≠ .replied before after reply) :
    wp recordMachine (fun _ _ => True) (replyTo message content >>= fun _ => pure ended)
      (Replies message) record := by
  refine wp_replyTo (fun sent => ?_) fun _ _ => replies_error
  intro before after reply hended
  exact absurd (Except.ok.inj hended) (h before after reply)

/-- Behind the tool loop the reply is chosen, stored and sent. -/
theorem wp_deliver {before t : List ChatMessage} (h : Transcript (lastText record) t) :
    wp recordMachine (fun _ _ => True)
      (deliver message (conversationOf message) before (before ++ t)) (Replies message) record := by
  unfold deliver
  split
  · intro _ _ _ hended
    cases Except.ok.inj hended
  show wp _ _ (if filterOutput (finalReply (before ++ t)) = [] then _ else _) _ _
  split
  · exact wp_notice fun _ _ _ hended => by cases hended
  · next hne =>
    rw [wp_act_bind]
    refine ⟨trivial, fun _ _ => ?_⟩
    refine wp_replyTo (fun sent => ?_) fun _ _ => replies_error
    intro before' after reply hended
    cases Except.ok.inj hended
    refine ⟨⟨t, rfl, ?_⟩, rfl, hne, sent, ?_⟩
    · -- neither effect is a response, so the last text is still the one of the transcript
      rw [lastText_concat]
      show Transcript (lastText (record ++ [⟨.append _ _, ()⟩])) t
      rw [lastText_concat]
      exact h
    · exact ⟨record, (List.append_assoc record [_] [_]).symm⟩

theorem wp_runModel (messages : List ChatMessage) :
    wp recordMachine (fun _ _ => True)
      (runModel agent message (conversationOf message) messages) (Replies message) record := by
  unfold runModel
  have hloop : wp recordMachine (fun _ _ => True) (toolLoop agent messages) (LoopEnd messages)
      record := wp_demands (wp_toolLoop agent messages record) fun _ _ _ => trivial
  refine wp_bind_of hloop ?_ fun _ _ _ => replies_error
  intro after record₁ hafter
  obtain ⟨t, rfl, ht⟩ := hafter after rfl
  -- storing the rounds leaves the last text
  have hpersist : wp recordMachine (fun _ e => ∃ m, e = .append (conversationOf message) m)
      (persistToolMessages (conversationOf message) ((messages ++ t).drop messages.length))
      (fun _ record₂ => True ∧ lastText record₂ = lastText record₁) record₁ := by
    refine wp_keepsText ?_ (wp_persistToolMessages _ _ _) rfl
    rintro _ ⟨m, rfl⟩ x
    rfl
  refine wp_bind_of (wp_demands hpersist fun _ _ _ => trivial) ?_ fun _ _ _ => replies_error
  rintro _ record₂ ⟨-, htext⟩
  -- which is the reply
  exact wp_deliver (htext.symm ▸ ht)

theorem wp_answerMessage :
    wp recordMachine (fun _ _ => True) (answerMessage agent message (conversationOf message))
      (Replies message) record := by
  unfold answerMessage
  split
  swap
  · exact wp_notice fun _ _ _ hended => by cases hended
  rw [wp_act_bind]
  refine ⟨trivial, fun _ _ => ?_⟩
  -- what happens before the policy check does not matter here
  refine wp_bind_of (wp_trivial _) (fun _ _ _ => ?_) fun _ _ _ => replies_error
  refine wp_bind_of (wp_trivial _) (fun list _ _ => ?_) fun _ _ _ => replies_error
  refine wp_bind_of (wp_trivial _) (fun refusal _ _ => ?_) fun _ _ _ => replies_error
  cases refusal with
  | some reason => exact wp_notice fun _ _ _ hended => by cases hended
  | none => exact wp_runModel _

theorem wp_processAgentMessage :
    wp recordMachine (fun _ _ => True) (processAgentMessage agent message) (Replies message)
      record := by
  unfold processAgentMessage
  rw [wp_act_bind]
  refine ⟨trivial, fun _ _ => ?_⟩
  rw [wp_tryCatch]
  refine wp_mono wp_answerMessage ?_
  intro r record' hr
  cases r with
  | ok ended => exact hr
  | error err => exact wp_notice fun _ _ _ hended => by cases hended

end Turn

/-! ### Whose reply it is -/

section Runs

variable {σ : Type} {M : Machine TurnSig σ} {s s' : σ} {tr : List (Event TurnSig σ)}
  {agent : AgentController} {message : MessageEvent} {before after : List ChatMessage}
  {reply : Bytes}

/-- What holds of the record of a turn that replies. -/
theorem replies_of_exec {r : Except Thrown TurnEnd}
    (h : Exec M s (processAgentMessage agent message) tr s' r) :
    Replies message r (inputs tr) := by
  obtain ⟨tr', htr'⟩ := h.recorded []
  exact (htr'.of_wp wp_processAgentMessage).1

/-- A turn that replies has stored the reply and then sent it. -/
theorem replied_stored_and_sent
    (h : Exec M s (processAgentMessage agent message) tr s' (.ok (.replied before after reply))) :
    ∃ sent, [⟨.append (conversationOf message) { role := .assistant, content := reply }, ()⟩,
      ⟨.reply message reply, .ok sent⟩] <:+ inputs tr :=
  (replies_of_exec h before after reply rfl).2.2.2

/-- **Whose reply it is.** The reply a turn stores and sends is its own exactly when the last
response of its tool loop is a text that is not empty. -/
theorem reply_own_iff
    (h : Exec M s (processAgentMessage agent message) tr s' (.ok (.replied before after reply))) :
    OwnReply before after reply ↔ lastText (inputs tr) ≠ [] := by
  obtain ⟨⟨t, rfl, ht⟩, hreply, hne, -⟩ := replies_of_exec h before after reply rfl
  exact ownReply_iff ht hreply hne

/-- Any other reply is the last text of the history, filtered again. -/
theorem reply_stale
    (h : Exec M s (processAgentMessage agent message) tr s' (.ok (.replied before after reply)))
    (hown : ¬ OwnReply before after reply) : reply = filterOutput (finalReply before) := by
  obtain ⟨⟨t, rfl, ht⟩, hreply, hne, -⟩ := replies_of_exec h before after reply rfl
  have htext : lastText (inputs tr) = [] := by
    by_contra htext
    exact hown ((ownReply_iff ht hreply hne).mpr htext)
  rw [htext] at ht
  rw [hreply, finalReply_history before ht]

end Runs

/-! ### A turn behind an answered one -/

/-- The world in which `u` has asked something and was answered. -/
def answeredWorld : World where
  store := ListStore.empty.save (utf8 "c2c:u")
    [{ role := .user, content := utf8 "a" }, { role := .assistant, content := utf8 "old" }]

/-- The list the next turn hands to the tool loop. -/
def answeredList : List ChatMessage :=
  [{ role := .system, content := utf8 "当前时间: " }, { role := .user, content := utf8 "a" },
    { role := .assistant, content := utf8 "old" }, { role := .user, content := utf8 "b" }]

/-- The next turn, with a model that answers `content`. -/
def nextTurn (content : Bytes) : List (Event TurnSig World) × World × Except Thrown TurnEnd :=
  simulateTurn { model := fun _ => .ok { content } } (plainAgent {}) (privateMessage (utf8 "b"))
    answeredWorld

theorem nextTurn_new : (nextTurn (utf8 "new")).2.2 = .ok (.replied answeredList
    (answeredList ++ [{ role := .assistant, content := utf8 "new" }]) (utf8 "new")) := rfl

theorem nextTurn_empty : (nextTurn []).2.2 = .ok (.replied answeredList
    (answeredList ++ [{ role := .assistant, content := [] }]) (utf8 "old")) := rfl

/-- A new text is the reply of its turn. -/
theorem reply_own_new :
    OwnReply answeredList (answeredList ++ [{ role := .assistant, content := utf8 "new" }])
      (utf8 "new") ↔ lastText (inputs (nextTurn (utf8 "new")).1) ≠ [] := by
  have hexec := exec_simulateTurn { model := fun _ => .ok { content := utf8 "new" } }
    (plainAgent {}) (privateMessage (utf8 "b")) answeredWorld
  exact reply_own_iff (nextTurn_new ▸ hexec)

/-- **An old reply is sent again.** The model answers with an empty text, so the scan finds the
reply of the turn before. -/
theorem old_reply_sent_again :
    ¬ ∀ (agent : AgentController) (message : MessageEvent) (w w' : World)
      (tr : List (Event TurnSig World)) (before after : List ChatMessage) (reply : Bytes),
      Exec World.machine w (processAgentMessage agent message) tr w'
        (.ok (.replied before after reply)) → OwnReply before after reply := by
  intro hall
  have hexec := exec_simulateTurn { model := fun _ => .ok { content := [] } } (plainAgent {})
    (privateMessage (utf8 "b")) answeredWorld
  obtain ⟨m, hm, -, hreply⟩ := hall _ _ _ _ _ _ _ _ (nextTurn_empty ▸ hexec)
  -- the only message behind the list is the empty one
  obtain rfl := List.mem_singleton.mp hm
  rw [filterOutput_nil] at hreply
  exact absurd hreply (by decide)

end Aestival
