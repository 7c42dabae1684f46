import Aestival.Chat.Pairing

/-!
# Complete rounds

The function-calling API asks for more than `WellPaired`: behind an assistant message with tool
calls stands one result for each of the calls, in their order, before anything else. `Rounds` are
the lists that are made of such rounds and of plain messages. Which ids a text of tool calls has is
left open here (`CallIds`).

A list is made of rounds in one way only, so it can be taken apart in front of every message that is
no tool result (`Rounds.split`). A summary keeps a final part of the conversation; if it cuts in
front of such a message, it keeps the rounds complete (`rounds_finishSummary`).
-/

namespace Aestival

section Rounds

variable (CallIds : Bytes → List Bytes → Prop)

/-- One result for each id. -/
def Results : List Bytes → List ChatMessage → Prop :=
  List.Forall₂ fun id m => m.role = .tool ∧ m.toolCallId = id

/-- A message that is no part of a round. -/
structure Plain (m : ChatMessage) : Prop where
  not_tool : m.role ≠ .tool
  no_calls : m.role = .assistant → m.toolCallsJson = []

/-- Plain messages and complete rounds. -/
inductive Rounds : List ChatMessage → Prop
  | nil : Rounds []
  | plain {m : ChatMessage} {l : List ChatMessage} (hm : Plain m) (hl : Rounds l) : Rounds (m :: l)
  | round {a : ChatMessage} {ids : List Bytes} {results l : List ChatMessage}
    (ha : a.role = .assistant) (hcalls : a.toolCallsJson ≠ []) (hids : CallIds a.toolCallsJson ids)
    (hresults : Results ids results) (hl : Rounds l) : Rounds (a :: (results ++ l))

variable {CallIds} {k l : List ChatMessage} {m : ChatMessage}

/-! ### Parts -/

theorem Results.role_eq {ids : List Bytes} {results : List ChatMessage} (h : Results ids results)
    (hm : m ∈ results) : m.role = .tool := by
  induction h with
  | nil => cases hm
  | cons hid _ ih =>
    rcases List.mem_cons.mp hm with rfl | hm
    · exact hid.1
    · exact ih hm

theorem Rounds.append (hk : Rounds CallIds k) (hl : Rounds CallIds l) :
    Rounds CallIds (k ++ l) := by
  induction hk with
  | nil => exact hl
  | plain hm _ ih => exact .plain hm ih
  | round ha hcalls hids hresults _ ih =>
    rw [List.cons_append, List.append_assoc]
    exact .round ha hcalls hids hresults ih

/-- Plain messages only. -/
theorem rounds_of_plain (h : ∀ m ∈ l, Plain m) : Rounds CallIds l := by
  induction l with
  | nil => exact .nil
  | cons m l ih =>
    exact .plain (h m (List.mem_cons_self ..)) (ih fun x hx => h x (List.mem_cons_of_mem _ hx))

/-- One more plain message. -/
theorem Rounds.concat (hl : Rounds CallIds l) (hm : Plain m) : Rounds CallIds (l ++ [m]) :=
  hl.append (.plain hm .nil)

/-- A plain message among plain ones in front. -/
theorem Rounds.insertIdx (hl : Rounds CallIds l) (hm : Plain m) (hk : ∀ x ∈ k, Plain x) {n : Nat}
    (hn : n ≤ k.length) : Rounds CallIds ((k ++ l).insertIdx n m) := by
  induction k generalizing n with
  | nil =>
    obtain rfl : n = 0 := Nat.le_zero.mp hn
    exact .plain hm hl
  | cons x k ih =>
    have hrest : ∀ y ∈ k, Plain y := fun y hy => hk y (List.mem_cons_of_mem _ hy)
    cases n with
    | zero => exact .plain hm (Rounds.append (rounds_of_plain hk) hl)
    | succ n =>
      rw [List.cons_append, List.insertIdx_succ_cons]
      exact .plain (hk x (List.mem_cons_self ..)) (ih hrest (Nat.le_of_succ_le_succ hn))

/-- Behind plain messages. -/
theorem Rounds.behind (h : Rounds CallIds (k ++ l)) (hk : ∀ x ∈ k, Plain x) :
    Rounds CallIds l := by
  induction k with
  | nil => exact h
  | cons x k ih =>
    refine ih ?_ fun y hy => hk y (List.mem_cons_of_mem _ hy)
    rw [List.cons_append] at h
    generalize hwhole : x :: (k ++ l) = whole at h
    cases h with
    | nil => cases hwhole
    | plain hm hl =>
      obtain ⟨-, rfl⟩ := List.cons.inj hwhole
      exact hl
    -- a plain message begins no round
    | round ha hcalls hids hresults hl =>
      obtain ⟨rfl, -⟩ := List.cons.inj hwhole
      exact absurd ((hk _ (List.mem_cons_self ..)).no_calls ha) hcalls

/-- In front of a message that is no tool result the list can be taken apart. -/
theorem Rounds.split (h : Rounds CallIds (k ++ m :: l)) (hm : m.role ≠ .tool) :
    Rounds CallIds k ∧ Rounds CallIds (m :: l) := by
  generalize hwhole : k ++ m :: l = whole at h
  induction h generalizing k with
  | nil => cases (List.append_eq_nil_iff.mp hwhole).2
  | @plain x whole hx hrest ih =>
    -- the cut is in front of this message or behind it
    cases k with
    | nil =>
      rw [List.nil_append] at hwhole
      exact ⟨.nil, hwhole ▸ .plain hx hrest⟩
    | cons y k =>
      obtain ⟨rfl, htail⟩ := List.cons.inj hwhole
      obtain ⟨hk, hl⟩ := ih htail
      exact ⟨.plain hx hk, hl⟩
  | @round a ids results rest ha hcalls hids hresults hrest ih =>
    cases k with
    | nil =>
      rw [List.nil_append] at hwhole
      exact ⟨.nil, hwhole ▸ .round ha hcalls hids hresults hrest⟩
    | cons y k =>
      obtain ⟨rfl, htail⟩ := List.cons.inj hwhole
      -- or behind the round, or within it
      rcases List.append_eq_append_iff.mp htail with ⟨mid, rfl, hmid⟩ | ⟨mid, rfl, hmid⟩
      · -- the message would stand among the results
        cases mid with
        | nil =>
          rw [List.nil_append] at hmid
          obtain ⟨-, hl⟩ := ih (k := []) hmid
          rw [List.append_nil] at hresults
          have hk : Rounds CallIds (y :: (k ++ [])) := .round ha hcalls hids hresults .nil
          rw [List.append_nil] at hk
          exact ⟨hk, hl⟩
        | cons x mid =>
          obtain ⟨rfl, -⟩ := List.cons.inj hmid
          have hmem : m ∈ k ++ m :: mid := List.mem_append_right _ (List.mem_cons_self ..)
          exact absurd (hresults.role_eq hmem) hm
      -- the round stays whole
      · obtain ⟨hk, hl⟩ := ih hmid.symm
        exact ⟨.round ha hcalls hids hresults hk, hl⟩

/-- The system messages may be left out. -/
theorem Rounds.filter (h : Rounds CallIds l) : Rounds CallIds (l.filter isTurnMessage) := by
  induction h with
  | nil => exact .nil
  | @plain m l hm _ ih =>
    rw [List.filter_cons]
    split
    · exact .plain hm ih
    · exact ih
  | @round a ids results l ha hcalls hids hresults _ ih =>
    have hall : ∀ x ∈ results, isTurnMessage x = true := fun x hx => by
      simp [isTurnMessage, hresults.role_eq hx]
    rw [List.filter_cons_of_pos (by simp [isTurnMessage, ha]), List.filter_append,
      List.filter_eq_self.mpr hall]
    exact .round ha hcalls hids hresults ih

/-! ### What a summary keeps -/

/-- The turn messages of a final part, if the first of them is no tool result. -/
theorem Rounds.kept (hl : Rounds CallIds l) (hk : k <:+ l)
    (hcut : ∀ m ∈ (k.filter isTurnMessage).head?, m.role ≠ .tool) :
    Rounds CallIds (k.filter isTurnMessage) := by
  obtain ⟨front, rfl⟩ := hk
  induction k generalizing front with
  | nil => exact .nil
  | cons m k ih =>
    by_cases hsystem : isTurnMessage m = true
    · rw [List.filter_cons_of_pos hsystem] at hcut
      exact (hl.split (hcut m rfl)).2.filter
    · rw [List.filter_cons_of_neg hsystem] at hcut ⊢
      refine ih hcut (front ++ [m]) ?_
      rw [List.append_assoc]
      exact hl

theorem plain_of_system (h : m.role = .system) : Plain m := by
  constructor
  · rw [h]
    nofun
  · rw [h]
    nofun

/-- In front of what a summary keeps stand system messages only. -/
theorem Rounds.summary (hk : Rounds CallIds k) (messages : List ChatMessage) (summary : Bytes) :
    Rounds CallIds (messages.filter isSystemPrompt ++ [summaryMessage summary] ++ k) := by
  refine Rounds.append (rounds_of_plain fun m hm => plain_of_system ?_) hk
  rcases List.mem_append.mp hm with hm | hm
  · have hprompt := (List.mem_filter.mp hm).2
    simp only [isSystemPrompt, Bool.and_eq_true, decide_eq_true_eq] at hprompt
    exact hprompt.1
  · rw [List.mem_singleton.mp hm]
    rfl

end Rounds

/-- **A summary that cuts between rounds keeps them complete**, if nothing was added to the
conversation meanwhile. -/
theorem rounds_finishSummary {CallIds : Bytes → List Bytes → Prop} {reply : Completion}
    {l l' : List ChatMessage} (hl : Rounds CallIds l) (hbig : ¬ totalBytes l ≤ kMaxTotalBytes)
    (hcut : CutBetweenRounds reply l) (h : finishSummary l.length reply l = some l') :
    Rounds CallIds l' := by
  match reply, h with
  | .ok (c :: cs), h =>
    -- the model has answered: the last messages are kept
    have hlen : ¬ l.length < l.length := lt_irrefl _
    have hstart : (if l.length > kKeepLast then l.length - kKeepLast else 0) =
        l.length - kKeepLast := by
      split <;> omega
    simp only [finishSummary, commitSummary, hlen, if_false, hstart, List.take_length,
      List.drop_length, List.append_nil, Option.some.injEq] at h
    rw [← h]
    exact (hl.kept (List.drop_suffix _ l) hcut).summary _ _
  | .error e, h =>
    simp only [finishSummary, commitFallback_eq, List.take_length, List.drop_length,
      List.append_nil, Option.some.injEq] at h
    -- it has not: what the fallback does not absorb is kept
    have hsuffix := absorb_suffix (absorbStart l) l
    have hhead : ∀ m ∈ ((absorb (absorbStart l) l).2.filter isTurnMessage).head?,
        m.role ≠ .tool := by
      rw [head?_absorb]
      exact hcut
    rw [← h]
    unfold summarizeIfNeeded
    rw [if_neg hbig]
    -- without a summary the conversation stays as it is
    show Rounds CallIds (if (absorb (absorbStart l) l).1 = [] then l else _)
    split
    · exact hl
    · exact (hl.kept hsuffix hhead).summary _ _

end Aestival
