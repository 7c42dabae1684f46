import Aestival.Agent.McpRuns

/-!
# A call that runs alone

`McpClient.executeTool` is a function of the lines that wait in the pipe, and knows of one call at a
time. With nobody else at the pipes, with a server that has written its lines when they are read,
and with time to read what is there, a call of a session does the same (`executeTool_alone`). So
what holds of calls one after the other holds of a session whose calls do not overlap.
-/

namespace Aestival

open Json McpClient Prog

namespace McpSession

/-- The client of one exchange at a time. The server has written its lines when it is read from. -/
def exchangeMachine (x : Exchange) : Machine McpSig McpClient where
  admits := fun s e a =>
    match e, a with
    | .takeId, id => id = s.nextId
    | .write _, failed => failed = none
    | .deadline, lines => s.pipe.length < lines
    | .readLine, line => line = s.pipe.headD .empty
    | .isConnected, connected => connected = s.connected
    | _, _ => True
  next := fun s e _ =>
    match e with
    | .takeId => { s with nextId := s.nextId + 1 }
    | .write line => { s with pipe := s.pipe ++ x.serverLines line }
    | .readLine => { s with pipe := s.pipe.tail }
    | .setConnected connected => { s with connected }
    | _ => s

section Alone

variable {x : Exchange} {s : McpClient}

/-- There is time for the whole search. -/
theorem wp_receive_alone (id : Int64) {lines : Nat} (hlines : s.pipe.length < lines) :
    wp (exchangeMachine x) (fun _ _ => True) (receive id lines)
      (fun r s' => r = (readResponse id s.pipe).1.mapError .reader ∧
        s' = { s with pipe := (readResponse id s.pipe).2 }) s := by
  -- the deadline is not reached: there are fewer lines than it allows
  induction lines generalizing s with
  | zero => exact absurd hlines (Nat.not_lt_zero _)
  | succ lines ih =>
    unfold receive
    rw [doing_bind_iff]
    refine ⟨trivial, fun line hline => ?_⟩
    have hline' : line = s.pipe.headD .empty := hline
    obtain ⟨connected, nextId, pipe⟩ := s
    cases pipe with
    -- an empty pipe answers with an empty line
    | nil =>
      subst hline'
      exact ⟨rfl, rfl⟩
    | cons first rest =>
      have hrest : rest.length < lines := Nat.lt_of_succ_lt_succ hlines
      have hmore := ih (s := ⟨connected, nextId, rest⟩) hrest
      obtain rfl : line = first := hline'
      cases line with
      -- a line that cannot be read or answers another id is skipped
      | empty => exact ⟨rfl, rfl⟩
      | text t =>
        cases t with
        | malformed => exact hmore
        | document msg =>
          simp only [readLine, readResponse]
          cases checkMessage id msg.json with
          | error e => exact ⟨rfl, rfl⟩
          | ok result =>
            cases result with
            | none => exact hmore
            | some result => exact ⟨rfl, rfl⟩

/-- What is left of the client when a request has ended. -/
theorem wp_sendRequest_alone (call : ToolRequest) (s : McpClient) :
    wp (exchangeMachine x) (fun _ _ => True) (sendRequest call.line)
      (fun r s' => match call.line s.nextId with
        | .error e => r = .error (.reader e) ∧ s' = { s with nextId := s.nextId + 1 }
        | .ok line =>
          r = (readResponse (.ofInt s.nextId) (s.pipe ++ x.serverLines line)).1.mapError .reader ∧
            s' = { s with
              nextId := s.nextId + 1,
              pipe := (readResponse (.ofInt s.nextId) (s.pipe ++ x.serverLines line)).2 }) s := by
  unfold sendRequest withLock
  rw [doing_bind_iff]
  -- nobody else holds the lock
  refine ⟨trivial, fun _ _ => ?_⟩
  rw [wp_bind, wp_tryCatch, doing_bind_iff]
  refine ⟨trivial, fun id hid => ?_⟩
  obtain rfl : id = s.nextId := hid
  cases call.line s.nextId with
  | error e => exact ⟨trivial, fun _ _ => ⟨rfl, rfl⟩⟩
  | ok line =>
    dsimp only
    unfold writeLine
    rw [wp_bind, doing_bind_iff]
    -- the write succeeds, and the lines of the server are in the pipe
    refine ⟨trivial, fun failed hfailed => ?_⟩
    obtain rfl : failed = none := hfailed
    refine ⟨trivial, fun lines hlines => ?_⟩
    refine wp_mono (wp_receive_alone _ hlines) ?_
    rintro r s' ⟨rfl, rfl⟩
    show Catching _ _ _ _
      ((readResponse (.ofInt s.nextId) (s.pipe ++ x.serverLines line)).1.mapError
      McpFailure.reader) _
    cases (readResponse (.ofInt s.nextId) (s.pipe ++ x.serverLines line)).1 with
    | error e => exact ⟨trivial, fun _ _ => ⟨rfl, rfl⟩⟩
    | ok result => exact ⟨trivial, fun _ _ => ⟨rfl, rfl⟩⟩

/-- **A call alone is a call of `McpClient`**: it returns the same and leaves the same. -/
theorem executeTool_alone (cfg : McpConfig) {tr : List (Event McpSig McpClient)} {s' : McpClient}
    {r : Except McpFailure CallEnd}
    (h : Exec (exchangeMachine x) s (executeTool cfg ⟨x.toolName, x.args⟩) tr s' r) :
    r = .ok (s.executeTool cfg x).1.ended ∧ s' = (s.executeTool cfg x).2 := by
  have hwp : wp (exchangeMachine x) (fun _ _ => True) (executeTool cfg ⟨x.toolName, x.args⟩)
      (fun r s' => r = .ok (s.executeTool cfg x).1.ended ∧ s' = (s.executeTool cfg x).2) s := by
    unfold executeTool McpClient.executeTool
    rw [doing_bind_iff]
    refine ⟨trivial, fun connected hconnected => ?_⟩
    obtain rfl : connected = s.connected := hconnected
    show wp _ _ _ _ s
    cases hs : s.connected with
    -- no server
    | false => exact ⟨rfl, rfl⟩
    | true =>
      simp only [if_true]
      rw [wp_tryCatch]
      refine wp_bind.mpr (wp_mono (wp_sendRequest_alone _ s) fun r s' hr => ?_)
      have hline : (ToolRequest.mk x.toolName x.args).line s.nextId =
          toolsCallLine s.nextId x.toolName x.args := rfl
      rw [hline] at hr
      -- the line is that of the bottom layer
      cases hcall : toolsCallLine s.nextId x.toolName x.args with
      | error e =>
        rw [hcall] at hr
        obtain ⟨rfl, rfl⟩ := hr
        exact ⟨trivial, fun _ _ => ⟨rfl, rfl⟩⟩
      | ok line =>
        rw [hcall] at hr
        obtain ⟨rfl, rfl⟩ := hr
        dsimp only
        cases readResponse (.ofInt s.nextId) (s.pipe ++ x.serverLines line) with
        | mk response pipe =>
          cases response with
          | error e => exact ⟨trivial, fun _ _ => ⟨rfl, rfl⟩⟩
          | ok result =>
            -- so is what is made of the answer
            show Then _ _ endOf _ (.ok result) _
            unfold Then endOf
            dsimp only
            cases extractContent result.json with
            | ok content => exact ⟨rfl, by rw [← hs]⟩
            | error e =>
              cases e with
              | thrown e => exact ⟨trivial, fun _ _ => ⟨rfl, rfl⟩⟩
              | undefined => exact ⟨rfl, by rw [← hs]⟩
  exact (h.of_wp hwp).1

end Alone

end McpSession

end Aestival
