import Aestival.Library.Uri

/-!
# Layers of Express

An application of Express is a list of layers. A request goes through them in the order in which
they were registered, until one does not call `next`. A layer is run if its path matches: the path
of `use` matches what lies below it, and the path of a route matches as a whole. A parameter stands
for one part of the path and is decoded. An error (also one from a parameter that does not decode,
whatever the method) skips everything but the layers that handle errors.

`σ` is what the handlers read and change, `ε` are the errors.

* `Leads`: what holds of the state before some layers, and what behind them, when a layer has called
  `next`, has called `next` with an error, or has ended the request. There is a rule for each kind
  of layer; `Leads.guard` is the one for layers that stop what may not pass.
* `run_eq_going`: layers that do not match do nothing.
-/

namespace Express

inductive Method where
  | get
  | head
  | post
  | put
  | delete
  | options
  /-- Any other. -/
  | other
  deriving DecidableEq, Repr

/-- A route of this method answers. What asks for the head is answered by the routes of `get`. -/
def Method.Answers (route method : Method) : Prop := route = method ∨ method = .head ∧ route = .get

instance (route method : Method) : Decidable (route.Answers method) :=
  inferInstanceAs (Decidable (_ ∨ _))

/-! ### Paths -/

/-- What is between two slashes in the path of a layer. -/
inductive Piece where
  | text (text : JsString)
  | param (name : JsString)
  deriving DecidableEq, Repr

/-- The path of a route. -/
inductive RoutePath where
  /-- The path `*`. -/
  | star
  | pieces (pieces : List Piece)
  deriving DecidableEq, Repr

abbrev Params := List (JsString × JsString)

/-- What is between the slashes. -/
def segments (path : JsString) : List JsString := path.splitOn 0x2F

/-- A path as it is written in the source. -/
def pieces (path : String) : List Piece :=
  (segments (js path)).map fun segment =>
    match segment with
    | 0x3A :: name => .param name
    | _ => .text segment

/-- Texts are compared without regard to the case of `A` to `Z`. -/
def lower (s : JsString) : JsString := s.map fun c => if 0x41 ≤ c ∧ c ≤ 0x5A then c + 0x20 else c

/-- The parameters, undecoded, and what lies below. A parameter is not empty. -/
def matchPieces : List Piece → List JsString → Option (Params × List JsString)
  | [], rest => some ([], rest)
  | _ :: _, [] => none
  | .text text :: ps, segment :: rest =>
    if lower segment = lower text then matchPieces ps rest else none
  | .param name :: ps, segment :: rest =>
    if segment = [] then none
    else (matchPieces ps rest).map fun (params, below) => ((name, segment) :: params, below)

/-- The path lies below these pieces. -/
def Below (ps : List Piece) (path : JsString) : Prop := (matchPieces ps (segments path)).isSome

/-- The parameters of a route, undecoded. A slash at the end does not count. -/
def RoutePath.match? (path : JsString) : RoutePath → Option Params
  | .star => some [(js "0", path)]
  | .pieces ps =>
    match matchPieces ps (segments path) with
    | some (params, below) => if below = [] ∨ below = [[]] then some params else none
    | none => none

/-- The decoded parameters, or `none` if one does not decode. -/
def decodeParams : Params → Option Params
  | [] => some []
  | (name, value) :: rest =>
    match value.decodeURIComponent, decodeParams rest with
    | some value, some params => some ((name, value) :: params)
    | _, _ => none

/-! ### Layers -/

/-- What a handler does in the end: it calls `next`, calls `next` with an error (or throws), or
neither. -/
inductive Verdict (ε : Type) where
  | next
  | fail (err : ε)
  | done
  deriving DecidableEq, Repr

abbrev Handler (σ ε : Type) := Params → σ → σ × Verdict ε

inductive Layer (σ ε : Type) where
  | use (path : List Piece) (handler : Handler σ ε)
  | route (method : Method) (path : RoutePath) (handlers : List (Handler σ ε))
  | onError (handler : ε → σ → σ × Verdict ε)

/-- How far a request has come: on its way, possibly with an error, or at its end. -/
inductive Progress (σ ε : Type) where
  | going (pending : Option ε) (s : σ)
  | ended (s : σ)

variable {σ ε : Type}

def Progress.state : Progress σ ε → σ
  | .going _ s | .ended s => s

def Progress.ofVerdict : σ × Verdict ε → Progress σ ε
  | (s, .next) => .going none s
  | (s, .fail err) => .going (some err) s
  | (s, .done) => .ended s

/-- The handlers of one route. -/
def runHandlers (params : Params) : List (Handler σ ε) → σ → Progress σ ε
  | [], s => .going none s
  | f :: rest, s =>
    match Progress.ofVerdict (f params s) with
    | .going none s => runHandlers params rest s
    | other => other

/-- The parameters of a layer that matches, undecoded. -/
def Layer.match? (path : JsString) : Layer σ ε → Option Params
  | .use ps _ => (matchPieces ps (segments path)).map Prod.fst
  | .route _ p _ => p.match? path
  | .onError _ => some []

section Run

variable (badParam : ε) (method : Method) (path : JsString)

/-- A layer that matches. -/
def Layer.call (params : Params) (s : σ) : Layer σ ε → Option ε → Progress σ ε
  | .use _ f, none => .ofVerdict (f params s)
  | .route m _ fs, none => if m.Answers method then runHandlers params fs s else .going none s
  | .onError f, some err => .ofVerdict (f err s)
  | _, pending => .going pending s

/-- One layer. -/
def Layer.run (layer : Layer σ ε) (pending : Option ε) (s : σ) : Progress σ ε :=
  match layer.match? path with
  | none => .going pending s
  | some params =>
    match decodeParams params with
    | none => .going (pending.getD badParam) s
    | some params => layer.call method params s pending

/-- The layers in their order. -/
def run : List (Layer σ ε) → Option ε → σ → Progress σ ε
  | [], pending, s => .going pending s
  | layer :: rest, pending, s =>
    match layer.run badParam method path pending s with
    | .going pending s => run rest pending s
    | .ended s => .ended s

variable {badParam method path} {layer : Layer σ ε} {layers layers' : List (Layer σ ε)}
  {pending : Option ε} {s : σ}

theorem run_append :
    run badParam method path (layers ++ layers') pending s =
      match run badParam method path layers pending s with
      | .going pending s => run badParam method path layers' pending s
      | .ended s => .ended s := by
  induction layers generalizing pending s with
  | nil => rfl
  | cons layer rest ih =>
    rw [List.cons_append, run, run]
    cases layer.run badParam method path pending s with
    | going pending s => exact ih
    | ended s => rfl

/-- The layer does not run on this path. -/
theorem Layer.run_eq_going (h : layer.match? path = none) :
    layer.run badParam method path pending s = .going pending s := by
  unfold Layer.run
  rw [h]

/-- Layers that do not match do nothing. -/
theorem run_eq_going (h : ∀ layer ∈ layers, layer.match? path = none) :
    run badParam method path layers pending s = .going pending s := by
  induction layers with
  | nil => rfl
  | cons layer rest ih =>
    rw [run, Layer.run_eq_going (h layer List.mem_cons_self)]
    exact ih fun layer hlayer => h layer (List.mem_cons_of_mem _ hlayer)

/-- The first layer does not match. -/
theorem run_cons_of_no_match (h : layer.match? path = none) :
    run badParam method path (layer :: layers) pending s = run badParam method path layers pending
      s := by
  rw [run, Layer.run_eq_going h]

/-- The first layer is called on every path, and calls `next`. -/
theorem run_cons_of_next {f : Handler σ ε} {s' : σ} (h : f [] s = (s', .next)) :
    run badParam method path (.use [] f :: layers) none s = run badParam method path layers
      none s' := by
  have hfirst : (Layer.use [] f).run badParam method path none s = .going none s' := by
    show Progress.ofVerdict (f [] s) = _
    rw [h]
    rfl
  rw [run, hfirst]

/-- The first layer is a route that answers. -/
theorem run_cons_of_done {m : Method} {p : RoutePath} {f : Handler σ ε} {params : Params} {s' : σ}
    (hm : m.Answers method) (hmatch : (p.match? path).bind decodeParams = some params)
    (h : f params s = (s', .done)) :
    run badParam method path (.route m p [f] :: layers) none s = .ended s' := by
  obtain ⟨raw, hraw, hparams⟩ := Option.bind_eq_some_iff.mp hmatch
  have hfirst : (Layer.route m p [f]).run badParam method path none s = .ended s' := by
    rw [Layer.run, Layer.match?, hraw]
    dsimp only
    rw [hparams]
    dsimp only
    rw [Layer.call, if_pos hm, runHandlers, h]
    rfl
  rw [run, hfirst]

/-! ### What layers ensure -/

/-- The request is on its way in a state with `P`, or with an error in one with `E`, or ended in one
with `Q`. -/
def Progress.Ensures (P E Q : σ → Prop) : Progress σ ε → Prop
  | .going none s => P s
  | .going (some _) s => E s
  | .ended s => Q s

variable (badParam method path) in
/-- The layers lead from `P` to `P'`, and behind an error from `E` to the same. -/
structure Leads (P E Q : σ → Prop) (layers : List (Layer σ ε)) (P' : σ → Prop) : Prop where
  normal : ∀ s, P s → (run badParam method path layers none s).Ensures P' E Q
  failing : ∀ err s, E s → (run badParam method path layers (some err) s).Ensures P' E Q

variable {P P' P'' E Q : σ → Prop}

theorem Progress.Ensures.mono {p : Progress σ ε} (h : p.Ensures P E Q) (hP : ∀ s, P s → P' s) :
    p.Ensures P' E Q := by
  match p, h with
  | .going none s, h => exact hP s h
  | .going (some _) _, h => exact h
  | .ended _, h => exact h

namespace Leads

theorem nil : Leads badParam method path P E Q ([] : List (Layer σ ε)) P where
  normal _ h := h
  failing _ _ h := h

theorem append (h : Leads badParam method path P E Q layers P')
    (h' : Leads badParam method path P' E Q layers' P'') :
    Leads badParam method path P E Q (layers ++ layers') P'' := by
  have hrest : ∀ p : Progress σ ε, p.Ensures P' E Q → Progress.Ensures P'' E Q
      (match p with
        | .going pending s => run badParam method path layers' pending s
        | .ended s => .ended s) := by
    intro p hp
    match p, hp with
    -- the second list goes on where the first one has stopped
    | .going none s, hp => exact h'.normal s hp
    | .going (some err) s, hp => exact h'.failing err s hp
    | .ended s, hp => exact hp
  constructor
  · intro s hs
    rw [run_append]
    exact hrest _ (h.normal s hs)
  · intro err s hs
    rw [run_append]
    exact hrest _ (h.failing err s hs)

theorem cons (h : Leads badParam method path P E Q [layer] P')
    (h' : Leads badParam method path P' E Q layers P'') :
    Leads badParam method path P E Q (layer :: layers) P'' := h.append h'

/-- Behind the layers, less may be said. -/
theorem weaken (h : Leads badParam method path P E Q layers P') (hP : ∀ s, P' s → P'' s) :
    Leads badParam method path P E Q layers P'' where
  normal s hs := (h.normal s hs).mono hP
  failing err s hs := (h.failing err s hs).mono hP

/-- What every layer keeps. -/
theorem of_forall (h : ∀ layer ∈ layers, Leads badParam method path P E Q [layer] P) :
    Leads badParam method path P E Q layers P := by
  induction layers with
  | nil => exact nil
  | cons layer rest ih =>
    exact cons (h layer List.mem_cons_self)
      (ih fun layer hlayer => h layer (List.mem_cons_of_mem _ hlayer))

/-- The rule for one layer: it is not run, a parameter does not decode, or it is called. -/
theorem single (hskip : ∀ s, P s → layer.match? path = none → P' s) (hbad : ∀ s, P s → E s)
    (hcall : ∀ s raw params, P s → layer.match? path = some raw → decodeParams raw = some params →
      (layer.call method params s none).Ensures P' E Q)
    (hfail : ∀ err s params, E s → (layer.call method params s (some err)).Ensures P' E Q) :
    Leads badParam method path P E Q [layer] P' := by
  have hone : ∀ pending s, run badParam method path [layer] pending s =
      layer.run badParam method path pending s := by
    intro pending s
    rw [run]
    cases layer.run badParam method path pending s <;> rfl
  constructor
  · intro s hs
    rw [hone, Layer.run]
    split
    -- the path does not match, a parameter does not decode, or the layer is called
    · next hmatch => exact hskip s hs hmatch
    · next raw hmatch =>
      split
      · exact hbad s hs
      · next params hparams => exact hcall s raw params hs hmatch hparams
  · intro err s hs
    rw [hone, Layer.run]
    split
    · exact hs
    · split
      · exact hs
      · exact hfail err s _ hs

/-- A layer that is called on every path. -/
theorem use_all {f : Handler σ ε} (hbad : ∀ s, P s → E s)
    (hcall : ∀ s, P s → (Progress.ofVerdict (f [] s)).Ensures P' E Q) :
    Leads badParam method path P E Q [.use [] f] P' := by
  refine single ?_ hbad ?_ fun _ _ _ hs => hs
  -- the empty path matches everything
  · intro s _ hmatch
    cases hmatch
  · intro s raw params hs hmatch hparams
    obtain rfl := Option.some.inj hmatch
    obtain rfl := Option.some.inj hparams
    exact hcall s hs

/-- A layer that calls `next` only in states with `G`: behind it, what lies below its path has `G`.
-/
theorem guard {ps : List Piece} {f : Handler σ ε} {G : σ → Prop} (hbad : ∀ s, P s → E s)
    (hcall : ∀ params s, P s → Below ps path →
      (Progress.ofVerdict (f params s)).Ensures (fun s => P s ∧ G s) E Q) :
    Leads badParam method path P E Q [.use ps f] (fun s => P s ∧ (Below ps path → G s)) := by
  refine single ?_ hbad ?_ fun _ _ _ hs => hs
  · intro s hs hmatch
    refine ⟨hs, fun hbelow => ?_⟩
    -- where the layer does not match, the path is not below it
    have hnone : matchPieces ps (segments path) = none := Option.map_eq_none_iff.mp hmatch
    unfold Below at hbelow
    rw [hnone] at hbelow
    cases hbelow
  · intro s raw params hs hmatch _
    -- where it does, the handler has let the request through
    have hbelow : Below ps path := by
      obtain ⟨found, hfound, -⟩ := Option.map_eq_some_iff.mp hmatch
      exact Option.isSome_of_eq_some hfound
    exact (hcall params s hs hbelow).mono fun s h => ⟨h.1, fun _ => h.2⟩

/-- A layer below a path that keeps what holds. -/
theorem use_keeps {ps : List Piece} {f : Handler σ ε} (hbad : ∀ s, P s → E s)
    (hcall : ∀ params s, P s → (Progress.ofVerdict (f params s)).Ensures P E Q) :
    Leads badParam method path P E Q [.use ps f] P :=
  single (fun _ hs _ => hs) hbad (fun s _ params hs _ _ => hcall params s hs) fun _ _ _ hs => hs

/-- A route. -/
theorem route {m : Method} {p : RoutePath} {fs : List (Handler σ ε)} (hbad : ∀ s, P s → E s)
    (hcall : ∀ s raw params, P s → m.Answers method → p.match? path = some raw →
      decodeParams raw = some params → (runHandlers params fs s).Ensures P E Q) :
    Leads badParam method path P E Q [.route m p fs] P := by
  refine single (fun _ hs _ => hs) hbad ?_ fun _ _ _ hs => hs
  intro s raw params hs hmatch hparams
  rw [Layer.call]
  split
  · next hm => exact hcall s raw params hs hm hmatch hparams
  · exact hs

/-- A layer that handles errors, and ends the request. -/
theorem onError {f : ε → σ → σ × Verdict ε} (hbad : ∀ s, P s → E s)
    (hcall : ∀ err s, E s → (Progress.ofVerdict (f err s)).Ensures P E Q) :
    Leads badParam method path P E Q [.onError f] P :=
  single (fun _ hs _ => hs) hbad (fun _ _ _ hs _ _ => hs) fun err s _ hs => hcall err s hs

end Leads

end Run

/-! ### What matches what -/

/-- A path is matched piece by piece. -/
theorem matchPieces_append {ps qs : List Piece} : ∀ {rest : List JsString},
    matchPieces (ps ++ qs) rest = (matchPieces ps rest).bind fun (params, below) =>
      (matchPieces qs below).map fun (more, below) => (params ++ more, below) := by
  induction ps with
  | nil =>
    intro rest
    rw [List.nil_append, matchPieces, Option.bind_some]
    exact Option.map_id'.symm
  | cons p ps ih =>
    intro rest
    match p, rest with
    | .text _, [] | .param _, [] => rfl
    | .text text, segment :: rest =>
      rw [List.cons_append, matchPieces, matchPieces, ih]
      split <;> rfl
    | .param name, segment :: rest =>
      rw [List.cons_append, matchPieces, matchPieces, ih]
      split
      · rfl
      -- a parameter takes the segment, and the rest is as before
      · cases matchPieces ps rest with
        | none => rfl
        | some found =>
          rw [Option.bind_some, Option.map_some, Option.bind_some, Option.map_map]
          rfl

/-- What a route matches. -/
theorem match?_pieces_eq_some {ps : List Piece} {path : JsString} {params : Params} :
    (RoutePath.pieces ps).match? path = some params ↔
      ∃ below, matchPieces ps (segments path) = some (params, below) ∧
        (below = [] ∨ below = [[]]) := by
  rw [RoutePath.match?]
  constructor
  · intro h
    split at h
    · next found below heq =>
      obtain ⟨hend, hparams⟩ := Option.ite_none_right_eq_some.mp h
      exact ⟨below, heq.trans (congrArg (fun p => some (p, below)) (Option.some.inj hparams)), hend⟩
    · cases h
  · rintro ⟨below, heq, hend⟩
    rw [heq]
    exact if_pos hend

/-- A route lies below each beginning of its path. -/
theorem below_of_match? {ps q : List Piece} {path : JsString} {params : Params}
    (h : (RoutePath.pieces (ps ++ q)).match? path = some params) : Below ps path := by
  obtain ⟨below, hmatch, -⟩ := match?_pieces_eq_some.mp h
  rw [matchPieces_append] at hmatch
  obtain ⟨found, hfound, -⟩ := Option.bind_eq_some_iff.mp hmatch
  exact Option.isSome_of_eq_some hfound

/-- No path is matched by a route and by one with a parameter behind it. -/
theorem match?_eq_none_of_longer {ps qs : List Piece} {name path : JsString} {params : Params}
    (h : (RoutePath.pieces (ps ++ .param name :: qs)).match? path = some params) :
    (RoutePath.pieces ps).match? path = none := by
  obtain ⟨below, hmatch, -⟩ := match?_pieces_eq_some.mp h
  rw [matchPieces_append] at hmatch
  obtain ⟨⟨found, rest⟩, hfound, hmore⟩ := Option.bind_eq_some_iff.mp hmatch
  obtain ⟨more, hparam, -⟩ := Option.map_eq_some_iff.mp hmore
  rw [Option.eq_none_iff_forall_ne_some]
  intro params' hshort
  obtain ⟨rest', hmatch', hend⟩ := match?_pieces_eq_some.mp hshort
  obtain ⟨-, rfl⟩ := Prod.mk.inj (Option.some.inj (hfound.symm.trans hmatch'))
  -- the parameter is not empty, so the shorter route leaves more than a slash
  rcases hend with rfl | rfl <;> cases hparam

/-- Two paths that have different texts in one place. -/
def clash : List Piece → List Piece → Bool
  | .text a :: ps, .text b :: qs => lower a ≠ lower b || clash ps qs
  | _ :: ps, _ :: qs => clash ps qs
  | _, _ => false

/-- No path lies below both. -/
theorem matchPieces_eq_none_of_clash {ps : List Piece} :
    ∀ {qs : List Piece} {rest : List JsString}, clash ps qs → (matchPieces qs rest).isSome →
      matchPieces ps rest = none := by
  induction ps with
  | nil => exact fun h => by cases h
  | cons p ps ih =>
    intro qs rest hclash hmatch
    match qs, rest with
    | [], _ => cases p <;> cases hclash
    | q :: qs, [] =>
      cases q <;> cases hmatch
    | q :: qs, segment :: rest =>
      have htail : ∀ {name : JsString}, (matchPieces (.param name :: qs) (segment :: rest)).isSome →
          (matchPieces qs rest).isSome := by
        intro name h
        rw [matchPieces] at h
        split at h
        · cases h
        · rwa [Option.isSome_map] at h
      match p, q with
      | .text a, .text b =>
        rw [matchPieces] at hmatch ⊢
        -- texts are compared without regard to case, so the segment has only one of them
        by_cases hb : lower segment = lower b
        · rw [if_pos hb] at hmatch
          split
          · next ha =>
            have hsame : lower a = lower b := ha.symm.trans hb
            rw [clash, decide_eq_false (not_not.mpr hsame), Bool.false_or] at hclash
            exact ih hclash hmatch
          · rfl
        · rw [if_neg hb] at hmatch
          cases hmatch
      | .text a, .param name =>
        rw [matchPieces]
        split
        · exact ih hclash (htail hmatch)
        · rfl
      | .param name, .text b =>
        rw [matchPieces] at hmatch
        rw [matchPieces]
        split at hmatch
        · split
          · rfl
          · rw [ih hclash hmatch, Option.map_none]
        · cases hmatch
      | .param name, .param name' =>
        rw [matchPieces]
        split
        · rfl
        · rw [ih hclash (htail hmatch), Option.map_none]

/-- The path of a layer has another text somewhere. -/
def Layer.clashes (qs : List Piece) : Layer σ ε → Bool
  | .use ps _ => clash ps qs
  | .route _ (.pieces ps) _ => clash ps qs
  | _ => false

theorem Layer.match?_eq_none {layer : Layer σ ε} {qs : List Piece} {path : JsString}
    (hclash : layer.clashes qs) (hbelow : Below qs path) : layer.match? path = none := by
  match layer with
  | .use ps _ => exact Option.map_eq_none_iff.mpr (matchPieces_eq_none_of_clash hclash hbelow)
  | .route _ (.pieces ps) _ =>
    rw [Layer.match?, RoutePath.match?, matchPieces_eq_none_of_clash hclash hbelow]
  | .route _ .star _ => cases hclash
  | .onError _ => cases hclash

end Express
