import Aestival.Library.Bytes
import Aestival.Library.Runs
import Aestival.Library.Tables
import Mathlib.Data.Finset.Basic

/-!
# The pool of HTTP connections

`http_client` keeps connections for later requests, one for each host and TLS mode, in a map that
all sessions of the process share. A request takes the connection that is there if it is still
alive, or makes one on the `io_context` it runs on, and puts it back when the server keeps it.

A connection belongs to the `io_context` it was made on, which its session destroys at its end. The
key does not say which one that is. `httpPoolSound_iff` says what follows: a connection is never
held by two requests and always fits host and mode, and it is of the right `io_context` exactly as
long as no request finds alive what a request of another session was the last one to put back.
-/

namespace Aestival

/-! ### The pool -/

/-- A request, with the `io_context` it runs on. -/
structure HttpPoolRequest where
  id : Nat
  ioc : Nat
  host : Bytes
  verifyTls : Bool
  deriving DecidableEq, Repr

/-- `pooled_stream`, with what it was made for. -/
structure PooledStream where
  id : Nat
  ioc : Nat
  host : Bytes
  verifyTls : Bool
  deriving DecidableEq, Repr

/-- `pool_key`. -/
def poolKey (host : Bytes) (verifyTls : Bool) : Bytes :=
  host ++ if verifyTls then utf8 "|1" else utf8 "|0"

/-- The map, the streams the requests hold, and which `io_context`s there are. -/
structure HttpPoolState where
  pool : Bytes → Option PooledStream := fun _ => none
  held : HttpPoolRequest → Option PooledStream := fun _ => none
  contexts : Finset Nat := ∅
  nextContext : Nat := 0
  nextStream : Nat := 0

namespace HttpPoolState

/-- A new stream. -/
def construct (s : HttpPoolState) (q : HttpPoolRequest) : PooledStream × HttpPoolState :=
  (⟨s.nextStream, q.ioc, q.host, q.verifyTls⟩, { s with nextStream := s.nextStream + 1 })

/-- `pool_acquire`. Whether the probe finds the pooled stream alive is open. -/
def acquire (s : HttpPoolState) (q : HttpPoolRequest) (live : Bool) :
    PooledStream × HttpPoolState :=
  let key := poolKey q.host q.verifyTls
  match s.pool key with
  | some st =>
    let s := { s with pool := Function.update s.pool key none }
    if live then (st, s) else s.construct q
  | none => s.construct q

/-- `pool_.count(key)`. -/
def poolCount (s : HttpPoolState) (key : Bytes) : Nat := if (s.pool key).isSome then 1 else 0

/-- `pool_release`. A map has a key at most once, so its limit is never met. -/
def release (s : HttpPoolState) (q : HttpPoolRequest) (st : PooledStream) : HttpPoolState :=
  let key := poolKey q.host q.verifyTls
  if s.poolCount key ≥ 3 then s
  else { s with pool := Function.update s.pool key (some st) }

end HttpPoolState

/-- What may happen: a session begins or ends, a request takes a stream, puts it back, or gives it
up. -/
inductive HttpPoolEvent where
  | create
  | destroy (ioc : Nat)
  | acquire (q : HttpPoolRequest) (live : Bool)
  | release (q : HttpPoolRequest)
  | drop (q : HttpPoolRequest)
  deriving DecidableEq, Repr

/-- A step. A session that ends takes its requests with it. -/
inductive HttpPoolStep : HttpPoolState → HttpPoolEvent → HttpPoolState → Prop
  | create (s : HttpPoolState) : HttpPoolStep s .create
      { s with contexts := insert s.nextContext s.contexts, nextContext := s.nextContext + 1 }
  | destroy {s : HttpPoolState} {ioc : Nat} (hioc : ioc ∈ s.contexts) :
    HttpPoolStep s (.destroy ioc)
      { s with
        contexts := s.contexts.erase ioc
        held := fun q => if q.ioc = ioc then none else s.held q }
  | acquire {s : HttpPoolState} {q : HttpPoolRequest} (hioc : q.ioc ∈ s.contexts)
    (hidle : s.held q = none) (live : Bool) : HttpPoolStep s (.acquire q live)
      { (s.acquire q live).2 with
        held := Function.update s.held q (some (s.acquire q live).1) }
  | release {s : HttpPoolState} {q : HttpPoolRequest} {st : PooledStream}
    (hheld : s.held q = some st) : HttpPoolStep s (.release q)
      { s.release q st with held := Function.update s.held q none }
  | drop {s : HttpPoolState} {q : HttpPoolRequest} {st : PooledStream}
    (hheld : s.held q = some st) :
    HttpPoolStep s (.drop q) { s with held := Function.update s.held q none }

/-- The pool of a process, from its start on. -/
def httpPool : TransitionSystem HttpPoolState HttpPoolEvent where
  init s := s = {}
  step := HttpPoolStep

/-! ### What should hold -/

/-- The stream was made for this request: on its `io_context`, for its host and mode. -/
structure PooledStream.IsFor (st : PooledStream) (q : HttpPoolRequest) : Prop where
  ioc : st.ioc = q.ioc
  host : st.host = q.host
  verifyTls : st.verifyTls = q.verifyTls

/-- No stream is held by two requests. -/
def HttpPoolState.Exclusive (s : HttpPoolState) : Prop :=
  ∀ q q' st st', s.held q = some st → s.held q' = some st' → st.id = st'.id → q = q'

/-- What should hold of a run. -/
structure HttpPoolSound (tr : List (HttpPoolState × HttpPoolEvent)) (s : HttpPoolState) : Prop where
  acquired : ∀ pre t q live post, tr = pre ++ (t, .acquire q live) :: post →
    (t.acquire q live).1.IsFor q
  exclusive : (∀ x ∈ tr, x.1.Exclusive) ∧ s.Exclusive

/-- What an event says about the stream under a key: a request of this `io_context` has put it
there, or there is none any more. -/
def poolNews (key : Bytes) : HttpPoolEvent → Option (Option Nat)
  | .acquire q _ => if poolKey q.host q.verifyTls = key then some none else none
  | .release q => if poolKey q.host q.verifyTls = key then some (some q.ioc) else none
  | _ => none

/-- The `io_context` of the request that has put back last what is under a key, unless it has been
taken since. -/
def lastReleaser (key : Bytes) (tr : List (HttpPoolState × HttpPoolEvent)) : Option Nat :=
  (latest (fun x => poolNews key x.2) tr).join

/-- Whatever a request finds alive was put back by a request on the same `io_context`. -/
def SameContext (tr : List (HttpPoolState × HttpPoolEvent)) : Prop :=
  ∀ pre t q post ioc, tr = pre ++ (t, .acquire q true) :: post →
    lastReleaser (poolKey q.host q.verifyTls) pre = some ioc → ioc = q.ioc

/-! ### Where a stream is -/

/-- The key tells host and mode apart. -/
theorem poolKey_inj {host host' : Bytes} {verifyTls verifyTls' : Bool}
    (h : poolKey host verifyTls = poolKey host' verifyTls') :
    host = host' ∧ verifyTls = verifyTls' := by
  have hlength : ∀ b : Bool, (if b then utf8 "|1" else utf8 "|0").length = 2 := by decide
  obtain ⟨hhost, hmode⟩ := List.append_inj' h (by rw [hlength, hlength])
  refine ⟨hhost, ?_⟩
  revert hmode
  cases verifyTls <;> cases verifyTls' <;> decide

/-- Where a stream may be. -/
inductive StreamPlace where
  | pooled (key : Bytes)
  | held (q : HttpPoolRequest)
  deriving DecidableEq

def HttpPoolState.streamAt (s : HttpPoolState) : StreamPlace → Option PooledStream
  | .pooled key => s.pool key
  | .held q => s.held q

/-- The stream may be there. -/
def StreamPlace.Fits (st : PooledStream) : StreamPlace → Prop
  | .pooled key => poolKey st.host st.verifyTls = key
  | .held q => st.host = q.host ∧ st.verifyTls = q.verifyTls

/-- A stream is in one place, which fits it. -/
structure HttpPoolInv (s : HttpPoolState) : Prop where
  once : ∀ p p' st st', s.streamAt p = some st → s.streamAt p' = some st' → st.id = st'.id → p = p'
  below : ∀ p st, s.streamAt p = some st → st.id < s.nextStream
  fits : ∀ p st, s.streamAt p = some st → p.Fits st

namespace HttpPoolState

variable (s : HttpPoolState) (q : HttpPoolRequest)

/-- A request takes the stream under its key, or a new one; nothing is left under the key. -/
theorem acquire_cases (live : Bool) :
    (∃ st, s.pool (poolKey q.host q.verifyTls) = some st ∧ live = true ∧
      s.acquire q live =
        (st, { s with pool := Function.update s.pool (poolKey q.host q.verifyTls) none })) ∨
    s.acquire q live = (⟨s.nextStream, q.ioc, q.host, q.verifyTls⟩,
      { s with
        pool := Function.update s.pool (poolKey q.host q.verifyTls) none
        nextStream := s.nextStream + 1 }) := by
  cases hpool : s.pool (poolKey q.host q.verifyTls) with
  | some st =>
    cases live with
    | true => exact .inl ⟨st, rfl, rfl, by simp [acquire, hpool]⟩
    | false => exact .inr (by simp [acquire, hpool, construct])
  -- there is nothing under the key, so erasing it changes nothing
  | none =>
    right
    have hsame : Function.update s.pool (poolKey q.host q.verifyTls) none = s.pool := by
      rw [Function.update_eq_self_iff, hpool]
    simp [acquire, hpool, construct, hsame]

/-- A stream that is put back is under its key. -/
theorem release_eq (st : PooledStream) : s.release q st =
    { s with pool := Function.update s.pool (poolKey q.host q.verifyTls) (some st) } := by
  have hcount : ¬ s.poolCount (poolKey q.host q.verifyTls) ≥ 3 := by
    -- a key is there once at most
    unfold poolCount
    split <;> decide
  rw [release, if_neg hcount]

end HttpPoolState

namespace HttpPoolInv

variable {s s' : HttpPoolState}

/-- Streams stay where they are, and at most one comes to a place that fits it. -/
theorem of_move (p₀ : StreamPlace) (st₀ : PooledStream) (h : HttpPoolInv s)
    (hmove : ∀ p st, s'.streamAt p = some st →
      p = p₀ ∧ st = st₀ ∨ s.streamAt p = some st ∧ st.id ≠ st₀.id)
    (hfits : p₀.Fits st₀) (hbelow : st₀.id < s'.nextStream) (hnext : s.nextStream ≤ s'.nextStream) :
    HttpPoolInv s' := by
  refine ⟨?_, ?_, ?_⟩
  -- two places with one stream: neither, one or both of them is where the stream has come to
  · intro p p' st st' hp hp' hid
    rcases hmove p st hp with ⟨rfl, rfl⟩ | ⟨hold, hne⟩
    · rcases hmove p' st' hp' with ⟨rfl, -⟩ | ⟨-, hne'⟩
      · rfl
      · exact absurd hid.symm hne'
    · rcases hmove p' st' hp' with ⟨-, rfl⟩ | ⟨hold', -⟩
      · exact absurd hid hne
      · exact h.once p p' st st' hold hold' hid
  · intro p st hp
    rcases hmove p st hp with ⟨-, rfl⟩ | ⟨hold, -⟩
    · exact hbelow
    · exact (h.below p st hold).trans_le hnext
  · intro p st hp
    rcases hmove p st hp with ⟨rfl, rfl⟩ | ⟨hold, -⟩
    · exact hfits
    · exact h.fits p st hold

/-- Streams may also vanish. -/
theorem of_sub (h : HttpPoolInv s) (hsub : ∀ p st, s'.streamAt p = some st → s.streamAt p = some st)
    (hnext : s.nextStream ≤ s'.nextStream) : HttpPoolInv s' :=
  ⟨fun p p' st st' hp hp' => h.once p p' st st' (hsub p st hp) (hsub p' st' hp'),
    fun p st hp => (h.below p st (hsub p st hp)).trans_le hnext,
    fun p st hp => h.fits p st (hsub p st hp)⟩

/-- Every step keeps the invariant. -/
theorem step {e : HttpPoolEvent} (h : HttpPoolInv s) (hstep : HttpPoolStep s e s') :
    HttpPoolInv s' := by
  cases hstep with
  | create => exact ⟨h.once, h.below, h.fits⟩
  | @destroy ioc hioc =>
    refine h.of_sub ?_ le_rfl
    -- the session takes its requests with it, and leaves what is in the pool
    intro p st hp
    cases p with
    | pooled key => exact hp
    | held q =>
      have hq : (if q.ioc = ioc then none else s.held q) = some st := hp
      split at hq
      · cases hq
      · exact hq
  | @acquire q hioc hidle live =>
    rcases s.acquire_cases q live with ⟨st₀, hpool, -, heq⟩ | heq
    · -- the stream under the key goes to the request
      rw [heq]
      refine h.of_move (.held q) st₀ ?_ (poolKey_inj (h.fits (.pooled _) st₀ hpool))
        (h.below (.pooled _) st₀ hpool) le_rfl
      intro p st hp
      cases p with
      | pooled key =>
        obtain ⟨hkey, hold⟩ := some_of_erase hp
        refine .inr ⟨hold, fun hid => hkey ?_⟩
        exact StreamPlace.pooled.inj (h.once (.pooled key) (.pooled _) st st₀ hold hpool hid)
      | held q' =>
        refine (update_eq_some_iff.mp hp).imp (fun ⟨hq, hst⟩ => ⟨hq ▸ rfl, hst.symm⟩) ?_
        rintro ⟨-, hold⟩
        refine ⟨hold, fun hid => ?_⟩
        have hsame := h.once (.held q') (.pooled _) st st₀ hold hpool hid
        cases hsame
    · -- a new stream goes to the request
      rw [heq]
      refine h.of_move (.held q) ⟨s.nextStream, q.ioc, q.host, q.verifyTls⟩ ?_ ⟨rfl, rfl⟩
        (Nat.lt_succ_self _) (Nat.le_succ _)
      intro p st hp
      cases p with
      | pooled key =>
        obtain ⟨-, hold⟩ := some_of_erase hp
        exact .inr ⟨hold, (h.below (.pooled key) st hold).ne⟩
      | held q' =>
        refine (update_eq_some_iff.mp hp).imp (fun ⟨hq, hst⟩ => ⟨hq ▸ rfl, hst.symm⟩) ?_
        rintro ⟨-, hold⟩
        exact ⟨hold, (h.below (.held q') st hold).ne⟩
  | @release q st₀ hheld =>
    -- the stream of the request goes under its key
    rw [s.release_eq]
    have hfits := h.fits (.held q) st₀ hheld
    refine h.of_move (.pooled (poolKey q.host q.verifyTls)) st₀ ?_ ?_ (h.below (.held q) st₀ hheld)
      le_rfl
    · intro p st hp
      cases p with
      | pooled key =>
        refine (update_eq_some_iff.mp hp).imp (fun ⟨hkey, hst⟩ => ⟨hkey ▸ rfl, hst.symm⟩) ?_
        rintro ⟨-, hold⟩
        refine ⟨hold, fun hid => ?_⟩
        have hsame := h.once (.pooled key) (.held q) st st₀ hold hheld hid
        cases hsame
      | held q' =>
        obtain ⟨hq, hold⟩ := some_of_erase hp
        refine .inr ⟨hold, fun hid => hq ?_⟩
        exact StreamPlace.held.inj (h.once (.held q') (.held q) st st₀ hold hheld hid)
    · show poolKey st₀.host st₀.verifyTls = poolKey q.host q.verifyTls
      rw [hfits.1, hfits.2]
  | @drop q st₀ hheld =>
    refine h.of_sub ?_ le_rfl
    intro p st hp
    cases p with
    | pooled key => exact hp
    | held q' => exact (some_of_erase hp).2

/-- So a request holds its stream alone. -/
theorem exclusive (h : HttpPoolInv s) : s.Exclusive := fun q q' st st' hq hq' hid =>
  StreamPlace.held.inj (h.once (.held q) (.held q') st st' hq hq' hid)

end HttpPoolInv

/-! ### On which `io_context` a stream was made -/

/-- Every request so far has got a stream of its own `io_context`. -/
def AcquiresOwn (tr : List (HttpPoolState × HttpPoolEvent)) : Prop :=
  ∀ pre t q live post, tr = pre ++ (t, .acquire q live) :: post →
    (t.acquire q live).1.ioc = q.ioc

/-- Then a stream in use is of the `io_context` of its request, and a pooled one is of that of the
request that has put it there. -/
structure ContextInv (tr : List (HttpPoolState × HttpPoolEvent)) (s : HttpPoolState) : Prop where
  held : ∀ q st, s.held q = some st → st.ioc = q.ioc
  pooled : ∀ key, lastReleaser key tr = (s.pool key).map PooledStream.ioc

theorem lastReleaser_concat (key : Bytes) (tr : List (HttpPoolState × HttpPoolEvent))
    (s : HttpPoolState) (e : HttpPoolEvent) :
    lastReleaser key (tr ++ [(s, e)]) = (poolNews key e).getD (lastReleaser key tr) :=
  join_latest_concat (fun x : HttpPoolState × HttpPoolEvent => poolNews key x.2) tr (s, e)

/-- A step that gives no request a stream of another session keeps this. -/
theorem ContextInv.step {tr : List (HttpPoolState × HttpPoolEvent)} {s s' : HttpPoolState}
    {e : HttpPoolEvent} (h : ContextInv tr s) (hstep : HttpPoolStep s e s')
    (hown : ∀ q live, e = .acquire q live → (s.acquire q live).1.ioc = q.ioc) :
    ContextInv (tr ++ [(s, e)]) s' := by
  cases hstep with
  | create =>
    refine ⟨h.held, fun key => ?_⟩
    rw [lastReleaser_concat]
    exact h.pooled key
  | @destroy ioc hioc =>
    refine ⟨?_, fun key => ?_⟩
    · intro q st hq
      have hq : (if q.ioc = ioc then none else s.held q) = some st := hq
      split at hq
      · cases hq
      · exact h.held q st hq
    · rw [lastReleaser_concat]
      exact h.pooled key
  | @acquire q hioc hidle live =>
    have hpool : (s.acquire q live).2.pool =
        Function.update s.pool (poolKey q.host q.verifyTls) none := by
      rcases s.acquire_cases q live with ⟨st, -, -, heq⟩ | heq <;> rw [heq]
    refine ⟨?_, fun key => ?_⟩
    · intro q' st hq
      rcases update_eq_some_iff.mp hq with ⟨rfl, rfl⟩ | ⟨-, hold⟩
      · exact hown q' live rfl
      · exact h.held q' st hold
    -- nothing is left under the key that was asked for
    · rw [lastReleaser_concat, poolNews]
      show _ = Option.map _ ((s.acquire q live).2.pool key)
      rw [hpool]
      by_cases hkey : poolKey q.host q.verifyTls = key
      · rw [if_pos hkey, hkey, Function.update_self]
        rfl
      · rw [if_neg hkey, Function.update_of_ne (Ne.symm hkey)]
        exact h.pooled key
  | @release q st₀ hheld =>
    rw [s.release_eq]
    refine ⟨?_, fun key => ?_⟩
    · intro q' st hq
      exact h.held q' st (some_of_erase hq).2
    -- the stream put back is of the `io_context` of the request that held it
    · rw [lastReleaser_concat, poolNews]
      show _ = Option.map _ (Function.update s.pool _ (some st₀) key)
      by_cases hkey : poolKey q.host q.verifyTls = key
      · rw [if_pos hkey, hkey, Function.update_self, Option.map_some, h.held q st₀ hheld]
        rfl
      · rw [if_neg hkey, Function.update_of_ne (Ne.symm hkey)]
        exact h.pooled key
  | @drop q st₀ hheld =>
    refine ⟨?_, fun key => ?_⟩
    · intro q' st hq
      exact h.held q' st (some_of_erase hq).2
    · rw [lastReleaser_concat]
      exact h.pooled key

section Run

variable {tr : List (HttpPoolState × HttpPoolEvent)} {s : HttpPoolState}

theorem contextInv_of_acquiresOwn (h : TransitionSystem.Run httpPool tr s) (hown : AcquiresOwn tr) :
    ContextInv tr s := by
  induction h with
  | start h =>
    obtain rfl := h
    exact ⟨fun q st hq => absurd hq (by simp), fun key => rfl⟩
  | @step tr s s' e _ hstep ih =>
    refine (ih ?_).step hstep ?_
    · rintro pre t q live post rfl
      exact hown pre t q live (post ++ [(s, e)]) (by simp)
    · rintro q live rfl
      exact hown tr s q live [] rfl

/-- While whatever is found alive is of the right `io_context`, no request gets a stream of another
session. -/
theorem acquiresOwn_of_sameContext (h : TransitionSystem.Run httpPool tr s)
    (hsame : SameContext tr) : AcquiresOwn tr := by
  induction h with
  | start => exact fun pre t q live post htr => absurd htr (by simp)
  | @step tr s s' e hrun hstep ih =>
    have hbefore : AcquiresOwn tr := by
      apply ih
      rintro pre t q post ioc rfl hlast
      exact hsame pre t q (post ++ [(s, e)]) ioc (by simp) hlast
    intro pre t q live post htr
    -- the request is the last step, or an earlier one
    cases post using List.reverseRecOn with
    | nil =>
      obtain ⟨rfl, hlast⟩ := List.append_inj' htr rfl
      obtain ⟨rfl, rfl⟩ := Prod.mk.inj (List.cons.inj hlast).1
      have hinv := contextInv_of_acquiresOwn hrun hbefore
      rcases s.acquire_cases q live with ⟨st, hpool, rfl, heq⟩ | heq
      · rw [heq]
        refine hsame tr s q [] st.ioc rfl ?_
        rw [hinv.pooled, hpool, Option.map_some]
      · rw [heq]
    | append_singleton post x =>
      rw [← List.cons_append, ← List.append_assoc] at htr
      obtain ⟨rfl, -⟩ := List.append_inj' htr rfl
      exact hbefore pre t q live post rfl

/-- **When the pool is sound.** Streams are always held by one request at a time and fit its host
and mode. They are of its `io_context` exactly if whatever is found alive was put back by a request
on the same one. -/
theorem httpPoolSound_iff (h : TransitionSystem.Run httpPool tr s) :
    HttpPoolSound tr s ↔ SameContext tr := by
  have hinv : ∀ {tr : List (HttpPoolState × HttpPoolEvent)} {s : HttpPoolState},
      TransitionSystem.Run httpPool tr s → HttpPoolInv s := by
    intro tr s hrun
    refine hrun.invariant ?_ fun s e s' => HttpPoolInv.step
    rintro s rfl
    have hnone : ∀ p, HttpPoolState.streamAt {} p = none := fun p => by cases p <;> rfl
    exact ⟨fun p p' st st' hp => absurd hp (by simp [hnone]),
      fun p st hp => absurd hp (by simp [hnone]), fun p st hp => absurd hp (by simp [hnone])⟩
  constructor
  · rintro hsound pre t q post ioc rfl hlast
    have hown : AcquiresOwn pre := by
      rintro pre' t' q' live post' rfl
      exact (hsound.acquired pre' t' q' live (post' ++ (t, .acquire q true) :: post) (by simp)).ioc
    have hpool := (contextInv_of_acquiresOwn h.upTo hown).pooled (poolKey q.host q.verifyTls)
    rw [hlast] at hpool
    obtain ⟨st, hst, rfl⟩ := Option.map_eq_some_iff.mp hpool.symm
    -- the stream that was put back is the one the request gets
    have hgets := (hsound.acquired pre t q true post rfl).ioc
    have hst' : t.pool (poolKey q.host q.verifyTls) = some st := hst
    have hget : (t.acquire q true).1 = st := by simp [HttpPoolState.acquire, hst']
    rwa [hget] at hgets
  · intro hsame
    have hown := acquiresOwn_of_sameContext h hsame
    refine ⟨?_, ?_, (hinv h).exclusive⟩
    · rintro pre t q live post rfl
      have hfits : (t.acquire q live).1.host = q.host ∧
          (t.acquire q live).1.verifyTls = q.verifyTls := by
        rcases t.acquire_cases q live with ⟨st, hpool, -, heq⟩ | heq
        · rw [heq]
          exact poolKey_inj ((hinv h.upTo).fits (.pooled _) st hpool)
        · rw [heq]
          exact ⟨rfl, rfl⟩
      exact ⟨hown pre t q live post rfl, hfits.1, hfits.2⟩
    · intro x hx
      obtain ⟨pre, post, rfl⟩ := List.append_of_mem hx
      exact (hinv h.upTo).exclusive

end Run

/-- Two sessions use the same host, and the second one's request finds dead what the first one's has
put back. -/
theorem httpPoolSound_two_sessions :
    ∃ tr s, TransitionSystem.Run httpPool tr s ∧ HttpPoolSound tr s ∧
      s.held ⟨1, 1, [104], true⟩ = some ⟨1, 1, [104], true⟩ := by
  have h0 : TransitionSystem.Run httpPool [] {} := .start rfl
  have h1 := h0.step (HttpPoolStep.create _)
  have h2 := h1.step (HttpPoolStep.create _)
  have h3 := h2.step (HttpPoolStep.acquire (q := ⟨0, 0, [104], true⟩) (by decide) rfl false)
  have h4 := h3.step (@HttpPoolStep.release _ ⟨0, 0, [104], true⟩ ⟨0, 0, [104], true⟩ rfl)
  have h5 := h4.step (HttpPoolStep.acquire (q := ⟨1, 1, [104], true⟩) (by decide) rfl false)
  refine ⟨_, _, h5, (httpPoolSound_iff h5).mpr ?_, rfl⟩
  -- nothing is found alive in this run
  intro pre t q post ioc htr
  have hmem : HttpPoolEvent.acquire q true ∈ [HttpPoolEvent.create, .create,
      .acquire ⟨0, 0, [104], true⟩ false, .release ⟨0, 0, [104], true⟩,
      .acquire ⟨1, 1, [104], true⟩ false] := by
    have := congrArg (List.map Prod.snd) htr
    simp only [List.nil_append, List.cons_append, List.map_cons, List.map_nil, List.map_append]
      at this
    rw [this]
    simp
  simp at hmem

/-- **A connection of another session is used.** The second session's request finds alive what the
first one's has put back. -/
theorem other_session_connection :
    ¬ ∀ tr s, TransitionSystem.Run httpPool tr s → HttpPoolSound tr s := by
  intro h
  have h0 : TransitionSystem.Run httpPool [] {} := .start rfl
  have h1 := h0.step (HttpPoolStep.create _)
  have h2 := h1.step (HttpPoolStep.create _)
  have h3 := h2.step (HttpPoolStep.acquire (q := ⟨0, 0, [104], true⟩) (by decide) rfl false)
  have h4 := h3.step (@HttpPoolStep.release _ ⟨0, 0, [104], true⟩ ⟨0, 0, [104], true⟩ rfl)
  have h5 := h4.step (HttpPoolStep.acquire (q := ⟨1, 1, [104], true⟩) (by decide) rfl true)
  have hown := ((h _ _ h5).acquired _ _ ⟨1, 1, [104], true⟩ true [] rfl).ioc
  exact absurd hown (by decide)

end Aestival
