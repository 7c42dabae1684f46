import Aestival.Library.LongestSuffix
import Mathlib.Algebra.Order.Ring.Int
import Mathlib.Data.List.Chain

/-!
# The history of the metrics

`feedHistory` keeps the answers of the bot about its health for the chart of the last two minutes.
The background poller feeds it once a second, and so does every `GET /api/ui/status`. Two conditions
are enforced with every call: an entry is at most three minutes old, and there are at most 180 of
them. So the buffer is the longest suffix of all calls that meets both (`longestSuffix_fed`), and
the second condition covers three minutes only as long as the poller is alone: the chart is covered
exactly when at most 179 calls fell into the last two minutes (`historyCovers_iff`).
-/

namespace Aestival

/-! ### The buffer -/

/-- An entry of `historyBuffer`. -/
structure HistoryEntry (α : Type) where
  ts : Int
  data : α
  deriving DecidableEq, Repr

def historyMax : Nat := 180
def historyWindowMs : Int := 180000

section Buffer

variable {α : Type}

/-- The second loop of `feedHistory`. -/
def capHistory : List (HistoryEntry α) → List (HistoryEntry α)
  | [] => []
  | e :: rest => if (e :: rest).length > historyMax then capHistory rest else e :: rest

/-- `feedHistory`. -/
def feedHistory (buffer : List (HistoryEntry α)) (now : Int) (data : α) : List (HistoryEntry α) :=
  let cutoff := now - historyWindowMs
  let pushed : List (HistoryEntry α) := buffer ++ [⟨now, data⟩]
  capHistory (pushed.dropWhile fun e => e.ts < cutoff)

/-- The buffer after calls at these times with these data. -/
def fed (calls : List (HistoryEntry α)) : List (HistoryEntry α) :=
  calls.foldl (fun buffer call => feedHistory buffer call.ts call.data) []

/-- `GET /api/ui/metrics/history`: the entries, each with its time. -/
def metricsHistory (buffer : List (HistoryEntry α)) : List (α × Int) :=
  buffer.map fun e => (e.data, e.ts)

/-- The times of the entries do not decrease. -/
def FedInOrder (calls : List (HistoryEntry α)) : Prop := calls.Pairwise fun a b => a.ts ≤ b.ts

instance (calls : List (HistoryEntry α)) : Decidable (FedInOrder calls) :=
  inferInstanceAs (Decidable (calls.Pairwise _))

/-- What is kept at the time `now`. -/
def Kept (now : Int) (entries : List (HistoryEntry α)) : Prop :=
  (∀ e ∈ entries, now - historyWindowMs ≤ e.ts) ∧ entries.length ≤ historyMax

variable {calls buffer : List (HistoryEntry α)} {now : Int}

/-- Entries are given up until there are few enough. -/
theorem capHistory_spec (buffer : List (HistoryEntry α)) : capHistory buffer <:+ buffer ∧
    (capHistory buffer).length ≤ historyMax ∧
      (capHistory buffer = buffer ∨ (capHistory buffer).length = historyMax) := by
  induction buffer with
  | nil => exact ⟨List.suffix_refl _, Nat.zero_le _, .inl rfl⟩
  | cons e rest ih =>
    obtain ⟨hsuffix, hle, hfull⟩ := ih
    unfold capHistory
    split
    -- the oldest entry is dropped, and one of the rest if it is still too many
    · next hmany =>
      refine ⟨hsuffix.trans (List.suffix_cons e rest), hle, .inr ?_⟩
      rw [List.length_cons] at hmany
      rcases hfull with heq | hfull
      · rw [heq] at hle ⊢
        omega
      · exact hfull
    · next hfew => exact ⟨List.suffix_refl _, Nat.not_lt.mp hfew, .inl rfl⟩

theorem longestSuffix_capHistory (buffer : List (HistoryEntry α)) :
    LongestSuffix (fun t => t.length ≤ historyMax) buffer (capHistory buffer) := by
  obtain ⟨hsuffix, hle, hfull⟩ := capHistory_spec buffer
  exact longestSuffix_of_length hsuffix hle hfull

/-- Behind an entry that is young enough there are only such entries. -/
theorem ts_of_mem_dropWhile (h : FedInOrder buffer) (cutoff : Int) :
    ∀ e ∈ buffer.dropWhile fun e => e.ts < cutoff, decide (e.ts < cutoff) = false := by
  have horder : FedInOrder (buffer.dropWhile fun e => e.ts < cutoff) :=
    h.sublist (List.dropWhile_sublist _)
  have hhead := List.head?_dropWhile_not (fun e : HistoryEntry α => decide (e.ts < cutoff)) buffer
  revert horder hhead
  generalize buffer.dropWhile (fun e => e.ts < cutoff) = kept
  intro horder hhead
  cases kept with
  | nil => exact fun e he => absurd he List.not_mem_nil
  | cons first kept =>
    -- the first entry that is kept is young enough, and the others are younger
    have hfirst : ¬ first.ts < cutoff := by simpa using hhead
    intro e he
    refine decide_eq_false ?_
    rcases List.mem_cons.mp he with rfl | he
    · exact hfirst
    · have hle : first.ts ≤ e.ts := (List.pairwise_cons.mp horder).1 e he
      omega

/-- One call keeps the longest part that may be kept. -/
theorem longestSuffix_feedHistory {data : α} (h : FedInOrder (buffer ++ [⟨now, data⟩])) :
    LongestSuffix (Kept now) (buffer ++ [⟨now, data⟩]) (feedHistory buffer now data) := by
  have hyoung := longestSuffix_dropWhile (ts_of_mem_dropWhile h (now - historyWindowMs))
  have hboth := hyoung.and (longestSuffix_capHistory _)
    fun t ht e he => hyoung.holds e (ht.subset he)
  have hkept : (fun t : List (HistoryEntry α) =>
      (∀ e ∈ t, decide (e.ts < now - historyWindowMs) = false) ∧ t.length ≤ historyMax) =
      Kept now := by
    funext t
    simp only [Kept, decide_eq_false_iff_not, Int.not_lt]
  rw [hkept] at hboth
  exact hboth

/-- What may be kept at a time could be kept before, without its last entry. -/
theorem Kept.before {e : HistoryEntry α} {t : List (HistoryEntry α)} {earlier : Int}
    (h : Kept now (t ++ [e])) (hle : earlier ≤ now) : Kept earlier t := by
  obtain ⟨hyoung, hfew⟩ := h
  refine ⟨fun x hx => ?_, ?_⟩
  · have hx' := hyoung x (List.mem_append_left _ hx)
    omega
  · rw [List.length_append] at hfew
    omega

/-- **The buffer is the longest part of the calls that may be kept at the time of the last one.** -/
theorem longestSuffix_fed {last : HistoryEntry α} (h : FedInOrder (calls ++ [last])) :
    LongestSuffix (Kept last.ts) (calls ++ [last]) (fed (calls ++ [last])) := by
  -- induction on the calls from the back: the last call adds an entry and enforces the conditions
  induction calls using List.reverseRecOn generalizing last with
  | nil => exact longestSuffix_feedHistory h
  | append_singleton calls previous ih =>
    have horder : FedInOrder (calls ++ [previous]) := (List.pairwise_append.mp h).1
    have hle : previous.ts ≤ last.ts :=
      (List.pairwise_append.mp h).2.2 previous (List.mem_append_right _ List.mem_cons_self) last
        List.mem_cons_self
    have hlongest := ih horder
    have hfed : fed (calls ++ [previous] ++ [last]) =
        feedHistory (fed (calls ++ [previous])) last.ts last.data := by
      rw [fed, List.foldl_append]
      rfl
    rw [hfed]
    refine hlongest.concat (longestSuffix_feedHistory ?_) fun t ht => ht.before hle
    exact h.sublist (hlongest.suffix.sublist.append_right _)

end Buffer

/-! ### The chart -/

section Chart

variable {α : Type} {calls : List (HistoryEntry α)} {now : Int}

/-- What the chart shows. -/
def chartMs : Int := 120000

/-- Feeding has gone on for two minutes without a gap: since some call that is at least two minutes
back there was never more than a minute between two calls. -/
def FedThroughout (now : Int) (calls : List (HistoryEntry α)) : Prop :=
  ∃ before first since, calls = before ++ first :: since ∧ first.ts ≤ now - chartMs ∧
    (first :: since).IsChain fun a b => b.ts - a.ts ≤ 60000

/-- There is an entry for the beginning of the chart. -/
def Covers (now : Int) (buffer : List (HistoryEntry α)) : Prop := ∃ e ∈ buffer, e.ts ≤ now - chartMs

/-- The calls of the last two minutes. -/
def recentCalls (now : Int) (calls : List (HistoryEntry α)) : Nat :=
  calls.countP fun e => now - chartMs < e.ts

/-- The last call that is two minutes back is not three minutes back, when there was no gap. -/
theorem exists_boundary {first last : HistoryEntry α} {since : List (HistoryEntry α)} {mark : Int}
    (horder : FedInOrder (first :: since)) (hfirst : first.ts ≤ mark)
    (hlast : (first :: since).getLast? = some last) (hmark : mark < last.ts)
    (hchain : (first :: since).IsChain fun a b => b.ts - a.ts ≤ 60000) :
    ∃ a e b, first :: since = a ++ e :: b ∧ e.ts ≤ mark ∧ mark - 60000 < e.ts ∧
      ∀ x ∈ b, mark < x.ts := by
  -- the calls reach from the mark or before to behind it
  induction since generalizing first with
  | nil =>
    obtain rfl := Option.some.inj hlast
    exact absurd hfirst (Int.not_le.mpr hmark)
  | cons next since ih =>
    obtain ⟨hle, horder'⟩ := List.pairwise_cons.mp horder
    obtain ⟨hgap, hchain'⟩ := List.isChain_cons_cons.mp hchain
    -- no gap is longer than a minute
    by_cases hnext : next.ts ≤ mark
    · rw [List.getLast?_cons_cons] at hlast
      obtain ⟨a, e, b, heq, hrest⟩ := ih horder' hnext hlast hchain'
      exact ⟨first :: a, e, b, by rw [heq, List.cons_append], hrest⟩
    · -- the next call is the first one of the last two minutes
      refine ⟨[], first, next :: since, rfl, hfirst, by omega, fun x hx => ?_⟩
      rcases List.mem_cons.mp hx with rfl | hx
      · omega
      · have hnextx := (List.pairwise_cons.mp horder').1 x hx
        omega

/-- The calls behind the last one that is two minutes back are those of the last two minutes. -/
theorem recentCalls_eq {a b : List (HistoryEntry α)} {e : HistoryEntry α}
    (horder : FedInOrder (a ++ e :: b)) (he : e.ts ≤ now - chartMs)
    (hb : ∀ x ∈ b, now - chartMs < x.ts) : recentCalls now (a ++ e :: b) = b.length := by
  -- the calls in front of the last old one are old as well
  have hold : ∀ x ∈ a, x.ts ≤ now - chartMs := by
    intro x hx
    have hle : x.ts ≤ e.ts := (List.pairwise_append.mp horder).2.2 x hx e List.mem_cons_self
    omega
  have ha : a.countP (fun e => now - chartMs < e.ts) = 0 :=
    List.countP_eq_zero.mpr fun x hx => by
      have hx' := hold x hx
      simpa using hx'
  have hb' : b.countP (fun e => now - chartMs < e.ts) = b.length :=
    List.countP_eq_length.mpr fun x hx => decide_eq_true (hb x hx)
  rw [recentCalls, List.countP_append, List.countP_cons_of_neg (by simpa using he), ha, hb',
    Nat.zero_add]

/-- **The chart is covered exactly when there were at most 179 calls in the last two minutes.** -/
theorem covers_iff {last : HistoryEntry α} (horder : FedInOrder (calls ++ [last]))
    (hfed : FedThroughout last.ts (calls ++ [last])) :
    Covers last.ts (fed (calls ++ [last])) ↔
      recentCalls last.ts (calls ++ [last]) < historyMax := by
  obtain ⟨before, first, since, heq, hfirst, hchain⟩ := hfed
  -- the feeding goes back two minutes or more
  have hlast : (first :: since).getLast? = some last := by
    have hgetLast := congrArg List.getLast? heq
    rw [List.getLast?_concat, List.getLast?_append_cons] at hgetLast
    exact hgetLast.symm
  have hsince : FedInOrder (first :: since) := by
    rw [heq] at horder
    exact (List.pairwise_append.mp horder).2.1
  -- the last call before those of the two minutes, and these
  obtain ⟨a, e, b, hsplit, he, hyoung, hb⟩ := exists_boundary hsince hfirst hlast
    (show last.ts - chartMs < last.ts by unfold chartMs; omega) hchain
  have hcalls : calls ++ [last] = (before ++ a) ++ e :: b := by
    rw [heq, hsplit, List.append_assoc]
  -- the buffer holds the longest end of the calls that its bounds allow
  have hlongest := longestSuffix_fed horder
  rw [hcalls] at horder hlongest ⊢
  rw [recentCalls_eq horder he hb]
  constructor
  · -- an entry that is two minutes back stands in front of all calls of the last two minutes
    rintro ⟨x, hx, hxold⟩
    by_contra hmany
    have hsuffix : fed ((before ++ a) ++ e :: b) <:+ b := by
      refine List.suffix_of_suffix_length_le hlongest.suffix ?_ ?_
      · exact (List.suffix_cons e b).trans (List.suffix_append _ _)
      · exact hlongest.holds.2.trans (Nat.not_lt.mp hmany)
    have hxyoung := hb x (hsuffix.subset hx)
    omega
  · intro hfew
    have hkept : Kept last.ts (e :: b) := by
      refine ⟨fun x hx => ?_, hfew⟩
      unfold historyWindowMs
      unfold chartMs at hyoung hb
      rcases List.mem_cons.mp hx with rfl | hx
      · omega
      · have hxyoung := hb x hx
        omega
    have hsuffix := hlongest.longest (e :: b) (List.suffix_append _ _) hkept
    exact ⟨e, hsuffix.subset List.mem_cons_self, he⟩

/-- What should hold of the buffer after the calls: it is sorted, has at most 180 entries, all of
the last three minutes, and when feeding has gone on for two minutes it reaches back to the
beginning of the chart. -/
structure HistoryCovers (now : Int) (calls buffer : List (HistoryEntry α)) : Prop where
  sorted : FedInOrder buffer
  few : buffer.length ≤ 180
  young : ∀ e ∈ buffer, now - 180000 ≤ e.ts
  covers : FedThroughout now calls → Covers now buffer

/-- **The history covers the chart** after calls in the order of their times exactly when feeding
was interrupted or at most 179 calls fell into the last two minutes. -/
theorem historyCovers_iff {last : HistoryEntry α} (horder : FedInOrder (calls ++ [last])) :
    HistoryCovers last.ts (calls ++ [last]) (fed (calls ++ [last])) ↔
      (FedThroughout last.ts (calls ++ [last]) → recentCalls last.ts (calls ++ [last]) ≤ 179) := by
  have hlongest := longestSuffix_fed horder
  constructor
  · intro h hfed
    exact Nat.le_of_lt_succ ((covers_iff horder hfed).mp (h.covers hfed))
  · intro h
    refine ⟨horder.sublist hlongest.suffix.sublist, hlongest.holds.2, hlongest.holds.1, ?_⟩
    exact fun hfed => (covers_iff horder hfed).mpr (Nat.lt_succ_of_le (h hfed))

end Chart

/-! ### The poller, and a dashboard -/

/-- Calls once a second, for two minutes. -/
def pollerCalls : List (HistoryEntry Unit) := (List.range 120).map fun i => ⟨1000 * i, ()⟩

/-- The last one. -/
def lastCall : HistoryEntry Unit := ⟨120000, ()⟩

/-- The poller alone covers the chart. -/
theorem poller_covers : HistoryCovers 120000 (pollerCalls ++ [lastCall])
    (fed (pollerCalls ++ [lastCall])) := by
  have horder : FedInOrder (pollerCalls ++ [lastCall]) := by decide +kernel
  exact (historyCovers_iff horder).mpr fun _ => by decide +kernel

/-- The poller with one dashboard that asks for the status once a second. -/
def dashboardCalls : List (HistoryEntry Unit) := pollerCalls.flatMap fun e => [e, e]

/-- **One open dashboard is enough** to push the first half minute of the chart out of the buffer.
-/
theorem dashboard_uncovers : ¬ ∀ (calls : List (HistoryEntry Unit)) (last : HistoryEntry Unit),
    FedInOrder (calls ++ [last]) →
      HistoryCovers last.ts (calls ++ [last]) (fed (calls ++ [last])) := by
  intro h
  have horder : FedInOrder (dashboardCalls ++ [lastCall]) := by decide +kernel
  have hfed : FedThroughout 120000 (dashboardCalls ++ [lastCall]) :=
    ⟨[], ⟨0, ()⟩, (dashboardCalls ++ [lastCall]).tail, rfl, by decide, by decide +kernel⟩
  have hcovers := (covers_iff horder hfed).mp ((h _ _ horder).covers hfed)
  exact absurd hcovers (by decide +kernel)

end Aestival
