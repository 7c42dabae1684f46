import Aestival.Agent.Policy
import Aestival.Library.Markers

/-!
# What the output filter leaves

`policy_engine::filter_output` erases the markers `[SEARCH:…]` and `[FETCH:…]` of a reply in one
pass and blocks what then holds a system token. A single pass can bring the two sides of a tag
together: `[SEA[SEARCH:x]RCH:y]` leaves `[SEARCH:y]`. `filterOutput_clean_iff` says on which replies
the filter does what it is for.
-/

namespace Aestival

open Bytes

/-- The markers of `kTagRe`. -/
def internalMarkers : MarkerSyntax where
  tags := [utf8 "[SEARCH:", utf8 "[FETCH:"]
  opening := 91
  closing := 93
  opening_tag := by
    have htags : ∀ tag ∈ [utf8 "[SEARCH:", utf8 "[FETCH:"],
        tag = 91 :: tag.tail ∧ 91 ∉ tag.tail := by
      decide
    exact fun tag htag => ⟨tag.tail, htags tag htag⟩
  closing_notMem := by decide
  prefix_free := by decide

/-- The expression of the source is the marker at the start of a text. -/
theorem markerLength_eq : markerLength = internalMarkers.matchLength := rfl

theorem filterOutput_eq (s : Bytes) :
    filterOutput s =
      if systemTokens.any (contains (internalMarkers.strip s)) then []
      else internalMarkers.strip s :=
  rfl

/-- An output that holds no internal marker and no system token, and that the filter leaves as it
is. -/
structure CleanOutput (out : Bytes) : Prop where
  no_marker : ¬ internalMarkers.HasMarker out
  no_token : ∀ token ∈ systemTokens, ¬ token <:+: out
  stable : filterOutput out = out

/-- A system token stays in the text: it lies spread among markers, and no tag is open before it
that is closed behind its first octet. -/
def TokenStays (s : Bytes) : Prop :=
  ∃ c t, c :: t ∈ systemTokens ∧ ∃ u mid v,
    s = u ++ c :: (mid ++ v) ∧ internalMarkers.Spread t mid ∧
      internalMarkers.Quiet u (c :: (mid ++ v))

/-- The filter blocks exactly the texts in which a system token stays. -/
theorem tokens_any_iff (s : Bytes) :
    systemTokens.any (contains (internalMarkers.strip s)) = true ↔ TokenStays s := by
  -- a token begins with an octet that is in no tag, and holds no opening bracket behind it
  have hshape : ∀ token ∈ systemTokens,
      token = 60 :: token.tail ∧ (91 : UInt8) ∉ token.tail := by decide
  have hfresh : internalMarkers.Fresh 60 := by
    show ∀ tag ∈ [utf8 "[SEARCH:", utf8 "[FETCH:"], (60 : UInt8) ∉ tag.tail
    decide
  have hopen : (60 : UInt8) ≠ internalMarkers.opening := by decide
  rw [List.any_eq_true]
  constructor
  · rintro ⟨token, htoken, hcontains⟩
    obtain ⟨hcons, ht⟩ := hshape token htoken
    have hoccurs : token <:+: internalMarkers.strip s := of_decide_eq_true hcontains
    rw [hcons] at hoccurs htoken
    exact ⟨60, token.tail, htoken, (MarkerSyntax.infix_strip_iff hfresh hopen ht).mp hoccurs⟩
  · rintro ⟨c, t, htoken, hstays⟩
    obtain ⟨hcons, ht⟩ := hshape _ htoken
    obtain rfl : c = 60 := (List.cons.inj hcons).1
    have hoccurs := (MarkerSyntax.infix_strip_iff hfresh hopen ht).mpr hstays
    exact ⟨60 :: t, htoken, decide_eq_true hoccurs⟩

/-- What the filter leaves is clean once it holds no marker. -/
theorem cleanOutput_iff (s : Bytes) :
    CleanOutput (filterOutput s) ↔ ¬ internalMarkers.HasMarker (filterOutput s) := by
  refine ⟨CleanOutput.no_marker, fun hmarker => ?_⟩
  -- what is blocked is empty, and what is not has been searched
  have hfree : systemTokens.any (contains (filterOutput s)) = false := by
    rw [filterOutput_eq]
    split
    next => decide
    next h => exact Bool.eq_false_iff.mpr h
  refine ⟨hmarker, fun token htoken hoccurs => ?_, ?_⟩
  · rw [List.any_eq_false] at hfree
    exact hfree token htoken (decide_eq_true hoccurs)
  · rw [filterOutput_eq (filterOutput s), MarkerSyntax.strip_eq_self hmarker, hfree]
    rfl

/-- **The filter leaves a clean output exactly where no tag is broken up by markers and closed
later, or the reply is blocked for a system token.** -/
theorem filterOutput_clean_iff (s : Bytes) :
    CleanOutput (filterOutput s) ↔ ¬ internalMarkers.BrokenMarker s ∨ TokenStays s := by
  rw [cleanOutput_iff, ← MarkerSyntax.hasMarker_strip_iff, ← tokens_any_iff, filterOutput_eq]
  split
  next h =>
    refine iff_of_true ?_ (.inr h)
    -- the empty reply holds no marker
    rintro ⟨m, hm, hoccurs⟩
    exact hm.ne_nil (List.eq_nil_of_infix_nil hoccurs)
  next h => exact ⟨.inl, fun hclean => hclean.resolve_right h⟩

/-- A marker put into the tag of another makes the tag whole. -/
theorem filterOutput_reassembles :
    ¬ CleanOutput (filterOutput (utf8 "[SEA[SEARCH:x]RCH:y]")) := by
  have hout : filterOutput (utf8 "[SEA[SEARCH:x]RCH:y]") = utf8 "[SEARCH:y]" := by decide +kernel
  rw [hout]
  intro hclean
  refine hclean.no_marker ⟨utf8 "[SEARCH:y]", ⟨utf8 "[SEARCH:", ?_, utf8 "y", ?_, rfl⟩,
    List.infix_refl _⟩
  · exact List.mem_cons_self
  · show (93 : UInt8) ∉ utf8 "y"
    decide

end Aestival
