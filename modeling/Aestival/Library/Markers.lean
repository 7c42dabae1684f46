import Aestival.Library.Bytes

/-!
# Markers in a text

A marker is one of a few tags, any octets but a closing one, and the closing octet (`IsMarker`).
`strip` erases the markers of a text in a single pass from left to right.

What the pass leaves is described by the text it reads. An octet stays when no marker of the text
covers it, and text that was apart is brought together: `Spread t s` says that `s` is `t` with
markers put between its octets. A text is then found in what is left exactly where it lies spread in
the text, behind a prefix that leaves no tag open (`infix_strip_iff`); and what is left has a marker
again exactly when a tag is broken up by markers and closed later (`hasMarker_strip_iff`).
-/

namespace Bytes

/-- How markers are written. -/
structure MarkerSyntax where
  tags : List Bytes
  opening : UInt8
  closing : UInt8
  /-- a tag starts with the opening octet, and with no other octet like it -/
  opening_tag : ∀ tag ∈ tags, ∃ t, tag = opening :: t ∧ opening ∉ t
  closing_notMem : ∀ tag ∈ tags, closing ∉ tag
  /-- no tag goes on where another has ended -/
  prefix_free : ∀ tag ∈ tags, ∀ tag' ∈ tags, tag <+: tag' → tag = tag'

namespace MarkerSyntax

variable (M : MarkerSyntax)

/-- A marker: a tag, a body without the closing octet, the closing octet. -/
def IsMarker (m : Bytes) : Prop :=
  ∃ tag ∈ M.tags, ∃ body, M.closing ∉ body ∧ m = tag ++ body ++ [M.closing]

/-- The text holds a marker. -/
def HasMarker (s : Bytes) : Prop := ∃ m, M.IsMarker m ∧ m <:+: s

/-- The length of a marker at the very start of `s`. -/
def matchLength (s : Bytes) : Option Nat :=
  match M.tags.find? (·.isPrefixOf s) with
  | none => none
  | some tag =>
    let body := s.drop tag.length
    if M.closing ∈ body then some (tag.length + body.idxOf M.closing + 1) else none

/-- The text without its markers, erased in one pass. -/
def strip (s : Bytes) : Bytes := eraseMatches M.matchLength 0 s

/-! ### The start of a text -/

variable {M}

/-- A marker at the start ends with the first closing octet of the text. -/
theorem matchLength_eq_some_iff {s : Bytes} {n : Nat} :
    M.matchLength s = some n ↔
      (∃ tag ∈ M.tags, tag <+: s) ∧ M.closing ∈ s ∧ n = s.idxOf M.closing + 1 := by
  unfold matchLength
  cases hfind : M.tags.find? (·.isPrefixOf s) with
  | none =>
    rw [List.find?_eq_none] at hfind
    refine iff_of_false (Option.some_ne_none n).symm ?_
    rintro ⟨⟨tag, htag, hbefore⟩, -⟩
    exact hfind tag htag (List.isPrefixOf_iff_prefix.mpr hbefore)
  | some tag =>
    have htag : tag ∈ M.tags := List.mem_of_find?_eq_some hfind
    have hbefore : tag <+: s := List.isPrefixOf_iff_prefix.mp (by simpa using List.find?_some hfind)
    obtain ⟨body, rfl⟩ := hbefore
    -- the tag holds no closing octet, so the first one of the text lies in the body
    have hnot := M.closing_notMem tag htag
    have hex : ∃ tag' ∈ M.tags, tag' <+: tag ++ body := ⟨tag, htag, List.prefix_append tag body⟩
    simp only [List.drop_left, hex, true_and, List.mem_append, hnot, false_or,
      List.idxOf_append_of_notMem hnot]
    by_cases hmem : M.closing ∈ body
    · simp only [hmem, if_true, true_and, Option.some.injEq]
      exact eq_comm
    · simp only [hmem, if_false, false_and, reduceCtorEq]

/-- No marker starts here when no tag does, or when nothing closes it. -/
theorem matchLength_eq_none_iff {s : Bytes} :
    M.matchLength s = none ↔ (∀ tag ∈ M.tags, ¬ tag <+: s) ∨ M.closing ∉ s := by
  rw [Option.eq_none_iff_forall_ne_some]
  constructor
  · intro h
    by_contra hnot
    simp only [not_or, not_forall, not_not] at hnot
    obtain ⟨⟨tag, htag, hbefore⟩, hclose⟩ := hnot
    exact h _ (matchLength_eq_some_iff.mpr ⟨⟨tag, htag, hbefore⟩, hclose, rfl⟩)
  · intro h n hn
    obtain ⟨⟨tag, htag, hbefore⟩, hclose, -⟩ := matchLength_eq_some_iff.mp hn
    cases h with
    | inl hno => exact hno tag htag hbefore
    | inr hno => exact hno hclose

/-- No marker starts with another octet than the opening one. -/
theorem matchLength_cons_of_ne {b : UInt8} (hb : b ≠ M.opening) (s : Bytes) :
    M.matchLength (b :: s) = none := by
  refine matchLength_eq_none_iff.mpr (.inl fun tag htag hbefore => ?_)
  obtain ⟨t, rfl, -⟩ := M.opening_tag tag htag
  exact hb (List.cons_prefix_cons.mp hbefore).1.symm

theorem closing_ne_opening {t : Bytes} (htag : M.opening :: t ∈ M.tags) :
    M.closing ≠ M.opening := by
  have hmem := M.closing_notMem _ htag
  rw [List.mem_cons, not_or] at hmem
  exact hmem.1

/-- A marker is matched as a whole, whatever follows it. -/
theorem IsMarker.matchLength_append {m : Bytes} (hm : M.IsMarker m) (s : Bytes) :
    M.matchLength (m ++ s) = some m.length := by
  obtain ⟨tag, htag, body, hbody, rfl⟩ := hm
  have hnot : M.closing ∉ tag ++ body := by
    rw [List.mem_append, not_or]
    exact ⟨M.closing_notMem tag htag, hbody⟩
  rw [matchLength_eq_some_iff]
  refine ⟨⟨tag, htag, ?_⟩, by simp, ?_⟩
  · rw [List.append_assoc, List.append_assoc]
    exact List.prefix_append tag _
  · rw [List.append_assoc (tag ++ body), List.idxOf_append_of_notMem hnot, List.singleton_append,
      List.idxOf_cons_self, List.length_append, List.length_singleton, Nat.add_zero]

/-- What is matched is a marker. -/
theorem exists_marker_of_matchLength {s : Bytes} {n : Nat} (h : M.matchLength s = some n) :
    ∃ m r, M.IsMarker m ∧ s = m ++ r := by
  obtain ⟨⟨tag, htag, body, rfl⟩, hclose, -⟩ := matchLength_eq_some_iff.mp h
  have hmem : M.closing ∈ body := by
    refine (List.mem_append.mp hclose).resolve_left (M.closing_notMem tag htag)
  -- the body of the marker ends at the first closing octet
  obtain ⟨a, b, rfl, ha⟩ := List.eq_append_cons_of_mem hmem
  refine ⟨tag ++ a ++ [M.closing], b, ⟨tag, htag, a, ha, rfl⟩, ?_⟩
  simp only [List.append_assoc, List.singleton_append]

theorem IsMarker.ne_nil {m : Bytes} (hm : M.IsMarker m) : m ≠ [] := by
  obtain ⟨tag, -, body, -, rfl⟩ := hm
  simp

/-! ### The pass -/

@[simp] theorem strip_nil : M.strip [] = [] := rfl

/-- An octet at which no marker starts stays. -/
theorem strip_cons {b : UInt8} {s : Bytes} (h : M.matchLength (b :: s) = none) :
    M.strip (b :: s) = b :: M.strip s := eraseMatches_cons h

/-- A marker is erased as a whole. -/
theorem strip_marker {m : Bytes} (hm : M.IsMarker m) (s : Bytes) :
    M.strip (m ++ s) = M.strip s := eraseMatches_match hm.ne_nil (hm.matchLength_append s)

/-- A match has an octet, and lies within the text. -/
theorem matchLength_bounds {s : Bytes} {n : Nat} (h : M.matchLength s = some n) :
    0 < n ∧ n ≤ s.length := by
  obtain ⟨-, hclose, rfl⟩ := matchLength_eq_some_iff.mp h
  exact ⟨Nat.succ_pos _, List.idxOf_lt_length_of_mem hclose⟩

/-- The cases of the pass: the end of the text, a marker, an octet that stays. -/
@[elab_as_elim]
theorem strip_induction {P : Bytes → Prop} (nil : P [])
    (marker : ∀ m s, M.IsMarker m → P s → P (m ++ s))
    (octet : ∀ b s, M.matchLength (b :: s) = none → P s → P (b :: s)) (s : Bytes) : P s := by
  refine eraseMatches_induction matchLength_bounds nil (fun m s hlen _ ih => ?_) octet s
  obtain ⟨m', r, hm', heq⟩ := exists_marker_of_matchLength hlen
  have hlen' := hm'.matchLength_append r
  rw [← heq, hlen] at hlen'
  obtain ⟨rfl, rfl⟩ := List.append_inj heq (Option.some.inj hlen')
  exact marker m s hm' ih

/-- A text without markers is left as it is. -/
theorem strip_eq_self {s : Bytes} (h : ¬ M.HasMarker s) : M.strip s = s := by
  refine eraseMatches_eq_self fun t ht => ?_
  cases hlen : M.matchLength t with
  | none => rfl
  | some n =>
    obtain ⟨m, r, hm, rfl⟩ := exists_marker_of_matchLength hlen
    exact absurd ⟨m, hm, (List.prefix_append m r).isInfix.trans ht.isInfix⟩ h

/-! ### Open tags -/

variable (M) in
/-- Every tag in `u` is closed in `u`. -/
def Closed (u : Bytes) : Prop :=
  ∀ tag ∈ M.tags, ∀ a b, u = a ++ tag ++ b → M.closing ∈ b

theorem closed_nil : M.Closed [] := by
  intro tag htag a b h
  obtain ⟨t, rfl, -⟩ := M.opening_tag tag htag
  simp at h

theorem Closed.of_append {u v : Bytes} (h : M.Closed (u ++ v)) : M.Closed v := by
  intro tag htag a b hv
  exact h tag htag (u ++ a) b (by rw [hv]; simp only [List.append_assoc])

theorem Closed.cons {b : UInt8} {u : Bytes} (h : M.Closed u)
    (hb : ∀ tag ∈ M.tags, ∀ r, b :: u = tag ++ r → M.closing ∈ r) : M.Closed (b :: u) := by
  intro tag htag a r heq
  cases a with
  | nil => exact hb tag htag r heq
  | cons c a =>
    rw [List.cons_append, List.cons_append, List.cons.injEq] at heq
    exact h tag htag a r heq.2

/-- Behind a marker nothing is open. -/
theorem Closed.marker {m u : Bytes} (hm : M.IsMarker m) (h : M.Closed u) : M.Closed (m ++ u) := by
  obtain ⟨mtag, -, body, -, rfl⟩ := hm
  intro tag htag a r heq
  rw [List.append_assoc _ [M.closing], List.singleton_append, List.append_assoc a] at heq
  rcases List.append_eq_append_iff.mp heq with ⟨z, hz, hrest⟩ | ⟨z, hz, hrest⟩
  · -- the tag starts behind the marker, or with its last octet, which is no octet of a tag
    cases z with
    | nil =>
      obtain ⟨t, ht, -⟩ := M.opening_tag tag htag
      rw [List.nil_append, ht, List.cons_append, List.cons.injEq] at hrest
      have hclose := M.closing_notMem tag htag
      rw [ht, ← hrest.1] at hclose
      exact absurd List.mem_cons_self hclose
    | cons c z =>
      rw [List.cons_append, List.cons.injEq] at hrest
      exact h tag htag z r (by rw [hrest.2, List.append_assoc])
  · -- the tag starts in the marker, whose last octet lies behind it
    rcases List.append_eq_append_iff.mp hrest with ⟨y, hy, hr⟩ | ⟨y, hy, hr⟩
    · rw [hr]
      exact List.mem_append_right y List.mem_cons_self
    · cases y with
      | nil =>
        rw [List.nil_append] at hr
        rw [← hr]
        exact List.mem_cons_self
      | cons c y =>
        rw [List.cons_append, List.cons.injEq] at hr
        have hclose := M.closing_notMem tag htag
        rw [hy, ← hr.1] at hclose
        exact absurd (List.mem_append_right z List.mem_cons_self) hclose

variable (M) in
/-- No marker starts in `u` and ends in `v`. -/
def Quiet (u v : Bytes) : Prop := M.Closed u ∨ M.closing ∉ v

variable (M) in
/-- An octet no tag goes on with. -/
def Fresh (c : UInt8) : Prop := ∀ tag ∈ M.tags, c ∉ tag.tail

/-- Two texts are stripped apart where no marker runs from one into the other. -/
theorem strip_append {u v : Bytes} {c : UInt8} (hc : M.Fresh c) (hquiet : M.Quiet u (c :: v)) :
    M.strip (u ++ c :: v) = M.strip u ++ M.strip (c :: v) := by
  induction u using strip_induction (M := M) with
  | nil => rfl
  | marker m u hm ih =>
    rw [List.append_assoc, strip_marker hm, strip_marker hm]
    exact ih (hquiet.imp_left Closed.of_append)
  | octet b u hnone ih =>
    have htail : M.Quiet u (c :: v) := hquiet.imp_left (Closed.of_append (u := [b]))
    rw [List.cons_append, strip_cons hnone, strip_cons, ih htail, List.cons_append]
    -- a tag at `b` would have to lie in `u` as a whole, for it does not go on with `c`
    have hwhole : ∀ tag ∈ M.tags, tag <+: b :: (u ++ c :: v) → tag <+: b :: u := by
      rintro tag htag ⟨r, hr⟩
      rw [← List.cons_append] at hr
      rcases List.append_eq_append_iff.mp hr with ⟨z, hz, -⟩ | ⟨z, hz, hrest⟩
      · exact ⟨z, hz.symm⟩
      · cases z with
        | nil => exact ⟨[], by rw [List.append_nil, hz, List.append_nil]⟩
        | cons d z =>
          rw [List.cons_append, List.cons.injEq] at hrest
          refine absurd ?_ (hc tag htag)
          rw [hz, hrest.1]
          simp
    rw [matchLength_eq_none_iff]
    cases matchLength_eq_none_iff.mp hnone with
    | inl hno => exact .inl fun tag htag hbefore => hno tag htag (hwhole tag htag hbefore)
    | inr hno =>
      by_cases hv : M.closing ∈ c :: v
      · refine .inl fun tag htag hbefore => ?_
        obtain ⟨r, hr⟩ := hwhole tag htag hbefore
        have hclosed := hquiet.resolve_right (not_not_intro hv)
        exact hno (hr ▸ List.mem_append_right tag (hclosed tag htag [] r hr.symm))
      · refine .inr ?_
        rw [← List.cons_append, List.mem_append, not_or]
        exact ⟨hno, hv⟩

/-- Where an octet that stays comes from. -/
theorem exists_of_strip_eq {s l r : Bytes} {c : UInt8} (h : M.strip s = l ++ c :: r) :
    ∃ u v, s = u ++ c :: v ∧ M.Quiet u (c :: v) ∧ M.matchLength (c :: v) = none ∧
      M.strip v = r := by
  induction s using strip_induction (M := M) generalizing l with
  | nil => simp at h
  -- a marker is erased, and hides no tag that is open
  | marker m s hm ih =>
    rw [strip_marker hm] at h
    obtain ⟨u, v, rfl, hquiet, hnone, hv⟩ := ih h
    refine ⟨m ++ u, v, (List.append_assoc ..).symm, ?_, hnone, hv⟩
    exact hquiet.imp_left (Closed.marker hm)
  -- an octet that is kept is the one in question or stands before it
  | octet b s hb ih =>
    rw [strip_cons hb] at h
    cases l with
    | nil =>
      rw [List.nil_append, List.cons.injEq] at h
      obtain ⟨rfl, hr⟩ := h
      exact ⟨[], s, rfl, .inl closed_nil, hb, hr⟩
    | cons d l =>
      rw [List.cons_append, List.cons.injEq] at h
      obtain ⟨u, v, rfl, hquiet, hnone, hv⟩ := ih h.2
      refine ⟨b :: u, v, rfl, ?_, hnone, hv⟩
      by_cases hclose : M.closing ∈ c :: v
      · -- a tag at `b` is closed in `u`, or it would be matched
        refine .inl (Closed.cons (hquiet.resolve_right (not_not_intro hclose)) ?_)
        intro tag htag r hr
        have hbefore : tag <+: b :: (u ++ c :: v) := by
          rw [← List.cons_append, hr, List.append_assoc]
          exact List.prefix_append tag _
        have hno := (matchLength_eq_none_iff.mp hb).resolve_left fun h => h tag htag hbefore
        rw [List.mem_cons, not_or] at hno
        exact absurd (List.mem_append_right u hclose) hno.2
      · exact .inr hclose

/-! ### Spread text -/

variable (M) in
/-- `s` is `t` with markers before some of its octets. -/
inductive Spread : Bytes → Bytes → Prop
  | nil : Spread [] []
  | octet (b : UInt8) {t s : Bytes} (h : Spread t s) : Spread (b :: t) (b :: s)
  | marker {m t s : Bytes} (hm : M.IsMarker m) (ht : t ≠ []) (h : Spread t s) : Spread t (m ++ s)

/-- A text without the opening octet is left at the start of a text exactly when it lies spread
there. -/
theorem strip_eq_append_iff {s t r : Bytes} (ht : M.opening ∉ t) :
    M.strip s = t ++ r ↔ ∃ mid v, s = mid ++ v ∧ M.Spread t mid ∧ M.strip v = r := by
  constructor
  · intro h
    induction s using strip_induction (M := M) generalizing t with
    | nil =>
      obtain ⟨rfl, rfl⟩ := List.append_eq_nil_iff.mp h.symm
      exact ⟨[], [], rfl, .nil, rfl⟩
    | marker m s hm ih =>
      cases t with
      | nil => exact ⟨[], m ++ s, rfl, .nil, h⟩
      -- the marker comes in front of `b`, or inside of `t`
      | cons b t =>
        rw [strip_marker hm] at h
        obtain ⟨mid, v, rfl, hspread, hv⟩ := ih ht h
        exact ⟨m ++ mid, v, (List.append_assoc ..).symm, .marker hm (List.cons_ne_nil b t) hspread,
          hv⟩
    | octet b s hnone ih =>
      cases t with
      | nil => exact ⟨[], b :: s, rfl, .nil, h⟩
      | cons c t =>
        rw [strip_cons hnone, List.cons_append, List.cons.injEq] at h
        obtain ⟨rfl, h⟩ := h
        obtain ⟨mid, v, rfl, hspread, hv⟩ := ih (fun hmem => ht (List.mem_cons_of_mem b hmem)) h
        exact ⟨b :: mid, v, rfl, .octet b hspread, hv⟩
  · rintro ⟨mid, v, rfl, hspread, rfl⟩
    induction hspread with
    | nil => rfl
    | @octet b t mid h ih =>
      rw [List.mem_cons, not_or] at ht
      have hnone := matchLength_cons_of_ne (Ne.symm ht.1) (mid ++ v)
      rw [List.cons_append, strip_cons hnone, ih ht.2, List.cons_append]
    | marker hm _ h ih => rw [List.append_assoc, strip_marker hm, ih ht]

/-- Broken up, a text is read up to its first break at most. -/
theorem Spread.prefix_of_ne {t mid v t' : Bytes} (h : M.Spread t mid) (hne : mid ≠ t)
    (ht' : M.opening ∉ t') (hbefore : t' <+: mid ++ v) : t' <+: t ∧ t' ≠ t := by
  induction h generalizing t' with
  | nil => exact absurd rfl hne
  | octet b h ih =>
    cases t' with
    | nil => exact ⟨List.nil_prefix, (List.cons_ne_nil _ _).symm⟩
    | cons c t' =>
      rw [List.cons_append, List.cons_prefix_cons] at hbefore
      obtain ⟨rfl, hbefore⟩ := hbefore
      obtain ⟨hle, hlt⟩ := ih (fun heq => hne (congrArg (c :: ·) heq))
        (fun hmem => ht' (List.mem_cons_of_mem c hmem)) hbefore
      exact ⟨List.cons_prefix_cons.mpr ⟨rfl, hle⟩, fun heq => hlt (List.cons.inj heq).2⟩
  | marker hm ht h _ =>
    cases t' with
    | nil => exact ⟨List.nil_prefix, ht.symm⟩
    | cons c t' =>
      -- a marker begins with the opening octet, which is none of `t'`
      obtain ⟨tag, htag, body, -, rfl⟩ := hm
      obtain ⟨z, rfl, -⟩ := M.opening_tag tag htag
      simp only [List.cons_append, List.cons_prefix_cons] at hbefore
      rw [hbefore.1] at ht'
      exact absurd List.mem_cons_self ht'

/-- A text is found in what is left exactly where it lies spread in the text, with no tag open
before it that is closed behind its first octet. -/
theorem infix_strip_iff {s t : Bytes} {c : UInt8} (hc : M.Fresh c) (hopen : c ≠ M.opening)
    (ht : M.opening ∉ t) :
    c :: t <:+: M.strip s ↔
      ∃ u mid v, s = u ++ c :: (mid ++ v) ∧ M.Spread t mid ∧ M.Quiet u (c :: (mid ++ v)) := by
  constructor
  -- the octet in the result comes from one that is kept
  · rintro ⟨l, r, h⟩
    rw [List.append_assoc, List.cons_append] at h
    obtain ⟨u, w, rfl, hquiet, -, hw⟩ := exists_of_strip_eq h.symm
    obtain ⟨mid, v, rfl, hspread, -⟩ := (strip_eq_append_iff ht).mp hw
    exact ⟨u, mid, v, rfl, hspread, hquiet⟩
  · rintro ⟨u, mid, v, rfl, hspread, hquiet⟩
    -- an octet that opens no tag is kept
    have hnone := matchLength_cons_of_ne hopen (mid ++ v)
    have hmid : M.strip (mid ++ v) = t ++ M.strip v :=
      (strip_eq_append_iff ht).mpr ⟨mid, v, rfl, hspread, rfl⟩
    rw [strip_append hc hquiet, strip_cons hnone, hmid]
    exact ⟨M.strip u, M.strip v, by simp only [List.append_assoc, List.cons_append]⟩

variable (M) in
/-- A tag stays in the text and is closed behind it: markers break it up, no tag is open before it
and none between it and the closing octet. -/
def BrokenMarker (s : Bytes) : Prop :=
  ∃ t, M.opening :: t ∈ M.tags ∧ ∃ u mid w v,
    s = u ++ M.opening :: (mid ++ (w ++ M.closing :: v)) ∧ M.Spread t mid ∧ mid ≠ t ∧
      M.Closed u ∧ M.Closed w

theorem opening_notMem {t : Bytes} (h : M.opening :: t ∈ M.tags) : M.opening ∉ t := by
  obtain ⟨t', heq, ht⟩ := M.opening_tag _ h
  rwa [(List.cons.inj heq).2]

theorem fresh_opening : M.Fresh M.opening := by
  intro tag htag
  obtain ⟨t, rfl, ht⟩ := M.opening_tag tag htag
  exact ht

theorem fresh_closing : M.Fresh M.closing := fun tag htag hmem =>
  M.closing_notMem tag htag (List.mem_of_mem_tail hmem)

/-- What is left holds a marker again exactly when the text has a broken one. -/
theorem hasMarker_strip_iff (s : Bytes) : M.HasMarker (M.strip s) ↔ M.BrokenMarker s := by
  constructor
  · rintro ⟨m, ⟨tag, htag, body, -, rfl⟩, l, r, h⟩
    obtain ⟨t, rfl, ht⟩ := M.opening_tag tag htag
    have hleft : M.strip s = l ++ M.opening :: (t ++ (body ++ M.closing :: r)) := by
      rw [← h]
      simp only [List.append_assoc, List.cons_append, List.nil_append]
    obtain ⟨u, z, rfl, hquiet, hnone, hz⟩ := exists_of_strip_eq hleft
    obtain ⟨mid, y, rfl, hspread, hy⟩ := (strip_eq_append_iff ht).mp hz
    -- the tag lies spread in the text; the closing octet comes from behind it
    obtain ⟨w, v, rfl, hw, -, -⟩ := exists_of_strip_eq hy
    refine ⟨t, htag, u, mid, w, v, rfl, hspread, ?_, hquiet.resolve_right ?_,
      hw.resolve_right ?_⟩
    · -- a tag in one piece would have been matched
      rintro rfl
      refine (matchLength_eq_none_iff.mp hnone).elim (fun hno => ?_) fun hno => ?_
      · exact hno _ htag ⟨w ++ M.closing :: v, rfl⟩
      · exact hno (by simp)
    · simp
    · simp
  · rintro ⟨t, htag, u, mid, w, v, rfl, hspread, hbroken, hu, hw⟩
    have ht := opening_notMem htag
    have hnone : M.matchLength (M.opening :: (mid ++ (w ++ M.closing :: v))) = none := by
      refine matchLength_eq_none_iff.mpr (.inl fun tag' htag' hbefore => ?_)
      obtain ⟨t', rfl, ht'⟩ := M.opening_tag tag' htag'
      -- a whole tag at this place would be a proper part of the broken one
      obtain ⟨hle, hne⟩ := hspread.prefix_of_ne hbroken ht' (List.cons_prefix_cons.mp hbefore).2
      have heq := M.prefix_free _ htag' _ htag (List.cons_prefix_cons.mpr ⟨rfl, hle⟩)
      exact hne (List.cons.inj heq).2
    have hclose := matchLength_cons_of_ne (closing_ne_opening htag) v
    -- no marker runs over the closing octet, nor over the opening one, so both stay
    have hrest : M.strip (w ++ M.closing :: v) = M.strip w ++ M.closing :: M.strip v := by
      rw [strip_append fresh_closing (.inl hw), strip_cons hclose]
    have hmid : M.strip (mid ++ (w ++ M.closing :: v)) =
        t ++ M.strip (w ++ M.closing :: v) :=
      (strip_eq_append_iff ht).mpr ⟨mid, _, rfl, hspread, rfl⟩
    have hleft : M.strip (u ++ M.opening :: (mid ++ (w ++ M.closing :: v))) =
        M.strip u ++ M.opening :: (t ++ (M.strip w ++ M.closing :: M.strip v)) := by
      calc M.strip (u ++ M.opening :: (mid ++ (w ++ M.closing :: v)))
        _ = M.strip u ++ M.strip (M.opening :: (mid ++ (w ++ M.closing :: v))) :=
          strip_append fresh_opening (.inl hu)
        _ = M.strip u ++ M.opening :: M.strip (mid ++ (w ++ M.closing :: v)) := by
          rw [strip_cons hnone]
        _ = M.strip u ++ M.opening :: (t ++ (M.strip w ++ M.closing :: M.strip v)) := by
          rw [hmid, hrest]
    rw [hleft]
    -- the marker that is left ends with the first closing octet behind the tag
    obtain ⟨body, r, heq, hbody⟩ :=
      List.eq_append_cons_of_mem (List.mem_append_right (M.strip w) List.mem_cons_self :
        M.closing ∈ M.strip w ++ M.closing :: M.strip v)
    rw [heq]
    refine ⟨M.opening :: t ++ body ++ [M.closing], ⟨_, htag, body, hbody, rfl⟩, M.strip u, r, ?_⟩
    simp only [List.append_assoc, List.cons_append, List.nil_append]

end MarkerSyntax

end Bytes
