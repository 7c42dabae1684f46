import Aestival.Library.Decoder
import Mathlib.Data.List.Infix

/-!
# Decoding in pieces

A text that is read in chunks from its end is decoded in pieces: it is cut wherever the octets
behind are a multiple of the size of a chunk (`pieces`), and each piece is decoded by itself.

Lines are still decoded one by one (`splitOn_decodePieces`). A line that is cut only between
characters is decoded to its text (`decodePieces_of_not_cut`); one that is cut inside a character
has more replacement characters than its text (`count_lt_of_cut`).
-/

namespace Bytes

open Utf8State

/-! ### Pieces -/

section

variable (size : Nat)

/-- The pieces of a text with `behind` octets behind it. -/
def pieces : Bytes → Nat → List Bytes
  | [], _ => [[]]
  | b :: s, behind =>
    if size ∣ s.length + behind then [b] :: pieces s behind
    else (pieces s behind).modifyHead (b :: ·)

/-- The code units of a text that is decoded in pieces. -/
def decodePieces (s : Bytes) (behind : Nat) : JsString := (pieces size s behind).flatMap decode

variable {size}

theorem pieces_ne_nil (s : Bytes) (behind : Nat) : pieces size s behind ≠ [] := by
  induction s with
  | nil => exact List.cons_ne_nil _ _
  | cons b s ih =>
    rw [pieces]
    split
    · exact List.cons_ne_nil _ _
    · cases h : pieces size s behind with
      | nil => exact absurd h ih
      | cons p ps => exact List.cons_ne_nil _ _

/-- The first piece is the whole text, or it ends at the first boundary. -/
theorem pieces_cases (s : Bytes) (behind : Nat) :
    (pieces size s behind = [s] ∧
      ∀ p t, s = p ++ t → p ≠ [] → ¬ size ∣ t.length + behind) ∨
    ∃ p rest, s = p ++ rest ∧ p ≠ [] ∧ size ∣ rest.length + behind ∧
      pieces size s behind = p :: pieces size rest behind ∧
      ∀ p' t, p = p' ++ t → p' ≠ [] → t ≠ [] → ¬ size ∣ (t ++ rest).length + behind := by
  induction s with
  | nil =>
    refine .inl ⟨rfl, fun p t hp hne => ?_⟩
    exact absurd (List.append_eq_nil_iff.mp hp.symm).1 hne
  | cons b s ih =>
    rw [pieces]
    -- either there is a boundary behind the first octet, or the first piece goes on
    by_cases hcut : size ∣ s.length + behind
    · rw [if_pos hcut]
      refine .inr ⟨[b], s, rfl, List.cons_ne_nil b [], hcut, rfl, fun p' t hp hp' ht => ?_⟩
      rcases List.append_eq_singleton_iff.mp hp.symm with ⟨hnil, -⟩ | ⟨-, hnil⟩
      · exact absurd hnil hp'
      · exact absurd hnil ht
    · rw [if_neg hcut]
      rcases ih with ⟨h, hinside⟩ | ⟨p, rest, rfl, hp, hrest, h, hinside⟩
      · rw [h]
        refine .inl ⟨rfl, fun p t hpt hne => ?_⟩
        obtain ⟨rfl, rfl⟩ | ⟨p', rfl, rfl⟩ := List.cons_eq_append_iff.mp hpt
        · exact absurd rfl hne
        · cases p' with
          | nil => exact hcut
          | cons x p' => exact hinside (x :: p') t rfl (List.cons_ne_nil x p')
      · rw [h]
        refine .inr ⟨b :: p, rest, rfl, List.cons_ne_nil b p, hrest, rfl, fun p' t hpt hne ht => ?_⟩
        obtain ⟨rfl, rfl⟩ | ⟨p'', rfl, rfl⟩ := List.cons_eq_append_iff.mp hpt
        · exact absurd rfl hne
        · cases p'' with
          | nil => exact hcut
          | cons x p'' => exact hinside (x :: p'') t rfl (List.cons_ne_nil x p'') ht

/-- A chunk in front of whole chunks is a piece. -/
theorem decodePieces_chunk {c : Bytes} (rest : Bytes) (hc : c.length ≤ size)
    (hrest : size ∣ rest.length) :
    decodePieces size (c ++ rest) 0 = decode c ++ decodePieces size rest 0 := by
  -- inside the chunk there is no boundary: the octets behind are between two multiples
  have hpieces : c ≠ [] → pieces size (c ++ rest) 0 = c :: pieces size rest 0 := by
    intro hne
    induction c with
    | nil => exact absurd rfl hne
    | cons b c ih =>
      rw [List.cons_append, pieces]
      cases c with
      | nil => exact if_pos hrest
      | cons x c =>
        rw [ih (Nat.le_of_succ_le hc) (List.cons_ne_nil x c), if_neg]
        · rfl
        · intro hdvd
          rw [Nat.add_zero, List.length_append, Nat.dvd_add_left hrest] at hdvd
          exact absurd (Nat.le_of_dvd (Nat.succ_pos _) hdvd) (Nat.not_le.mpr hc)
  cases c with
  | nil => rfl
  | cons b c => rw [decodePieces, hpieces (List.cons_ne_nil b c), List.flatMap_cons, decodePieces]

/-! ### Lines -/

/-- Pieces of two texts, put together at the seam. -/
def glue : List Bytes → List Bytes → List Bytes
  | [], qs => qs
  | [p], qs => qs.modifyHead (p ++ ·)
  | p :: ps, qs => p :: glue ps qs

theorem glue_cons (p : Bytes) {ps : List Bytes} (hps : ps ≠ []) (qs : List Bytes) :
    glue (p :: ps) qs = p :: glue ps qs := by
  cases ps with
  | nil => exact absurd rfl hps
  | cons p' ps => rfl

theorem modifyHead_glue (b : UInt8) {ps qs : List Bytes} (hps : ps ≠ []) :
    (glue ps qs).modifyHead (b :: ·) = glue (ps.modifyHead (b :: ·)) qs := by
  cases ps with
  | nil => exact absurd rfl hps
  | cons p ps =>
    cases ps with
    | nil => exact List.modifyHead_modifyHead ..
    | cons p' ps => rfl

theorem pieces_append (u t : Bytes) (behind : Nat) : pieces size (u ++ t) behind =
    glue (pieces size u (t.length + behind)) (pieces size t behind) := by
  induction u with
  | nil =>
    rw [List.nil_append, pieces, glue]
    cases pieces size t behind <;> rfl
  | cons b u ih =>
    have hlength : (u ++ t).length + behind = u.length + (t.length + behind) := by
      rw [List.length_append, Nat.add_assoc]
    rw [List.cons_append, pieces, pieces, hlength, ih]
    split
    · exact (glue_cons [b] (pieces_ne_nil u _) _).symm
    · exact modifyHead_glue b (pieces_ne_nil u _)

/-- Pieces are decoded apart at the seam, if the second begins with a line feed. -/
theorem flatMap_glue {ps qs : List Bytes} {q : Bytes} (hps : ps ≠ []) :
    (glue ps ((10 :: q) :: qs)).flatMap decode =
      ps.flatMap decode ++ ((10 :: q) :: qs).flatMap decode := by
  have hq : decode (10 :: q) = 10 :: decode q := decode_lineFeed [] q
  induction ps with
  | nil => exact absurd rfl hps
  | cons p ps ih =>
    cases ps with
    | nil =>
      rw [glue, List.modifyHead_cons, List.flatMap_cons, decode_lineFeed, List.flatMap_cons,
        List.flatMap_nil, List.flatMap_cons, hq]
      simp only [List.append_assoc, List.append_nil, List.cons_append]
    | cons p' ps =>
      rw [glue_cons p (List.cons_ne_nil p' ps), List.flatMap_cons, ih (List.cons_ne_nil p' ps),
        ← List.append_assoc]
      rfl

theorem decodePieces_lineFeed (u v : Bytes) (behind : Nat) :
    decodePieces size (u ++ 10 :: v) behind =
      decodePieces size u (v.length + 1 + behind) ++ 10 :: decodePieces size v behind := by
  -- the first piece of the second line begins with the line feed
  have hv : ∃ q qs, pieces size (10 :: v) behind = (10 :: q) :: qs ∧
      ((10 :: q) :: qs).flatMap decode = 10 :: decodePieces size v behind := by
    rw [pieces]
    split
    · exact ⟨[], pieces size v behind, rfl, rfl⟩
    · rw [decodePieces]
      cases h : pieces size v behind with
      | nil => exact absurd h (pieces_ne_nil v behind)
      | cons q qs =>
        refine ⟨q, qs, rfl, ?_⟩
        rw [List.flatMap_cons, List.flatMap_cons, show decode (10 :: q) = 10 :: decode q from
          decode_lineFeed [] q]
        rfl
  obtain ⟨q, qs, hpieces, hdecode⟩ := hv
  rw [decodePieces, pieces_append, hpieces, flatMap_glue (pieces_ne_nil u _), hdecode]
  rfl

theorem lineFeed_notMem_decodePieces {s : Bytes} (hs : 10 ∉ s) (behind : Nat) :
    10 ∉ decodePieces size s behind := by
  -- cutting into pieces adds no octet
  have hpieces : ∀ p ∈ pieces size s behind, p ⊆ s := by
    induction s with
    | nil =>
      intro p hp
      rw [List.mem_singleton.mp hp]
      exact List.Subset.refl []
    | cons b s ih =>
      have hrest := ih (fun h => hs (List.mem_cons_of_mem b h))
      intro p hp
      rw [pieces] at hp
      split at hp
      · rcases List.mem_cons.mp hp with rfl | hp
        · exact List.cons_subset_cons b (List.nil_subset s)
        · exact List.Subset.trans (hrest p hp) (List.subset_cons_self b s)
      · cases h : pieces size s behind with
        | nil => exact absurd h (pieces_ne_nil s behind)
        | cons q qs =>
          rw [h] at hp hrest
          rcases List.mem_cons.mp hp with rfl | hp
          · exact List.cons_subset_cons b (hrest q List.mem_cons_self)
          · exact List.Subset.trans (hrest p (List.mem_cons_of_mem q hp))
              (List.subset_cons_self b s)
  -- and decoding a piece adds no line feed
  intro hmem
  obtain ⟨p, hp, h10⟩ := List.mem_flatMap.mp hmem
  exact lineFeed_notMem_decode (fun h => hs (hpieces p hp h)) h10

/-- A line of a file, with the number of octets behind it. -/
structure FileLine where
  octets : Bytes
  behind : Nat
  deriving DecidableEq, Repr

/-- The lines of a file. Behind each one come a line feed and a line for every one that follows. -/
def located : List Bytes → List FileLine
  | [] => []
  | u :: rest => ⟨u, (rest.map fun v => v.length + 1).sum⟩ :: located rest

theorem sum_length_splitOn (s : Bytes) :
    ((s.splitOn 10).map fun v => v.length + 1).sum = s.length + 1 := by
  induction s using lines_induction with
  | last u hu => rw [List.splitOn_eq_singleton hu, List.map_singleton, List.sum_singleton]
  | line u v hu ih =>
    rw [List.splitOn_append_cons_self_of_not_mem hu, List.map_cons, List.sum_cons, ih,
      List.length_append, List.length_cons]
    omega

/-- **The lines of what is decoded in pieces are the lines of the file, each decoded in pieces.** -/
theorem splitOn_decodePieces (s : Bytes) : (decodePieces size s 0).splitOn 10 =
    (located (s.splitOn 10)).map fun l => decodePieces size l.octets l.behind := by
  induction s using lines_induction with
  | last u hu =>
    rw [List.splitOn_eq_singleton (lineFeed_notMem_decodePieces hu 0), List.splitOn_eq_singleton hu]
    rfl
  | line u v hu ih =>
    rw [decodePieces_lineFeed, List.splitOn_append_cons_self_of_not_mem hu,
      List.splitOn_append_cons_self_of_not_mem (lineFeed_notMem_decodePieces hu _), ih, located,
      List.map_cons, sum_length_splitOn]

/-! ### Lines that are cut -/

variable (size) in
/-- A boundary lies inside a character of the line: what stands in front of it is no text. -/
def Cut (l : FileLine) : Prop :=
  ∃ p t, l.octets = p ++ t ∧ size ∣ t.length + l.behind ∧ validUtf8 p ≠ true

/-- **A line that is cut between characters only is decoded to its text.** -/
theorem decodePieces_of_not_cut {s : Bytes} {behind : Nat} (hs : validUtf8 s = true)
    (h : ¬ Cut size ⟨s, behind⟩) : decodePieces size s behind = decode s := by
  induction hn : s.length using Nat.strong_induction_on generalizing s with
  | _ n ih =>
    rcases @pieces_cases size s behind with ⟨hone, -⟩ | ⟨p, rest, rfl, hp, hrest, hmore, -⟩
    · rw [decodePieces, hone]
      exact List.append_nil _
    -- the first piece ends at a boundary, so it is a text
    · have hvalid : validUtf8 p = true := by
        by_contra hnot
        exact h ⟨p, rest, rfl, hrest, hnot⟩
      rw [validUtf8_append hvalid] at hs
      have hlt : rest.length < n := by
        have hpos := List.length_pos_of_ne_nil hp
        rw [← hn, List.length_append]
        omega
      have hcut : ¬ Cut size ⟨rest, behind⟩ := by
        rintro ⟨p', t, heq, hdvd, hnot⟩
        obtain rfl : rest = p' ++ t := heq
        refine h ⟨p ++ p', t, (List.append_assoc ..).symm, hdvd, ?_⟩
        rwa [validUtf8_append hvalid]
      rw [decode_append hvalid, decodePieces, hmore, List.flatMap_cons, ← ih _ hlt hs hcut rfl]
      rfl

/-- Octets from the inside of a character are replaced one by one. -/
theorem decode_append_of_continues {w : Bytes} (hw : ∀ x ∈ w, Continues x) (v : Bytes) :
    decode (w ++ v) = List.replicate w.length replacement ++ decode v := by
  induction w with
  | nil => rfl
  | cons x w ih =>
    obtain ⟨hx, hw⟩ := List.forall_mem_cons.mp hw
    rw [List.cons_append, decode_continues hx, ih hw]
    rfl

/-- A part of a character is shorter than the character. -/
theorem exists_rest_of_partial {r rest : Bytes} (hr : IsPartial r)
    (h : validUtf8 (r ++ rest) = true) :
    ∃ w v, rest = w ++ v ∧ w ≠ [] ∧ w.length ≤ 3 ∧ (∀ x ∈ w, Continues x) ∧ IsChar (r ++ w) ∧
      validUtf8 v = true := by
  obtain ⟨b, t, k, rfl, htrail, hshort, -⟩ := hr
  rcases run_start_cases (validUtf8_iff.mp h) with hnil | ⟨-, hne⟩ | ⟨c, v, heq, hc, hv⟩
  · exact nomatch hnil
  · exact absurd rfl hne
  · have hchar := hc
    -- both begin with the same octet, which says how long the character is
    obtain ⟨b', t', rfl, htrail', ht', -⟩ := hc
    obtain ⟨rfl, htail⟩ := List.cons.inj heq
    obtain rfl : t'.length = k := Option.some.inj (htrail'.symm.trans htrail)
    obtain ⟨w, rfl, rfl⟩ | ⟨w, hlong, -⟩ := List.append_eq_append_iff.mp htail
    · refine ⟨w, v, rfl, ?_, ?_, fun x hx => ht' x (List.mem_append_right t hx), hchar,
        validUtf8_iff.mpr hv⟩
      · rintro rfl
        rw [List.append_nil] at hshort
        exact Nat.lt_irrefl _ hshort
      · have hthree : (t ++ w).length ≤ 3 := by
          unfold trailLength at htrail
          repeat' split at htrail
          all_goals simp only [reduceCtorEq, Option.some.injEq] at htrail
          all_goals omega
        rw [List.length_append] at hthree
        omega
    · rw [hlong, List.length_append] at hshort
      omega

/-- Behind a boundary, the first piece is at least as long as a chunk. -/
theorem size_le_length_of_dvd {p rest : Bytes} {behind : Nat} (hp : p ≠ [])
    (hall : size ∣ (p ++ rest).length + behind) (hrest : size ∣ rest.length + behind) :
    size ≤ p.length := by
  rw [List.length_append, Nat.add_assoc, Nat.dvd_add_left hrest] at hall
  exact Nat.le_of_dvd (List.length_pos_of_ne_nil hp) hall

theorem count_decode_append_of_continues {w : Bytes} (hw : ∀ x ∈ w, Continues x) (u : Bytes) :
    (decode (w ++ u)).count replacement = w.length + (decode u).count replacement := by
  rw [decode_append_of_continues hw, List.count_append, List.count_replicate_self]

/-- A character that is cut has at most one replacement character; its first part alone has one. -/
theorem count_decode_of_partial {c r w v : Bytes} {q : Utf8State} (hc : validUtf8 c = true)
    (hr : IsPartial r) (hrun : run .start r = some q) (hchar : IsChar (r ++ w)) :
    (decode (c ++ r ++ (w ++ v))).count replacement ≤
      (decode (c ++ r)).count replacement + (decode v).count replacement := by
  have hone := count_replacement_codeUnits (scalar_le_of_isChar hchar)
  have heq : c ++ r ++ (w ++ v) = c ++ ((r ++ w) ++ v) := by simp only [List.append_assoc]
  rw [heq, decode_append hc, decode_char hchar, decode_append hc, decode_partial hr hrun,
    List.count_append, List.count_append, List.count_append, List.count_singleton_self]
  omega

/-- A piece that ends between characters leaves the boundaries inside of characters behind it. -/
theorem Cut.behind_piece {w p rest : Bytes} {behind : Nat} (hp : validUtf8 p = true)
    (hinside : ∀ p' t, w ++ p = p' ++ t → p' ≠ [] → t ≠ [] → ¬ size ∣ (t ++ rest).length + behind)
    (h : Cut size ⟨p ++ rest, behind⟩) : Cut size ⟨rest, behind⟩ := by
  obtain ⟨s, t, heq, hdvd, hnot⟩ := h
  rcases List.append_eq_append_iff.mp heq with ⟨s', rfl, rfl⟩ | ⟨t', rfl, rfl⟩
  · rw [validUtf8_append hp] at hnot
    exact ⟨s', t, rfl, hdvd, hnot⟩
  · -- the boundary would be inside the piece
    have hs : w ++ s ≠ [] := by
      intro hnil
      rw [(List.append_eq_nil_iff.mp hnil).2] at hnot
      exact hnot rfl
    have ht' : t' ≠ [] := by
      rintro rfl
      exact hnot (by rwa [List.append_nil] at hp)
    exact absurd hdvd (hinside (w ++ s) t' (List.append_assoc ..).symm hs ht')

/-- Behind a boundary, the first piece holds the rest of the character that was cut there. -/
theorem exists_of_first_piece (hsize : 4 ≤ size) {w v p rest : Bytes} {behind : Nat}
    (hthree : w.length ≤ 3) (hboundary : w = [] ∨ size ∣ (w ++ v).length + behind)
    (hsplit : w ++ v = p ++ rest) (hp : p ≠ []) (hrest : size ∣ rest.length + behind) :
    ∃ p', p = w ++ p' ∧ v = p' ++ rest := by
  have hle : w.length ≤ p.length := by
    rcases hboundary with rfl | hdvd
    · exact Nat.zero_le _
    · rw [hsplit] at hdvd
      have hlong := size_le_length_of_dvd hp hdvd hrest
      omega
  have hfront : w <+: p := List.prefix_of_prefix_length_le ⟨v, rfl⟩ ⟨rest, hsplit.symm⟩ hle
  obtain ⟨p', rfl⟩ := hfront
  rw [List.append_assoc] at hsplit
  exact ⟨p', rfl, List.append_cancel_left hsplit⟩

/-- What is decoded in pieces, behind the octets `w` of a character that was cut, has as many
replacement characters as octets of `w` and as the text `v`, and more if `v` is cut. -/
theorem count_decodePieces (hsize : 4 ≤ size) {w v : Bytes} {behind : Nat}
    (hw : ∀ x ∈ w, Continues x) (hthree : w.length ≤ 3) (hv : validUtf8 v = true)
    (hboundary : w = [] ∨ size ∣ (w ++ v).length + behind) :
    w.length + (decode v).count replacement ≤
        (decodePieces size (w ++ v) behind).count replacement ∧
      (Cut size ⟨v, behind⟩ → w.length + (decode v).count replacement <
        (decodePieces size (w ++ v) behind).count replacement) := by
  -- by the length of what is left, one piece at a time
  induction hn : (w ++ v).length using Nat.strong_induction_on generalizing w v with
  | _ n ih =>
    rcases @pieces_cases size (w ++ v) behind with
      ⟨hone, hinside⟩ | ⟨p, rest, hsplit, hp, hrest, hmore, hinside⟩
    · -- one piece: nothing is cut
      have hdecode : decodePieces size (w ++ v) behind = decode (w ++ v) := by
        rw [decodePieces, hone]
        exact List.append_nil _
      rw [hdecode, count_decode_append_of_continues hw]
      refine ⟨Nat.le_refl _, ?_⟩
      rintro ⟨p, t, heq, hdvd, hnot⟩
      obtain rfl : v = p ++ t := heq
      refine absurd hdvd (hinside (w ++ p) t (List.append_assoc ..).symm fun hnil => hnot ?_)
      rw [(List.append_eq_nil_iff.mp hnil).2]
      rfl
    · obtain ⟨p, rfl, rfl⟩ := exists_of_first_piece hsize hthree hboundary hsplit hp hrest
      have hlt : rest.length < n := by
        have hpos := List.length_pos_of_ne_nil hp
        rw [← hn, ← List.append_assoc, List.length_append]
        omega
      have hpieces : (decodePieces size (w ++ (p ++ rest)) behind).count replacement =
          w.length + (decode p).count replacement +
            (decodePieces size rest behind).count replacement := by
        rw [decodePieces, hmore, List.flatMap_cons, List.count_append,
          count_decode_append_of_continues hw]
        rfl
      rw [hpieces]
      -- the first piece ends between characters, or with a part of one
      have hrun := validUtf8_iff.mp hv
      rw [run_append] at hrun
      obtain ⟨q, hq, -⟩ := Option.bind_eq_some_iff.mp hrun
      obtain ⟨c, r, rfl, hc, rfl | hr⟩ := exists_split_of_run hq
      · rw [List.append_nil] at hinside hv ⊢
        rw [validUtf8_append hc] at hv
        have hrest' := ih rest.length hlt (w := []) (v := rest) nofun (Nat.zero_le 3) hv (.inl rfl)
          rfl
        rw [List.length_nil, Nat.zero_add, List.nil_append] at hrest'
        rw [decode_append hc, List.count_append]
        refine ⟨by omega, fun hcut => ?_⟩
        have hmore' := hrest'.2 (hcut.behind_piece hc hinside)
        omega
      · -- the rest of that character comes first in what is left
        have hbehind := hv
        rw [List.append_assoc, validUtf8_append hc] at hbehind
        obtain ⟨w', v', rfl, hne, hthree', hw', hchar, hv'⟩ := exists_rest_of_partial hr hbehind
        have hrest' := (ih (w' ++ v').length hlt hw' hthree' hv' (.inr hrest) rfl).1
        have hpos := List.length_pos_of_ne_nil hne
        rw [run_append, validUtf8_iff.mp hc] at hq
        have hcount := count_decode_of_partial (v := v') hc hr hq hchar
        have hlt' : w.length + (decode (c ++ r ++ (w' ++ v'))).count replacement <
            w.length + (decode (c ++ r)).count replacement +
              (decodePieces size (w' ++ v') behind).count replacement := by omega
        exact ⟨hlt'.le, fun _ => hlt'⟩

/-- **A line that is cut inside a character has more replacement characters than its text.** -/
theorem count_lt_of_cut (hsize : 4 ≤ size) {s : Bytes} {behind : Nat} (hs : validUtf8 s = true)
    (h : Cut size ⟨s, behind⟩) :
    (decode s).count replacement < (decodePieces size s behind).count replacement := by
  have hcount := (count_decodePieces hsize (w := []) nofun (Nat.zero_le 3) hs (.inl rfl)).2 h
  rwa [List.length_nil, Nat.zero_add] at hcount

end

end Bytes
