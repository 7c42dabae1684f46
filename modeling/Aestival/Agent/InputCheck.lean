import Aestival.Agent.Effects
import Aestival.EncodeUtils

/-!
# What the policy engine lets in

`policy_engine::check_input`, the first thing `handle_message` does with a message: an empty or very
long text is refused, then one with a phrase known from prompt injections, then one that repeats a
character for too long.

`Allowed` says which texts are meant to pass. The phrases are searched in the text folded to lower
case, and four of them are listed with upper-case letters (`upperCasePatterns`), so these are never
found. Every other text is judged as it is meant to be (`checkInput_iff_allowed`).
-/

namespace Aestival

open Bytes

/-! ### The source -/

def kMaxMessageLength : Nat := 8000
def kCharRepeatThreshold : Nat := 100

def kInjectionPatterns : List Bytes :=
  [utf8 "ignore all previous instructions", utf8 "ignore previous instructions",
    utf8 "ignore the above", utf8 "disregard previous", utf8 "forget all previous",
    utf8 "new system prompt", utf8 "you are now", utf8 "your new role is",
    utf8 "from now on you are", utf8 "<|im_start|>", utf8 "<|im_end|>", utf8 "<|system|>",
    utf8 "<|user|>", utf8 "<|assistant|>", utf8 "[/INST]", utf8 "[INST]", utf8 "<<SYS>>",
    utf8 "<</SYS>>"]

/-- The loop over the characters of a message. `run` counts how often `last` has just been read; a
run that is too long ends the loop. -/
def runAtEnd (last : UInt8) (run : Nat) : Bytes → Nat
  | [] => run
  | ch :: s =>
    if ch = last then
      if run + 1 > kCharRepeatThreshold then run + 1 else runAtEnd last (run + 1) s
    else runAtEnd ch 1 s

/-- `check_input`: the reason why the message is blocked, if it is. -/
def checkInput (msg : MessageEvent) : Option Bytes :=
  let c := msg.content
  if c = [] then some (utf8 "空白消息")
  else if c.length > kMaxMessageLength then some (utf8 "消息过长（>8000字符）")
  else
    let lower := toAsciiLower c
    match kInjectionPatterns.find? (contains lower) with
    | some pat => some (utf8 "检测到提示注入模式: " ++ pat)
    | none =>
      if runAtEnd 0 0 c > kCharRepeatThreshold then some (utf8 "检测到字符重复刷屏") else none

/-! ### Which texts are meant to pass -/

/-- `c` contains `pat` when the case of letters is ignored. -/
def ContainsNoCase (c pat : Bytes) : Prop := ∃ t, t <:+: c ∧ toAsciiLower t = toAsciiLower pat

/-- Some octet stands `n` times in a row in `c`. -/
def HasRun (n : Nat) (c : Bytes) : Prop := ∃ b, List.replicate n b <:+: c

/-- A text `check_input` is there to let through. -/
structure Allowed (c : Bytes) : Prop where
  nonempty : c ≠ []
  length_le : c.length ≤ 8000
  no_pattern : ∀ pat ∈ kInjectionPatterns, ¬ ContainsNoCase c pat
  no_run : ¬ HasRun 101 c

/-- The patterns that are listed with upper-case letters. -/
def upperCasePatterns : List Bytes :=
  [utf8 "[/INST]", utf8 "[INST]", utf8 "<<SYS>>", utf8 "<</SYS>>"]

/-! ### Folding -/

/-- A folded text holds no upper-case letter. -/
theorem notMem_toAsciiLower {b : UInt8} (hlo : 65 ≤ b) (hhi : b ≤ 90) (s : Bytes) :
    b ∉ toAsciiLower s := by
  intro hmem
  obtain ⟨c, -, hc⟩ := List.mem_map.mp hmem
  rw [UInt8.le_iff_toNat_le] at hlo hhi
  split at hc
  next hcase =>
    have hsum : (c + 32).toNat = b.toNat := congrArg UInt8.toNat hc
    have hc65 : 65 ≤ c.toNat := UInt8.le_iff_toNat_le.mp hcase.1
    have hc90 : c.toNat ≤ 90 := UInt8.le_iff_toNat_le.mp hcase.2
    rw [UInt8.toNat_add] at hsum
    have h32 : (32 : UInt8).toNat = 32 := rfl
    have h90 : (90 : UInt8).toNat = 90 := rfl
    omega
  next hcase =>
    subst hc
    exact hcase ⟨UInt8.le_iff_toNat_le.mpr hlo, UInt8.le_iff_toNat_le.mpr hhi⟩

/-- In the folded text a pattern without upper-case letters is found where the text contains it
with letters of any case. -/
theorem contains_toAsciiLower {c pat : Bytes} (hpat : toAsciiLower pat = pat) :
    contains (toAsciiLower c) pat = true ↔ ContainsNoCase c pat := by
  rw [contains, decide_eq_true_iff, toAsciiLower, List.infix_map_iff]
  constructor
  · rintro ⟨t, ht, rfl⟩
    exact ⟨t, ht, hpat.symm⟩
  · rintro ⟨t, ht, heq⟩
    exact ⟨t, ht, (heq.trans hpat).symm⟩

/-- In the folded text a pattern with an upper-case letter is never found. -/
theorem not_contains_toAsciiLower {c pat : Bytes} {b : UInt8} (hmem : b ∈ pat) (hlo : 65 ≤ b)
    (hhi : b ≤ 90) : contains (toAsciiLower c) pat = false := by
  rw [contains, decide_eq_false_iff_not]
  intro hoccurs
  exact notMem_toAsciiLower hlo hhi c (hoccurs.subset hmem)

theorem lowerCase_or_upper (pat : Bytes) (h : pat ∈ kInjectionPatterns) :
    toAsciiLower pat = pat ∧ pat ∉ upperCasePatterns ∨
      pat ∈ upperCasePatterns ∧ ∃ b ∈ pat, 65 ≤ b ∧ b ≤ 90 := by
  revert pat
  decide +kernel

/-- The search for a pattern finds the patterns without upper-case letters. -/
theorem find_pattern_eq_none_iff (c : Bytes) :
    kInjectionPatterns.find? (contains (toAsciiLower c)) = none ↔
      ∀ pat ∈ kInjectionPatterns, pat ∉ upperCasePatterns → ¬ ContainsNoCase c pat := by
  rw [List.find?_eq_none]
  refine forall₂_congr fun pat hpat => ?_
  rcases lowerCase_or_upper pat hpat with ⟨hlower, hnot⟩ | ⟨hupper, b, hb, hlo, hhi⟩
  · rw [contains_toAsciiLower hlower]
    exact ⟨fun h _ => h, fun h => h hnot⟩
  · rw [not_contains_toAsciiLower hb hlo hhi]
    exact ⟨fun _ hnot => absurd hupper hnot, fun _ => Bool.false_ne_true⟩

/-! ### Runs -/

/-- A run that is longer than the one at the start of a text lies behind it. -/
theorem replicate_infix_append_cons {n run : Nat} {b last ch : UInt8} {s : Bytes} (hrun : run < n)
    (hch : ch ≠ last) :
    List.replicate n b <:+: List.replicate run last ++ ch :: s ↔
      List.replicate n b <:+: ch :: s := by
  induction run with
  | zero => rfl
  | succ run ih =>
    rw [List.replicate_succ, List.cons_append, List.infix_cons_iff, ih (by omega)]
    refine or_iff_right ?_
    rintro ⟨t, ht⟩
    -- the run would cover both `last` and `ch`
    have hget : ∀ i < n, (last :: (List.replicate run last ++ ch :: s))[i]? = some b := by
      intro i hi
      rw [← ht, List.getElem?_append_left (by rwa [List.length_replicate])]
      exact List.getElem?_replicate_of_lt hi
    have hlast : last = b := by simpa using hget 0 (by omega)
    have hnext : ch = b := by simpa using hget (run + 1) hrun
    exact hch (hnext.trans hlast.symm)

/-- The loop counts too far exactly when the run that goes on and the text behind it hold a run that
is too long. -/
theorem runAtEnd_gt_iff (s : Bytes) {last : UInt8} {run : Nat} (hrun : run ≤ 100) :
    runAtEnd last run s > kCharRepeatThreshold ↔ HasRun 101 (List.replicate run last ++ s) := by
  induction s generalizing last run with
  | nil =>
    simp only [runAtEnd, kCharRepeatThreshold, List.append_nil]
    refine iff_of_false (by omega) ?_
    rintro ⟨b, hb⟩
    have hlen := hb.length_le
    rw [List.length_replicate, List.length_replicate] at hlen
    omega
  | cons ch s ih =>
    rw [runAtEnd]
    split
    next hch =>
      subst hch
      have hshift : List.replicate run ch ++ ch :: s = List.replicate (run + 1) ch ++ s := by
        rw [List.replicate_succ', List.append_assoc, List.singleton_append]
      rw [hshift]
      split
      -- the run is as long as it takes, or it goes on
      next hlong =>
        have hrun : run + 1 = 101 := by simp only [kCharRepeatThreshold] at hlong; omega
        rw [hrun]
        exact iff_of_true (Nat.lt_succ_self 100) ⟨ch, (List.prefix_append _ s).isInfix⟩
      next hshort =>
        simp only [kCharRepeatThreshold] at hshort
        exact ih (by omega)
    next hch =>
      rw [ih (by omega)]
      -- another octet: the short run before it does not count
      exact exists_congr fun b => (replicate_infix_append_cons (by omega) hch).symm

/-! ### The check -/

/-- A message passes when no test of the source fails. -/
theorem checkInput_eq_none_iff (msg : MessageEvent) :
    checkInput msg = none ↔ msg.content ≠ [] ∧ msg.content.length ≤ 8000 ∧
      (∀ pat ∈ kInjectionPatterns, pat ∉ upperCasePatterns → ¬ ContainsNoCase msg.content pat) ∧
      ¬ HasRun 101 msg.content := by
  have hruns : runAtEnd 0 0 msg.content > kCharRepeatThreshold ↔ HasRun 101 msg.content :=
    runAtEnd_gt_iff msg.content (Nat.zero_le 100)
  rw [← find_pattern_eq_none_iff, ← hruns, checkInput]
  by_cases hempty : msg.content = []
  · rw [if_pos hempty]
    exact iff_of_false (Option.some_ne_none _) fun h => h.1 hempty
  by_cases hlong : msg.content.length > kMaxMessageLength
  · rw [if_neg hempty, if_pos hlong]
    exact iff_of_false (Option.some_ne_none _) fun h => absurd h.2.1 (Nat.not_le_of_lt hlong)
  have hle : msg.content.length ≤ 8000 := Nat.le_of_not_lt hlong
  rw [if_neg hempty, if_neg hlong]
  dsimp only
  cases kInjectionPatterns.find? (contains (toAsciiLower msg.content)) with
  | some pat => simp
  | none => simp [hempty, hle]

/-- **`check_input` lets exactly the allowed messages in, except where only a pattern listed in
upper case would stop one**: on a message it decides as it is meant to, if and only if none of these
patterns occurs in it, or it is to be refused for another reason. -/
theorem checkInput_iff_allowed (msg : MessageEvent) :
    (checkInput msg = none ↔ Allowed msg.content) ↔
      (∀ pat ∈ upperCasePatterns, ¬ ContainsNoCase msg.content pat) ∨
        msg.content = [] ∨ 8000 < msg.content.length ∨
        (∃ pat ∈ kInjectionPatterns, pat ∉ upperCasePatterns ∧ ContainsNoCase msg.content pat) ∨
        HasRun 101 msg.content := by
  have hsub : ∀ pat ∈ upperCasePatterns, pat ∈ kInjectionPatterns := by decide +kernel
  rw [checkInput_eq_none_iff]
  constructor
  · intro h
    by_contra hnot
    simp only [not_or, not_exists, not_and] at hnot
    obtain ⟨hupper, hempty, hlong, hpat, hrun⟩ := hnot
    -- every test passes, so the message would have to be allowed
    have hallowed := h.mp ⟨hempty, Nat.le_of_not_lt hlong, hpat, hrun⟩
    exact hupper fun pat hmem => hallowed.no_pattern pat (hsub pat hmem)
  · rintro (hupper | hempty | hlong | ⟨pat, hmem, hnot, hpat⟩ | hrun)
    · constructor
      · rintro ⟨hempty, hle, hpat, hrun⟩
        refine ⟨hempty, hle, fun pat hmem => ?_, hrun⟩
        by_cases hcase : pat ∈ upperCasePatterns
        · exact hupper pat hcase
        · exact hpat pat hmem hcase
      · intro h
        exact ⟨h.nonempty, h.length_le, fun pat hmem _ => h.no_pattern pat hmem, h.no_run⟩
    · exact iff_of_false (fun h => h.1 hempty) fun h => h.nonempty hempty
    · exact iff_of_false (fun h => absurd h.2.1 (Nat.not_le_of_lt hlong))
        fun h => absurd h.length_le (Nat.not_le_of_lt hlong)
    · exact iff_of_false (fun h => h.2.2.1 pat hmem hnot hpat)
        fun h => h.no_pattern pat hmem hpat
    · exact iff_of_false (fun h => h.2.2.2 hrun) fun h => h.no_run hrun

/-- The message `[INST]` is one of the listed patterns, and it is let in. -/
theorem checkInput_passes_inst :
    ¬ (checkInput { content := utf8 "[INST]" } = none ↔ Allowed (utf8 "[INST]")) := by
  have hpass : checkInput { content := utf8 "[INST]" } = none := by decide +kernel
  intro h
  have hallowed := h.mp hpass
  exact hallowed.no_pattern (utf8 "[INST]") (by decide) ⟨utf8 "[INST]", List.infix_refl _, rfl⟩

end Aestival
