import Aestival.Library.Shell
import Mathlib.Data.List.Chain

/-!
# Command lines of the self-iteration engine

`self_iteration_engine` runs `git` through `agent_reach_client::exec`. On the POSIX path a command
is quoted twice: `shellQuote` puts an argument between double quotes, and `exec` puts the whole
command between double quotes again, with `std::quoted`, as the argument of `timeout N sh -c`. It
is also read twice, by the shell of `popen` and by the `sh` it starts.

`shellQuote` escapes all four octets that mean something between double quotes; `std::quoted` only
two of them. So the shell of `popen` sees the `$` and the backquotes of the argument behind an even
number of backslashes. `runsOnly_execLine_iff` says which arguments survive that, and
`commitCommand_runsOnly_iff` what it means for the message of a commit.
-/

namespace Aestival

open Bytes Shell

/-! ### The two quotings -/

/-- The octets `shell_quote` escapes. -/
def shellQuoteSpecial (ch : UInt8) : Bool :=
  ch = dquote || ch = backslash || ch = dollar || ch = backquote

/-- `shell_quote`. -/
def shellQuote (s : Bytes) : Bytes := [dquote] ++ escapeWith shellQuoteSpecial s ++ [dquote]

/-- The octets `std::quoted` escapes: its default delimiter and escape character. -/
def stdQuotedSpecial (ch : UInt8) : Bool := ch = dquote || ch = backslash

/-- `std::quoted`. -/
def stdQuoted (s : Bytes) : Bytes := [dquote] ++ escapeWith stdQuotedSpecial s ++ [dquote]

/-- The line `agent_reach_client::exec` hands to `popen`, with its default timeout of 30 s. -/
def execLine (cmd : Bytes) (timeout : Nat := 30) : Bytes :=
  let fullCmd := cmd ++ utf8 " 2>&1"
  utf8 "timeout " ++ utf8 (toString timeout) ++ utf8 " sh -c " ++ stdQuoted fullCmd

/-- The commit command of `commit_changes`. -/
def commitCommand (summary : Bytes) : Bytes :=
  let commitMsg := utf8 "self-iterate: " ++ summary
  utf8 "git commit -m " ++ shellQuote commitMsg

/-! ### What should hold -/

/-- The line makes the two shells run one command and nothing else: the shell of `popen` reads
`timeout 30 sh -c` and a command, and `sh` reads in that command the words `argv` and the
redirection `2>&1`, without an expansion in either. -/
def RunsOnly (line : Bytes) (argv : List Bytes) : Prop :=
  ∃ inner,
    parse (cStr line) =
      .ok ⟨[utf8 "timeout", utf8 "30", utf8 "sh", utf8 "-c", inner], []⟩ ∧
    parse inner = .ok ⟨argv, [(utf8 "2", utf8 "1")]⟩

/-- The texts that pass both shells as they are. -/
structure ShellPlain (s : Bytes) : Prop where
  no_nul : (0 : UInt8) ∉ s
  no_backquote : backquote ∉ s
  /-- No `$` stands directly before an octet that makes it an expansion. Another `$` is no harm:
  by then a backslash stands between the two. -/
  no_expansion : s.IsChain fun a b => a = dollar → startsExpansion b → b = dollar

/-! ### Which texts are inert -/

theorem escapable_of_shellQuoteSpecial {b : UInt8} (h : shellQuoteSpecial b = true) :
    escapable b = true := by
  simp only [shellQuoteSpecial, escapable, Bool.or_eq_true, decide_eq_true_eq] at h ⊢
  tauto

theorem escapable_of_stdQuotedSpecial {b : UInt8} (h : stdQuotedSpecial b = true) :
    escapable b = true := by
  simp only [stdQuotedSpecial, escapable, Bool.or_eq_true, decide_eq_true_eq] at h ⊢
  tauto

/-- `shell_quote` escapes everything special, so its result is inert for the inner shell. -/
theorem inert_shellQuoteSpecial (s : Bytes) : Inert shellQuoteSpecial s := by
  induction s with
  | nil => trivial
  | cons b s ih =>
    refine ⟨?_, ih⟩
    by_cases hb : shellQuoteSpecial b = true
    · exact Or.inl hb
    · simp only [shellQuoteSpecial, Bool.or_eq_true, decide_eq_true_eq, not_or] at hb
      exact Or.inr ⟨hb.2, fun h => absurd h hb.1.2⟩

/-- In front of a text, octets other than `$` and the backquote change nothing. -/
theorem inert_append_left {special : UInt8 → Bool} {u s : Bytes} (hd : dollar ∉ u)
    (hb : backquote ∉ u) : Inert special (u ++ s) ↔ Inert special s := by
  induction u with
  | nil => exact Iff.rfl
  | cons c u ih =>
    rw [List.mem_cons, not_or] at hd hb
    rw [List.cons_append, Inert, ih hd.2 hb.2]
    refine ⟨fun h => h.2, fun h => ⟨Or.inr ⟨?_, ?_⟩, h⟩⟩
    · exact fun hc => hb.1 hc.symm
    · exact fun hc => absurd hc.symm hd.1

/-- Behind a text, neither does a special octet followed by an inert text. -/
theorem inert_append_right {special : UInt8 → Bool} {s u : Bytes} {c : UInt8}
    (hc : special c = true) (hu : Inert special u) :
    Inert special (s ++ c :: u) ↔ Inert special s := by
  induction s with
  | nil => exact ⟨fun _ => trivial, fun _ => ⟨Or.inl hc, hu⟩⟩
  | cons b s ih =>
    rw [List.cons_append, Inert, ih, Inert]
    refine and_congr_left fun _ => or_congr_right (and_congr_right fun _ => ?_)
    refine imp_congr_right fun _ => ?_
    cases s with
    | nil => simp [hc]
    | cons d s => rfl

/-- Behind `\$`, what `shell_quote` makes of the rest of a text starts an expansion exactly when
the rest does, another `$` excepted. -/
theorem head_escapeWith_iff (s : Bytes) :
    (∀ c ∈ (escapeWith shellQuoteSpecial s).head?, startsExpansion c → stdQuotedSpecial c) ↔
      ∀ c ∈ s.head?, startsExpansion c → c = dollar := by
  cases s with
  | nil => simp
  | cons c s =>
    rw [escapeWith_cons]
    by_cases hc : shellQuoteSpecial c = true
    · -- the next octet is escaped, and of the four only the `$` starts an expansion
      rw [if_pos hc]
      refine ⟨fun _ x hx hexp => ?_, fun _ x hx _ => ?_⟩
      · obtain rfl := Option.some.inj hx
        simp only [shellQuoteSpecial, Bool.or_eq_true, decide_eq_true_eq] at hc
        rcases hc with ((rfl | rfl) | rfl) | rfl
        · exact absurd hexp (by decide)
        · exact absurd hexp (by decide)
        · rfl
        · exact absurd hexp (by decide)
      · obtain rfl := Option.some.inj hx
        rfl
    -- the octet stays as it is
    · rw [if_neg hc]
      simp only [shellQuoteSpecial, Bool.or_eq_true, decide_eq_true_eq, not_or] at hc
      obtain ⟨⟨⟨hquote, hslash⟩, hdollar⟩, -⟩ := hc
      simp [stdQuotedSpecial, hquote, hslash, hdollar]

/-- What `shell_quote` makes of a text is inert for the outer shell exactly when the text has no
backquote and no `$` before an octet that expands it. -/
theorem inert_escapeWith_iff (s : Bytes) :
    Inert stdQuotedSpecial (escapeWith shellQuoteSpecial s) ↔
    backquote ∉ s ∧ s.IsChain fun a b => a = dollar → startsExpansion b → b = dollar := by
  induction s with
  | nil => simp [Inert]
  | cons b s ih =>
    rw [escapeWith_cons, List.isChain_cons, List.mem_cons, not_or]
    -- an octet that is escaped leaves its backslash in front of it
    by_cases hb : shellQuoteSpecial b = true
    · have hslash : stdQuotedSpecial backslash = true := rfl
      rw [if_pos hb, List.cons_append, List.singleton_append, Inert, Inert, ih,
        head_escapeWith_iff]
      simp only [hslash, true_or, true_and]
      simp only [shellQuoteSpecial, Bool.or_eq_true, decide_eq_true_eq] at hb
      -- only two of the four would mean anything to the outer shell
      rcases hb with ((rfl | rfl) | rfl) | rfl
      · simp [stdQuotedSpecial, dquote, dollar, backquote]
      · simp [stdQuotedSpecial, backslash, dollar, backquote]
      · have : stdQuotedSpecial dollar = false := rfl
        have hne : dollar ≠ backquote := by decide
        simp only [this, Bool.false_eq_true, false_or, hne, ne_eq, not_false_eq_true, true_and,
          forall_const, hne.symm]
        tauto
      · have : stdQuotedSpecial backquote = false := rfl
        simp [this]
    -- the others mean nothing
    · rw [if_neg hb, List.singleton_append, Inert, ih]
      simp only [shellQuoteSpecial, Bool.or_eq_true, decide_eq_true_eq, not_or] at hb
      obtain ⟨⟨-, hdollar⟩, hback⟩ := hb
      have hback' : backquote ≠ b := fun h => hback h.symm
      simp [hdollar, hback, hback']

/-! ### The two readings -/

private theorem run_wrapper : Lexer.run .start (utf8 "timeout 30 sh -c \"") =
    .ok ⟨.double, [], true, [utf8 "timeout", utf8 "30", utf8 "sh", utf8 "-c"], []⟩ := by
  rfl

private theorem execLine_eq (cmd : Bytes) : execLine cmd =
    utf8 "timeout 30 sh -c \"" ++ (escapeWith stdQuotedSpecial (cmd ++ utf8 " 2>&1") ++
      [dquote]) := by
  rfl

/-- A command without NUL reaches it whole. -/
theorem cStr_execLine {cmd : Bytes} (h : (0 : UInt8) ∉ cmd) :
    cStr (execLine cmd) = execLine cmd := by
  refine cStr_eq_self ?_
  rw [execLine_eq, List.mem_append, List.mem_append, mem_escapeWith (by decide), List.mem_append]
  simp only [h, false_or]
  decide

/-- The outer shell passes an inert command on as it is. -/
theorem parse_execLine_of_inert {cmd : Bytes} (h : Inert stdQuotedSpecial (cmd ++ utf8 " 2>&1")) :
    parse (execLine cmd) = .ok ⟨[utf8 "timeout", utf8 "30", utf8 "sh", utf8 "-c",
      cmd ++ utf8 " 2>&1"], []⟩ := by
  rw [execLine_eq, parse_append run_wrapper, Lexer.run_escapeWith_of_inert
    (fun _ => escapable_of_stdQuotedSpecial) rfl rfl h, List.nil_append]
  rfl

/-- A command that is not inert is expanded by it. -/
theorem parse_execLine_of_not_inert {cmd : Bytes}
    (h : ¬ Inert stdQuotedSpecial (cmd ++ utf8 " 2>&1")) :
    parse (execLine cmd) = .error .expansion := by
  rw [execLine_eq, parse_append run_wrapper, Lexer.run_escapeWith_of_not_inert
    (fun _ => escapable_of_stdQuotedSpecial) rfl rfl h]
  rfl

/-- A NUL in the command ends the line before the closing quote. -/
theorem parse_execLine_of_nul {cmd : Bytes} (h : (0 : UInt8) ∈ cmd) :
    ∃ e, parse (cStr (execLine cmd)) = .error e := by
  have hmem : (0 : UInt8) ∈ escapeWith stdQuotedSpecial (cmd ++ utf8 " 2>&1") :=
    (mem_escapeWith (by decide)).mpr (List.mem_append_left _ h)
  have hcut : cStr (execLine cmd) = utf8 "timeout 30 sh -c \"" ++
      escapeWith stdQuotedSpecial (cStr (cmd ++ utf8 " 2>&1")) := by
    rw [execLine_eq, cStr_append_of_notMem (by decide), cStr_append_of_mem hmem]
    refine congrArg _ (takeWhile_escapeWith rfl (fun b hb => ?_) _)
    simp only [stdQuotedSpecial, Bool.or_eq_true, decide_eq_true_eq] at hb
    rcases hb with rfl | rfl <;> rfl
  rw [hcut, parse_append run_wrapper]
  obtain ⟨e, he⟩ := Lexer.finish_run_escapeWith (fun _ => escapable_of_stdQuotedSpecial) rfl rfl
    (cStr (cmd ++ utf8 " 2>&1"))
    ⟨.double, [], true, [utf8 "timeout", utf8 "30", utf8 "sh", utf8 "-c"], []⟩ rfl
  rw [he]
  exact ⟨e, rfl⟩

/-- The inner shell reads a quoted last argument as it is, whatever it is. -/
theorem parse_shellQuote {pre name : Bytes} {args : List Bytes}
    (hpre : Lexer.run .start pre = .ok ⟨.blank, [], false, name :: args, []⟩)
    (hname : name ∉ reservedWords) (t : Bytes) :
    parse (pre ++ shellQuote t ++ utf8 " 2>&1") =
      .ok ⟨name :: (args ++ [t]), [(utf8 "2", utf8 "1")]⟩ := by
  -- the words of the prefix stand; the quoted text becomes one more
  have hopen : Lexer.run ⟨.blank, [], false, name :: args, []⟩ [dquote] =
      .ok ⟨.double, [], true, name :: args, []⟩ := rfl
  -- and the redirection behind it is none
  have hredirect : Lexer.run ⟨.bare, t, true, name :: args, []⟩ (utf8 " 2>&1") =
      .ok ⟨.dup (utf8 "2"), utf8 "1", false, name :: args ++ [t], []⟩ := rfl
  -- between the quotes every octet is read as it was before the escapes
  have hquoted : Lexer.run ⟨.blank, [], false, name :: args, []⟩
      (shellQuote t ++ utf8 " 2>&1") =
      .ok ⟨.dup (utf8 "2"), utf8 "1", false, name :: args ++ [t], []⟩ := by
    rw [shellQuote, List.append_assoc [dquote], List.append_assoc [dquote], Lexer.run_append, hopen]
    change Lexer.run ⟨.double, [], true, name :: args, []⟩ _ = _
    rw [Lexer.run_append, Lexer.run_escapeWith_of_inert
      (fun _ => escapable_of_shellQuoteSpecial) rfl rfl (inert_shellQuoteSpecial t)]
    exact hredirect
  rw [List.append_assoc, parse_append hpre, hquoted]
  change (if name ∈ reservedWords then _ else _) = _
  rw [if_neg hname]
  rfl

/-! ### When a quoted argument arrives -/

/-- **One quoted argument.** A command that `exec` runs is read as its words with the argument as
it is exactly when the argument is `ShellPlain`; `pre` is the literal text before the argument. -/
theorem runsOnly_execLine_iff (pre name : Bytes) (args : List Bytes)
    (hpre : Lexer.run .start pre = .ok ⟨.blank, [], false, name :: args, []⟩)
    (hname : name ∉ reservedWords) (hnul : (0 : UInt8) ∉ pre) (hdollar : dollar ∉ pre)
    (hback : backquote ∉ pre) (t : Bytes) :
    RunsOnly (execLine (pre ++ shellQuote t)) (name :: (args ++ [t])) ↔ ShellPlain t := by
  -- a NUL can only come from the text
  have hmem : (0 : UInt8) ∈ pre ++ shellQuote t ↔ (0 : UInt8) ∈ t := by
    rw [List.mem_append, shellQuote, List.mem_append, List.mem_append, mem_escapeWith (by decide)]
    simp [hnul, dquote]
  -- so can what the outer shell would expand
  have hinert : Inert stdQuotedSpecial (pre ++ shellQuote t ++ utf8 " 2>&1") ↔
      backquote ∉ t ∧ t.IsChain fun a b => a = dollar → startsExpansion b → b = dollar := by
    rw [List.append_assoc, inert_append_left hdollar hback, shellQuote, List.append_assoc,
      List.append_assoc, inert_append_left (by decide) (by decide), ← inert_escapeWith_iff]
    exact inert_append_right rfl (by decide)
  constructor
  · rintro ⟨inner, houter, -⟩
    -- a NUL cuts the line within its quotes
    have hno : (0 : UInt8) ∉ pre ++ shellQuote t := by
      intro h
      obtain ⟨e, he⟩ := parse_execLine_of_nul h
      rw [he] at houter
      exact nomatch houter
    -- what is not inert is expanded, and the inner shell gets another line
    have hin : Inert stdQuotedSpecial (pre ++ shellQuote t ++ utf8 " 2>&1") := by
      by_contra h
      rw [cStr_execLine hno, parse_execLine_of_not_inert h] at houter
      exact nomatch houter
    obtain ⟨h₁, h₂⟩ := hinert.mp hin
    exact ⟨fun h => hno (hmem.mpr h), h₁, h₂⟩
  -- the line reaches the inner shell as it is
  · rintro ⟨h₀, h₁, h₂⟩
    refine ⟨pre ++ shellQuote t ++ utf8 " 2>&1", ?_, parse_shellQuote hpre hname t⟩
    rw [cStr_execLine fun h => h₀ (hmem.mp h)]
    exact parse_execLine_of_inert (hinert.mpr ⟨h₁, h₂⟩)

/-- **The commit of a summary.** `commit_changes` runs exactly `git commit -m M` with
`M = "self-iterate: " ++ summary`, and neither shell expands anything, exactly when the summary has
no NUL, no backquote, and no `$` directly before an octet that makes it an expansion. -/
theorem commitCommand_runsOnly_iff (summary : Bytes) :
    RunsOnly (execLine (commitCommand summary))
      [utf8 "git", utf8 "commit", utf8 "-m", utf8 "self-iterate: " ++ summary] ↔
    ShellPlain summary := by
  -- the text before the summary is plain, and its last octet is not a `$`
  have hmessage : ShellPlain (utf8 "self-iterate: " ++ summary) ↔ ShellPlain summary := by
    have hchain : (utf8 "self-iterate: ").IsChain fun a b =>
        a = dollar → startsExpansion b → b = dollar := by decide
    have hlast : ∀ x ∈ (utf8 "self-iterate: ").getLast?, x ≠ dollar := by
      intro x hx
      have hblank : (utf8 "self-iterate: ").getLast? = some 32 := rfl
      obtain rfl := Option.mem_some_iff.mp (hblank ▸ hx)
      decide
    constructor
    · rintro ⟨h₀, h₁, h₂⟩
      exact ⟨fun h => h₀ (List.mem_append_right _ h), fun h => h₁ (List.mem_append_right _ h),
        (List.isChain_append.mp h₂).2.1⟩
    · rintro ⟨h₀, h₁, h₂⟩
      refine ⟨?_, ?_, List.isChain_append.mpr ⟨hchain, h₂, fun x hx _ _ h => absurd h (hlast x hx)⟩⟩
      · rw [List.mem_append, not_or]
        exact ⟨by decide, h₀⟩
      · rw [List.mem_append, not_or]
        exact ⟨by decide, h₁⟩
  rw [← hmessage]
  exact runsOnly_execLine_iff (utf8 "git commit -m ") (utf8 "git") [utf8 "commit", utf8 "-m"] rfl
    (by decide) (by decide) (by decide) (by decide) _

/-- **A `$` is expanded.** The summary `$HOME` is replaced by the shell of `popen`. -/
theorem commitCommand_expands :
    ¬ ∀ summary : Bytes, RunsOnly (execLine (commitCommand summary))
      [utf8 "git", utf8 "commit", utf8 "-m", utf8 "self-iterate: " ++ summary] := by
  intro h
  have hplain := (commitCommand_runsOnly_iff (utf8 "$HOME")).mp (h _)
  exact absurd hplain.no_expansion (by decide)

end Aestival
