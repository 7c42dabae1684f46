import Aestival.Library.Bytes

/-!
# Reading a command line with a POSIX shell

A shell that is handed a command line first cuts it into words. `parse` does this for the part of
the language in which a line means one simple command with literal words: blanks, the three kinds
of quoting, and the redirection `n>&m`. A line that the shell would read otherwise is refused, and
the refusal says why: `expansion` where a parameter expansion or a command substitution begins,
`unfinished` where the line ends inside quotes, `unsupported` for every other piece of syntax.
So `parse line = .ok cmd` says that the shell runs `cmd`, once, and expands nothing.

The reader is an automaton (`Lexer.step`), and the library's theorems are about what it makes of a
quoted text. A program that quotes chooses a set of `special` octets and puts a backslash before
each of them (`escapeWith`). Between double quotes such a text is read back unchanged exactly when
it is `Inert` for that set (`Lexer.run_escapeWith_of_inert`, `Lexer.run_escapeWith_of_not_inert`);
without its closing quote no line is accepted at all (`Lexer.finish_run_escapeWith`).
-/

namespace Shell

open Bytes

/-! ### The octets a shell treats specially -/

def dquote : UInt8 := 34
def dollar : UInt8 := 36
def squote : UInt8 := 39
def backslash : UInt8 := 92
def backquote : UInt8 := 96
def newline : UInt8 := 10
def greater : UInt8 := 62
def ampersand : UInt8 := 38

def isBlank (b : UInt8) : Bool := b = 32 || b = 9

def isDigit (b : UInt8) : Bool := 48 ≤ b && b ≤ 57

def isNameStart (b : UInt8) : Bool := (65 ≤ b && b ≤ 90) || (97 ≤ b && b ≤ 122) || b = 95

/-- The octets that make a preceding `$` start an expansion: a digit, the first letter of a name,
an opening brace or parenthesis, and the special parameters `@ * # ? - $ !`. Before any other octet
a `$` stands for itself. -/
def startsExpansion (b : UInt8) : Bool :=
  isDigit b || isNameStart b || b ∈ utf8 "\x7b(@*#?-$!"

/-- The octets a backslash can quote between double quotes. -/
def escapable (b : UInt8) : Bool :=
  b = dquote || b = dollar || b = backslash || b = backquote

/-- Operators, patterns, comments, tildes, assignments and reserved words begin here. -/
def isReserved (b : UInt8) : Bool := b ∈ utf8 ";&|<()\n*?[]\x7b\x7d!=~#"

/-- The words that are not the name of a command. -/
def reservedWords : List Bytes :=
  [utf8 "if", utf8 "then", utf8 "else", utf8 "elif", utf8 "fi", utf8 "do", utf8 "done",
    utf8 "case", utf8 "esac", utf8 "while", utf8 "until", utf8 "for", utf8 "in"]

/-! ### The automaton -/

/-- Why a line is not one simple command with literal words. -/
inductive Refusal where
  | expansion
  | unfinished
  | unsupported
  deriving DecidableEq, Repr

/-- A simple command: its words, and its redirections `n>&m` as pairs `(n, m)`. -/
structure SimpleCommand where
  argv : List Bytes
  dups : List (Bytes × Bytes) := []
  deriving DecidableEq, Repr

/-- Where the reader stands. -/
inductive Mode where
  | blank
  | bare
  | bareEscape
  | bareDollar
  | double
  | doubleEscape
  | doubleDollar
  | single
  | greater
  | dup (fd : Bytes)
  deriving DecidableEq, Repr

/-- The state of the reader: the word being read, whether part of it was quoted, and what has been
read before it. -/
structure Lexer where
  mode : Mode
  word : Bytes := []
  quoted : Bool := false
  argv : List Bytes := []
  dups : List (Bytes × Bytes) := []
  deriving DecidableEq, Repr

namespace Lexer

/-- The start of a line. -/
def start : Lexer := { mode := .blank }

/-- Add an octet to the word and go on in mode `m`. -/
def push (l : Lexer) (m : Mode) (b : UInt8) : Lexer := { l with mode := m, word := l.word ++ [b] }

/-- The word is complete. -/
def endWord (l : Lexer) : Lexer :=
  { l with mode := .blank, word := [], quoted := false, argv := l.argv ++ [l.word] }

/-- The redirection is complete. -/
def endDup (l : Lexer) (fd : Bytes) : Except Refusal Lexer :=
  if l.word = [] then .error .unsupported
  else .ok { l with mode := .blank, word := [], dups := l.dups ++ [(fd, l.word)] }

/-- An octet outside quotes. -/
def bareStep (l : Lexer) (b : UInt8) : Except Refusal Lexer :=
  if isBlank b then .ok l.endWord
  else if b = dquote then .ok { l with mode := .double, quoted := true }
  else if b = squote then .ok { l with mode := .single, quoted := true }
  else if b = backslash then .ok { l with mode := .bareEscape, quoted := true }
  else if b = dollar then .ok { l with mode := .bareDollar }
  else if b = backquote then .error .expansion
  else if b = greater then
    -- only the digits directly before a `>` are taken for a descriptor
    if l.word ≠ [] ∧ l.word.all isDigit ∧ l.quoted = false then .ok { l with mode := .greater }
    else .error .unsupported
  else if isReserved b then .error .unsupported
  else .ok (l.push .bare b)

/-- An octet between double quotes. -/
def doubleStep (l : Lexer) (b : UInt8) : Except Refusal Lexer :=
  if b = dquote then .ok { l with mode := .bare }
  else if b = backslash then .ok { l with mode := .doubleEscape }
  else if b = dollar then .ok { l with mode := .doubleDollar }
  else if b = backquote then .error .expansion
  else .ok (l.push .double b)

/-- One octet. -/
def step (l : Lexer) (b : UInt8) : Except Refusal Lexer :=
  match l.mode with
  | .blank => if isBlank b then .ok l else bareStep l b
  | .bare => bareStep l b
  | .bareEscape => if b = newline then .error .unsupported else .ok (l.push .bare b)
  | .bareDollar =>
    if startsExpansion b then .error .expansion
    else if b = dquote ∨ b = squote then .error .unsupported
    else bareStep (l.push .bare dollar) b
  | .double => doubleStep l b
  | .doubleEscape =>
    if escapable b then .ok (l.push .double b)
    else if b = newline then .ok { l with mode := .double }
    -- before any other octet the backslash stands for itself
    else .ok ((l.push .double backslash).push .double b)
  | .doubleDollar =>
    if startsExpansion b then .error .expansion else doubleStep (l.push .double dollar) b
  | .single => if b = squote then .ok { l with mode := .bare } else .ok (l.push .single b)
  | .greater =>
    if b = ampersand then .ok { l with mode := .dup l.word, word := [] } else .error .unsupported
  | .dup fd =>
    if isDigit b then .ok (l.push (.dup fd) b)
    else if isBlank b then endDup l fd
    else .error .unsupported

/-- A line, or a part of one. -/
def run : Lexer → Bytes → Except Refusal Lexer
  | l, [] => .ok l
  | l, b :: s =>
    match step l b with
    | .ok l' => run l' s
    | .error e => .error e

/-- The end of the line. -/
def finish (l : Lexer) : Except Refusal Lexer :=
  match l.mode with
  | .blank => .ok l
  | .bare => .ok l.endWord
  | .bareDollar => .ok (l.push .bare dollar).endWord
  | .dup fd => endDup l fd
  | .greater => .error .unsupported
  | _ => .error .unfinished

theorem run_append (l : Lexer) (s t : Bytes) :
    run l (s ++ t) = (run l s).bind fun l' => run l' t := by
  induction s generalizing l with
  | nil => rfl
  | cons b s ih =>
    simp only [List.cons_append, run]
    cases step l b with
    | ok l' => exact ih l'
    | error e => rfl

/-- The command that has been read: its first word must be the name of one. -/
def accept (l : Lexer) : Except Refusal SimpleCommand :=
  match l.argv with
  | [] => .error .unsupported
  | name :: args =>
    if name ∈ reservedWords then .error .unsupported else .ok ⟨name :: args, l.dups⟩

end Lexer

/-- The simple command a line is, if it is one. -/
def parse (line : Bytes) : Except Refusal SimpleCommand :=
  ((Lexer.run .start line).bind Lexer.finish).bind Lexer.accept

/-- A line whose first part is read goes on from there. -/
theorem parse_append {s t : Bytes} {l : Lexer} (h : Lexer.run .start s = .ok l) :
    parse (s ++ t) = ((Lexer.run l t).bind Lexer.finish).bind Lexer.accept := by
  rw [parse, Lexer.run_append, h]
  rfl

example : parse (utf8 "sort 'a b'\"$\"  \\$x 2>&1") =
    .ok ⟨[utf8 "sort", utf8 "a b$", utf8 "$x"], [(utf8 "2", utf8 "1")]⟩ := by decide

/-! ### Quoted texts -/

/-- Put a backslash before every special octet. -/
def escapeWith (special : UInt8 → Bool) (s : Bytes) : Bytes :=
  s.flatMap fun b => if special b then [backslash, b] else [b]

/-- Nothing in the text that is left unescaped starts an expansion between double quotes: no
backquote, and no `$` before an octet that makes it one. -/
def Inert (special : UInt8 → Bool) : Bytes → Prop
  | [] => True
  | b :: s =>
    (special b ∨ b ≠ backquote ∧
      (b = dollar → ∀ c ∈ s.head?, startsExpansion c → special c)) ∧ Inert special s

instance decidableInert (special : UInt8 → Bool) : (s : Bytes) → Decidable (Inert special s)
  | [] => .isTrue trivial
  | b :: s =>
    have := decidableInert special s
    inferInstanceAs (Decidable ((special b ∨ b ≠ backquote ∧
      (b = dollar → ∀ c ∈ s.head?, startsExpansion c → special c)) ∧ Inert special s))

section Escape

variable {special : UInt8 → Bool}

@[simp] theorem escapeWith_nil : escapeWith special [] = [] := rfl

theorem escapeWith_cons (b : UInt8) (s : Bytes) :
    escapeWith special (b :: s) =
      (if special b then [backslash, b] else [b]) ++ escapeWith special s :=
  List.flatMap_cons ..

/-- The escaped text has the same octets, and backslashes. -/
theorem mem_escapeWith {b : UInt8} {s : Bytes} (hb : b ≠ backslash) :
    b ∈ escapeWith special s ↔ b ∈ s := by
  rw [escapeWith, List.mem_flatMap]
  constructor
  · rintro ⟨c, hc, hbc⟩
    split at hbc
    · rcases List.mem_cons.mp hbc with h | h
      · exact absurd h hb
      · rwa [List.mem_singleton.mp h]
    · rwa [List.mem_singleton.mp hbc]
  · intro h
    refine ⟨b, h, ?_⟩
    split
    · exact List.mem_cons_of_mem _ (List.mem_singleton_self b)
    · exact List.mem_singleton_self b

/-- A NUL-terminated view of an escaped text is the escaped view. -/
theorem takeWhile_escapeWith {p : UInt8 → Bool} (hslash : p backslash = true)
    (hp : ∀ b, special b = true → p b = true) (s : Bytes) :
    (escapeWith special s).takeWhile p = escapeWith special (s.takeWhile p) := by
  induction s with
  | nil => rfl
  | cons b s ih =>
    rw [escapeWith_cons]
    cases hb : special b with
    -- the backslash and the octet are taken together
    | true =>
      rw [if_pos rfl, List.cons_append, List.takeWhile_cons_of_pos hslash, List.cons_append,
        List.takeWhile_cons_of_pos (hp b hb), List.takeWhile_cons_of_pos (hp b hb),
        escapeWith_cons, hb, List.nil_append, ih]
      rfl
    | false =>
      rw [if_neg Bool.false_ne_true, List.singleton_append]
      -- an octet of its own decides
      by_cases hpb : p b = true
      · rw [List.takeWhile_cons_of_pos hpb, List.takeWhile_cons_of_pos hpb, escapeWith_cons, hb, ih]
        rfl
      · rw [List.takeWhile_cons_of_neg hpb, List.takeWhile_cons_of_neg hpb]
        rfl

end Escape

namespace Lexer

variable {special : UInt8 → Bool} {w : Bytes} {q : Bool} {a : List Bytes}
  {d : List (Bytes × Bytes)}

/-- A `$` that starts no expansion is read as itself. -/
theorem run_doubleDollar {b : UInt8} (hb : startsExpansion b = false) (s : Bytes) :
    run ⟨.doubleDollar, w, q, a, d⟩ (b :: s) = run ⟨.double, w ++ [dollar], q, a, d⟩ (b :: s) := by
  simp only [run, step, hb, Bool.false_eq_true, if_false]
  rfl

/-- An escaped octet is read as itself. -/
theorem run_escaped {b : UInt8} (hb : escapable b = true) (s : Bytes) :
    run ⟨.double, w, q, a, d⟩ (backslash :: b :: s) = run ⟨.double, w ++ [b], q, a, d⟩ s := by
  have hslash : step ⟨.double, w, q, a, d⟩ backslash = .ok ⟨.doubleEscape, w, q, a, d⟩ := rfl
  have hnext : step ⟨.doubleEscape, w, q, a, d⟩ b = .ok ⟨.double, w ++ [b], q, a, d⟩ := by
    simp only [step, hb, if_true]
    rfl
  rw [run, hslash]
  change run ⟨.doubleEscape, w, q, a, d⟩ (b :: s) = _
  rw [run, hnext]

/-- An octet that means nothing between double quotes is read as itself. -/
theorem run_plain {b : UInt8} (hb : escapable b = false) (s : Bytes) :
    run ⟨.double, w, q, a, d⟩ (b :: s) = run ⟨.double, w ++ [b], q, a, d⟩ s := by
  simp only [escapable, Bool.or_eq_false_iff, decide_eq_false_iff_not] at hb
  obtain ⟨⟨⟨h₁, h₂⟩, h₃⟩, h₄⟩ := hb
  have hstep : step ⟨.double, w, q, a, d⟩ b = .ok ⟨.double, w ++ [b], q, a, d⟩ := by
    change doubleStep _ b = _
    rw [doubleStep, if_neg h₁, if_neg h₃, if_neg h₂, if_neg h₄]
    rfl
  rw [run, hstep]

theorem startsExpansion_backslash : startsExpansion backslash = false := by decide

theorem startsExpansion_dquote : startsExpansion dquote = false := by decide

/-- Where double quotes and backslashes are escaped, the other octets that mean something between
double quotes are the backquote and the `$`. -/
theorem escapable_eq_false (hquote : special dquote = true) (hslash : special backslash = true)
    {b : UInt8} (hsp : ¬ special b = true) (hback : b ≠ backquote) (hdollar : b ≠ dollar) :
    escapable b = false := by
  simp only [escapable, Bool.or_eq_false_iff, decide_eq_false_iff_not]
  refine ⟨⟨⟨?_, hdollar⟩, ?_⟩, hback⟩
  · rintro rfl
    exact hsp hquote
  · rintro rfl
    exact hsp hslash

/-- **An inert text is read back** between double quotes. -/
theorem run_escapeWith_of_inert (hspecial : ∀ b, special b = true → escapable b = true)
    (hquote : special dquote = true) (hslash : special backslash = true) {s : Bytes}
    (h : Inert special s) (w : Bytes) :
    run ⟨.double, w, q, a, d⟩ (escapeWith special s ++ [dquote]) =
      .ok ⟨.bare, w ++ s, q, a, d⟩ := by
  induction s generalizing w with
  | nil =>
    rw [List.append_nil]
    rfl
  | cons b s ih =>
    obtain ⟨hb, hs⟩ := h
    have hw : w ++ b :: s = w ++ [b] ++ s := by rw [List.append_assoc, List.singleton_append]
    rw [escapeWith_cons, hw]
    -- an escaped octet is read as itself
    by_cases hsp : special b = true
    · rw [if_pos hsp]
      exact (run_escaped (hspecial b hsp) _).trans (ih hs _)
    · rw [if_neg hsp]
      -- another one must not begin an expansion
      obtain ⟨hback, hnext⟩ := hb.resolve_left hsp
      by_cases hdollar : b = dollar
      · -- the octet after the `$` is a backslash, the closing quote, or nothing that expands
        subst hdollar
        have hrun : ∀ x xs, escapeWith special s ++ [dquote] = x :: xs →
            startsExpansion x = false → run ⟨.double, w, q, a, d⟩
              ([dollar] ++ escapeWith special s ++ [dquote]) =
            .ok ⟨.bare, w ++ [dollar] ++ s, q, a, d⟩ := by
          intro x xs hx hexp
          rw [List.append_assoc, hx, ← ih hs (w ++ [dollar]), hx, ← run_doubleDollar hexp]
          rfl
        cases s with
        | nil => exact hrun dquote [] rfl startsExpansion_dquote
        | cons c s =>
          by_cases hc : special c = true
          · refine hrun backslash (c :: (escapeWith special s ++ [dquote])) ?_
              startsExpansion_backslash
            rw [escapeWith_cons, if_pos hc]
            rfl
          · refine hrun c (escapeWith special s ++ [dquote]) ?_ ?_
            · rw [escapeWith_cons, if_neg hc]
              rfl
            · rw [← Bool.not_eq_true]
              exact fun hexp => hc (hnext rfl c rfl hexp)
      · have hplain := escapable_eq_false hquote hslash hsp hback hdollar
        exact (run_plain hplain _).trans (ih hs _)

/-- **A text that is not inert is expanded** between double quotes, whatever follows it. -/
theorem run_escapeWith_of_not_inert (hspecial : ∀ b, special b = true → escapable b = true)
    (hquote : special dquote = true) (hslash : special backslash = true) {s : Bytes}
    (h : ¬ Inert special s) (w rest : Bytes) :
    run ⟨.double, w, q, a, d⟩ (escapeWith special s ++ rest) = .error .expansion := by
  induction s generalizing w with
  | nil => exact absurd trivial h
  | cons b s ih =>
    rw [escapeWith_cons]
    by_cases hsp : special b = true
    -- it comes later
    · have hs : ¬ Inert special s := fun hs => h ⟨Or.inl hsp, hs⟩
      rw [if_pos hsp]
      exact (run_escaped (hspecial b hsp) _).trans (ih hs _)
    rw [if_neg hsp]
    -- a backquote expands at once
    by_cases hback : b = backquote
    · subst hback
      rfl
    by_cases hdollar : b = dollar
    · subst hdollar
      -- a dollar expands if the next octet lets it
      cases s with
      | nil => exact absurd ⟨Or.inr ⟨hback, fun _ c hc => absurd hc (by simp)⟩, trivial⟩ h
      | cons c s =>
        by_cases hc : startsExpansion c = true ∧ special c = false
        · -- the expansion that makes the text not inert
          rw [escapeWith_cons, hc.2]
          change run ⟨.doubleDollar, w, q, a, d⟩ (c :: (escapeWith special s ++ rest)) = _
          simp only [run, step, hc.1, if_true]
        · have hs : ¬ Inert special (c :: s) := by
            intro hs
            refine h ⟨Or.inr ⟨hback, fun _ x hx hexp => ?_⟩, hs⟩
            obtain rfl := Option.some.inj hx
            by_contra hx
            exact hc ⟨hexp, Bool.not_eq_true _ ▸ hx⟩
          rw [← ih hs (w ++ [dollar]), List.append_assoc]
          change run ⟨.doubleDollar, w, q, a, d⟩ (escapeWith special (c :: s) ++ rest) = _
          rw [escapeWith_cons]
          by_cases hsc : special c = true
          · rw [if_pos hsc]
            exact run_doubleDollar startsExpansion_backslash _
          · rw [if_neg hsc]
            refine run_doubleDollar ?_ _
            rw [← Bool.not_eq_true]
            exact fun hexp => hc ⟨hexp, Bool.not_eq_true _ ▸ hsc⟩
    -- a plain octet
    · have hs : ¬ Inert special s := fun hs => h ⟨Or.inr ⟨hback, fun hd => absurd hd hdollar⟩, hs⟩
      have hplain := escapable_eq_false hquote hslash hsp hback hdollar
      exact (run_plain hplain _).trans (ih hs _)

/-- **Without the closing quote** the reader is still between the quotes at the end of an inert
text, so the line is not finished. -/
theorem finish_run_escapeWith (hspecial : ∀ b, special b = true → escapable b = true)
    (hquote : special dquote = true) (hslash : special backslash = true) (s : Bytes) (l : Lexer)
    (hl : l.mode = .double) :
    ∃ e, (run l (escapeWith special s)).bind finish = .error e := by
  obtain ⟨m, w, q, a, d⟩ := l
  obtain rfl : m = .double := hl
  by_cases h : Inert special s
  · have hrun : run ⟨.double, w, q, a, d⟩ (escapeWith special s ++ [dquote]) = _ :=
      run_escapeWith_of_inert hspecial hquote hslash h w
    rw [run_append] at hrun
    cases hopen : run ⟨.double, w, q, a, d⟩ (escapeWith special s) with
    | error e => exact ⟨e, rfl⟩
    | ok l =>
      -- only between double quotes does a double quote end the quotation
      rw [hopen] at hrun
      have hclose : run l [dquote] = .ok ⟨.bare, w ++ s, q, a, d⟩ := hrun
      obtain ⟨m, w', q', a', d'⟩ := l
      cases m with
      | double | doubleEscape | doubleDollar | single | bareEscape => exact ⟨.unfinished, rfl⟩
      | greater => exact ⟨.unsupported, rfl⟩
      | blank | bare | bareDollar | dup => nomatch hclose
  · have hrun : run ⟨.double, w, q, a, d⟩ (escapeWith special s ++ []) = _ :=
      run_escapeWith_of_not_inert hspecial hquote hslash h w []
    rw [List.append_nil] at hrun
    rw [hrun]
    exact ⟨_, rfl⟩

end Lexer

end Shell
