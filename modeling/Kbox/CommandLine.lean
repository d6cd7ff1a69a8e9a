import Kbox.Framework.JavaInt

/-!
# The command line of the shell

Both sessions split the command with the same scanner.  A quoted word may be empty, but the last
word is only added if it is not.
-/

namespace Kbox

open Kbox.Framework

/-! ## §1  The scanner -/

inductive ParseState where
  | plain
  | whitespace
  | inQuote
deriving DecidableEq, Repr

/-- `Character.isWhitespace`: the separators of Unicode that do not forbid a break, and some
control characters. -/
def isWhitespace (c : JChar) : Bool :=
  let c := c.toNat
  (9 ≤ c ∧ c ≤ 13) ∨ (28 ≤ c ∧ c ≤ 32) ∨ c = 0x1680 ∨ (0x2000 ≤ c ∧ c ≤ 0x200a ∧ c ≠ 0x2007) ∨
    c = 0x2028 ∨ c = 0x2029 ∨ c = 0x205f ∨ c = 0x3000

/-- The double quote. -/
abbrev quoteChar : JChar := 34

abbrev backslash : JChar := 92

/-- The words that the loop of `parse` adds to `result`, and the last one behind it. -/
def parseFrom : ParseState → List JChar → List JChar → List (List JChar)
  | _, builder, [] => if builder.length > 0 then [builder] else []
  | .plain, builder, c :: rest =>
      if isWhitespace c then builder :: parseFrom .whitespace [] rest
      else if c = quoteChar then parseFrom .inQuote builder rest
      else parseFrom .plain (builder ++ [c]) rest
  | .whitespace, builder, c :: rest =>
      if isWhitespace c then parseFrom .whitespace builder rest
      else if c = quoteChar then parseFrom .inQuote builder rest
      else parseFrom .plain (builder ++ [c]) rest
  | .inQuote, builder, [c] =>
      if c = backslash then parseFrom .inQuote builder []
      else if c = quoteChar then parseFrom .plain builder []
      else parseFrom .inQuote (builder ++ [c]) []
  | .inQuote, builder, c :: d :: rest =>
      if c = backslash then parseFrom .inQuote (builder ++ [d]) rest
      else if c = quoteChar then parseFrom .plain builder (d :: rest)
      else parseFrom .inQuote (builder ++ [c]) (d :: rest)

theorem parseFrom_plain_cons (builder : List JChar) (c : JChar) (rest : List JChar) :
    parseFrom .plain builder (c :: rest) =
      if isWhitespace c then builder :: parseFrom .whitespace [] rest
      else if c = quoteChar then parseFrom .inQuote builder rest
      else parseFrom .plain (builder ++ [c]) rest := rfl

theorem parseFrom_whitespace_cons (builder : List JChar) (c : JChar) (rest : List JChar) :
    parseFrom .whitespace builder (c :: rest) =
      if isWhitespace c then parseFrom .whitespace builder rest
      else if c = quoteChar then parseFrom .inQuote builder rest
      else parseFrom .plain (builder ++ [c]) rest := rfl

theorem parseFrom_inQuote_last (builder : List JChar) (c : JChar) :
    parseFrom .inQuote builder [c] =
      if c = backslash then parseFrom .inQuote builder []
      else if c = quoteChar then parseFrom .plain builder []
      else parseFrom .inQuote (builder ++ [c]) [] := rfl

theorem parseFrom_inQuote_cons (builder : List JChar) (c d : JChar) (rest : List JChar) :
    parseFrom .inQuote builder (c :: d :: rest) =
      if c = backslash then parseFrom .inQuote (builder ++ [d]) rest
      else if c = quoteChar then parseFrom .plain builder (d :: rest)
      else parseFrom .inQuote (builder ++ [c]) (d :: rest) := rfl

namespace Session.TermSession

def parse (cmd : List JChar) : List (List JChar) := parseFrom .whitespace [] cmd

end Session.TermSession

namespace Androidterm.ShellTermSession

def parse (cmd : List JChar) : List (List JChar) := parseFrom .whitespace [] cmd

end Androidterm.ShellTermSession

/-! ## §2  Writing words -/

def escape (arg : List JChar) : List JChar :=
  arg.flatMap fun c => if c = backslash ∨ c = quoteChar then [backslash, c] else [c]

def quote (arg : List JChar) : List JChar := quoteChar :: (escape arg ++ [quoteChar])

/-- Words written with whitespace between them. -/
inductive JoinedBy (write : List JChar → List JChar) : List (List JChar) → List JChar → Prop
  | nil : JoinedBy write [] []
  | single (word : List JChar) : JoinedBy write [word] (write word)
  | cons {word sep line : List JChar} {words : List (List JChar)} :
      sep ≠ [] → (∀ c ∈ sep, isWhitespace c) → words ≠ [] → JoinedBy write words line →
      JoinedBy write (word :: words) (write word ++ (sep ++ line))

/-- A word that needs no quotes. -/
structure Unquoted (word : List JChar) : Prop where
  nonempty : word ≠ []
  chars : ∀ c ∈ word, isWhitespace c = false ∧ c ≠ quoteChar

/-! ## §3  Reading them back -/

theorem parseFrom_nil (state : ParseState) (builder : List JChar) :
    parseFrom state builder [] = if builder = [] then [] else [builder] := by
  cases builder with
  | nil => cases state <;> rfl
  | cons c builder => cases state <;> rfl

/-- A character of a quoted word that is no escape. -/
theorem parseFrom_inQuote {c : JChar} (hslash : c ≠ backslash) (hquote : c ≠ quoteChar)
    (builder rest : List JChar) :
    parseFrom .inQuote builder (c :: rest) = parseFrom .inQuote (builder ++ [c]) rest := by
  cases rest with
  | nil => rw [parseFrom_inQuote_last, if_neg hslash, if_neg hquote]
  | cons d rest => rw [parseFrom_inQuote_cons, if_neg hslash, if_neg hquote]

/-- The quote that ends a word. -/
theorem parseFrom_endQuote (builder rest : List JChar) :
    parseFrom .inQuote builder (quoteChar :: rest) = parseFrom .plain builder rest := by
  cases rest with
  | nil => rw [parseFrom_inQuote_last, if_neg (by decide), if_pos rfl]
  | cons d rest => rw [parseFrom_inQuote_cons, if_neg (by decide), if_pos rfl]

theorem parseFrom_escape (arg builder rest : List JChar) :
    parseFrom .inQuote builder (escape arg ++ quoteChar :: rest) =
      parseFrom .plain (builder ++ arg) rest := by
  induction arg generalizing builder with
  | nil =>
      rw [List.append_nil]
      exact parseFrom_endQuote builder rest
  | cons c arg ih =>
      have hsplit : builder ++ c :: arg = builder ++ [c] ++ arg := by simp
      unfold escape at ih ⊢
      rw [List.flatMap_cons, hsplit, ← ih]
      by_cases hspecial : c = backslash ∨ c = quoteChar
      · rw [if_pos hspecial]
        exact if_pos rfl
      · obtain ⟨hslash, hquote⟩ := not_or.mp hspecial
        rw [if_neg hspecial]
        exact parseFrom_inQuote hslash hquote _ _

/-- A quoted word. -/
theorem parseFrom_quote (arg rest : List JChar) :
    parseFrom .whitespace [] (quote arg ++ rest) = parseFrom .plain arg rest := by
  have hopen : parseFrom .whitespace [] (quoteChar :: (escape arg ++ quoteChar :: rest)) =
      parseFrom .inQuote [] (escape arg ++ quoteChar :: rest) := by
    rw [parseFrom_whitespace_cons, if_neg (by decide), if_pos rfl]
  unfold quote
  rw [List.cons_append, List.append_assoc, List.singleton_append, hopen, parseFrom_escape,
    List.nil_append]

theorem parseFrom_skip {sep : List JChar} (hsep : ∀ c ∈ sep, isWhitespace c)
    (rest : List JChar) :
    parseFrom .whitespace [] (sep ++ rest) = parseFrom .whitespace [] rest := by
  induction sep with
  | nil => rfl
  | cons c sep ih =>
      obtain ⟨hc, hsep⟩ := List.forall_mem_cons.mp hsep
      rw [List.cons_append, parseFrom_whitespace_cons, if_pos hc]
      exact ih hsep

/-- Whitespace ends a word. -/
theorem parseFrom_sep {sep : List JChar} (hne : sep ≠ []) (hsep : ∀ c ∈ sep, isWhitespace c)
    (word rest : List JChar) :
    parseFrom .plain word (sep ++ rest) = word :: parseFrom .whitespace [] rest := by
  cases sep with
  | nil => exact absurd rfl hne
  | cons c sep =>
      obtain ⟨hc, hsep⟩ := List.forall_mem_cons.mp hsep
      rw [List.cons_append, parseFrom_plain_cons, if_pos hc, parseFrom_skip hsep]

theorem parseFrom_plain {word : List JChar}
    (hword : ∀ c ∈ word, isWhitespace c = false ∧ c ≠ quoteChar) (builder rest : List JChar) :
    parseFrom .plain builder (word ++ rest) = parseFrom .plain (builder ++ word) rest := by
  induction word generalizing builder with
  | nil => rw [List.append_nil, List.nil_append]
  | cons c word ih =>
      obtain ⟨⟨hspace, hquote⟩, hword⟩ := List.forall_mem_cons.mp hword
      rw [List.cons_append, parseFrom_plain_cons, hspace, if_neg Bool.false_ne_true,
        if_neg hquote, ih hword, List.append_assoc, List.singleton_append]

/-- A word that is not quoted. -/
theorem parseFrom_unquoted {word : List JChar} (hword : Unquoted word) (rest : List JChar) :
    parseFrom .whitespace [] (word ++ rest) = parseFrom .plain word rest := by
  obtain ⟨hne, hchars⟩ := hword
  cases word with
  | nil => exact absurd rfl hne
  | cons c word =>
      obtain ⟨⟨hspace, hquote⟩, hword⟩ := List.forall_mem_cons.mp hchars
      rw [List.cons_append, parseFrom_whitespace_cons, hspace, if_neg Bool.false_ne_true,
        if_neg hquote, parseFrom_plain hword]
      rfl

/-- All words but the last one come back, and that one comes back unless it is empty. -/
theorem parseFrom_joined {write : List JChar → List JChar} {words : List (List JChar)}
    {line : List JChar} (h : JoinedBy write words line)
    (hwrite : ∀ word ∈ words, ∀ rest, parseFrom .whitespace [] (write word ++ rest) =
      parseFrom .plain word rest) :
    parseFrom .whitespace [] line = words ↔ words.getLast? ≠ some [] := by
  induction h with
  | nil => exact ⟨fun _ => (Option.some_ne_none _).symm, fun _ => rfl⟩
  | single word =>
      have hword := hwrite word (List.mem_singleton.mpr rfl) []
      rw [List.append_nil, parseFrom_nil] at hword
      rw [hword, List.getLast?_singleton]
      by_cases hempty : word = []
      · rw [if_pos hempty, hempty]
        exact ⟨fun h => (List.cons_ne_nil _ _ h.symm).elim, fun h => absurd rfl h⟩
      · rw [if_neg hempty]
        exact ⟨fun _ h => hempty (Option.some.inj h), fun _ => rfl⟩
  | @cons word sep line words hne hsep hwords _ ih =>
      obtain ⟨hword, hrest⟩ := List.forall_mem_cons.mp hwrite
      obtain ⟨w, ws, rfl⟩ := List.exists_cons_of_ne_nil hwords
      rw [hword, parseFrom_sep hne hsep, List.getLast?_cons_cons, List.cons.injEq, ← ih hrest]
      exact and_iff_right rfl

/-- **Quoting** is undone by both parsers if and only if the last argument is not empty; words
that need no quotes come back as they are. -/
theorem parse_inverts_quoting_iff :
    ∀ parse ∈ [Session.TermSession.parse, Androidterm.ShellTermSession.parse],
      (∀ args line, JoinedBy quote args line →
        (parse line = args ↔ args.getLast? ≠ some [])) ∧
      ∀ words line, JoinedBy id words line → (∀ word ∈ words, Unquoted word) →
        parse line = words := by
  have hboth : (∀ args line, JoinedBy quote args line →
        (parseFrom .whitespace [] line = args ↔ args.getLast? ≠ some [])) ∧
      ∀ words line, JoinedBy id words line → (∀ word ∈ words, Unquoted word) →
        parseFrom .whitespace [] line = words := by
    constructor
    · intro args line hline
      exact parseFrom_joined hline fun arg _ rest => parseFrom_quote arg rest
    · intro words line hline hwords
      refine (parseFrom_joined hline fun word hword rest =>
        parseFrom_unquoted (hwords word hword) rest).mpr fun hlast => ?_
      exact (hwords [] (List.mem_of_getLast? hlast)).nonempty rfl
  intro parse hparse
  rcases List.mem_cons.mp hparse with rfl | hparse
  · exact hboth
  · rw [List.mem_singleton.mp hparse]
    exact hboth

/-- An empty argument, a space, and a quote. -/
theorem parse_inverts_quoting_iff_quote :
    Session.TermSession.parse (quote [] ++ ([32] ++ quote [34])) = [[], [34]] ↔
      [[], [(34 : JChar)]].getLast? ≠ some [] := by
  have hline : JoinedBy quote [[], [34]] (quote [] ++ ([32] ++ quote [34])) :=
    .cons (List.cons_ne_nil _ _) (by simp [isWhitespace]) (List.cons_ne_nil _ _) (.single [34])
  have hparse : Session.TermSession.parse ∈
      [Session.TermSession.parse, Androidterm.ShellTermSession.parse] := List.mem_cons_self
  exact (parse_inverts_quoting_iff Session.TermSession.parse hparse).1 _ _ hline

/-- One empty argument is none. -/
theorem parse_drops_empty_last :
    Session.TermSession.parse (quote []) = [] ∧
      Androidterm.ShellTermSession.parse (quote []) = [] := by
  have hempty : parseFrom .whitespace [] (quote []) = [] := by
    have hquote := parseFrom_quote [] []
    rw [List.append_nil, parseFrom_nil, if_pos rfl] at hquote
    exact hquote
  exact ⟨hempty, hempty⟩

end Kbox
