/-
# What a scrubbed literal stands for

Scrubbing replaces each line feed of a literal, wherever it stands, by a backslash and an
`n`. A literal is read two characters at a time behind a backslash, though, so it matters
where that pair falls. Behind a complete pair, or behind any other character, it is read as
a pair again and stands for the line feed. Only a line feed that is itself the second
character of a pair is different: its new backslash would complete that pair, and the `n`
would stand for itself.

So a literal keeps its meaning as long as no backslash takes a line feed with it. It always
keeps its quotes and ends up without a line feed. A carriage return is a character like any
other here: it is copied, and a literal has no way to write it but as itself.
-/

import Offside.Proofs.Scrub.Literal

namespace Offside

namespace Token

/-- What a backslash and the character behind it stand for. -/
def denoted (c : Char) : Char := if c = 'n' then '\n' else c

/-- The text that the body of a literal stands for. -/
def meaning : List Char → List Char
  | '\\' :: c :: rest => denoted c :: meaning rest
  | c :: rest => c :: meaning rest
  | [] => []

/-- A backslash of the body takes a line feed with it. -/
def takesLineFeed : List Char → Bool
  | '\\' :: c :: rest => c == '\n' || takesLineFeed rest
  | _ :: rest => takesLineFeed rest
  | [] => false

theorem meaning_cons {c : Char} (hc : c ≠ '\\') (rest : List Char) :
    meaning (c :: rest) = c :: meaning rest := by
  rw [meaning]
  exact fun _ _ heq => absurd heq hc

theorem takesLineFeed_cons {c : Char} (hc : c ≠ '\\') (rest : List Char) :
    takesLineFeed (c :: rest) = takesLineFeed rest := by
  rw [takesLineFeed]
  exact fun _ _ heq => absurd heq hc

/-- Where no backslash takes a line feed with it, a body means the same with its line feeds
escaped. -/
theorem meaning_flatMap_escapeLineFeed {body : List Char} (hbody : takesLineFeed body = false) :
    meaning (body.flatMap escapeLineFeed) = meaning body := by
  fun_induction meaning body with
  | case1 c rest ih =>
      simp only [takesLineFeed, Bool.or_eq_false_iff, beq_eq_false_iff_ne] at hbody
      simp [escapeLineFeed, hbody.1, meaning, ih hbody.2]
  | case2 c rest hpair ih =>
      by_cases hbackslash : c = '\\'
      · -- A backslash with nothing behind it.
        cases rest with
        | nil => simp [escapeLineFeed, hbackslash, meaning]
        | cons d rest => exact absurd rfl (hpair d rest hbackslash)
      · rw [takesLineFeed_cons hbackslash] at hbody
        by_cases hfeed : c = '\n'
        · simp [escapeLineFeed, hfeed, meaning, denoted, ih hbody]
        · simp [escapeLineFeed, hfeed, meaning_cons hbackslash, ih hbody]
  | case3 => rfl

/-- Escaping line feeds neither takes nor adds a carriage return. -/
theorem mem_return_flatMap_escapeLineFeed_iff (text : List Char) :
    '\r' ∈ text.flatMap escapeLineFeed ↔ '\r' ∈ text := by
  have hchar : ∀ c, '\r' ∈ escapeLineFeed c ↔ '\r' = c := by
    intro c
    by_cases hfeed : c = '\n' <;> simp [escapeLineFeed, hfeed]
  simp only [List.mem_flatMap, hchar, exists_eq_right']

/-- The rule allows each token of a source where it stands. -/
theorem exists_leads_of_tokenize {source : List Char} {front back : List Token} {token : Token}
    (htokens : tokenize source = front ++ token :: back) : ∃ after, Leads token after := by
  induction front generalizing source with
  | nil =>
      obtain ⟨after, -, hleads, -⟩ := WalkState.exists_after_of_tokenize_eq_cons htokens
      exact ⟨after, hleads⟩
  | cons first front ih =>
      obtain ⟨after, -, -, hrest⟩ := WalkState.exists_after_of_tokenize_eq_cons htokens
      exact ih hrest

/-- A string token is a body between two quotes. -/
theorem Leads.exists_body {token : Token} {after : List Char} (hleads : Leads token after)
    (hstring : token.isString = true) :
    ∃ quote body, quote? token.kind = some quote ∧ token.text = quote :: body ++ [quote] := by
  cases hleads with
  | literal hquote _ _ => exact ⟨_, _, hquote, rfl⟩
  | loneQuote | blockComment | lineComment | run => cases hstring

end Token

/-- A literal keeps its quotes, its line and what it stands for. For every string token of a
source, what is written for it in the scrubbed source is a body between the same quotes; that
body has no line feed, and a carriage return only if the token's body has one; and unless a
backslash of the token's body takes a line feed with it, the two bodies mean the same. -/
theorem scrub_literal_meaning {source : List Char} {front back : List Token} {token : Token}
    (htokens : tokenize source = front ++ token :: back) (hstring : token.isString = true) :
    ∃ quote body body', Token.quote? token.kind = some quote ∧
      token.text = quote :: body ++ [quote] ∧
      scrub source = front.flatMap Token.scrubbed ++ (quote :: body' ++ [quote]) ++
        back.flatMap Token.scrubbed ∧
      '\n' ∉ body' ∧ ('\r' ∈ body' ↔ '\r' ∈ body) ∧
      (Token.takesLineFeed body = false → Token.meaning body' = Token.meaning body) := by
  obtain ⟨after, hleads⟩ := Token.exists_leads_of_tokenize htokens
  obtain ⟨quote, body, hquote, htext⟩ := hleads.exists_body hstring
  refine ⟨quote, body, body.flatMap escapeLineFeed, hquote, htext, ?_,
    Token.notMem_flatMap_escapeLineFeed body, Token.mem_return_flatMap_escapeLineFeed_iff body,
    Token.meaning_flatMap_escapeLineFeed⟩
  have hscrubbed : token.scrubbed = quote :: body.flatMap escapeLineFeed ++ [quote] := by
    rw [Token.scrubbed_of_isString hstring, htext]
    simp [Token.escapeLineFeed_quote hquote]
  rw [scrub, htokens, List.flatMap_append, List.flatMap_cons, hscrubbed, ← List.append_assoc]

/-- A literal with an escaped quote in front of a line feed, behind a comment. -/
theorem scrub_literal_meaning_sample :
    let source := ['#', '\n', '\'', '\\', '\'', '\n', '\'']
    let token : Token := ⟨.singleQuoted, ['\'', '\\', '\'', '\n', '\'']⟩
    tokenize source = [⟨.comment, ['#']⟩, ⟨.text, ['\n']⟩] ++ token :: [] ∧
      token.isString = true ∧ Token.takesLineFeed ['\\', '\'', '\n'] = false ∧
      ∃ body', scrub source = ['\n'] ++ ('\'' :: body' ++ ['\'']) ∧ '\n' ∉ body' ∧
        Token.meaning body' = ['\'', '\n'] := by
  intro source token
  have htokens : tokenize source = [⟨.comment, ['#']⟩, ⟨.text, ['\n']⟩] ++ token :: [] := by
    decide +kernel
  have hpairs : Token.takesLineFeed ['\\', '\'', '\n'] = false := by decide
  obtain ⟨quote, body, body', hquote, htext, hscrub, hfeed, -, hmeaning⟩ :=
    scrub_literal_meaning htokens rfl
  obtain rfl : '\'' = quote := Option.some_inj.mp hquote
  obtain rfl : ['\\', '\'', '\n'] = body := List.append_cancel_right (List.cons.inj htext).2
  refine ⟨htokens, rfl, hpairs, body', ?_, hfeed, hmeaning hpairs⟩
  rw [hscrub, List.flatMap_nil, List.append_nil]
  rfl

/-- A line feed behind a backslash, and a carriage return: the first literal stands for a
line feed and becomes one that stands for a backslash and an `n`, and the second keeps its
carriage return. -/
theorem scrub_literal_ne :
    (tokenize ['\'', '\\', '\n', '\''] = [⟨.singleQuoted, ['\'', '\\', '\n', '\'']⟩] ∧
      ¬ ∃ body', scrub ['\'', '\\', '\n', '\''] = '\'' :: body' ++ ['\''] ∧ '\n' ∉ body' ∧
        '\r' ∉ body' ∧ Token.meaning body' = Token.meaning ['\\', '\n']) ∧
    tokenize ['\'', '\r', '\''] = [⟨.singleQuoted, ['\'', '\r', '\'']⟩] ∧
      ¬ ∃ body', scrub ['\'', '\r', '\''] = '\'' :: body' ++ ['\''] ∧ '\n' ∉ body' ∧
        '\r' ∉ body' ∧ Token.meaning body' = Token.meaning ['\r'] := by
  refine ⟨⟨by decide +kernel, ?_⟩, by decide +kernel, ?_⟩
  · rintro ⟨body', hscrub, -, -, hmeaning⟩
    have hbody : scrub ['\'', '\\', '\n', '\''] = '\'' :: ['\\', '\\', 'n'] ++ ['\''] := by
      decide +kernel
    rw [hbody] at hscrub
    obtain rfl := List.append_cancel_right (List.cons.inj hscrub).2
    exact absurd hmeaning (by decide +kernel)
  · rintro ⟨body', hscrub, -, hreturn, -⟩
    have hbody : scrub ['\'', '\r', '\''] = '\'' :: ['\r'] ++ ['\''] := by decide +kernel
    rw [hbody] at hscrub
    obtain rfl := List.append_cancel_right (List.cons.inj hscrub).2
    exact hreturn (by decide)

end Offside
