/-
Transfer clauses: the ADD, COPY and MOVE statements of an update text.

The text is split into words, IRI references and other tokens; blanks, comments and the content
of string literals leave no trace, so that a keyword inside them is never taken for a clause.
A clause whose source and destination are spelled the same is skipped.
-/
import GraphStore.Operation
import GraphStore.Text.Characters

namespace GraphStore

/-- A transfer statement of an update text. -/
structure TransferClause where
  action : GraphAction
  silent : Bool
deriving DecidableEq, Inhabited, Repr

namespace Clause

open Text

/-- A token of an update text, as far as transfer clauses need it. -/
inductive Token where
  | word (text : List Char)
  | iri (text : List Char)
  | other
deriving DecidableEq, Inhabited, Repr

/-- A character of a word: variables, numbers and prefixed names are words too. -/
def isWordChar (c : Char) : Bool := isAlphanumeric c || "_:-.?$%".toList.contains c

/-- A character that may not stand in an IRI reference. -/
def isForbidden (c : Char) : Bool := "<\"\x7b|\x7d^\x60\\".toList.contains c || c.toNat ≤ 0x20

/-- The characters up to the bracket that closes an IRI reference, the bracket included. -/
def iriTail? : List Char → Option Nat
  | [] => none
  | c :: cs =>
    if c == '>' then some 1 else if isForbidden c then none else (iriTail? cs).map (· + 1)

/-- The length of the IRI reference at the start of a text, if there is one. -/
def iriLength? : List Char → Option Nat
  | '<' :: cs => (iriTail? cs).map (· + 1)
  | _ => none

/-- The characters up to the quote that closes a short string, the quote included; without a
closing quote all characters. -/
def shortTail (quote : Char) : List Char → Nat
  | [] => 0
  | ['\\'] => 1
  | '\\' :: _ :: cs => shortTail quote cs + 2
  | c :: cs => if c == quote then 1 else shortTail quote cs + 1

/-- The characters up to the three quotes that close a long string, these included; without them
all characters. -/
def longTail (quote : Char) : List Char → Nat
  | [] => 0
  | ['\\'] => 1
  | '\\' :: _ :: cs => longTail quote cs + 2
  | c :: cs =>
    if [quote, quote, quote].isPrefixOf (c :: cs) then 3 else longTail quote cs + 1

/-- The length of the string literal at the start of a text, its quotes included. -/
def stringLength (quote : Char) (cs : List Char) : Nat :=
  if [quote, quote, quote].isPrefixOf cs then longTail quote (cs.drop 3) + 3
  else shortTail quote (cs.drop 1) + 1

/-- Whether a character ends a comment. -/
def endsLine (c : Char) : Bool := c == '\n' || c == '\r'

/-- The length of the first token or gap of a text, and the token. -/
def firstToken (c : Char) (cs : List Char) : Option Token × Nat :=
  if isBlank c then (none, 1)
  else if c == '#' then (none, 1 + (cs.takeWhile (!endsLine ·)).length)
  else if c == '"' || c == '\'' then (some .other, stringLength c (c :: cs))
  else match iriLength? (c :: cs) with
    | some n => (some (.iri ((c :: cs).take n)), n)
    | none =>
      if isWordChar c then
        (some (.word (c :: cs.takeWhile isWordChar)), 1 + (cs.takeWhile isWordChar).length)
      else (some .other, 1)

theorem iriLength?_pos {cs : List Char} {n : Nat} (h : iriLength? cs = some n) : 0 < n := by
  unfold iriLength? at h
  split at h
  · simp only [Option.map_eq_some_iff] at h
    obtain ⟨m, _, rfl⟩ := h
    exact Nat.succ_pos m
  · exact nomatch h

/-- Every token and every gap has a character. -/
theorem firstToken_pos (c : Char) (cs : List Char) : 0 < (firstToken c cs).2 := by
  unfold firstToken stringLength
  repeat' split
  all_goals simp only []
  all_goals first
    | omega
    | exact iriLength?_pos ‹_›

/-- The tokens of a text. -/
def tokens : List Char → List Token
  | [] => []
  | c :: cs =>
    let first := firstToken c cs
    first.1.toList ++ tokens ((c :: cs).drop first.2)
termination_by cs => cs.length
decreasing_by
  have := firstToken_pos c cs
  simp only [List.length_drop, List.length_cons]
  omega

/-- Whether a token is a keyword, in any case. -/
def Token.is (keyword : String) : Token → Bool
  | .word w => isKeyword keyword w
  | _ => false

/-- The transfer that a token names. -/
def action? (t : Token) : Option GraphAction :=
  [GraphAction.add, .copy, .move].find? fun a => t.is a.name

/-- The reference to a graph at the start of a list of tokens; DEFAULT has one spelling. -/
def graph? : List Token → Option (Token × List Token)
  | .word w :: rest =>
    if isKeyword "DEFAULT" w then some (.word "DEFAULT".toList, rest)
    else match rest with
      | g :: rest => if isKeyword "GRAPH" w then some (g, rest) else some (.word w, g :: rest)
      | [] => some (.word w, [])
  | .iri i :: rest => some (.iri i, rest)
  | _ => none

/-- The rest of a list of tokens after the keyword SILENT, and whether it is there. -/
def silent : List Token → Bool × List Token
  | t :: rest => if t.is "SILENT" then (true, rest) else (false, t :: rest)
  | [] => (false, [])

/-- The clause that follows the name of a transfer, absent if both graphs are spelled the same,
and the tokens behind it. -/
def clauseBody? (action : GraphAction) (ts : List Token) :
    Option (Option TransferClause × List Token) := do
  let flag := silent ts
  let source ← graph? flag.2
  match source.2 with
  | link :: rest =>
    if link.is "TO" then
      let destination ← graph? rest
      return (if source.1 = destination.1 then none else some ⟨action, flag.1⟩, destination.2)
    else none
  | [] => none

theorem length_graph? {ts : List Token} {r : Token × List Token} (h : graph? ts = some r) :
    r.2.length < ts.length := by
  unfold graph? at h
  repeat' split at h
  all_goals first
    | (simp only [Option.some.injEq] at h; subst h; simp +arith)
    | exact nomatch h

theorem length_silent (ts : List Token) : (silent ts).2.length ≤ ts.length := by
  unfold silent
  repeat' split
  all_goals simp

theorem length_clauseBody? {action : GraphAction} {ts : List Token}
    {r : Option TransferClause × List Token} (h : clauseBody? action ts = some r) :
    r.2.length ≤ ts.length := by
  simp only [clauseBody?, Option.bind_eq_bind, Option.bind_eq_some_iff] at h
  obtain ⟨source, hs, h⟩ := h
  have h1 := length_graph? hs
  have h2 := length_silent ts
  split at h
  · rename_i heq
    rw [heq] at h1
    split at h
    · simp only [Option.bind_eq_some_iff] at h
      obtain ⟨d, hd, h⟩ := h
      have h3 := length_graph? hd
      simp only [pure, Option.some.injEq] at h
      subst h
      simp only [List.length_cons] at h1
      have h4 : d.2.length ≤ ts.length := by omega
      exact h4
    · exact nomatch h
  · exact nomatch h

/-- The transfer clauses of a list of tokens. -/
def ofTokens : List Token → List TransferClause
  | [] => []
  | t :: ts =>
    match action? t with
    | none => ofTokens ts
    | some action =>
      match _h : clauseBody? action ts with
      | none => ofTokens ts
      | some r => r.1.toList ++ ofTokens r.2
termination_by ts => ts.length
decreasing_by
  · simp
  · simp
  · have := length_clauseBody? ‹_›
    simp only [List.length_cons]
    omega

end Clause

/-- The transfer clauses of an update text, in order. -/
def transferClauses (text : String) : List TransferClause :=
  Clause.ofTokens (Clause.tokens text.toList)

end GraphStore
