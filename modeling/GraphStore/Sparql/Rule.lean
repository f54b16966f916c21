/-
Rules: readers of a text that give a value or fail.

An ordered choice takes the first alternative that reads and never comes back to it.  A rule that
fails gives the text back; the labels, new nodes and aggregates it has met stay met.
-/
import GraphStore.Algebra.Text
import GraphStore.Sparql.Lexeme

namespace GraphStore.Sparql

/-- A point of a text, and what the text before it has told. -/
structure Reading where
  rest : List Char
  /-- The IRI that references are resolved against. -/
  base : Option Iri := none
  /-- The names of prefixes and what they stand for, the latest first. -/
  prefixes : List (String × String) := []
  /-- The labels of blank nodes since the last brace of a group. -/
  labels : List String := []
  /-- The labels of blank nodes before that brace, which may not be used again. -/
  closedLabels : List String := []
  /-- The aggregates of the selections around this point, the innermost first. -/
  aggregates : List (List Aggregate) := []
  /-- The number of the next new blank node. -/
  next : Nat := 0
  /-- Nothing in the text repeats or nests more often than this. -/
  bound : Nat := 0

/-- The beginning of a text. -/
def Reading.start (text : String) (base : Option Iri) (next : Nat) : Reading :=
  { rest := text.toList, base, next, bound := text.length + 1 }

/-- A reader of a text. -/
def Rule (α : Type) : Type := Reading → Option α × Reading

namespace Rule

variable {α β : Type}

/-- Reads nothing and gives `a`. -/
def give (a : α) : Rule α := fun s => (some a, s)

/-- Fails. -/
def fail : Rule α := fun s => (none, s)

/-- Reads with `p` and goes on with what it gives. -/
def andThen (p : Rule α) (f : α → Rule β) : Rule β := fun s =>
  match p s with
  | (some a, s) => f a s
  | (none, s) => (none, s)

instance : Monad Rule where
  pure := give
  bind := andThen

instance : Inhabited (Rule α) := ⟨fail⟩

/-- Reads with `p`, or with `q` at the same point if `p` fails. -/
def orElse (p q : Rule α) : Rule α := fun s =>
  match p s with
  | (some a, s) => (some a, s)
  | (none, t) => q { t with rest := s.rest }

instance : OrElse (Rule α) := ⟨fun p q => orElse p (q ())⟩

/-- The first of some rules that reads. -/
def firstOf (rules : List (Rule α)) : Rule α := rules.foldr orElse fail

/-- Gives the value if there is one. -/
def ofOption (a : Option α) : Rule α := fun s => (a, s)

/-- Fails unless a condition holds. -/
def require (b : Bool) : Rule Unit := if b then give () else fail

/-- What is known at this point. -/
def state : Rule Reading := fun s => (some s, s)

/-- Changes what is known. -/
def update (f : Reading → Reading) : Rule Unit := fun s => (some (), f s)

/-- Reads with `p` if that is possible. -/
def optional (p : Rule α) : Rule (Option α) := orElse (some <$> p) (give none)

/-- Whether `p` reads here. -/
def has (p : Rule α) : Rule Bool := Option.isSome <$> optional p

/-- Reads with `p` exactly `n` times. -/
def times : Nat → Rule α → Rule (List α)
  | 0, _ => give []
  | n + 1, p => do return (← p) :: (← times n p)

/-- Reads with `p` as long as that is possible, `n` times at most. -/
def upTo : Nat → Rule α → Rule (List α)
  | 0, _ => give []
  | n + 1, p => orElse (do return (← p) :: (← upTo n p)) (give [])

/-- Reads with `p` as long as that is possible. -/
def many (p : Rule α) : Rule (List α) := fun s => upTo s.bound p s

/-- Reads with `p` once and then as long as that is possible. -/
def many1 (p : Rule α) : Rule (List α) := do return (← p) :: (← many p)

/-- Reads with `p` once and then after every `separator`. -/
def separated (p : Rule α) (separator : Rule β) : Rule (List α) := do
  return (← p) :: (← many (do let _ ← separator; p))

/-- Reads what a scan of characters finds; it gives the rest of the text too. -/
def scan (f : List Char → Option (α × List Char)) : Rule α := fun s =>
  match f s.rest with
  | some (a, rest) => (some a, { s with rest })
  | none => (none, s)

/-- Reads a text. -/
def symbol (text : String) : Rule Unit :=
  scan fun cs => if text.toList.isPrefixOf cs then some ((), cs.drop text.length) else none

/-- Reads a keyword, in any case; what follows may touch it. -/
def keyword (word : String) : Rule Unit :=
  scan fun cs =>
    if Text.isKeyword word (cs.take word.length) then some ((), cs.drop word.length) else none

/-- Reads blanks and comments, which may be absent. -/
def blank : Rule Unit := scan fun cs => some ((), Lexeme.skipBlank false cs)

/-- Reads with `p` and then blanks. -/
def lexeme (p : Rule α) : Rule α := do
  let a ← p
  blank
  return a

/-- Reads a text and then blanks. -/
def mark (text : String) : Rule Unit := lexeme (symbol text)

/-- Reads a keyword and then blanks. -/
def word (text : String) : Rule Unit := lexeme (keyword text)

/-- A new blank node. -/
def freshBlank : Rule BlankNode := fun s => (some (.fresh s.next), { s with next := s.next + 1 })

/-- A new variable; its name begins with a full stop, which no written name does. -/
def freshVariable : Rule Variable := do
  let n ← freshBlank
  return ⟨"." ++ n.id⟩

/-- A rule for nested constructs, nested as deep as the text allows. -/
def nested (p : Nat → Rule α) : Rule α := fun s => p s.bound s

end Rule

end GraphStore.Sparql
