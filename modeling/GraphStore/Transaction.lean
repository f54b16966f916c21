/-
Write transactions: a private content and the log of the changes made to it.

The committed content is not touched while a transaction is open.  To commit, the log is replayed
on the committed content; an entry without effect means that the content changed meanwhile.
-/
import GraphStore.Content

namespace GraphStore

/-- One change of a content. -/
inductive Edit where
  | addedTriple (t : Triple)
  | removedTriple (t : Triple)
  | addedQuad (q : Quad)
  | removedQuad (q : Quad)
  | registered (g : Resource)
  | unregistered (g : Resource)
deriving DecidableEq, Repr

/-- Makes a change again, if it has an effect. -/
def Edit.apply (c : Content) : Edit → Option Content
  | .addedTriple t => c.addTriple t
  | .removedTriple t => c.removeTriple t
  | .addedQuad q => c.addQuad q
  | .removedQuad q => c.removeQuad q
  | .registered g => c.register g
  | .unregistered g => c.unregister g

/-- The edits in order, if each of them has an effect. -/
def Edit.replay (c : Content) (log : List Edit) : Option Content := log.foldlM Edit.apply c

/-- An open transaction. -/
structure Transaction where
  content : Content
  log : List Edit := []
deriving DecidableEq, Inhabited, Repr

namespace Transaction

/-- A transaction on a committed content. -/
def start (c : Content) : Transaction := { content := c }

/-- Goes on with the content that a change leads to and records its entry; without a change nothing
happens.  Answers whether there was one. -/
def record (tx : Transaction) (changed : Option Content) (entry : Edit) : Bool × Transaction :=
  match changed with
  | some c => (true, ⟨c, tx.log ++ [entry]⟩)
  | none => (false, tx)

/-- Adds a triple to the default graph. -/
def addToDefault (tx : Transaction) (t : Triple) : Bool × Transaction :=
  tx.record (tx.content.addTriple t) (.addedTriple t)

/-- Removes a triple from the default graph. -/
def removeFromDefault (tx : Transaction) (t : Triple) : Bool × Transaction :=
  tx.record (tx.content.removeTriple t) (.removedTriple t)

/-- Adds a triple to a named graph. -/
def addToNamed (tx : Transaction) (g : Resource) (t : Triple) : Bool × Transaction :=
  let q := t.inGraph (.named g)
  tx.record (tx.content.addQuad q) (.addedQuad q)

/-- Removes a triple from a named graph. -/
def removeFromNamed (tx : Transaction) (g : Resource) (t : Triple) : Bool × Transaction :=
  let q := t.inGraph (.named g)
  tx.record (tx.content.removeQuad q) (.removedQuad q)

/-- Creates an empty named graph; answers whether it did not exist. -/
def insertGraph (tx : Transaction) (g : Resource) : Bool × Transaction :=
  tx.record (tx.content.register g) (.registered g)

/-- Removes a named graph with its quads, one after the other; answers whether it existed. -/
def removeGraph (tx : Transaction) (g : Resource) : Bool × Transaction :=
  let emptied := (tx.content.findNamed g .any).foldl
    (fun tx q => (tx.record (tx.content.removeQuad q) (.removedQuad q)).2) tx
  (tx.content.containsGraph g,
    (emptied.record (emptied.content.unregister g) (.unregistered g)).2)

/-- Adds a quad to the graph it names. -/
def insert (tx : Transaction) (q : Quad) : Bool × Transaction :=
  match q.graph with
  | .default => tx.addToDefault q.triple
  | .named g => tx.addToNamed g q.triple

/-- Removes a quad from the graph it names. -/
def remove (tx : Transaction) (q : Quad) : Bool × Transaction :=
  match q.graph with
  | .default => tx.removeFromDefault q.triple
  | .named g => tx.removeFromNamed g q.triple

/-- The content after the transaction is committed on `committed`. -/
def publish (tx : Transaction) (committed : Content) : Option Content :=
  Edit.replay committed tx.log

end Transaction

end GraphStore
