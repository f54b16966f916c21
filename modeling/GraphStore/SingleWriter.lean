/-
A store with at most one open write transaction.

Readers outside the transaction see the committed content, which only a commit changes.
-/
import GraphStore.Error
import GraphStore.Transaction

namespace GraphStore

/-- One of the changes that a transaction offers. -/
inductive TransactionStep where
  | addToDefault (t : Triple)
  | removeFromDefault (t : Triple)
  | addToNamed (g : Resource) (t : Triple)
  | removeFromNamed (g : Resource) (t : Triple)
  | insertGraph (g : Resource)
  | removeGraph (g : Resource)
deriving DecidableEq, Repr

namespace TransactionStep

/-- Makes a change; answers whether it had an effect. -/
def run (tx : Transaction) : TransactionStep → Bool × Transaction
  | .addToDefault t => tx.addToDefault t
  | .removeFromDefault t => tx.removeFromDefault t
  | .addToNamed g t => tx.addToNamed g t
  | .removeFromNamed g t => tx.removeFromNamed g t
  | .insertGraph g => tx.insertGraph g
  | .removeGraph g => tx.removeGraph g

/-- The change that adds a quad to the graph it names. -/
def insert (q : Quad) : TransactionStep :=
  match q.graph with
  | .default => .addToDefault q.triple
  | .named g => .addToNamed g q.triple

/-- The change that removes a quad from the graph it names. -/
def remove (q : Quad) : TransactionStep :=
  match q.graph with
  | .default => .removeFromDefault q.triple
  | .named g => .removeFromNamed g q.triple

/-- Makes changes in order. -/
def runAll (tx : Transaction) (steps : List TransactionStep) : Transaction :=
  steps.foldl (fun tx s => (s.run tx).2) tx

end TransactionStep

/-- A committed content and the open transaction, if there is one. -/
structure SingleWriter where
  committed : Content := {}
  writer : Option Transaction := none
deriving DecidableEq, Inhabited, Repr

namespace SingleWriter

/-- Opens a transaction. -/
def begin (s : SingleWriter) : SingleWriter := { s with writer := some (.start s.committed) }

/-- Makes a change in the open transaction; without one nothing happens. -/
def step (s : SingleWriter) (t : TransactionStep) : Bool × SingleWriter :=
  match s.writer with
  | some tx =>
    let (changed, tx) := t.run tx
    (changed, { s with writer := some tx })
  | none => (false, s)

/-- Closes the transaction and publishes its content. -/
def commit (s : SingleWriter) : Option SingleWriter :=
  match s.writer with
  | some tx => (tx.publish s.committed).map fun c => ⟨c, none⟩
  | none => some s

/-- Closes the transaction and forgets its changes. -/
def abort (s : SingleWriter) : SingleWriter := { s with writer := none }

/-- Adds quads in a transaction of its own; answers how many were new. -/
def extend (s : SingleWriter) (quads : List Quad) : Nat × SingleWriter :=
  let (effects, tx) := quads.foldl (fun (effects, tx) q =>
    let (changed, tx) := Transaction.insert tx q
    (effects + changed.toNat, tx)) (0, Transaction.start s.committed)
  match tx.publish s.committed with
  | some c => (effects, { s with committed := c })
  | none => (0, s)

/-- What a reader of the open transaction sees; without one, the committed content. -/
def working (s : SingleWriter) : Content := (s.writer.map Transaction.content).getD s.committed

end SingleWriter

end GraphStore
