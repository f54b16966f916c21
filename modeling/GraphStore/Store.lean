/-
The store: a session with a policy and options, updated by text or by operations.
-/
import GraphStore.Execution
import GraphStore.Sparql.Update
import GraphStore.Update.Lowering

namespace GraphStore

/-- A store that guards its updates with a policy. -/
structure Store where
  session : Session := {}
  policy : Policy := Policy.permitAll
  options : Options := {}

/-- The cause for which an update of a store fails. -/
inductive StoreError where
  /-- The text is not a valid update, or the base is not an IRI. -/
  | text
  | update (e : UpdateError)
deriving Inhabited

namespace Store

/-- The committed content. -/
def content (s : Store) : Content := s.session.content

/-- What the updates of the store depend on. -/
def environment (s : Store) : Environment := { policy := s.policy, options := s.options }

/-- The store whose next new node is the `n`-th. -/
def withNextNode (s : Store) (n : Nat) : Store :=
  { s with session := { s.session with journal := { s.session.journal with nextNode := n } } }

/-- Reads an update text into operations; blank nodes are new ones. -/
def parse (s : Store) (text : String) : Except StoreError (List Operation) × Store :=
  match Request.ofText? s.options.baseIri s.session.journal.nextNode text with
  | none => (.error .text, s)
  | some (requests, next) =>
    match Request.lowerText next requests text with
    | .error e => (.error (.update e), s)
    | .ok (ops, next) => (.ok ops, s.withNextNode next)

/-- Executes operations as one batch. -/
def execute (s : Store) (ops : List Operation) (user : Option User) :
    Except UpdateError (List Change) × Store :=
  let (r, session) := s.session.execute s.environment { user } ops
  (r, { s with session })

/-- Executes an update text as one batch; operations without a dataset take `scope`. -/
def update (s : Store) (text : String) (user : Option User) (scope : Option Using) :
    Except StoreError (List Change) × Store :=
  match s.parse text with
  | (.error e, s) => (.error e, s)
  | (.ok ops, s) =>
    let (r, session) := s.session.execute s.environment { user, scope } ops
    (r.mapError .update, { s with session })

/-- Inserts data as one operation, unless some of it is not ground. -/
def insertData (s : Store) (data : List QuadPattern) (user : Option User) :
    Except UpdateError Change × Store :=
  match GroundData.ofPatterns data with
  | .error e => (.error (.dataValidation e), s)
  | .ok d =>
    match s.execute [{ action := .insertData d.quads }] user with
    | (.ok changes, s) => (.ok (changes.getLast?.getD Change.untracked), s)
    | (.error e, s) => (.error e, s)

/-- Makes changes past the policy; answers how many had an effect. -/
def write (s : Store) (acts : List (Transaction → Bool × Transaction)) :
    Except StorageError Nat × Store :=
  let (r, session) := s.session.write Faults.none acts
  (r, { s with session })

/-- Adds quads past the policy; answers how many were new. -/
def extend (s : Store) (quads : List Quad) : Except StorageError Nat × Store :=
  s.write (quads.map fun q tx => tx.insert q)

/-- Adds a quad past the policy; answers whether it is new. -/
def insert (s : Store) (q : Quad) : Except StorageError Bool × Store :=
  let (r, s) := s.write [fun tx => tx.insert q]
  (r.map (· != 0), s)

/-- Removes a quad past the policy; answers whether it was there. -/
def remove (s : Store) (q : Quad) : Except StorageError Bool × Store :=
  let (r, s) := s.write [fun tx => tx.remove q]
  (r.map (· != 0), s)

/-- The lookups of the store, or those of what a user may query. -/
def reader (s : Store) (user : Option User) : Reader Id :=
  match user with
  | some u => s.content.reader.restrict s.policy u
  | none => s.content.reader

/-- The quads of a graph, or of all graphs, that a filter accepts. -/
def quads (s : Store) (user : Option User) (g : Option GraphName) (f : TripleFilter) : List Quad :=
  ((s.reader user).find g f).run

/-- The named graphs. -/
def namedGraphs (s : Store) (user : Option User) : List Resource := (s.reader user).namedGraphs.run

end Store

end GraphStore
