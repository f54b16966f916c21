/-
Lowering: the operations of a batch from the requests of an update text.

The requests that a transfer stands for become one operation again.  With the transfer clauses of
the text, the next clause says what to look for and gives the SILENT flag; without them, COPY and
MOVE are guessed from the shape, and ADD stays a pattern-driven update.  LOAD is not supported.
-/
import GraphStore.GroundData
import GraphStore.Template
import GraphStore.Update.Clause
import GraphStore.Update.Request

namespace GraphStore

/-- The blank node of a resource. -/
def Resource.blanks : Resource → List BlankNode
  | .blank n => [n]
  | .iri _ => []

/-- The blank node of a term. -/
def Term.blanks : Term → List BlankNode
  | .blank n => [n]
  | _ => []

/-- A resource with its blank node renamed. -/
def Resource.rename (f : BlankNode → BlankNode) : Resource → Resource
  | .blank n => .blank (f n)
  | .iri i => .iri i

/-- A term with its blank node renamed. -/
def Term.rename (f : BlankNode → BlankNode) : Term → Term
  | .blank n => .blank (f n)
  | t => t

/-- A quad with the blank nodes of its triple renamed. -/
def Quad.rename (f : BlankNode → BlankNode) (q : Quad) : Quad :=
  { q with subject := q.subject.rename f, object := q.object.rename f }

/-- The distinct blank nodes of a list of quads. -/
def quadBlanks (qs : List Quad) : List BlankNode :=
  (qs.flatMap fun q => q.subject.blanks ++ q.object.blanks).eraseDups

/-- The dataset that USING clauses describe. -/
def DatasetClause.toUsing (d : DatasetClause) : Using := ⟨d.default, d.named.getD []⟩

namespace Request

/-- The operation that one request is, and the number of the next new blank node.  The blank nodes
of INSERT DATA stand for new nodes of that operation. -/
def lower (next : Nat) : Request → Except UpdateError (Operation × Nat)
  | .insertData quads =>
    let blanks := quadBlanks quads
    let renamed := quads.map (Quad.rename (freshNode next blanks))
    .ok ({ action := .insertData (GroundData.ofQuads renamed).quads }, next + blanks.length)
  | .deleteData quads => .ok ({ action := .deleteData (GroundData.ofQuads quads).quads }, next)
  | .deleteInsert delete insert dataset pattern =>
    let m : Modify := { delete, insert, pattern, scope := dataset.map DatasetClause.toUsing }
    .ok ({ action := .modify m }, next)
  | .load .. => .error (.unsupported "LOAD")
  | .clear silent target => .ok ({ action := .graph ⟨.clear, target, none, silent⟩ }, next)
  | .create silent graph => .ok ({ action := .create (.iri graph) silent }, next)
  | .drop silent target => .ok ({ action := .graph ⟨.drop, target, none, silent⟩ }, next)

/-- The graph of all triples that a pattern asks for. -/
def sourceOf? : Pattern → Option GraphName
  | .graph (.iri i) (.bgp triples) => if triples = [anyTriple] then some i.graph else none
  | .bgp triples => if triples = [anyTriple] then some .default else none
  | _ => none

/-- The graph that a single template of any triple is about. -/
def destinationOf? : List QuadPattern → Option GraphName
  | [q] =>
    if TriplePattern.mk q.subject q.predicate q.object = anyTriple then q.graph.constant? else none
  | _ => none

/-- The source and the destination of an update that copies every quad. -/
def copied? : Request → Option (GraphName × GraphName)
  | .deleteInsert [] insert none pattern => do
    let destination ← destinationOf? insert
    let source ← sourceOf? pattern
    return (source, destination)
  | _ => none

/-- The SILENT flag of a request that drops the single graph `g`. -/
def drops? (g : GraphName) : Request → Option Bool
  | .drop silent target => if target.single? = some g then some silent else none
  | _ => none

/-- The transfer that begins a list of requests with the silent drop of its destination, and how
many requests after the drop belong to it. -/
def foldDropped (clause : Option TransferClause) (cleared : GraphName) :
    List Request → Option (GraphOperation × Nat)
  | [] => none
  | r :: rest => do
    let (source, destination) ← r.copied?
    if cleared ≠ destination then none
    let dropped := rest.head?.bind (drops? source)
    match clause, dropped with
    | some ⟨.copy, silent⟩, _ => return (.transfer .copy source destination silent, 1)
    | some ⟨_, silent⟩, some _ => return (.transfer .move source destination silent, 2)
    | some _, none => none
    | none, some silent => return (.transfer .move source destination silent, 2)
    | none, none => return (.transfer .copy source destination false, 1)

/-- The transfer that begins with the request `r`, and how many of the requests after it belong to
it.  Without a clause its kind is guessed. -/
def foldTransfer (clause : Option TransferClause) (r : Request) (rest : List Request) :
    Option (GraphOperation × Nat) :=
  match clause with
  | some ⟨.add, silent⟩ => do
    let (source, destination) ← r.copied?
    return (.transfer .add source destination silent, 0)
  | clause =>
    match r with
    | .drop true target => do
      let cleared ← target.single?
      foldDropped clause cleared rest
    | _ => none

/-- Folds the transfer that begins with the request `r`; a clause is used up by it. -/
def foldNext (clauses : Option (List TransferClause)) (r : Request) (rest : List Request) :
    Option (GraphOperation × Nat × Option (List TransferClause)) :=
  match clauses with
  | none => (foldTransfer none r rest).map fun f => (f.1, f.2, none)
  | some [] => none
  | some (c :: cs) => (foldTransfer (some c) r rest).map fun f => (f.1, f.2, some cs)

/-- Lowers requests in order. -/
def lowerAll (clauses : Option (List TransferClause)) (next : Nat) :
    List Request → Except UpdateError (List Operation × Nat)
  | [] => .ok ([], next)
  | r :: rest =>
    match foldNext clauses r rest with
    | some (op, used, clauses) => do
      let (ops, next) ← lowerAll clauses next (rest.drop used)
      return ({ action := .graph op } :: ops, next)
    | none => do
      let (op, next) ← r.lower next
      let (ops, next) ← lowerAll clauses next rest
      return (op :: ops, next)
termination_by rs => rs.length
decreasing_by
  · simp only [List.length_drop, List.length_cons]
    omega
  · simp

/-- Lowers requests whose text is not at hand. -/
def lowerUpdate (next : Nat) (rs : List Request) : Except UpdateError (List Operation × Nat) :=
  lowerAll none next rs

/-- Lowers the requests of a text. -/
def lowerText (next : Nat) (rs : List Request) (text : String) :
    Except UpdateError (List Operation × Nat) :=
  lowerAll (some (transferClauses text)) next rs

end Request

end GraphStore
