/-
Update texts: a prologue, then requests with semicolons between them.
-/
import GraphStore.GroundData
import GraphStore.Sparql.Group
import GraphStore.Template
import GraphStore.Update.Request

namespace GraphStore.Sparql

open Rule

/-- Whether SILENT is written. -/
def silent : Rule Bool := has (word "SILENT")

/-- GRAPH and an IRI. -/
def graphRef : Rule Iri := do
  word "GRAPH"
  iri

/-- The graphs that CLEAR and DROP apply to. -/
def target : Rule GraphTarget :=
  (do return .named (.iri (← graphRef))) <|>
  (do
    keyword "DEFAULT"
    return .defaultGraph) <|>
  (do
    keyword "NAMED"
    return .namedGraphs) <|>
  (do
    keyword "ALL"
    return .allGraphs)

/-- An end of a transfer; GRAPH may be left out. -/
def transferEnd : Rule GraphPattern :=
  (do
    keyword "DEFAULT"
    return .default) <|>
  (do
    let _ ← optional (word "GRAPH")
    return .iri (← iri))

/-- LOAD. -/
def load : Rule (List Request) := do
  word "LOAD"
  let silent ← silent
  let source ← lexeme iri
  let destination ← optional do
    word "INTO"
    graphRef
  return [.load silent source ((destination.map Iri.graph).getD .default)]

/-- CLEAR and DROP. -/
def wholeGraph (text : String) (make : Bool → GraphTarget → Request) : Rule (List Request) := do
  word text
  let silent ← silent
  return [make silent (← target)]

/-- CREATE. -/
def create : Rule (List Request) := do
  word "CREATE"
  let silent ← silent
  return [.create silent (← graphRef)]

/-- ADD, MOVE and COPY; nothing is to be done between a graph and itself. -/
def transfer (text : String) (action : GraphAction) : Rule (List Request) := do
  word text
  let silent ← silent
  let source ← lexeme transferEnd
  word "TO"
  let destination ← transferEnd
  return if source = destination then []
    else Request.ofTransfer action silent source destination

/-- Triples of a graph. -/
def inGraph (g : GraphPattern) (ts : List TriplePattern) : List QuadPattern :=
  ts.map fun t => ⟨t.subject, t.predicate, t.object, g⟩

/-- The graph that a variable or an IRI names. -/
def graphOf : NamePattern → GraphPattern
  | .iri i => .iri i
  | .var v => .var v

/-- Triples inside GRAPH. -/
def graphQuads : Rule (List QuadPattern) := do
  word "GRAPH"
  let g ← lexeme name
  mark "\x7b"
  let ts ← lexeme (optional templates)
  mark "\x7d"
  let _ ← optional (symbol ".")
  return inGraph (graphOf g) (ts.getD [])

/-- Quads between braces. -/
def quads : Rule (List QuadPattern) := do
  mark "\x7b"
  let qs ← many (lexeme ((inGraph .default <$> templates) <|> graphQuads))
  symbol "\x7d"
  return qs.flatten

/-- Quads without variables. -/
def groundQuads : Rule (List Quad) := do
  let qs ← quads
  ofOption (qs.mapM fun q => q.ground.toOption)

/-- INSERT DATA. -/
def insertData : Rule (List Request) := do
  word "INSERT"
  word "DATA"
  return [.insertData (← groundQuads)]

/-- Quads without blank nodes. -/
def quadsWithoutBlanks : Rule (List QuadPattern) := do
  let qs ← quads
  require (templateBlanks qs).isEmpty
  return qs

/-- DELETE DATA. -/
def deleteData : Rule (List Request) := do
  word "DELETE"
  word "DATA"
  let qs ← quadsWithoutBlanks
  return [.deleteData (← ofOption (qs.mapM fun q => q.ground.toOption))]

/-- The pattern that finds the instances of a template. -/
def patternOf (q : QuadPattern) : Pattern :=
  let p := Pattern.bgp [⟨q.subject, q.predicate, q.object⟩]
  match q.graph with
  | .default => p
  | .iri i => .graph (.iri i) p
  | .var v => .graph (.var v) p

/-- DELETE WHERE. -/
def deleteWhere : Rule (List Request) := do
  word "DELETE"
  word "WHERE"
  let qs ← quadsWithoutBlanks
  return [.deleteInsert qs [] none (.combineAll (qs.map patternOf))]

/-- A template placed in a graph, unless it names one. -/
def placeIn (g : Iri) (q : QuadPattern) : QuadPattern :=
  if q.graph = .default then { q with graph := .iri g } else q

/-- A template clause. -/
def templateClause (text : String) (p : Rule (List QuadPattern)) : Rule (List QuadPattern) := do
  word text
  p

/-- The templates of an update: of DELETE, of INSERT, or of both in this order. -/
def templateClauses : Rule (List QuadPattern × List QuadPattern) :=
  let insert := templateClause "INSERT" quads
  (do
    let delete ← lexeme (templateClause "DELETE" quadsWithoutBlanks)
    return (delete, (← optional insert).getD [])) <|>
  (do return ([], ← insert))

/-- A USING clause, and whether it names a named graph. -/
def usingClause : Rule (Bool × Iri) := do
  word "USING"
  (do return (false, ← iri)) <|>
    (do
      word "NAMED"
      return (true, ← iri))

/-- The dataset of USING clauses; without them it is the graph of WITH. -/
def datasetOf (withGraph : Option Iri) (clauses : List (Bool × Iri)) : Option DatasetClause :=
  if clauses.isEmpty then withGraph.map fun g => { default := [g] }
  else some
    { default := (clauses.filter (!·.1)).map (·.2)
      named := some ((clauses.filter (·.1)).map (·.2)) }

/-- Forgets the labels of blank nodes. -/
def forgetLabels : Rule Unit := update fun s => { s with labels := [], closedLabels := [] }

/-- DELETE and INSERT with a pattern; WITH names the graph of the templates and of the pattern. -/
def modify : Rule (List Request) := do
  let withGraph ← lexeme (optional do
    word "WITH"
    iri)
  forgetLabels
  let (delete, insert) ← lexeme templateClauses
  let clauses ← many (lexeme usingClause)
  word "WHERE"
  let p ← group
  let place := match withGraph with
    | some g => List.map (placeIn g)
    | none => id
  return [.deleteInsert (place delete) (place insert) (datasetOf withGraph clauses) p]

/-- One statement of an update text. -/
def statement : Rule (List Request) :=
  load <|> wholeGraph "CLEAR" .clear <|> wholeGraph "DROP" .drop <|> transfer "ADD" .add <|>
    transfer "MOVE" .move <|> transfer "COPY" .copy <|> create <|> insertData <|> deleteData <|>
    deleteWhere <|> modify

/-- A declaration of the prologue. -/
def declaration : Rule Unit :=
  (do
    word "BASE"
    let i ← reference
    update fun s => { s with base := some i }) <|>
  (do
    word "PREFIX"
    let n ← lexeme (scan Lexeme.prefixName)
    let i ← reference
    update fun s => { s with prefixes := (n, i.text) :: s.prefixes })

/-- The requests of a whole text. -/
def updateText : Rule (List Request) := do
  blank
  let _ ← many (lexeme declaration)
  let requests ← optional (separated (lexeme statement) (mark ";"))
  let _ ← optional (mark ";")
  require (← state).rest.isEmpty
  return (requests.getD []).flatten

end GraphStore.Sparql

namespace GraphStore

/-- The requests of a text and the number of the next new node.  The base, if there is one, has to
be an absolute IRI. -/
def Request.ofText? (base : Option String) (next : Nat) (text : String) :
    Option (List Request × Nat) := do
  let base ← match base with
    | some b => some <$> Iri.ofText? b
    | none => some none
  let (requests, s) := Sparql.updateText (.start text base next)
  return (← requests, s.next)

end GraphStore
