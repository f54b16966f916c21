/-
# `GraphStore.Proofs.Spelling` — transfers as they are spelled, and what is seen of them

A transfer names its graphs in one of three ways: DEFAULT, an IRI between brackets, or a
prefixed name, the last two with or without GRAPH.  Two readers look at them:

* the grammar resolves both names and drops a statement whose graphs are equal
  (`Statement.transfer?`);
* the scan of clauses knows no prefixes and drops a statement whose graphs are spelled
  alike (`Statement.clause?`).

`transferClauses_layout` says that the second is all that the scan does.  The texts are
those of `Layout`: the prologue gives no clause, and each statement gives its own whatever
stands behind it (`TransferSpelling.ofTokens_append`), as long as its names consist of
characters of words.  For that it does not matter whether its graphs mean anything.  Graphs that
are spelled alike are equal (`graph_eq_of_token_eq`), but not the other way round, since `ex:a`
and `<http://e.com/a>` may be the same graph.
-/
import GraphStore.Proofs.Layout
import GraphStore.Proofs.Rewriting

namespace GraphStore

open Clause

/-! ## Statements -/

/-- A declaration of a prefix. -/
structure Declaration where
  name : String
  iri : Iri
  noColon : ':' ∉ name.toList
  absolute : isAbsoluteIri iri.text = true

/-- The prefixes that declarations leave, the latest first. -/
def prefixesOf (ds : List Declaration) : List (String × String) :=
  (ds.map fun d => (d.name, d.iri.text)).reverse

/-- A graph as it is written in a statement; `keyword` says whether GRAPH stands before it. -/
inductive GraphSpelling where
  | default
  | reference (keyword : Bool) (text : String)
  | prefixed (keyword : Bool) (name rest : String)

namespace GraphSpelling

/-- The graph that is meant.  A backslash guards the character behind it, and is no part of the
name. -/
def graph? (prefixes : List (String × String)) : GraphSpelling → Option GraphRef
  | .default => some .default
  | .reference _ text => (Iri.ofText? text).map .iri
  | .prefixed _ name rest => do
    let start ← prefixes.lookup name
    let i ← Iri.ofText? (start ++ String.ofList (rest.toList.filter (· != '\\')))
    return .iri i

/-- The token that a graph is known by; GRAPH is no part of it. -/
def token : GraphSpelling → Token
  | .default => .word "DEFAULT".toList
  | .reference _ text => .iri ('<' :: (text.toList ++ ['>']))
  | .prefixed _ name rest => .word (name.toList ++ ':' :: rest.toList)

/-- The lexemes of the graph. -/
def lexemes : GraphSpelling → List Lexeme
  | .default => [.keyword "DEFAULT"]
  | .reference keyword text =>
    (if keyword then [.keyword "GRAPH"] else []) ++ [.reference text.toList]
  | .prefixed keyword name rest =>
    (if keyword then [.keyword "GRAPH"] else []) ++ [.word (name.toList ++ ':' :: rest.toList)]

/-- A prefixed name has no characters but those of words. -/
def IsWord : GraphSpelling → Prop
  | .prefixed _ name rest => (name.toList ++ rest.toList).all isWordChar = true
  | .default | .reference .. => True

/-- A prefixed name has no characters but those of words, and what stands between brackets none
that is forbidden there. -/
def Scannable : GraphSpelling → Prop
  | .default => True
  | .reference _ text => ∀ c ∈ text.toList, isForbidden c = false ∧ c ≠ '>'
  | .prefixed _ name rest => (name.toList ++ rest.toList).all isWordChar = true

end GraphSpelling

/-- An ADD, COPY or MOVE as it is written, whatever its graphs may be. -/
structure TransferSpelling where
  action : GraphAction
  silent : Bool
  source : GraphSpelling
  destination : GraphSpelling
  isTransfer : action.isTransfer = true

namespace TransferSpelling

/-- Both graphs are spelled in the same way, GRAPH apart. -/
def Alike (t : TransferSpelling) : Prop := t.source.token = t.destination.token

instance (t : TransferSpelling) : Decidable t.Alike := inferInstanceAs (Decidable (_ = _))

/-- The clause that is seen of the transfer; it is none if both graphs are spelled alike. -/
def clause? (t : TransferSpelling) : Option TransferClause :=
  if t.Alike then none else some ⟨t.action, t.silent⟩

/-- The lexemes of the transfer. -/
def lexemes (t : TransferSpelling) : List Lexeme :=
  .keyword t.action.name :: ((if t.silent then [.keyword "SILENT"] else []) ++
    (t.source.lexemes ++ .keyword "TO" :: t.destination.lexemes))

/-- The lexemes of transfers, with semicolons between them. -/
def lexemesOf : List TransferSpelling → List Lexeme
  | [] => []
  | [t] => t.lexemes
  | t :: t' :: ts => t.lexemes ++ .semicolon :: lexemesOf (t' :: ts)

/-- Both graphs can be scanned. -/
def Scannable (t : TransferSpelling) : Prop := t.source.Scannable ∧ t.destination.Scannable

end TransferSpelling

/-- A graph that is spelled with the prefixes of `ds`. -/
structure SpelledGraph (ds : List Declaration) where
  spelling : GraphSpelling
  graph : GraphRef
  means : spelling.graph? (prefixesOf ds) = some graph

/-- A written ADD, COPY or MOVE. -/
structure Statement (ds : List Declaration) where
  action : GraphAction
  silent : Bool
  source : SpelledGraph ds
  destination : SpelledGraph ds
  isTransfer : action.isTransfer = true

namespace Statement

variable {ds : List Declaration}

/-- The transfer that the statement is; it is none if both graphs are the same. -/
def transfer? (st : Statement ds) : Option Transfer :=
  if h : st.source.graph = st.destination.graph then none
  else some ⟨st.action, st.silent, st.source.graph, st.destination.graph, st.isTransfer, h⟩

/-- What the grammar gives for the statement. -/
def requests (st : Statement ds) : List Request := st.transfer?.toList.flatMap Transfer.requests

/-- Both graphs are spelled in the same way, GRAPH apart. -/
def SpelledAlike (st : Statement ds) : Prop :=
  st.source.spelling.token = st.destination.spelling.token

instance (st : Statement ds) : Decidable st.SpelledAlike :=
  inferInstanceAs (Decidable (_ = _))

/-- The clause that is seen of the statement; it is none if both graphs are spelled alike. -/
def clause? (st : Statement ds) : Option TransferClause :=
  if st.SpelledAlike then none else some ⟨st.action, st.silent⟩

/-- The lexemes of the statement. -/
def lexemes (st : Statement ds) : List Lexeme :=
  .keyword st.action.name :: ((if st.silent then [.keyword "SILENT"] else []) ++
    (st.source.spelling.lexemes ++ .keyword "TO" :: st.destination.spelling.lexemes))

/-- The lexemes of statements, with semicolons between them. -/
def lexemesOf : List (Statement ds) → List Lexeme
  | [] => []
  | [st] => st.lexemes
  | st :: st' :: sts => st.lexemes ++ .semicolon :: lexemesOf (st' :: sts)

/-- The names of the statement consist of characters of words. -/
def IsWord (st : Statement ds) : Prop :=
  st.source.spelling.IsWord ∧ st.destination.spelling.IsWord

/-- The statement without what its graphs are. -/
def spelling (st : Statement ds) : TransferSpelling :=
  ⟨st.action, st.silent, st.source.spelling, st.destination.spelling, st.isTransfer⟩

end Statement

namespace Declaration

/-- The lexemes of the declaration. -/
def lexemes (d : Declaration) : List Lexeme :=
  [.keyword "PREFIX", .word (d.name.toList ++ [':']), .reference d.iri.text.toList]

/-- The name of the prefix consists of characters of words. -/
def IsWord (d : Declaration) : Prop := d.name.toList.all isWordChar = true

end Declaration

/-- The lexemes of an update with its prologue; the last semicolon may be left out. -/
def updateLexemes (ds : List Declaration) (sts : List (Statement ds)) (closed : Bool) :
    List Lexeme :=
  ds.flatMap Declaration.lexemes ++
    (Statement.lexemesOf sts ++ if closed then [.semicolon] else [])

/-! ## What spelling decides -/

section Spelling

variable {ds : List Declaration} {name : String}

theorem noColon_of_graph? {keyword : Bool} {rest : String} {g : GraphRef}
    (h : (GraphSpelling.prefixed keyword name rest).graph? (prefixesOf ds) = some g) :
    ':' ∉ name.toList := by
  obtain ⟨start, hlookup, -⟩ := Option.bind_eq_some_iff.mp h
  obtain ⟨before, after, hsplit, -⟩ := List.lookup_eq_some_iff.mp hlookup
  have hmem : (name, start) ∈ prefixesOf ds := by
    rw [hsplit]
    exact List.mem_append_right _ List.mem_cons_self
  obtain ⟨d, -, heq⟩ := List.mem_map.mp (List.mem_reverse.mp hmem)
  rw [← (Prod.mk.inj heq).1]
  exact d.noColon

/-- A prefixed name is cut at its first colon. -/
theorem name_eq_of_append {a b as bs : List Char} (ha : ':' ∉ a) (hb : ':' ∉ b)
    (h : a ++ ':' :: as = b ++ ':' :: bs) : a = b ∧ as = bs := by
  have hname : ∀ cs ds : List Char, ':' ∉ cs → (cs ++ ':' :: ds).takeWhile (· != ':') = cs := by
    intro cs ds hcs
    refine takeWhile_append_of_head? (fun c hc => bne_iff_ne.mpr ?_) (fun c hc => ?_)
    · rintro rfl
      exact hcs hc
    · rw [← Option.some.inj hc]
      rfl
  have hab : a = b := by
    rw [← hname a as ha, h, hname b bs hb]
  rw [hab] at h
  exact ⟨hab, (List.cons.inj (List.append_cancel_left h)).2⟩

/-- Graphs that are spelled alike are equal. -/
theorem graph_eq_of_token_eq {g g' : SpelledGraph ds} (h : g.spelling.token = g'.spelling.token) :
    g.graph = g'.graph := by
  obtain ⟨s, n, hn⟩ := g
  obtain ⟨s', n', hn'⟩ := g'
  -- DEFAULT has no colon, and so is not a prefixed name
  have hdefault : ∀ name rest : List Char, "DEFAULT".toList ≠ name ++ ':' :: rest := by
    intro name rest heq
    have hmem : ':' ∈ "DEFAULT".toList := by
      rw [heq]
      exact List.mem_append_right _ List.mem_cons_self
    exact absurd hmem (by decide)
  refine Option.some.inj (hn.symm.trans (Eq.trans ?_ hn'))
  cases s with
  | default =>
      cases s' with
      | default => rfl
      | reference => cases h
      | prefixed => exact absurd (Token.word.inj h) (hdefault _ _)
  | reference keyword text =>
      cases s' with
      | default => cases h
      | reference =>
          have htext := List.append_cancel_right (List.cons.inj (Token.iri.inj h)).2
          rw [GraphSpelling.graph?, String.toList_inj.mp htext, GraphSpelling.graph?]
      | prefixed => cases h
  | prefixed keyword name rest =>
      cases s' with
      | default => exact absurd (Token.word.inj h).symm (hdefault _ _)
      | reference => cases h
      | prefixed =>
          obtain ⟨hname, hrest⟩ := name_eq_of_append (noColon_of_graph? hn) (noColon_of_graph? hn')
            (Token.word.inj h)
          rw [GraphSpelling.graph?, String.toList_inj.mp hname, String.toList_inj.mp hrest,
            GraphSpelling.graph?]

end Spelling

/-! ## Lexemes that can be scanned -/

section Scannable

variable {ds : List Declaration}

theorem GraphSpelling.scannable_lexemes {g : GraphSpelling} (h : g.Scannable) :
    ∀ l ∈ g.lexemes, l.Scannable := by
  have hkeyword : ∀ keyword : Bool,
      ∀ l ∈ (if keyword then [Lexeme.keyword "GRAPH"] else []), l.Scannable := by
    intro keyword l hl
    cases keyword with
    | false => cases hl
    | true =>
        rw [List.mem_singleton.mp hl]
        exact ⟨by decide, by decide⟩
  cases g with
  | default =>
      intro l hl
      rw [List.mem_singleton.mp hl]
      exact ⟨by decide, by decide⟩
  | reference keyword text =>
      refine List.forall_mem_append.mpr ⟨hkeyword keyword, fun l hl => ?_⟩
      rw [List.mem_singleton.mp hl]
      exact h
  | prefixed keyword name rest =>
      refine List.forall_mem_append.mpr ⟨hkeyword keyword, fun l hl => ?_⟩
      rw [List.mem_singleton.mp hl]
      refine ⟨List.append_ne_nil_of_right_ne_nil _ (List.cons_ne_nil _ _), ?_⟩
      have hcolon : isWordChar ':' = true := by decide
      rw [List.all_append, List.all_cons, hcolon, Bool.true_and, ← List.all_append]
      exact h

/-- Graphs that are meant can be scanned, if their names consist of characters of words. -/
theorem GraphSpelling.scannable_of_graph? {g : GraphSpelling} {n : GraphRef}
    {prefixes : List (String × String)} (h : g.graph? prefixes = some n) (hword : g.IsWord) :
    g.Scannable := by
  cases g with
  | default => trivial
  | reference keyword text =>
      obtain ⟨i, hi, -⟩ := Option.map_eq_some_iff.mp h
      unfold Iri.ofText? at hi
      split at hi
      · rename_i habsolute
        exact fun c hc => isForbidden_of_isIriChar (isAbsoluteIri_chars habsolute c hc)
      · cases hi
  | prefixed keyword name rest => exact hword

theorem TransferSpelling.scannable_lexemes {t : TransferSpelling} (h : t.Scannable) :
    ∀ l ∈ t.lexemes, l.Scannable := by
  refine List.forall_mem_cons.mpr ⟨?_, List.forall_mem_append.mpr ⟨?_,
    List.forall_mem_append.mpr ⟨GraphSpelling.scannable_lexemes h.1,
      List.forall_mem_cons.mpr ⟨⟨by decide, by decide⟩,
        GraphSpelling.scannable_lexemes h.2⟩⟩⟩⟩
  · cases t.action <;> exact ⟨by decide, by decide⟩
  · intro l hl
    cases hsilent : t.silent with
    | false =>
        rw [hsilent] at hl
        cases hl
    | true =>
        rw [hsilent] at hl
        rw [List.mem_singleton.mp hl]
        exact ⟨by decide, by decide⟩

theorem TransferSpelling.scannable_lexemesOf {ts : List TransferSpelling}
    (h : ∀ t ∈ ts, t.Scannable) : ∀ l ∈ lexemesOf ts, l.Scannable := by
  fun_induction lexemesOf ts with
  | case1 => exact fun l hl => nomatch hl
  | case2 t => exact scannable_lexemes (h t List.mem_cons_self)
  | case3 t t' ts ih =>
      refine List.forall_mem_append.mpr ⟨scannable_lexemes (h t List.mem_cons_self), ?_⟩
      exact List.forall_mem_cons.mpr ⟨trivial, ih fun x hx => h x (List.mem_cons_of_mem _ hx)⟩

theorem Statement.scannable_spelling {st : Statement ds} (h : st.IsWord) :
    st.spelling.Scannable :=
  ⟨GraphSpelling.scannable_of_graph? st.source.means h.1,
    GraphSpelling.scannable_of_graph? st.destination.means h.2⟩

theorem Statement.lexemesOf_eq (sts : List (Statement ds)) :
    lexemesOf sts = TransferSpelling.lexemesOf (sts.map spelling) := by
  fun_induction lexemesOf sts with
  | case1 => rfl
  | case2 st => rfl
  | case3 st st' sts ih =>
      rw [ih]
      rfl

theorem Declaration.scannable_lexemes {d : Declaration} (h : d.IsWord) :
    ∀ l ∈ d.lexemes, l.Scannable := by
  refine List.forall_mem_cons.mpr ⟨⟨by decide, by decide⟩, List.forall_mem_cons.mpr ⟨⟨?_, ?_⟩,
    List.forall_mem_cons.mpr ⟨fun c hc => ?_, fun l hl => nomatch hl⟩⟩⟩
  · exact List.append_ne_nil_of_right_ne_nil _ (List.cons_ne_nil _ _)
  · rw [List.all_append, h, Bool.true_and]
    decide
  · exact isForbidden_of_isIriChar (isAbsoluteIri_chars d.absolute c hc)

theorem scannable_updateLexemes {sts : List (Statement ds)} (closed : Bool)
    (hds : ∀ d ∈ ds, d.IsWord) (hsts : ∀ st ∈ sts, st.IsWord) :
    ∀ l ∈ updateLexemes ds sts closed, l.Scannable := by
  refine List.forall_mem_append.mpr ⟨fun l hl => ?_,
    List.forall_mem_append.mpr ⟨?_, fun l hl => ?_⟩⟩
  · obtain ⟨d, hd, hl⟩ := List.mem_flatMap.mp hl
    exact Declaration.scannable_lexemes (hds d hd) l hl
  · rw [Statement.lexemesOf_eq]
    refine TransferSpelling.scannable_lexemesOf (List.forall_mem_map.mpr fun st hst => ?_)
    exact Statement.scannable_spelling (hsts st hst)
  · cases closed with
    | false => cases hl
    | true =>
        rw [List.mem_singleton.mp hl]
        trivial

end Scannable

/-! ## Tokens of statements -/

section Tokens

variable {t : Token} {ts rest : List Token} {k : String}

/-- A token that is one keyword is no other. -/
theorem Clause.Token.is_eq (h : t.is k = true) (k' : String) :
    t.is k' = Text.isKeyword k' k.toList := by
  cases t with
  | word w =>
      have hlower : w.map Text.asciiLower = k.toList.map Text.asciiLower := eq_of_beq h
      show (w.map Text.asciiLower == _) = (k.toList.map Text.asciiLower == _)
      rw [hlower]
  | iri | other => cases h

/-- A word with a colon is no keyword. -/
theorem isKeyword_eq_false {w : List Char} (hk : k.toList.all isAsciiLetter = true)
    (hw : ':' ∈ w) : Text.isKeyword k w = false := by
  refine Bool.eq_false_iff.mpr fun h => ?_
  exact absurd (isAsciiLetter_of_isKeyword hk h ':' hw) (by decide)

theorem action?_eq_some {action : GraphAction} (h : t.is action.name = true)
    (htransfer : action.isTransfer = true) : action? t = some action := by
  simp only [action?, Token.is_eq h]
  cases action with
  | drop | clear => cases htransfer
  | add | copy | move => decide

theorem action?_eq_none (h : ∀ action : GraphAction, t.is action.name = false) :
    action? t = none := by
  simp only [action?, List.find?_cons, h, List.find?_nil]

theorem all_isAsciiLetter_name (action : GraphAction) :
    action.name.toList.all isAsciiLetter = true := by
  cases action <;> decide

theorem ofTokens_of_none (h : action? t = none) : ofTokens (t :: ts) = ofTokens ts := by
  rw [ofTokens.eq_def]
  simp only [h]

theorem ofTokens_of_some {action : GraphAction} {found : Option TransferClause × List Token}
    (h : action? t = some action) (hbody : clauseBody? action ts = some found) :
    ofTokens (t :: ts) = found.1.toList ++ ofTokens found.2 := by
  rw [ofTokens.eq_def]
  simp only [h]
  split
  · rename_i hnone
    rw [hbody] at hnone
    cases hnone
  · rename_i r hsome
    rw [hbody] at hsome
    rw [Option.some.inj hsome]

/-- Tokens that name no transfer give no clause. -/
theorem ofTokens_append (h : ∀ t ∈ ts, action? t = none) :
    ofTokens (ts ++ rest) = ofTokens rest := by
  induction ts with
  | nil => rfl
  | cons t ts ih =>
      obtain ⟨ht, hts⟩ := List.forall_mem_cons.mp h
      rw [List.cons_append, ofTokens_of_none ht, ih hts]

/-- What has the lexemes of two lists has those of the first before those of the second. -/
theorem exists_append_of_forall₂ {α β : Type} {R : α → β → Prop} {as as' : List α} {bs : List β}
    (h : List.Forall₂ R (as ++ as') bs) :
    ∃ us vs, bs = us ++ vs ∧ List.Forall₂ R as us ∧ List.Forall₂ R as' vs := by
  induction as generalizing bs with
  | nil => exact ⟨[], bs, rfl, .nil, h⟩
  | cons a as ih =>
      cases h with
      | cons hfirst htail =>
          obtain ⟨us, vs, rfl, hus, hvs⟩ := ih htail
          exact ⟨_ :: us, vs, rfl, .cons hfirst hus, hvs⟩

theorem exists_of_forall₂_singleton {α β : Type} {R : α → β → Prop} {a : α} {bs : List β}
    (h : List.Forall₂ R [a] bs) : ∃ b, bs = [b] ∧ R a b := by
  cases h with
  | cons hfirst hnil =>
      cases hnil
      exact ⟨_, rfl, hfirst⟩

/-- The tokens of a graph. -/
inductive GraphTokens (g : GraphSpelling) : List Token → Prop
  | default {t : Token} : t.is "DEFAULT" = true → g.token = .word "DEFAULT".toList →
      GraphTokens g [t]
  | keyword {t : Token} : t.is "GRAPH" = true → GraphTokens g [t, g.token]
  | plain : g.token ≠ .other → (∀ k : String, k.toList.all isAsciiLetter = true →
      g.token.is k = false) → GraphTokens g [g.token]

variable {g : GraphSpelling}

/-- GRAPH may stand before a name, which is no keyword itself. -/
theorem graphTokens_of_name {keyword : Bool} (l : Lexeme) (hl : ∀ t, l.Reads t → t = g.token)
    (hother : g.token ≠ .other)
    (hplain : ∀ k : String, k.toList.all isAsciiLetter = true → g.token.is k = false)
    (h : List.Forall₂ Lexeme.Reads ((if keyword then [.keyword "GRAPH"] else []) ++ [l]) ts) :
    GraphTokens g ts := by
  obtain ⟨us, vs, rfl, hus, hvs⟩ := exists_append_of_forall₂ h
  obtain ⟨t, rfl, ht⟩ := exists_of_forall₂_singleton hvs
  obtain rfl := hl t ht
  cases keyword with
  | false =>
      cases hus
      exact .plain hother hplain
  | true =>
      obtain ⟨t, rfl, ht⟩ := exists_of_forall₂_singleton hus
      exact .keyword ht

theorem graphTokens_of_reads (h : List.Forall₂ Lexeme.Reads g.lexemes ts) : GraphTokens g ts := by
  cases g with
  | default =>
      obtain ⟨t, rfl, ht⟩ := exists_of_forall₂_singleton h
      exact .default ht rfl
  | reference keyword text =>
      exact graphTokens_of_name (.reference text.toList) (fun t ht => ht) (fun h => by cases h)
        (fun k hk => rfl) h
  | prefixed keyword name rest =>
      refine graphTokens_of_name (.word (name.toList ++ ':' :: rest.toList)) (fun t ht => ht)
        (fun h => by cases h) (fun k hk => ?_) h
      exact isKeyword_eq_false hk (List.mem_append_right _ List.mem_cons_self)

/-- A graph is found in front of any tokens, and is known by its token. -/
theorem GraphTokens.graph?_append (h : GraphTokens g ts) (rest : List Token) :
    Clause.graph? (ts ++ rest) = some (g.token, rest) := by
  cases h with
  | @default t ht hg =>
      cases t with
      | word w =>
          rw [hg]
          exact if_pos ht
      | iri | other => cases ht
  | @keyword t ht =>
      cases t with
      | word w =>
          have hdefault : Text.isKeyword "DEFAULT" w = false :=
            (Token.is_eq (t := .word w) ht "DEFAULT").trans (by decide)
          have hgraph : Text.isKeyword "GRAPH" w = true := ht
          show Clause.graph? (.word w :: g.token :: rest) = _
          simp only [Clause.graph?, hdefault, hgraph, if_true, Bool.false_eq_true, if_false]
      | iri | other => cases ht
  | plain hother hplain =>
      show Clause.graph? (g.token :: rest) = _
      generalize g.token = t at hother hplain
      cases t with
      | word w =>
          have hdefault : Text.isKeyword "DEFAULT" w = false := hplain "DEFAULT" (by decide)
          have hgraph : Text.isKeyword "GRAPH" w = false := hplain "GRAPH" (by decide)
          cases rest <;>
            simp only [Clause.graph?, hdefault, hgraph, Bool.false_eq_true, if_false]
      | iri i => rfl
      | other => exact absurd rfl hother

/-- A graph does not begin like SILENT. -/
theorem GraphTokens.silent_append (h : GraphTokens g ts) (rest : List Token) :
    Clause.silent (ts ++ rest) = (false, ts ++ rest) := by
  obtain ⟨t, ts', rfl, ht⟩ : ∃ t ts', ts = t :: ts' ∧ t.is "SILENT" = false := by
    cases h with
    | default ht => exact ⟨_, _, rfl, (Token.is_eq ht "SILENT").trans (by decide)⟩
    | keyword ht => exact ⟨_, _, rfl, (Token.is_eq ht "SILENT").trans (by decide)⟩
    | plain _ hplain => exact ⟨_, _, rfl, hplain "SILENT" (by decide)⟩
  rw [List.cons_append, Clause.silent, ht]
  rfl

/-- A transfer gives its clause, whatever stands behind it. -/
theorem TransferSpelling.ofTokens_append {t : TransferSpelling}
    (h : List.Forall₂ Lexeme.Reads t.lexemes ts) (rest : List Token) :
    ofTokens (ts ++ rest) = t.clause?.toList ++ ofTokens rest := by
  obtain ⟨action, _, haction, hafter, rfl⟩ := List.forall₂_cons_left_iff.mp h
  obtain ⟨flag, _, rfl, hflag, hgraphs⟩ := exists_append_of_forall₂ hafter
  obtain ⟨source, _, rfl, hsource, hto⟩ := exists_append_of_forall₂ hgraphs
  obtain ⟨link, destination, hlink, hdestination, rfl⟩ := List.forall₂_cons_left_iff.mp hto
  have hsource := graphTokens_of_reads hsource
  have hdestination := graphTokens_of_reads hdestination
  have hsilent : Clause.silent (flag ++ (source ++ link :: (destination ++ rest))) =
      (t.silent, source ++ link :: (destination ++ rest)) := by
    cases hs : t.silent with
    | false =>
        rw [hs] at hflag
        cases hflag
        exact hsource.silent_append _
    | true =>
        rw [hs] at hflag
        obtain ⟨t, rfl, ht⟩ := exists_of_forall₂_singleton hflag
        have ht : t.is "SILENT" = true := ht
        show Clause.silent (t :: (source ++ _)) = _
        rw [Clause.silent, ht]
        rfl
  have hlink : link.is "TO" = true := hlink
  have hbody : clauseBody? t.action (flag ++ (source ++ link :: (destination ++ rest))) =
      some (t.clause?, rest) := by
    simp only [clauseBody?, hsilent, hsource.graph?_append, hlink, if_true,
      hdestination.graph?_append, Option.bind_eq_bind, Option.bind_some]
    rfl
  have hbody := ofTokens_of_some (action?_eq_some haction t.isTransfer) hbody
  simpa only [List.cons_append, List.append_assoc] using hbody

theorem TransferSpelling.clauses_cons (t : TransferSpelling) (ts : List TransferSpelling) :
    (t :: ts).filterMap clause? = t.clause?.toList ++ ts.filterMap clause? := by
  rw [List.filterMap_cons]
  cases t.clause? <;> rfl

/-- Transfers give their clauses in order, whatever stands behind them. -/
theorem TransferSpelling.ofTokens_lexemesOf {us : List TransferSpelling}
    (h : List.Forall₂ Lexeme.Reads (lexemesOf us) ts) (rest : List Token) :
    ofTokens (ts ++ rest) = us.filterMap clause? ++ ofTokens rest := by
  fun_induction lexemesOf us generalizing ts with
  | case1 =>
      cases h
      rfl
  | case2 u =>
      rw [ofTokens_append h, clauses_cons, List.filterMap_nil, List.append_nil]
  | case3 u u' us ih =>
      obtain ⟨first, _, rfl, hfirst, hrest⟩ := exists_append_of_forall₂ h
      obtain ⟨t, others, ht, hothers, rfl⟩ := List.forall₂_cons_left_iff.mp hrest
      obtain rfl : t = .other := ht
      rw [List.append_assoc, ofTokens_append hfirst, List.cons_append, ofTokens_of_none rfl,
        ih hothers, clauses_cons u, List.append_assoc]

variable {ds : List Declaration}

theorem Declaration.action?_eq_none {d : Declaration}
    (h : List.Forall₂ Lexeme.Reads d.lexemes ts) : ∀ t ∈ ts, action? t = none := by
  obtain ⟨keyword, _, hkeyword, hname, rfl⟩ := List.forall₂_cons_left_iff.mp h
  obtain ⟨name, _, rfl, hreference, rfl⟩ := List.forall₂_cons_left_iff.mp hname
  obtain ⟨reference, rfl, rfl⟩ := exists_of_forall₂_singleton hreference
  refine List.forall_mem_cons.mpr ⟨?_, List.forall_mem_cons.mpr ⟨?_, List.forall_mem_cons.mpr
    ⟨rfl, fun t ht => nomatch ht⟩⟩⟩
  · refine GraphStore.action?_eq_none fun action => ?_
    rw [Token.is_eq hkeyword]
    cases action <;> decide
  · refine GraphStore.action?_eq_none fun action => ?_
    exact isKeyword_eq_false (all_isAsciiLetter_name action)
      (List.mem_append_right _ List.mem_cons_self)

theorem Declaration.action?_eq_none_of_reads
    (h : List.Forall₂ Lexeme.Reads (ds.flatMap Declaration.lexemes) ts) :
    ∀ t ∈ ts, action? t = none := by
  induction ds generalizing ts with
  | nil =>
      cases h
      exact fun t ht => nomatch ht
  | cons d ds ih =>
      obtain ⟨us, vs, rfl, hus, hvs⟩ := exists_append_of_forall₂ h
      exact List.forall_mem_append.mpr ⟨action?_eq_none hus, ih hvs⟩

end Tokens

/-! ## Clauses of texts -/

/-- The clauses of a text are those that are seen of its statements, however it is laid out. -/
theorem transferClauses_layout {ds : List Declaration} {sts : List (Statement ds)} {closed : Bool}
    {text : String} (hds : ∀ d ∈ ds, d.IsWord) (hsts : ∀ st ∈ sts, st.IsWord)
    (h : Layout (updateLexemes ds sts closed) text.toList) :
    transferClauses text = sts.filterMap Statement.clause? := by
  have hreads := tokens_layout h (scannable_updateLexemes closed hds hsts)
  obtain ⟨prologue, ts, htokens, hprologue, hts⟩ := exists_append_of_forall₂ hreads
  obtain ⟨body, last, rfl, hbody, hlast⟩ := exists_append_of_forall₂ hts
  have hnil : ofTokens last = [] := by
    cases closed with
    | false =>
        cases hlast
        rw [ofTokens.eq_def]
    | true =>
        obtain ⟨t, rfl, ht⟩ := exists_of_forall₂_singleton hlast
        obtain rfl : t = .other := ht
        rw [ofTokens_of_none rfl, ofTokens.eq_def]
  rw [Statement.lexemesOf_eq] at hbody
  rw [transferClauses, htokens, ofTokens_append (Declaration.action?_eq_none_of_reads hprologue),
    TransferSpelling.ofTokens_lexemesOf hbody, hnil, List.append_nil, List.filterMap_map]
  rfl

/-- An escaped hyphen is no character of a word, and the statement with it is not seen. -/
example : transferClauses "ADD ex:a\\-b TO <http://e.com/c>" = [] := by
  decide +kernel

end GraphStore
