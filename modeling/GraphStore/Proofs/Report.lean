/-
# `GraphStore.Proofs.Report` — changes read back from their text

The text of a change is a flat list of lines, with no counts and nothing that closes a list.

    Deleted quads
    ⇥ first quad             a line for each quad,
    ⇥ second quad            or `<NONE>` if changes are not tracked,
    Updated quads            or nothing if nothing has changed
    ⇥ <NONE>

The two lists can be read back all the same (`Change.read`), because the lines of a list are just
those that begin with a tab, and headings do not.  What is asked of the text of a quad is that it
stays on its line and is not the mark `<NONE>`.  An empty text would do no harm.
-/
import Mathlib.Data.Set.Function
import GraphStore.Change

namespace GraphStore

namespace Change

/-- The quads of both lists. -/
def quads (c : Change) : List Quad := c.deleted.getD [] ++ c.inserted.getD []

/-- The text stays on one line, and is not the mark of an absent list. -/
def IsEntry (text : String) : Prop := '\n' ∉ text.toList ∧ text ≠ "<NONE>"

instance (text : String) : Decidable (IsEntry text) := by
  unfold IsEntry
  infer_instance

/-! ## The lines of a change -/

/-- The line that stands for an absent list. -/
def absentLine : List Char := "\t<NONE>".toList

/-- The line of a quad. -/
def quadLine (text : Quad → String) (q : Quad) : List Char := '\t' :: (text q).toList

/-- The lines of a list. -/
def noteLines (text : Quad → String) : Option (List Quad) → List (List Char)
  | none => [absentLine]
  | some qs => qs.map (quadLine text)

/-- All lines, with the two headings. -/
def lines (text : Quad → String) (c : Change) : List (List Char) :=
  "Deleted quads".toList :: (noteLines text c.deleted ++
    "Updated quads".toList :: noteLines text c.inserted)

variable {text : Quad → String} {notes : Option (List Quad)}

theorem toList_renderQuads (text : Quad → String) (notes : Option (List Quad)) :
    (renderQuads text notes).toList = (noteLines text notes).flatMap ('\n' :: ·) := by
  -- the definition is opened by `show`, since equations about long literals are slow to derive
  cases notes with
  | none =>
      show "\n\t<NONE>".toList = [absentLine].flatMap ('\n' :: ·)
      decide +kernel
  | some qs =>
      show (String.join (qs.map fun q => "\n\t" ++ text q)).toList = _
      simp [noteLines, quadLine, String.toList_join, List.flatMap_map]

/-- Lines are joined by line ends: one stands in front of each line but the first. -/
theorem intercalate_cons (l : List Char) (ls : List (List Char)) :
    ['\n'].intercalate (l :: ls) = l ++ ls.flatMap ('\n' :: ·) := by
  induction ls generalizing l with
  | nil => simp
  | cons l' ls ih => rw [List.intercalate_cons_cons, ih l']; simp

theorem toList_renderWith (text : Quad → String) (c : Change) :
    (c.renderWith text).toList = ['\n'].intercalate (c.lines text) := by
  have hheading : "\nUpdated quads".toList = '\n' :: "Updated quads".toList := rfl
  rw [lines, intercalate_cons]
  show ("Deleted quads" ++ renderQuads text c.deleted ++ "\nUpdated quads" ++
    renderQuads text c.inserted).toList = _
  simp only [String.toList_append, toList_renderQuads, hheading, List.flatMap_append,
    List.flatMap_cons, List.append_assoc]

/-! ## Reading -/

/-- The line belongs to a list. -/
def isNote (line : List Char) : Bool := line.head? == some '\t'

/-- Reads the lines of a list. -/
def readNotes (parse : String → Quad) (ls : List (List Char)) : Option (List Quad) :=
  if ls = [absentLine] then none else some (ls.map fun l => parse (String.ofList l.tail))

/-- Reads a change from its text; quads are read by `parse`. -/
def read (parse : String → Quad) (t : String) : Change :=
  let ls := (t.toList.splitOn '\n').tail
  ⟨readNotes parse (ls.takeWhile isNote), readNotes parse (ls.dropWhile isNote).tail⟩

theorem isNote_of_mem_noteLines {l : List Char} (h : l ∈ noteLines text notes) :
    isNote l = true := by
  cases notes with
  | none => rw [List.mem_singleton.mp h]; rfl
  | some qs =>
      obtain ⟨q, -, rfl⟩ := List.mem_map.mp h
      rfl

theorem newline_not_mem_noteLines (hnotes : ∀ q ∈ notes.getD [], IsEntry (text q)) {l : List Char}
    (h : l ∈ noteLines text notes) : '\n' ∉ l := by
  cases notes with
  | none =>
      rw [List.mem_singleton.mp h]
      decide
  | some qs =>
      obtain ⟨q, hq, rfl⟩ := List.mem_map.mp h
      rw [quadLine, List.mem_cons, not_or]
      exact ⟨by decide, (hnotes q hq).1⟩

/-- The text is taken apart into the lines it was made of. -/
theorem splitOn_renderWith {c : Change} (hc : ∀ q ∈ c.quads, IsEntry (text q)) :
    (c.renderWith text).toList.splitOn '\n' = c.lines text := by
  rw [toList_renderWith]
  refine List.splitOn_intercalate '\n' (fun l hl => ?_) (List.cons_ne_nil _ _)
  have hdeleted : ∀ q ∈ c.deleted.getD [], IsEntry (text q) :=
    fun q hq => hc q (List.mem_append_left _ hq)
  have hinserted : ∀ q ∈ c.inserted.getD [], IsEntry (text q) :=
    fun q hq => hc q (List.mem_append_right _ hq)
  rcases List.mem_cons.mp hl with rfl | hl
  · decide
  · rcases List.mem_append.mp hl with hl | hl
    · exact newline_not_mem_noteLines hdeleted hl
    · rcases List.mem_cons.mp hl with rfl | hl
      · decide
      · exact newline_not_mem_noteLines hinserted hl

/-- The lines of a list are read as the list; an absent list is told from an empty one, and from
one that holds a single quad. -/
theorem readNotes_noteLines {parse : String → Quad}
    (hparse : ∀ q ∈ notes.getD [], parse (text q) = q)
    (hnotes : ∀ q ∈ notes.getD [], IsEntry (text q)) :
    readNotes parse (noteLines text notes) = notes := by
  cases notes with
  | none => rfl
  | some qs =>
      have hpresent : qs.map (quadLine text) ≠ [absentLine] := by
        intro h
        obtain ⟨q, rfl, hline⟩ := List.map_eq_singleton_iff.mp h
        have htext : (text q).toList = "<NONE>".toList := List.cons.inj hline |>.2
        exact (hnotes q List.mem_cons_self).2 (String.toList_inj.mp htext)
      rw [readNotes, noteLines, if_neg hpresent, List.map_map]
      refine congrArg some ((List.map_congr_left fun q hq => ?_).trans qs.map_id)
      simpa [quadLine] using hparse q hq

/-- A change is read back from its text. -/
theorem read_renderWith {parse : String → Quad} {c : Change}
    (hparse : ∀ q ∈ c.quads, parse (text q) = q) (hc : ∀ q ∈ c.quads, IsEntry (text q)) :
    read parse (c.renderWith text) = c := by
  have htake : (noteLines text c.deleted ++ "Updated quads".toList ::
      noteLines text c.inserted).takeWhile isNote = noteLines text c.deleted := by
    rw [List.takeWhile_append_of_pos fun _ => isNote_of_mem_noteLines]
    exact List.append_nil _
  have hdrop : (noteLines text c.deleted ++ "Updated quads".toList ::
      noteLines text c.inserted).dropWhile isNote =
        "Updated quads".toList :: noteLines text c.inserted := by
    rw [List.dropWhile_append_of_pos fun _ => isNote_of_mem_noteLines]
    rfl
  have hdeleted : readNotes parse (noteLines text c.deleted) = c.deleted :=
    readNotes_noteLines (fun q hq => hparse q (List.mem_append_left _ hq))
      fun q hq => hc q (List.mem_append_left _ hq)
  have hinserted : readNotes parse (noteLines text c.inserted) = c.inserted :=
    readNotes_noteLines (fun q hq => hparse q (List.mem_append_right _ hq))
      fun q hq => hc q (List.mem_append_right _ hq)
  simp only [read, splitOn_renderWith hc, lines, List.tail_cons, htake, hdrop, hdeleted, hinserted]

/-- Let quads of some kind be written differently, each on one line and none as `<NONE>`.  Then the
text of a change of such quads says which quads were deleted and inserted, in which order, and
which of the two lists is absent: two changes with one text are the same, and whoever can read the
quads can read the change. -/
theorem text_determines_change {S : Set Quad} {text : Quad → String}
    (hdistinct : ∀ q ∈ S, ∀ q' ∈ S, text q = text q' → q = q')
    (hentry : ∀ q ∈ S, IsEntry (text q)) :
    (∀ c c' : Change, (∀ q ∈ c.quads, q ∈ S) → (∀ q ∈ c'.quads, q ∈ S) →
      c.renderWith text = c'.renderWith text →
        c.deleted = c'.deleted ∧ c.inserted = c'.inserted) ∧
    ∀ parse : String → Quad, (∀ q ∈ S, parse (text q) = q) →
      ∀ c : Change, (∀ q ∈ c.quads, q ∈ S) → read parse (c.renderWith text) = c := by
  have hread : ∀ parse : String → Quad, (∀ q ∈ S, parse (text q) = q) →
      ∀ c : Change, (∀ q ∈ c.quads, q ∈ S) → read parse (c.renderWith text) = c := by
    intro parse hparse c hc
    exact read_renderWith (fun q hq => hparse q (hc q hq)) fun q hq => hentry q (hc q hq)
  refine ⟨fun c c' hc hc' h => ?_, hread⟩
  have hinj : Set.InjOn text S := fun q hq q' hq' => hdistinct q hq q' hq'
  have hinverse : ∀ q ∈ S, Function.invFunOn text S (text q) = q :=
    fun _ hq => hinj.leftInvOn_invFunOn hq
  have hsame : c = c' := by
    rw [← hread _ hinverse c hc, h, hread _ hinverse c' hc']
  exact ⟨congrArg Change.deleted hsame, congrArg Change.inserted hsame⟩

/-- A triple in the default graph and in a named one, as they are written: the change is read back,
and an absent list is not mistaken for an empty one. -/
theorem text_determines_change_absent :
    let t : Triple := ⟨.iri ⟨"s"⟩, ⟨"p"⟩, .literal (.simple "o\n\t<NONE>")⟩
    let q := t.inGraph .default
    let q' := t.inGraph (.named (.iri ⟨"g"⟩))
    let parse (text : String) : Quad := if text = q'.render then q' else q
    let c : Change := ⟨some [q], some [q', q]⟩
    (∀ x ∈ [q, q'], ∀ y ∈ [q, q'], x.render = y.render → x = y) ∧
      (∀ x ∈ [q, q'], IsEntry x.render) ∧ read parse c.render = c ∧
      (Change.mk (some []) none).render ≠ (Change.mk none (some [])).render := by
  intro t q q' parse c
  have hdistinct : ∀ x ∈ [q, q'], ∀ y ∈ [q, q'], x.render = y.render → x = y := by
    decide +kernel
  have hentry : ∀ x ∈ [q, q'], IsEntry x.render := by decide +kernel
  have hparse : ∀ x ∈ [q, q'], parse x.render = x := by decide +kernel
  have hquads : ∀ x ∈ c.quads, x ∈ [q, q'] := by decide +kernel
  have hnone : ∀ x ∈ ([] : List Quad), x ∈ [q, q'] := fun _ h => absurd h List.not_mem_nil
  obtain ⟨hsame, hread⟩ := text_determines_change (S := {x | x ∈ [q, q']}) hdistinct hentry
  refine ⟨hdistinct, hentry, hread parse hparse c hquads, fun h => ?_⟩
  have hlists := hsame ⟨some [], none⟩ ⟨none, some []⟩ hnone hnone h
  exact absurd hlists.1 (by decide)

end Change

end GraphStore
