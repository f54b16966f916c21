/-
# `GraphStore.Proofs.Recognition` — every transfer that is written is seen

The scan of clauses is a reader of its own: it knows neither the grammar nor what a graph is.
Here is what it sees of a text that has nothing but transfers, for any graphs that can be written
down, and without asking whether they mean anything.

    Move SILENT silent:x #COPY⏎ to graph <TO> ; copy Default TO default      MOVE SILENT, –

A keyword may be written in any case and a name may look like one; comments may hold keywords,
quotes and brackets.  `clauses_of_transfers` says that none of this matters for texts that are a
`Layout` of the transfers, and `Spaced.layout` that all texts are that have white space or
comments between any two lexemes.
-/
import Mathlib.Data.Bool.AllAny
import GraphStore.Proofs.Spelling

namespace GraphStore

namespace Clause

variable {ls : List Lexeme} {gap gap' text : List Char}

/-! ## Gaps -/

theorem Gap.append (h : Gap gap) (h' : Gap gap') : Gap (gap ++ gap') := by
  induction h with
  | nil => exact h'
  | blank hc _ ih => exact .blank hc ih
  | @comment body e cs hbody he _ ih =>
      rw [List.cons_append, List.append_assoc, List.cons_append]
      exact .comment hbody he ih

/-- A gap keeps what is before it apart from what is behind it. -/
theorem Gap.apart (h : Gap gap) (hne : gap ≠ []) (written text : List Char) :
    Apart written (gap ++ text) := by
  intro c _ d hd _
  cases h with
  | nil => exact absurd rfl hne
  | blank hblank _ =>
      rw [← Option.some.inj hd]
      refine Bool.eq_false_iff.mpr fun hword => ?_
      rw [isBlank_of_isWordChar hword] at hblank
      cases hblank
  | comment _ _ _ =>
      rw [← Option.some.inj hd]
      decide

theorem Layout.gap_append (h : Layout ls text) (hgap : Gap gap) : Layout ls (gap ++ text) := by
  cases h with
  | done hgap' => exact .done (hgap.append hgap')
  | comment hgap' hbody =>
      rw [← List.append_assoc]
      exact .comment (hgap.append hgap') hbody
  | next hgap' hwritten hapart htext =>
      rw [← List.append_assoc]
      exact .next (hgap.append hgap') hwritten hapart htext

/-- The text has the lexemes in order, with white space or comments between any two. -/
inductive Spaced : List Lexeme → List Char → Prop
  | nil : Spaced [] []
  | last {l : Lexeme} {written : List Char} : l.Spells written → Spaced [l] written
  | next {l l' : Lexeme} {ls : List Lexeme} {written gap text : List Char} : l.Spells written →
      Gap gap → gap ≠ [] → Spaced (l' :: ls) text →
      Spaced (l :: l' :: ls) (written ++ (gap ++ text))

theorem Spaced.layout (h : Spaced ls text) : Layout ls text := by
  induction h with
  | nil => exact .done .nil
  | @last l written hwritten =>
      have hlayout : Layout [l] ([] ++ (written ++ [])) :=
        .next .nil hwritten (fun _ _ _ hd => nomatch hd) (.done .nil)
      rwa [List.append_nil] at hlayout
  | @next l l' ls written gap text hwritten hgap hne _ ih =>
      show Layout _ ([] ++ (written ++ (gap ++ text)))
      exact .next .nil hwritten (hgap.apart hne _ _) (ih.gap_append hgap)

end Clause

open Clause Text

/-! ## Clauses -/

/-- The clauses of a text that has nothing but transfers are those of the transfers whose graphs
are spelled differently, in order, with the kind and the SILENT flag that are written. -/
theorem clauses_of_transfers {ts : List TransferSpelling} {text : String}
    (hts : ∀ t ∈ ts, t.Scannable) (h : Layout (TransferSpelling.lexemesOf ts) text.toList) :
    transferClauses text = ts.filterMap TransferSpelling.clause? := by
  have hreads := tokens_layout h (TransferSpelling.scannable_lexemesOf hts)
  have hclauses := TransferSpelling.ofTokens_lexemesOf hreads []
  rw [List.append_nil, ofTokens.eq_def [], List.append_nil] at hclauses
  exact hclauses

/-- Graphs that look like keywords, a comment with a keyword and a quote in it, keywords in any
case, and a transfer that is not seen because both its graphs are DEFAULT. -/
theorem clauses_of_transfers_lookalikes :
    let moved : TransferSpelling :=
      ⟨.move, true, .prefixed false "silent" "x", .reference true "TO", rfl⟩
    let idle : TransferSpelling := ⟨.copy, false, .default, .default, rfl⟩
    let text := "Move SILENT silent:x#COPY '<\n\tto graph <TO> ; copy Default TO default"
    transferClauses text = [moved, idle].filterMap TransferSpelling.clause? ∧
      [moved, idle].filterMap TransferSpelling.clause? = [⟨.move, true⟩] := by
  intro moved idle text
  have hts : ∀ t ∈ [moved, idle], t.Scannable :=
    List.forall_mem_cons.mpr ⟨⟨(by decide : ("silent".toList ++ "x".toList).all isWordChar = true),
        (List.all_iff_forall_prop.mp (by decide) :
          ∀ c ∈ "TO".toList, isForbidden c = false ∧ c ≠ '>')⟩,
      List.forall_mem_singleton.mpr ⟨trivial, trivial⟩⟩
  have hspace : Gap [' '] := .blank (by decide) .nil
  have hcomment : Gap "#COPY '<\n\t".toList :=
    @Gap.comment "COPY '<".toList '\n' ['\t'] (List.all_iff_forall_prop.mp (by decide)) rfl
      (.blank (by decide) .nil)
  obtain ⟨chars, hspaced, hchars⟩ : ∃ chars,
      Spaced (TransferSpelling.lexemesOf [moved, idle]) chars ∧ chars = text.toList := ⟨_,
    .next (rfl : isKeyword "move" "Move".toList = true) hspace (List.cons_ne_nil _ _) <|
    .next (rfl : isKeyword "SILENT" "SILENT".toList = true) hspace (List.cons_ne_nil _ _) <|
    .next rfl hcomment (by decide) <|
    .next (rfl : isKeyword "TO" "to".toList = true) hspace (List.cons_ne_nil _ _) <|
    .next (rfl : isKeyword "GRAPH" "graph".toList = true) hspace (List.cons_ne_nil _ _) <|
    .next rfl hspace (List.cons_ne_nil _ _) <|
    .next rfl hspace (List.cons_ne_nil _ _) <|
    .next (rfl : isKeyword "copy" "copy".toList = true) hspace (List.cons_ne_nil _ _) <|
    .next (rfl : isKeyword "DEFAULT" "Default".toList = true) hspace (List.cons_ne_nil _ _) <|
    .next (rfl : isKeyword "TO" "TO".toList = true) hspace (List.cons_ne_nil _ _) <|
    .last (rfl : isKeyword "DEFAULT" "default".toList = true), by decide +kernel⟩
  exact ⟨clauses_of_transfers hts (hchars ▸ hspaced.layout), by decide⟩

end GraphStore
