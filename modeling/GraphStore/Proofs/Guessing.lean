/-
# `GraphStore.Proofs.Guessing` — transfers without their text

Without the text of an update there are no clauses, and lowering has to tell COPY from
MOVE by the requests alone.  Both begin with the silent drop of the destination and the
copying update; a MOVE ends with the drop of its source.  Such a drop may also be the
beginning of the next transfer:

    COPY <a> TO <b> ; COPY <c> TO <a>
      ──requests─────▶  drop <b> · copy <a> to <b> · drop <a> · copy <c> to <a>
      ──lowerUpdate──▶  MOVE SILENT <a> TO <b> ; INSERT … WHERE …

`t.RunsInto t'` is this case: `t` is a COPY and `t'` goes into its source.  `guessed` is
what lowering makes of any sequence of COPY and MOVE.  After a wrong guess it is in step
again with the transfer after the next, because what is left of `t'` begins no transfer
(`lowerAll_runsInto`).  So the guesses are right exactly if no COPY runs into the
transfer behind it: `lowering_without_text`.
-/
import Mathlib.Data.List.Chain
import GraphStore.Proofs.Rewriting

namespace GraphStore

namespace Transfer

/-- The transfer as its requests show it: a COPY looks the same with SILENT and without. -/
def shown (t : Transfer) : Operation :=
  { action := .graph (.transfer t.action t.source.name t.destination.name
      (t.action == .move && t.silent)) }

/-- The transfer is a COPY, and the one behind it begins with the drop of its source. -/
def RunsInto (t t' : Transfer) : Prop := t.action = .copy ∧ t'.destination = t.source

instance (t t' : Transfer) : Decidable (t.RunsInto t') :=
  inferInstanceAs (Decidable (_ ∧ _))

/-- The MOVE that a COPY looks like if its source is dropped next. -/
def mistaken (t : Transfer) : Operation :=
  { action := .graph (.transfer .move t.source.name t.destination.name true) }

/-- The operations that are left of the transfer when its first drop belongs to another one. -/
def leftover (t : Transfer) : List Operation :=
  t.copying :: if t.action = .move then [t.source.dropping t.silent] else []

/-- COPY and MOVE differ in the drop of the source. -/
theorem requests_of_ne_add {t : Transfer} (h : t.action ≠ .add) :
    t.requests = .drop true (Request.targetOf t.destination.pattern) ::
      Request.copyAll t.source.pattern t.destination.pattern ::
        if t.action = .move then [.drop t.silent (Request.targetOf t.source.pattern)] else [] := by
  rcases t.requests_cases with ⟨haction, -⟩ | ⟨haction, hr⟩ | ⟨haction, hr⟩
  · exact absurd haction h
  · rw [hr, haction]
    rfl
  · rw [hr, haction]
    rfl

end Transfer

/-- What lowering makes of a sequence of COPY and MOVE without their text. -/
def guessed : List Transfer → List Operation
  | [] => []
  | [t] => [t.shown]
  | t :: t' :: ts =>
    if t.RunsInto t' then t.mistaken :: (t'.leftover ++ guessed ts)
    else t.shown :: guessed (t' :: ts)

namespace Request

variable {rest : List Request} {source destination : GraphRef}

/-! ## One guess -/

/-- Behind the drop and the copying update, the drop of the source makes a MOVE. -/
theorem foldNext_guess (source destination : GraphRef) (rest : List Request) :
    foldNext none (.drop true (targetOf destination.pattern))
        (copyAll source.pattern destination.pattern :: rest) =
      some (match rest.head?.bind (drops? source.name) with
        | some silent => (.transfer .move source.name destination.name silent, 2, none)
        | none => (.transfer .copy source.name destination.name false, 1, none)) := by
  have hsingle := GraphRef.single?_eq_some.mpr (rfl : targetOf destination.pattern = _)
  simp only [foldNext, foldTransfer, hsingle, foldDropped, copied?_copyAll, Option.bind_eq_bind,
    Option.bind_some, ne_eq, not_true_eq_false, if_false]
  cases rest.head?.bind (drops? source.name) <;> rfl

/-- A drop that no copying update follows begins no transfer. -/
theorem foldNext_drop (hrest : rest.head?.bind copied? = none) (silent : Bool)
    (target : GraphTarget) : foldNext none (.drop silent target) rest = none := by
  have hdropped : ∀ cleared, foldDropped none cleared rest = none := by
    intro cleared
    cases rest with
    | nil => rfl
    | cons r rest' =>
        rw [foldDropped, show r.copied? = none from hrest]
        rfl
  cases silent with
  | false => rfl
  | true =>
      show (target.single?.bind fun cleared => foldDropped none cleared rest).map _ = none
      cases target.single? with
      | none => rfl
      | some cleared => rw [Option.bind_some, hdropped]; rfl

/-! ## Runs of guesses -/

variable {t t' : Transfer} {ts : List Transfer} {next : Nat}

/-- A request of which nothing is guessed is lowered alone. -/
theorem lowerAll_lowered {clauses : Option (List TransferClause)} {r : Request} {op : Operation}
    {next' : Nat} (hfold : foldNext clauses r rest = none)
    (hlower : r.lower next = .ok (op, next')) :
    lowerAll clauses next (r :: rest) =
      (lowerAll clauses next' rest).map fun l => (op :: l.1, l.2) := by
  rw [lowerAll_alone hfold, hlower]
  rfl

/-- A COPY or MOVE is seen as what it shows, if a COPY is not followed by a drop of its source. -/
theorem lowerAll_shown (hadd : t.action ≠ .add)
    (hrest : t.action = .copy → rest.head?.bind (drops? t.source.name) = none) :
    lowerAll none next (t.requests ++ rest) =
      (lowerAll none next rest).map fun l => (t.shown :: l.1, l.2) := by
  rcases t.requests_cases with ⟨haction, -⟩ | ⟨haction, hr⟩ | ⟨haction, hr⟩
  · exact absurd haction hadd
  · have hguess := foldNext_guess t.source t.destination rest
    rw [hrest haction] at hguess
    rw [hr, Transfer.shown, haction, List.cons_append, List.cons_append, List.nil_append,
      lowerAll_found hguess]
    rfl
  · have hguess := foldNext_guess t.source t.destination
      (.drop t.silent (targetOf t.source.pattern) :: rest)
    rw [List.head?_cons, Option.bind_some, drops?_eq_some.mpr rfl] at hguess
    rw [hr, Transfer.shown, haction, List.cons_append, List.cons_append, List.cons_append,
      List.nil_append, lowerAll_found hguess]
    rfl

/-- What is left of a transfer begins no other one, and is lowered request by request. -/
theorem lowerAll_leftover (hrest : rest.head?.bind copied? = none) :
    lowerAll none next (copyAll t.source.pattern t.destination.pattern ::
        (if t.action = .move then [.drop t.silent (targetOf t.source.pattern)] else []) ++ rest) =
      (lowerAll none next rest).map fun l => (t.leftover ++ l.1, l.2) := by
  rw [List.cons_append, lowerAll_lowered rfl (t.lower_copyAll next), Transfer.leftover]
  by_cases hmove : t.action = .move
  · rw [if_pos hmove, if_pos hmove, List.cons_append, List.nil_append,
      lowerAll_lowered (foldNext_drop hrest _ _) rfl]
    cases lowerAll none next rest <;> rfl
  · rw [if_neg hmove, if_neg hmove]
    rfl

/-- A COPY takes the first drop of the transfer that it runs into, and is seen as a MOVE. -/
theorem lowerAll_runsInto (h : t.RunsInto t') (hadd : t'.action ≠ .add)
    (hrest : rest.head?.bind copied? = none) :
    lowerAll none next (t.requests ++ (t'.requests ++ rest)) =
      (lowerAll none next rest).map fun l => (t.mistaken :: (t'.leftover ++ l.1), l.2) := by
  obtain ⟨hcopy, hinto⟩ := h
  have hadd' : t.action ≠ .add := by
    rw [hcopy]
    exact GraphAction.noConfusion
  have hguess := foldNext_guess t.source t.destination (t'.requests ++ rest)
  rw [Transfer.requests_of_ne_add hadd, hinto, List.cons_append, List.head?_cons,
    Option.bind_some, drops?_eq_some.mpr rfl] at hguess
  rw [Transfer.requests_of_ne_add hadd', hcopy, Transfer.requests_of_ne_add hadd, hinto]
  refine (lowerAll_found hguess).trans ?_
  show (lowerAll none next (copyAll _ _ :: _ ++ rest)).map _ = _
  rw [Transfer.mistaken, ← hinto, lowerAll_leftover hrest]
  cases lowerAll none next rest <;> rfl

/-- Behind transfers other than ADD, nothing is copied first. -/
theorem copied?_head_requests (h : ∀ t ∈ ts, t.action ≠ .add) :
    (ts.flatMap Transfer.requests).head?.bind copied? = none := by
  cases ts with
  | nil => rfl
  | cons t ts =>
      rw [List.flatMap_cons, Transfer.requests_of_ne_add (h t List.mem_cons_self)]
      rfl

theorem drops?_head_requests (hadd : t'.action ≠ .add) (h : t'.destination ≠ t.source)
    (rest : List Request) :
    (t'.requests ++ rest).head?.bind (drops? t.source.name) = none := by
  rw [Transfer.requests_of_ne_add hadd, List.cons_append, List.head?_cons, Option.bind_some]
  cases hdrops : drops? t.source.name (.drop true (targetOf t'.destination.pattern)) with
  | none => rfl
  | some silent =>
      have htarget := (Request.drop.inj (drops?_eq_some.mp hdrops)).2
      exact absurd (GraphRef.targetOf_injective htarget) h

end Request

/-- Without clauses, a sequence of COPY and MOVE is lowered to what is guessed. -/
theorem lowerAll_guessed {ts : List Transfer} (h : ∀ t ∈ ts, t.action ≠ .add) (next : Nat) :
    Request.lowerAll none next (ts.flatMap Transfer.requests) = .ok (guessed ts, next) := by
  -- the cases are those of `guessed`, which looks at two transfers and drops one or both
  induction ts using guessed.induct with
  | case1 => rw [List.flatMap_nil, Request.lowerAll, guessed]
  | case2 t =>
      rw [List.flatMap_cons, Request.lowerAll_shown (h t List.mem_cons_self) fun _ => rfl,
        List.flatMap_nil, Request.lowerAll]
      rfl
  | case3 t t' ts hinto ih =>
      obtain ⟨-, hts⟩ := List.forall_mem_cons.mp h
      obtain ⟨hadd, hts⟩ := List.forall_mem_cons.mp hts
      rw [List.flatMap_cons, List.flatMap_cons, Request.lowerAll_runsInto hinto hadd
        (Request.copied?_head_requests hts), ih hts, guessed, if_pos hinto]
      rfl
  | case4 t t' ts hinto ih =>
      obtain ⟨hadd, hts⟩ := List.forall_mem_cons.mp h
      have hrest : t.action = .copy → ((t' :: ts).flatMap Transfer.requests).head?.bind
          (Request.drops? t.source.name) = none := fun hcopy =>
        Request.drops?_head_requests (hts t' List.mem_cons_self)
          (fun hsource => hinto ⟨hcopy, hsource⟩) _
      rw [List.flatMap_cons, Request.lowerAll_shown hadd hrest, ih hts, guessed, if_neg hinto]
      rfl

/-- The guesses are right exactly if no COPY runs into the transfer behind it. -/
theorem guessed_eq_map_iff (ts : List Transfer) :
    guessed ts = ts.map Transfer.shown ↔ ts.IsChain fun t t' => ¬ t.RunsInto t' := by
  induction ts using guessed.induct with
  | case1 => exact iff_of_true rfl .nil
  | case2 t => exact iff_of_true rfl (.singleton t)
  | case3 t t' ts hinto _ =>
      rw [guessed, if_pos hinto, List.isChain_cons_cons]
      refine iff_of_false (fun h => ?_) fun h => h.1 hinto
      -- a MOVE stands where a COPY was written
      have hfirst := congrArg Operation.action (List.cons.inj h).1
      have haction := congrArg GraphOperation.action (Action.graph.inj hfirst)
      exact GraphAction.noConfusion (haction.trans hinto.1)
  | case4 t t' ts hinto ih =>
      rw [guessed, if_neg hinto, List.isChain_cons_cons, List.map_cons, List.cons.injEq]
      exact and_congr (iff_of_true rfl hinto) ih

/-- Without the text, a sequence of COPY and MOVE is lowered to the operations that are written,
one for each and with the SILENT flags of the MOVEs, exactly if no COPY stands in front of a
transfer into its source.  Where one does, it is taken for a MOVE together with the first drop of
the transfer behind it. -/
theorem lowering_without_text {ts : List Transfer} (h : ∀ t ∈ ts, t.action ≠ .add) (next : Nat) :
    Request.lowerUpdate next (ts.flatMap Transfer.requests) = .ok (guessed ts, next) ∧
      (Request.lowerUpdate next (ts.flatMap Transfer.requests) =
          .ok (ts.map Transfer.shown, next) ↔ ts.IsChain fun t t' => ¬ t.RunsInto t') := by
  have hguessed : Request.lowerUpdate next (ts.flatMap Transfer.requests) =
      .ok (guessed ts, next) := lowerAll_guessed h next
  refine ⟨hguessed, ?_⟩
  rw [hguessed, ← guessed_eq_map_iff]
  constructor
  · intro heq
    exact (Prod.mk.inj (Except.ok.inj heq)).1
  · intro heq
    rw [heq]

/-- A COPY in front of a MOVE out of its destination is kept; in front of a COPY into its source
it is not. -/
theorem lowering_without_text_pairs :
    let a : GraphRef := .iri ⟨"a"⟩
    let b : GraphRef := .iri ⟨"b"⟩
    let copy : Transfer := ⟨.copy, true, a, b, rfl, by decide⟩
    let move : Transfer := ⟨.move, true, b, .default, rfl, by decide⟩
    let into : Transfer := ⟨.copy, false, .iri ⟨"c"⟩, a, rfl, by decide⟩
    Request.lowerUpdate 0 (copy.requests ++ move.requests) =
        .ok ([{ action := .graph (.transfer .copy a.name b.name false) },
          { action := .graph (.transfer .move b.name .default true) }], 0) ∧
      Request.lowerUpdate 0 (copy.requests ++ into.requests) =
        .ok ([{ action := .graph (.transfer .move a.name b.name true) }, into.copying], 0) := by
  intro a b copy move into
  have hmove : ∀ t ∈ [copy, move], t.action ≠ .add := by
    simp [copy, move]
  have hinto : ∀ t ∈ [copy, into], t.action ≠ .add := by
    simp [copy, into]
  have hapart : ¬ copy.RunsInto move := by decide
  have hruns : copy.RunsInto into := by decide
  refine ⟨(lowering_without_text hmove 0).2.mpr ?_, ?_⟩
  · exact .cons_cons hapart (.singleton move)
  · have hall := (lowering_without_text hinto 0).1
    rw [guessed, if_pos hruns] at hall
    exact hall

/-- A COPY becomes a MOVE that nobody wrote, and the transfer behind it an update. -/
theorem drop_of_next_copy_makes_move :
    ¬ ∀ ts : List Transfer, (∀ t ∈ ts, t.action ≠ .add) → ∀ next : Nat,
      Request.lowerUpdate next (ts.flatMap Transfer.requests) =
        .ok (ts.map Transfer.shown, next) := by
  intro h
  let copy : Transfer := ⟨.copy, false, .iri ⟨"a"⟩, .iri ⟨"b"⟩, rfl, by decide⟩
  let into : Transfer := ⟨.copy, false, .iri ⟨"c"⟩, .iri ⟨"a"⟩, rfl, by decide⟩
  have hadd : ∀ t ∈ [copy, into], t.action ≠ .add := by
    simp [copy, into]
  have hall := h [copy, into] hadd 0
  have hguessed : Request.lowerUpdate 0 ([copy, into].flatMap Transfer.requests) = _ :=
    lowerAll_guessed hadd 0
  rw [hguessed] at hall
  have heq := (Prod.mk.inj (Except.ok.inj hall)).1
  cases (guessed_eq_map_iff [copy, into]).mp heq with
  | cons_cons hapart _ => exact hapart ⟨rfl, rfl⟩

end GraphStore
