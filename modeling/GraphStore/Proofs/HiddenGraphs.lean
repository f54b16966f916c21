/-
# `GraphStore.Proofs.HiddenGraphs` — a hidden graph might as well not be there

A reader hides the graphs that its user may not query; a content can be restricted to
the graphs that its user may query.  `restrict_reader` says that these two are the
same: hiding graphs of the reader of a content gives the reader of the restricted
content.  Each lookup has its own reason.  The lookups of one graph are guarded as a
whole, the lookup of all named graphs drops quads one by one, and the list of named
graphs is filtered after created and merely used graphs have been merged, which is
the same as filtering both before (`addMissing_filter`).

Whatever is computed from the reader follows.  `hidden_graphs_invisible` spells this
out for every lookup and for the evaluation of every pattern, and adds the statement
about two contents: if they agree on the graphs that the user may query, the user
cannot tell them apart.
-/
import GraphStore.Evaluation.Solutions
import GraphStore.Proofs.Repetitions

namespace GraphStore

namespace Content

variable {c : Content} {policy : Policy} {user : User}

theorem findDefault_restrict (c : Content) (f : TripleFilter) :
    (c.restrict policy user).findDefault f =
      if policy .query .default user then c.findDefault f else [] := by
  unfold findDefault restrict
  split <;> rfl

/-- No quad of a graph that may be queried is dropped, and every quad of another graph is. -/
theorem findNamed_restrict (c : Content) (g : Resource) (f : TripleFilter) :
    (c.restrict policy user).findNamed g f =
      if policy .query (.named g) user then c.findNamed g f else [] := by
  unfold findNamed restrict
  rw [List.filter_filter]
  split
  · rename_i hallowed
    refine List.filter_congr fun q _ => ?_
    by_cases hq : q.graph = .named g
    · simp [hq, hallowed]
    · simp [hq]
  · rename_i hhidden
    refine List.filter_eq_nil_iff.mpr fun q _ => ?_
    by_cases hq : q.graph = .named g
    · simp [hq, hhidden]
    · simp [hq]

theorem findAnyNamed_restrict (c : Content) (f : TripleFilter) :
    (c.restrict policy user).findAnyNamed f =
      (c.findAnyNamed f).filter fun q => policy .query q.graph user := by
  unfold findAnyNamed restrict
  rw [List.filter_filter, List.filter_filter]
  exact List.filter_congr fun q _ => Bool.and_comm _ _

theorem namedGraphs_restrict (c : Content) :
    (c.restrict policy user).namedGraphs =
      c.namedGraphs.filter fun g => policy .query (.named g) user := by
  unfold namedGraphs restrict
  rw [addMissing_filter, List.filter_filterMap, List.filterMap_filter]
  congr 2
  funext q
  cases hq : q.graph with
  | default => simp [GraphName.resource?]
  | named g =>
      cases hg : policy .query (.named g) user <;> simp [GraphName.resource?, Option.filter, hg]

theorem containsGraph_restrict (c : Content) (g : Resource) :
    (c.restrict policy user).containsGraph g =
      if policy .query (.named g) user then c.containsGraph g else false := by
  rw [Bool.eq_iff_iff]
  simp only [containsGraph, restrict, Bool.or_eq_true, List.contains_iff_mem, List.any_eq_true,
    List.mem_filter, beq_iff_eq]
  split
  · rename_i hallowed
    simp only [Bool.or_eq_true, List.contains_iff_mem, List.any_eq_true, beq_iff_eq]
    constructor
    · rintro (⟨hg, -⟩ | ⟨q, ⟨hq, -⟩, hqg⟩)
      · exact .inl hg
      · exact .inr ⟨q, hq, hqg⟩
    · rintro (hg | ⟨q, hq, hqg⟩)
      · exact .inl ⟨hg, hallowed⟩
      · exact .inr ⟨q, ⟨hq, hqg ▸ hallowed⟩, hqg⟩
  · rename_i hhidden
    refine iff_of_false ?_ Bool.false_ne_true
    rintro (⟨-, hg⟩ | ⟨q, ⟨-, hq⟩, hqg⟩)
    · exact hhidden hg
    · exact hhidden (hqg ▸ hq)

/-- To a user who may query everything, nothing is hidden. -/
theorem restrict_of_permits (c : Content) (h : ∀ g, policy .query g user = true) :
    c.restrict policy user = c := by
  unfold restrict
  simp only [h, if_true, List.filter_true]

end Content

/-- Hiding graphs of a content's reader is reading the content without them. -/
theorem Content.restrict_reader {m : Type → Type} [Monad m] [LawfulMonad m] (c : Content)
    (policy : Policy) (user : User) :
    (c.reader : Reader m).restrict policy user = (c.restrict policy user).reader := by
  unfold Reader.restrict Content.reader
  congr 1
  · funext f
    rw [findDefault_restrict]
    split <;> rfl
  · funext g f
    rw [findNamed_restrict]
    split <;> rfl
  · funext f
    rw [findAnyNamed_restrict, pure_bind]
  · rw [namedGraphs_restrict, pure_bind]
  · funext g
    rw [containsGraph_restrict]
    split <;> rfl

/-- The number of quads that a reader finds is the number of quads of its content. -/
theorem Content.size_reader {m : Type → Type} [Monad m] [LawfulMonad m] (c : Content) :
    (c.reader : Reader m).size = pure c.size := by
  have hdefault : c.findDefault .any = c.triples.map (·.inGraph .default) := by
    rw [findDefault, List.filter_eq_self.mpr fun t _ => TripleFilter.accepts_any t]
  have hnamed : c.findAnyNamed .any = c.quads :=
    List.filter_eq_self.mpr fun q _ => TripleFilter.accepts_any q.triple
  show (do
    let found ← (do
      let defaults ← pure (c.findDefault .any)
      let named ← pure (c.findAnyNamed .any)
      return defaults ++ named)
    return found.length : m Nat) = pure c.size
  rw [pure_bind, pure_bind, pure_bind, hdefault, hnamed, List.length_append, List.length_map]
  rfl

/-- What a user may not query does not show in any lookup nor in the solutions of any pattern:
they are those of the content without it.  So two contents that agree on what the user may query
have the same solutions. -/
theorem hidden_graphs_invisible {m : Type → Type} [Monad m] [LawfulMonad m]
    [MonadExcept EvaluationError m] (c : Content) (policy : Policy) (user : User) :
    let hidden : Reader m := c.reader.restrict policy user
    let rest := c.restrict policy user
    (∀ f, hidden.findDefault f = pure (rest.findDefault f)) ∧
      (∀ g f, hidden.findNamed g f = pure (rest.findNamed g f)) ∧
      (∀ f, hidden.findAnyNamed f = pure (rest.findAnyNamed f)) ∧
      hidden.namedGraphs = pure rest.namedGraphs ∧
      (∀ g, hidden.containsGraph g = pure (rest.containsGraph g)) ∧
      (∀ g f, hidden.find g f = rest.reader.find g f) ∧
      (∀ q, hidden.contains q = rest.reader.contains q) ∧
      hidden.size = pure rest.size ∧
      (∀ p scope input,
        Pattern.solutions hidden p scope input = Pattern.solutions rest.reader p scope input) ∧
      ∀ c' : Content, c'.restrict policy user = rest → ∀ p scope input,
        Pattern.solutions (c'.reader.restrict policy user : Reader m) p scope input =
          Pattern.solutions hidden p scope input := by
  intro hidden rest
  have hreader : hidden = rest.reader := c.restrict_reader policy user
  rw [hreader]
  refine ⟨fun _ => rfl, fun _ _ => rfl, fun _ => rfl, rfl, fun _ => rfl, fun _ _ => rfl,
    fun _ => rfl, rest.size_reader, fun _ _ _ => rfl, fun c' hagree p scope input => ?_⟩
  rw [c'.restrict_reader policy user, hagree]

/-- A variable for the graph does not range over a hidden one. -/
theorem hidden_graphs_invisible_graphVariable :
    let t : Triple := ⟨.iri ⟨"s"⟩, ⟨"p"⟩, .iri ⟨"o"⟩⟩
    let c : Content :=
      { quads := [t.inGraph (.named (.iri ⟨"g"⟩)), t.inGraph (.named (.iri ⟨"h"⟩))] }
    let policy : Policy := fun _ graph _ => graph != .named (.iri ⟨"g"⟩)
    (Pattern.solutions (m := Except EvaluationError) (c.reader.restrict policy "user")
      (.graph (.var ⟨"v"⟩) (.bgp [])) none none).toOption =
        some [Binding.empty.insert ⟨"v"⟩ (.iri ⟨"h"⟩)] := by
  intro t c policy
  obtain ⟨-, -, -, -, -, -, -, -, hsolutions, -⟩ :=
    hidden_graphs_invisible (m := Except EvaluationError) c policy "user"
  rw [hsolutions]
  decide +kernel

end GraphStore
