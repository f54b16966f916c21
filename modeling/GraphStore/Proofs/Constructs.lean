/-
# `GraphStore.Proofs.Constructs` — the parts of patterns and expressions

A pattern is made of patterns and expressions, and so is an expression: EXISTS has a
pattern in it.  `Construct` is either of them, `c.parts` are those that `c` is directly made
of, and `c.Has k` says that `k` stands somewhere in `c`, at whatever depth and also in
what is not evaluated itself.

Some forms are refused, whatever they are made of (`Construct.refused`).  In a construct
that is supported as a whole there are none of them (`Construct.Has.not_refused`).
-/
import GraphStore.Proofs.Supported

namespace GraphStore

/-! ## Parts -/

/-- The expression that a key compares. -/
def OrderKey.expression : OrderKey → Expr
  | .ascending e | .descending e => e

/-- The expression that is folded, if it is not the group itself. -/
def Aggregate.argument? : Aggregate → Option Expr
  | .of _ _ _ argument => argument

/-- What a pattern is directly made of. -/
def Pattern.parts : Pattern → List Construct
  | .bgp _ | .path .. | .values .. => []
  | .join l r | .union l r | .minus l r => [.pattern l, .pattern r]
  | .leftJoin l r condition =>
    .pattern l :: .pattern r :: condition.toList.map .expression
  | .filter e p | .extend p _ e => [.pattern p, .expression e]
  | .graph _ p | .project p _ | .distinct p | .reduced p | .slice p _ _ | .service _ p _ =>
    [.pattern p]
  | .orderBy p keys => .pattern p :: keys.map (.expression ·.expression)
  | .group p _ aggregates =>
    .pattern p :: (aggregates.filterMap Aggregate.argument?).map .expression

/-- What an expression is directly made of. -/
def Expr.parts : Expr → List Construct
  | .iri _ | .literal _ | .var _ | .bound _ => []
  | .not e | .signed _ e => [.expression e]
  | .or l r | .and l r | .equal l r | .sameTerm l r | .compare _ l r | .arith _ l r =>
    [.expression l, .expression r]
  | .member e es => .expression e :: es.map .expression
  | .holds p => [.pattern p]
  | .ite condition yes no => [.expression condition, .expression yes, .expression no]
  | .coalesce es | .call _ es => es.map .expression

/-- What a construct is directly made of. -/
@[simp] def Construct.parts : Construct → List Construct
  | .pattern p => p.parts
  | .expression e => e.parts
  | .described _ => []

/-- The second construct stands somewhere in the first, or is the first. -/
inductive Construct.Has : Construct → Construct → Prop
  | refl (c : Construct) : Has c c
  | part {c d k : Construct} : d ∈ c.parts → Has d k → Has c k

/-! ## Refused forms -/

/-- The pattern is of a form that is not evaluated. -/
def Pattern.refused : Pattern → Bool
  | .path .. | .minus .. | .orderBy .. | .group .. | .service .. => true
  | .bgp _ | .join .. | .leftJoin .. | .filter .. | .union .. | .graph .. | .extend ..
  | .values .. | .project .. | .distinct _ | .reduced _ | .slice .. => false

/-- The expression is of a form that is not evaluated. -/
def Expr.refused : Expr → Bool
  | .compare .. | .arith .. | .signed .. | .member .. | .holds _ | .call .. => true
  | .iri _ | .literal _ | .var _ | .or .. | .and .. | .equal .. | .sameTerm .. | .not _
  | .bound _ | .ite .. | .coalesce _ => false

/-- The construct is of a form that is not evaluated, whatever it is made of. -/
@[simp] def Construct.refused : Construct → Bool
  | .pattern p => p.refused
  | .expression e => e.refused
  | .described _ => false

/-! ## Supported constructs -/

/-- Nothing in the construct is refused. -/
@[simp] def Construct.supported : Construct → Bool
  | .pattern p => p.supported
  | .expression e => e.supported
  | .described _ => true

theorem Expr.supported_of_allSupported {es : List Expr} (h : Expr.allSupported es = true) :
    ∀ e ∈ es, e.supported = true := by
  induction es with
  | nil => exact fun e he => absurd he List.not_mem_nil
  | cons e es ih =>
      rw [Expr.allSupported, Bool.and_eq_true] at h
      exact List.forall_mem_cons.mpr ⟨h.1, ih h.2⟩

theorem Expr.supported_of_mem_parts {e : Expr} (he : e.supported = true) :
    ∀ d ∈ e.parts, d.supported = true := by
  cases e with
  | iri | literal | var | bound => exact fun d hd => absurd hd List.not_mem_nil
  | not e => simpa [Expr.parts, Expr.supported] using he
  | or l r | and l r | equal l r | sameTerm l r =>
      rw [Expr.supported, Bool.and_eq_true] at he
      simpa [Expr.parts] using he
  | ite condition yes no =>
      rw [Expr.supported, Bool.and_eq_true, Bool.and_eq_true] at he
      simpa [Expr.parts, and_assoc] using he
  | coalesce es =>
      intro d hd
      obtain ⟨e, he', rfl⟩ := List.mem_map.mp hd
      exact supported_of_allSupported he e he'
  | compare | arith | signed | member | holds | call => cases he

theorem Pattern.supported_of_mem_parts {p : Pattern} (hp : p.supported = true) :
    ∀ d ∈ p.parts, d.supported = true := by
  cases p with
  | bgp | values => exact fun d hd => absurd hd List.not_mem_nil
  | join l r | union l r =>
      rw [Pattern.supported, Bool.and_eq_true] at hp
      simpa [Pattern.parts] using hp
  | leftJoin l r condition =>
      rw [Pattern.supported, Bool.and_eq_true, Bool.and_eq_true] at hp
      cases condition <;> simpa [Pattern.parts, and_assoc] using hp
  | filter e p | extend p v e =>
      rw [Pattern.supported, Bool.and_eq_true] at hp
      simpa [Pattern.parts, and_comm] using hp
  | graph | project | distinct | reduced | slice =>
      simpa [Pattern.parts, Pattern.supported] using hp
  | path | minus | orderBy | group | service => cases hp

namespace Construct

variable {c d k : Construct}

theorem supported_of_mem_parts (hc : c.supported = true) (hd : d ∈ c.parts) :
    d.supported = true := by
  cases c with
  | pattern p => exact Pattern.supported_of_mem_parts hc d hd
  | expression e => exact Expr.supported_of_mem_parts hc d hd
  | described text => cases hd

theorem not_refused_of_supported (hc : c.supported = true) : c.refused = false := by
  cases c with
  | pattern p =>
      cases p with
      | path | minus | orderBy | group | service => cases hc
      | _ => rfl
  | expression e =>
      cases e with
      | compare | arith | signed | member | holds | call => cases hc
      | _ => rfl
  | described text => rfl

/-- Nothing that stands in a supported construct is refused. -/
theorem Has.not_refused (h : c.Has k) (hc : c.supported = true) : k.refused = false := by
  induction h with
  | refl c => exact not_refused_of_supported hc
  | part hd _ ih => exact ih (supported_of_mem_parts hc hd)

end Construct

end GraphStore
