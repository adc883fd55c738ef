/-
The language of literals, names, functions, calls, operators and aliases as a call-by-value language
with lexical scope. A function is a value together with the scope of its definition, and a call runs
its body in that scope, whatever the scope of the call. An alias binds its name in the rest of its
sequence; the value of a sequence is that of its last node, and an alias has none.

`interpret` runs a program with a bound on the nesting. `Evaluates` says the same without a bound
and counts the calls that are made on the way, by which later inductions go.
-/
import Residual.Node.Basic

namespace Residual

theorem Operator.ne_dot_of_fold {op : Operator} {a b : Float} {value : Literal}
    (h : op.fold a b = some value) : op ≠ .dot := by
  rintro rfl
  cases h

namespace Reference

/-! ## The interpreter -/

/-- A literal, or a function with the scope of its definition. -/
inductive Value where
  | lit (value : Literal)
  | closure (scope : List (Name × Value)) (param : Name) (body : List Node)

/-- Values of names, the innermost first. -/
abbrev Scope := List (Name × Value)

def Value.number? : Value → Option Float
  | .lit (.number x) => some x
  | _ => none

theorem Value.eq_of_number? {v : Value} {x : Float} (h : v.number? = some x) :
    v = .lit (.number x) := by
  unfold number? at h
  split at h
  · cases h
    rfl
  · cases h

/-- The value of a sequence, with an interpreter of its nodes. -/
def sequence (interpret : Scope → Node → Option Value) : Scope → List Node → Option Value
  | _, [] => none
  | scope, .assign _ (.ident _ name) value _ _ :: rest => do
    let v ← interpret scope value
    sequence interpret ((name, v) :: scope) rest
  | scope, [last] => interpret scope last
  | scope, item :: rest => do
    let _ ← interpret scope item
    sequence interpret scope rest

/-- The value of a node; `fuel` bounds the nesting. -/
def interpret : (fuel : Nat) → Scope → Node → Option Value
  | 0, _, _ => none
  | fuel + 1, scope, n =>
    match n with
    | .lit _ value => some (.lit value)
    | .ident _ name => scope.lookup name
    | .func _ param body => some (.closure scope param.name body)
    | .binOp _ op lhs rhs => do
      let a ← (← interpret fuel scope lhs).number?
      let b ← (← interpret fuel scope rhs).number?
      return .lit (← op.fold a b)
    | .call _ callee arg => do
      match ← interpret fuel scope callee with
      | .closure inner param body =>
        let v ← interpret fuel scope arg
        sequence (interpret fuel) ((param, v) :: inner) body
      | .lit _ => none
    | _ => none

/-! ## Evaluation -/

mutual

/-- In a scope, a node has a value, with a number of calls on the way. -/
inductive Evaluates : Scope → Node → Nat → Value → Prop where
  | lit {s : Scope} {t : Tag} {value : Literal} : Evaluates s (.lit t value) 0 (.lit value)
  | ident {s : Scope} {t : Tag} {x : Name} {v : Value} (h : s.lookup x = some v) :
    Evaluates s (.ident t x) 0 v
  | func {s : Scope} {t : Tag} {param : Decl Node} {body : List Node} :
    Evaluates s (.func t param body) 0 (.closure s param.name body)
  | binOp {s : Scope} {t : Tag} {op : Operator} {lhs rhs : Node} {i j : Nat} {a b : Float}
    {value : Literal} (ha : Evaluates s lhs i (.lit (.number a)))
    (hb : Evaluates s rhs j (.lit (.number b))) (h : op.fold a b = some value) :
    Evaluates s (.binOp t op lhs rhs) (i + j) (.lit value)
  | call {s inner : Scope} {t : Tag} {callee arg : Node} {i j k : Nat} {x : Name}
    {body : List Node} {u v : Value} (hf : Evaluates s callee i (.closure inner x body))
    (ha : Evaluates s arg j u) (hbody : EvaluatesSeq ((x, u) :: inner) body k v) :
    Evaluates s (.call t callee arg) (i + j + k + 1) v

/-- In a scope, a sequence has a value, with a number of calls on the way. -/
inductive EvaluatesSeq : Scope → List Node → Nat → Value → Prop where
  | last {s : Scope} {n : Node} {k : Nat} {v : Value} (h : Evaluates s n k v) : EvaluatesSeq s [n] k v
  | bind {s : Scope} {t t' : Tag} {x : Name} {value : Node} {p : Bool} {link : Option DefId}
    {rest : List Node} {i j : Nat} {u v : Value} (h : Evaluates s value i u)
    (hrest : EvaluatesSeq ((x, u) :: s) rest j v) :
    EvaluatesSeq s (.assign t (.ident t' x) value p link :: rest) (i + j) v
  | next {s : Scope} {n : Node} {rest : List Node} {i j : Nat} {u v : Value}
    (h : Evaluates s n i u) (hrest : EvaluatesSeq s rest j v) : EvaluatesSeq s (n :: rest) (i + j) v

end

mutual

theorem Evaluates.deterministic : ∀ {s : Scope} {n : Node} {i j : Nat} {v w : Value},
    Evaluates s n i v → Evaluates s n j w → v = w
  | _, _, _, _, _, _, .lit, .lit => rfl
  | _, _, _, _, _, _, .ident h, .ident h' => Option.some.inj (h.symm.trans h')
  | _, _, _, _, _, _, .func, .func => rfl
  | _, _, _, _, _, _, .binOp ha hb h, .binOp ha' hb' h' => by
    cases ha.deterministic ha'
    cases hb.deterministic hb'
    cases h.symm.trans h'
    rfl
  | _, _, _, _, _, _, .call hf ha hbody, .call hf' ha' hbody' => by
    cases hf.deterministic hf'
    cases ha.deterministic ha'
    exact hbody.deterministic hbody'

theorem EvaluatesSeq.deterministic : ∀ {s : Scope} {ns : List Node} {i j : Nat} {v w : Value},
    EvaluatesSeq s ns i v → EvaluatesSeq s ns j w → v = w
  | _, _, _, _, _, _, .last h, .last h' => h.deterministic h'
  | _, _, _, _, _, _, .bind h hrest, .bind h' hrest' => by
    cases h.deterministic h'
    exact hrest.deterministic hrest'
  | _, _, _, _, _, _, .next _ hrest, .next _ hrest' => hrest.deterministic hrest'
  | _, _, _, _, _, _, .bind _ hrest, .last h => by cases hrest
  | _, _, _, _, _, _, .last h, .bind _ hrest => by cases hrest
  | _, _, _, _, _, _, .last _, .next _ hrest => by cases hrest
  | _, _, _, _, _, _, .next _ hrest, .last _ => by cases hrest
  | _, _, _, _, _, _, .bind _ _, .next h _ => by cases h
  | _, _, _, _, _, _, .next h _, .bind _ _ => by cases h

end

/-! ## The interpreter evaluates -/

theorem sequence_evaluatesSeq {interpret : Scope → Node → Option Value}
    (h : ∀ {s n v}, interpret s n = some v → ∃ k, Evaluates s n k v) :
    ∀ {s : Scope} {ns : List Node} {v : Value}, sequence interpret s ns = some v →
      ∃ k, EvaluatesSeq s ns k v := by
  intro s ns v hv
  fun_induction sequence interpret s ns generalizing v with
  | case1 => cases hv
  | case2 s t t' name value p link rest ih =>
    obtain ⟨u, hu, hrest⟩ := Option.bind_eq_some_iff.1 hv
    obtain ⟨i, hi⟩ := h hu
    obtain ⟨j, hj⟩ := ih u hrest
    exact ⟨i + j, .bind hi hj⟩
  | case3 s last _ =>
    obtain ⟨k, hk⟩ := h hv
    exact ⟨k, .last hk⟩
  | case4 s item rest _ _ ih =>
    obtain ⟨u, hu, hrest⟩ := Option.bind_eq_some_iff.1 hv
    obtain ⟨i, hi⟩ := h hu
    obtain ⟨j, hj⟩ := ih hrest
    exact ⟨i + j, .next hi hj⟩

theorem interpret_evaluates : ∀ {fuel : Nat} {s : Scope} {n : Node} {v : Value},
    interpret fuel s n = some v → ∃ k, Evaluates s n k v
  | 0, _, _, _, hv => by cases hv
  | fuel + 1, s, n, v, hv => by
    unfold interpret at hv
    split at hv
    · cases hv
      exact ⟨0, .lit⟩
    · exact ⟨0, .ident hv⟩
    · cases hv
      exact ⟨0, .func⟩
    · obtain ⟨x, hx, hv⟩ := Option.bind_eq_some_iff.1 hv
      obtain ⟨a, ha, hv⟩ := Option.bind_eq_some_iff.1 hv
      obtain ⟨y, hy, hv⟩ := Option.bind_eq_some_iff.1 hv
      obtain ⟨b, hb, hv⟩ := Option.bind_eq_some_iff.1 hv
      obtain ⟨value, hvalue, hv⟩ := Option.bind_eq_some_iff.1 hv
      cases hv
      obtain ⟨i, hi⟩ := interpret_evaluates hx
      obtain ⟨j, hj⟩ := interpret_evaluates hy
      rw [Value.eq_of_number? ha] at hi
      rw [Value.eq_of_number? hb] at hj
      exact ⟨i + j, .binOp hi hj hvalue⟩
    · obtain ⟨f, hf, hv⟩ := Option.bind_eq_some_iff.1 hv
      split at hv
      · obtain ⟨u, hu, hv⟩ := Option.bind_eq_some_iff.1 hv
        obtain ⟨i, hi⟩ := interpret_evaluates hf
        obtain ⟨j, hj⟩ := interpret_evaluates hu
        obtain ⟨k, hk⟩ := sequence_evaluatesSeq interpret_evaluates hv
        exact ⟨i + j + k + 1, .call hi hj hk⟩
      · cases hv
    · cases hv

end Reference

end Residual
