/-
Evaluation and checking leave the environment as they found it: the local bindings, the calls, the
two modes, the definitions and the links are the same after a run as before it, whether the run ends
with a result or with a fault. Nor is a node identity ever handed out again: the counter only goes
up.

Most passes put back what they change; such a pass `Restores` the environment, and building passes
from such passes keeps it so. The exception is a sequence, whose aliases stay bound for the nodes
after them. Between two nodes of a sequence the environment has only been `Opened`, that is, has got
bindings on top, and a scope that is closed over it finds the old bindings below them.
-/
import Residual.Proofs.Pass

namespace Residual

/-! ## Guards -/

/-- `after` is `before` with bindings on top. -/
inductive Opened (before : Env) : Env → Prop where
  | same : Opened before before
  | push {after : Env} (b : Binding) (h : Opened before after) : Opened before (after.push b)

theorem Opened.trans {a b c : Env} (hab : Opened a b) (hbc : Opened b c) : Opened a c := by
  induction hbc with
  | same => exact hab
  | push b _ ih => exact .push b ih

theorem Opened.size_le {before after : Env} (h : Opened before after) :
    before.locals.size ≤ after.locals.size := by
  induction h with
  | same => exact Nat.le_refl _
  | push b _ ih => exact Nat.le_succ_of_le ih

/-- A scope closes over whatever was opened inside it. -/
theorem Opened.closeScope_eq {before after : Env} (h : Opened before after) :
    Guard.closeScope before after = before := by
  induction h with
  | same => simp [Guard.closeScope]
  | @push after b h ih =>
    have hpush : Guard.closeScope before (after.push b) = Guard.closeScope before after := by
      simp [Guard.closeScope, Env.push, Locals.truncate_push b h.size_le]
    rw [hpush, ih]

/-- A guard that puts back what it changes. -/
def Guard.Lawful (g : Guard) : Prop := ∀ env, g.leave env (g.enter env) = env

namespace Guard

theorem lawful_scope : scope.Lawful := fun _ => Opened.closeScope_eq .same

theorem lawful_binding (b : Binding) : (binding b).Lawful := fun env =>
  Opened.closeScope_eq (.push b (Opened.same : Opened env env))

theorem lawful_call (n : Node) : (call n).Lawful := fun env => by
  simp [call, closeScope, Env.enterCall]

theorem lawful_resolve (r : Bool) : (resolve r).Lawful := fun _ => rfl

theorem lawful_transparent (t : Bool) : (transparent t).Lawful := fun _ => rfl

theorem lawful_globals : globals.Lawful := fun _ => rfl

end Guard

/-! ## Passes -/

namespace Pass

variable {α β : Type}

/-- A pass that leaves the environment as it was, and does not set the counter back. -/
def Restores (m : Pass α) : Prop :=
  ∀ s, (m.runOn s).2.env = s.env ∧ s.nodes.next ≤ (m.runOn s).2.nodes.next

/-- A pass that leaves the environment with bindings on top, and does not set the counter back. -/
def Opens (m : Pass α) : Prop :=
  ∀ s, Opened s.env (m.runOn s).2.env ∧ s.nodes.next ≤ (m.runOn s).2.nodes.next

theorem Restores.env_eq {m : Pass α} {s t : Machine} {r : Except Fault α} (h : Restores m)
    (hrun : m.runOn s = (r, t)) : t.env = s.env := by
  rw [← (h s).1, hrun]

theorem Restores.next_le {m : Pass α} {s t : Machine} {r : Except Fault α} (h : Restores m)
    (hrun : m.runOn s = (r, t)) : s.nodes.next ≤ t.nodes.next := by
  have hs := (h s).2
  rwa [hrun] at hs

theorem Restores.opens {m : Pass α} (h : Restores m) : Opens m := fun s => by
  refine ⟨?_, (h s).2⟩
  rw [(h s).1]
  exact .same

theorem restores_pure (a : α) : Restores (pure a : Pass α) := fun _ => ⟨rfl, Nat.le_refl _⟩

theorem restores_throw (f : Fault) : Restores (throw f : Pass α) := fun _ => ⟨rfl, Nat.le_refl _⟩

theorem restores_fail (e : TypeError) : Restores (fail e : Pass α) := fun _ => ⟨rfl, Nat.le_refl _⟩

theorem restores_env : Restores Pass.env := fun _ => ⟨rfl, Nat.le_refl _⟩

theorem restores_tagAt (span : Span) : Restores (tagAt span) := fun _ => ⟨rfl, Nat.le_succ _⟩

theorem opens_push (b : Binding) : Opens (push b) := fun _ => ⟨.push b .same, Nat.le_refl _⟩

theorem Restores.bind {m : Pass α} {f : α → Pass β} (hm : Restores m) (hf : ∀ a, Restores (f a)) :
    Restores (m >>= f) := fun s => by
  rw [runOn_bind]
  have hs := hm s
  split
  · rename_i a s' h
    rw [h] at hs
    have hs' := hf a s'
    exact ⟨hs'.1.trans hs.1, Nat.le_trans hs.2 hs'.2⟩
  · rename_i e s' h
    rw [h] at hs
    exact hs

theorem Opens.bind {m : Pass α} {f : α → Pass β} (hm : Opens m) (hf : ∀ a, Opens (f a)) :
    Opens (m >>= f) := fun s => by
  rw [runOn_bind]
  have hs := hm s
  split
  · rename_i a s' h
    rw [h] at hs
    have hs' := hf a s'
    exact ⟨hs.1.trans hs'.1, Nat.le_trans hs.2 hs'.2⟩
  · rename_i e s' h
    rw [h] at hs
    exact hs

theorem Restores.map {m : Pass α} (f : α → β) (hm : Restores m) : Restores (f <$> m) := by
  rw [map_eq_pure_bind]
  exact hm.bind fun a => restores_pure (f a)

theorem Restores.attempt {m : Pass α} (hm : Restores m) : Restores m.attempt := fun s => by
  rw [runOn_attempt]
  have hs := hm s
  split
  · rename_i a s' h
    rw [h] at hs
    exact hs
  · rename_i f s' h
    rw [h] at hs
    exact hs

theorem Restores.under {g : Guard} {m : Pass α} (hm : Restores m) (hg : g.Lawful) :
    Restores (m.under g) := fun s => by
  rw [runOn_under]
  obtain ⟨henv, hnodes⟩ := hm ⟨g.enter s.env, s.nodes⟩
  refine ⟨?_, hnodes⟩
  show g.leave s.env (m.runOn ⟨g.enter s.env, s.nodes⟩).2.env = s.env
  rw [henv]
  exact hg s.env

/-- A scope of its own makes up for bindings that are left on top. -/
theorem Opens.scope {m : Pass α} (hm : Opens m) : Restores (m.under .scope) := fun s => by
  rw [runOn_under]
  exact ⟨(hm s).1.closeScope_eq, (hm s).2⟩

theorem Restores.mapM {f : α → Pass β} (hf : ∀ a, Restores (f a)) :
    ∀ as : List α, Restores (as.mapM f)
  | [] => by
    rw [List.mapM_nil]
    exact restores_pure []
  | a :: as => by
    rw [List.mapM_cons]
    exact (hf a).bind fun b => (Restores.mapM hf as).bind fun bs => restores_pure (b :: bs)

theorem Opens.mapM {f : α → Pass β} (hf : ∀ a, Opens (f a)) : ∀ as : List α, Opens (as.mapM f)
  | [] => by
    rw [List.mapM_nil]
    exact (restores_pure []).opens
  | a :: as => by
    rw [List.mapM_cons]
    exact (hf a).bind fun b => (Opens.mapM hf as).bind fun bs => (restores_pure (b :: bs)).opens

theorem Restores.forM {f : α → Pass PUnit} (hf : ∀ a, Restores (f a)) :
    ∀ as : List α, Restores (as.forM f)
  | [] => restores_pure _
  | a :: as => (hf a).bind fun _ => Restores.forM hf as

theorem Restores.provided {m : Pass α} (hm : Restores m) (p : Machine → Bool) :
    Restores (m.provided p) := fun s => by
  rcases runOn_provided p m s with ⟨hrun, -⟩ | hrun <;> rw [hrun]
  · exact hm s
  · exact ⟨rfl, Nat.le_refl _⟩

theorem restores_builtin (b : Builtin) : Restores (Pass.builtin b) :=
  (restores_tagAt _).bind fun _ => restores_pure _

theorem restores_valueOf : ∀ found : Found, Restores (valueOf found)
  | .bound _ => restores_pure _
  | .defined .. => restores_pure _
  | .builtin b => restores_builtin b

end Pass

/-! ## The evaluator -/

open Pass

namespace Eval

theorem opens_bindLocal (item : Node) : Opens (bindLocal item) := by
  unfold bindLocal
  split
  · refine restores_env.opens.bind fun env => (opens_push _).bind fun _ => Restores.opens ?_
    split
    · exact (restores_tagAt _).bind fun _ => (restores_tagAt _).bind fun _ => restores_pure _
    · exact restores_pure _
  · exact (restores_pure _).opens

theorem restores_seqValue (items : List Node) (site : Span) : Restores (seqValue items site) := by
  refine restores_env.bind fun env => ?_
  split
  · split
    · exact restores_pure _
    · exact restores_fail _
  · exact (restores_tagAt _).bind fun _ => restores_pure _

theorem restores_evalIdent (tag : Tag) (name : Name) : Restores (evalIdent tag name) := by
  refine restores_env.bind fun env => ?_
  split
  · exact restores_fail _
  · split
    · exact restores_valueOf _
    · split
      · exact (restores_tagAt _).bind fun _ => restores_pure _
      · exact restores_pure _

theorem restores_residualCallee (callee evaluated : Node) :
    Restores (residualCallee callee evaluated) := by
  unfold residualCallee
  split
  · refine restores_env.bind fun env => ?_
    split <;> exact restores_pure _
  · exact restores_pure _

section

variable {eval : Node → Pass Node} (h : ∀ n, Restores (eval n))

include h

theorem restores_evalSeq (items : List Node) : Restores (evalSeq eval items) :=
  (Opens.mapM (fun item => (h item).opens.bind opens_bindLocal) items).scope

theorem restores_evalType (ty : Node) : Restores (evalType eval ty) :=
  (h ty).under (Guard.lawful_resolve true)

theorem restores_evalDecl (d : Decl Node) : Restores (evalDecl eval d) :=
  (restores_evalType h d.ty).bind fun _ => restores_pure _

theorem restores_evalFunc (tag : Tag) (param : Decl Node) (body : List Node) :
    Restores (evalFunc eval tag param body) := by
  refine (restores_evalType h param.ty).bind fun ty => (restores_tagAt _).bind fun t =>
    restores_env.bind fun env => Restores.bind ?_ fun body =>
      (restores_tagAt _).bind fun _ => restores_pure _
  exact ((restores_evalSeq h body).under (Guard.lawful_binding _)).under (Guard.lawful_call _)

theorem restores_apply (callee : Node) (param : Decl Node) (body : List Node) (arg : Node)
    (site : Span) : Restores (apply eval callee param body arg site) :=
  ((((restores_evalSeq h body).bind fun items => restores_seqValue items site).under
    (Guard.lawful_binding _)).under (Guard.lawful_transparent true)).under (Guard.lawful_call callee)

theorem restores_unfoldCall (env : Env) (function value : Node) (site : Span) :
    Restores (unfoldCall eval env function value site) := by
  unfold unfoldCall
  split
  · split
    · exact (restores_apply h _ _ _ _ _).map some
    · exact restores_pure _
  · exact restores_pure _

omit h in
theorem restores_keptCallee (env : Env) (callee function : Node) :
    Restores (keptCallee env callee function) := by
  unfold keptCallee
  split
  · exact restores_evalIdent _ _
  · exact restores_residualCallee _ _

theorem restores_evalCall (tag : Tag) (callee arg : Node) :
    Restores (evalCall eval tag callee arg) := by
  refine (restores_evalType h callee).bind fun function => (h arg).bind fun value =>
    restores_env.bind fun env => (restores_unfoldCall h env function value tag.span).bind
      fun result => ?_
  split
  · exact restores_pure _
  · exact (restores_keptCallee env callee function).bind fun _ =>
      (restores_tagAt _).bind fun _ => restores_pure _

theorem restores_evalDot (tag : Tag) (lhs rhs : Node) : Restores (evalDot eval tag lhs rhs) := by
  refine (h lhs).bind fun owner => ?_
  split
  · split
    · exact restores_pure _
    · exact restores_fail _
  · exact (restores_tagAt _).bind fun _ => restores_pure _

theorem restores_evalBinOp (tag : Tag) (op : Operator) (lhs rhs : Node) :
    Restores (evalBinOp eval tag op lhs rhs) := by
  unfold evalBinOp
  split
  · exact restores_evalDot h tag lhs rhs
  · refine (h lhs).bind fun a => (h rhs).bind fun b => ?_
    dsimp only
    split <;> exact (restores_tagAt _).bind fun _ => restores_pure _

theorem restores_evalIf (tag : Tag) (condition : Node) (thenBody elseBody : List Node) :
    Restores (evalIf eval tag condition thenBody elseBody) := by
  refine (h condition).bind fun condition => ?_
  split
  · exact (restores_evalSeq h _).bind fun items => restores_seqValue items _
  · exact (restores_evalSeq h _).bind fun _ => (restores_evalSeq h _).bind fun _ =>
      (restores_tagAt _).bind fun _ => restores_pure _

theorem restores_isMatch (pattern scrutinee : Node) : Restores (isMatch eval pattern scrutinee) := by
  unfold isMatch
  split
  · exact restores_pure _
  · exact restores_env.bind fun _ => (h pattern).bind fun _ => restores_pure _

theorem restores_evalCases (scrutinee : Node) (site : Span) :
    ∀ cases : List (Case Node), Restores (evalCases eval scrutinee site cases)
  | [] => restores_fail _
  | c :: cs => by
    refine (restores_isMatch h c.pattern scrutinee).bind fun hit => ?_
    split
    · exact (restores_evalSeq h _).bind fun items => restores_seqValue items _
    · exact restores_evalCases scrutinee site cs

theorem restores_evalCase (c : Case Node) : Restores (evalCase eval c) := by
  unfold evalCase
  split
  · exact (restores_pure _).bind fun _ => (restores_evalSeq h _).bind fun _ => restores_pure _
  · exact (h _).bind fun _ => (restores_evalSeq h _).bind fun _ => restores_pure _

theorem restores_evalMatch (tag : Tag) (scrutinee : Node) (cases : List (Case Node)) :
    Restores (evalMatch eval tag scrutinee cases) := by
  refine (h scrutinee).bind fun scrutinee => ?_
  split
  · exact restores_evalCases h scrutinee tag.span cases
  · exact (Restores.mapM (restores_evalCase h) cases).bind fun _ =>
      (restores_tagAt _).bind fun _ => restores_pure _

theorem restores_evalField (item : Node) : Restores (evalField eval item) := by
  unfold evalField
  split
  · exact restores_pure _
  · exact h item

/-- A step of evaluation restores the environment if the evaluation of the parts does. -/
theorem restores_step (n : Node) : Restores (step eval n) := by
  cases n with
  | lit | builtin | enum | unknown => exact restores_pure _
  | list tag items =>
    exact (Restores.mapM h items).bind fun _ => (restores_tagAt _).bind fun _ => restores_pure _
  | record tag id fields range =>
    exact (Restores.mapM (restores_evalDecl h) fields).bind fun _ =>
      (restores_tagAt _).bind fun _ => restores_pure _
  | fnType tag id dom cod =>
    exact (restores_evalType h dom).bind fun _ => (restores_evalType h cod).bind fun _ =>
      (restores_tagAt _).bind fun _ => restores_pure _
  | selfType tag ty | arg tag name ty | field tag name ty =>
    exact (restores_evalType h ty).bind fun _ => (restores_tagAt _).bind fun _ => restores_pure _
  | assign tag target value transparent link =>
    exact (h value).bind fun _ => restores_env.bind fun _ => (restores_tagAt _).bind fun _ =>
      restores_pure _
  | ident tag name => exact restores_evalIdent tag name
  | func tag param body => exact restores_evalFunc h tag param body
  | call tag callee arg => exact restores_evalCall h tag callee arg
  | binOp tag op lhs rhs => exact restores_evalBinOp h tag op lhs rhs
  | matchOn tag scrutinee cases => exact restores_evalMatch h tag scrutinee cases
  | whileDo tag condition body =>
    exact (h condition).bind fun _ => (restores_evalSeq h body).bind fun _ =>
      (restores_tagAt _).bind fun _ => restores_pure _
  | ifElse tag condition thenBody elseBody => exact restores_evalIf h tag condition thenBody elseBody
  | block tag items => exact (restores_evalSeq h items).bind fun items => restores_seqValue items _
  | inst tag template body =>
    exact (restores_evalType h template).bind fun _ =>
      (Restores.mapM (restores_evalField h) body).bind fun _ =>
        (restores_tagAt _).bind fun _ => restores_pure _

end

end Eval

theorem restores_eval : ∀ (depth : Nat) (n : Node), Restores (eval depth n)
  | 0, _ => restores_throw _
  | depth + 1, n => Eval.restores_step (restores_eval depth) n

/-! ## The checker -/

namespace Check

theorem restores_placeholder (span : Span) (ty : Node) : Restores (placeholder span ty) :=
  (restores_tagAt _).bind fun _ => restores_pure _

theorem restores_expect (expected found : Node) (site : Span) :
    Restores (expect expected found site) := by
  unfold expect
  split
  · exact restores_pure _
  · exact restores_fail _

theorem restores_checkArg (expected found : Node) (call arg definition : Span) :
    Restores (checkArg expected found call arg definition) := by
  unfold checkArg
  split
  · exact restores_pure _
  · exact restores_fail _

theorem restores_signature (calleeType : Node) (site : Span) :
    Restores (signature calleeType site) := by
  unfold signature
  split
  · exact restores_pure _
  · exact restores_pure _
  · exact restores_pure _
  · exact restores_fail _

theorem restores_liftExcept {α : Type} (r : Except Fault α) : Restores (liftM r : Pass α) := by
  cases r with
  | error f => exact restores_throw f
  | ok a => exact restores_pure a

theorem restores_join (site : Span) (arms : List (Except Fault Node × Span)) :
    Restores (join site arms) := by
  refine (restores_liftExcept (knownTypes arms)).bind fun known => ?_
  split
  · exact restores_fail _
  · split
    · exact restores_fail _
    · exact restores_pure _

section

variable {eval check : Node → Pass Node}
variable (he : ∀ n, Restores (eval n)) (hc : ∀ n, Restores (check n))

include hc

theorem opens_checkItem (item : Node) : Opens (checkItem check item) := by
  refine (hc item).opens.bind fun ty => ?_
  split
  · exact (restores_placeholder _ _).opens.bind fun _ => (opens_push _).bind fun _ =>
      (restores_pure _).opens
  · exact (restores_pure _).opens

theorem opens_checkItems : ∀ items : List Node, Opens (checkItems check items)
  | [] => (restores_pure _).opens
  | item :: items => (opens_checkItem hc item).bind fun _ => opens_checkItems items

theorem restores_checkSeq (items : List Node) (site : Span) :
    Restores (checkSeq check items site) := by
  unfold checkSeq
  split
  · exact restores_fail _
  · exact ((opens_checkItems hc _).bind fun _ => opens_checkItem hc _).scope

theorem restores_checkItemsAgainst (expected : Node) :
    ∀ items : List Node, Restores (checkItemsAgainst check expected items)
  | [] => restores_pure _
  | item :: items => (hc item).bind fun _ => (restores_expect _ _ _).bind fun _ =>
      restores_checkItemsAgainst expected items

theorem restores_checkList : ∀ items : List Node, Restores (checkList check items)
  | [] => restores_builtin _
  | first :: others => (hc first).bind fun _ =>
      (restores_checkItemsAgainst hc _ others).bind fun _ => restores_builtin _

theorem restores_checkAlias (tag : Tag) (target value : Node) (link : Option DefId) :
    Restores (checkAlias check tag target value link) := by
  unfold checkAlias
  split
  · exact restores_fail _
  · refine restores_env.bind fun env => ?_
    split
    · exact hc value
    · split
      · exact hc value
      · exact restores_fail _

theorem restores_checkDefined (value : Node) : Restores (checkDefined check value) := by
  refine restores_env.bind fun env => ?_
  split
  · exact restores_throw _
  · exact (hc value).under (Guard.lawful_call value)

theorem restores_checkIdent (tag : Tag) (name : Name) : Restores (checkIdent check tag name) := by
  refine restores_env.bind fun env => ?_
  split
  · exact restores_fail _
  · refine (restores_valueOf _).bind fun value => Restores.under ?_ Guard.lawful_globals
    split
    · split
      · exact hc value
      · exact restores_checkDefined hc value
    · exact hc value

theorem restores_checkOperand (op : Operator) (operand : Node) :
    Restores (checkOperand check op operand) := by
  refine (hc operand).bind fun ty => ?_
  split
  · exact restores_pure _
  · exact restores_fail _

theorem restores_expectBool (condition : Node) : Restores (expectBool check condition) := by
  refine (hc condition).bind fun ty => ?_
  split
  · exact restores_pure _
  · exact restores_fail _

theorem restores_checkIf (tag : Tag) (condition : Node) (thenBody elseBody : List Node) :
    Restores (checkIf check tag condition thenBody elseBody) :=
  (restores_expectBool hc condition).bind fun _ =>
    (restores_checkSeq hc thenBody _).attempt.bind fun _ =>
      (restores_checkSeq hc elseBody _).attempt.bind fun _ => restores_join _ _

theorem restores_checkCase (scrutineeType : Node) (c : Case Node) :
    Restores (checkCase check scrutineeType c) := by
  have hbody : Restores (do
      let ty ← attempt (checkSeq check c.body c.span)
      return (ty, bodySite c.body c.span) : Pass (Except Fault Node × Span)) :=
    (restores_checkSeq hc _ _).attempt.bind fun _ => restores_pure _
  unfold checkCase
  split
  · exact (hc _).bind fun _ => (restores_expect _ _ _).bind fun _ => hbody
  · exact hbody

theorem restores_checkMatch (tag : Tag) (scrutinee : Node) (cases : List (Case Node)) :
    Restores (checkMatch check tag scrutinee cases) :=
  (hc scrutinee).bind fun _ => (Restores.mapM (restores_checkCase hc _) cases).bind fun _ =>
    restores_join _ _

include he

theorem restores_denoted (ty : Node) : Restores (denoted eval check ty) :=
  (hc ty).bind fun _ => (he ty).under (Guard.lawful_resolve true)

theorem restores_typeExpr (ty : Node) : Restores (typeExpr eval check ty) := by
  refine (restores_denoted he hc ty).bind fun value => ?_
  split
  · exact restores_pure _
  · exact restores_fail _

theorem restores_declaredType (ty : Node) : Restores (declaredType eval check ty) := by
  refine (restores_denoted he hc ty).bind fun value => ?_
  split
  · exact restores_pure _
  · exact restores_builtin _

theorem restores_checkFieldType (d : Decl Node) : Restores (checkFieldType eval check d) := by
  refine (restores_typeExpr he hc d.ty).attempt.bind fun r => ?_
  split
  · exact restores_pure _
  · exact restores_pure _
  · exact restores_throw _

theorem restores_checkFunc (tag : Tag) (param : Decl Node) (body : List Node) :
    Restores (checkFunc eval check tag param body) := by
  refine restores_env.bind fun env => ?_
  split
  · exact restores_throw _
  · refine (restores_declaredType he hc param.ty).bind fun ty =>
      (restores_placeholder _ _).bind fun value => Restores.bind ?_ fun result =>
        (restores_tagAt _).bind fun _ => restores_pure _
    exact (((restores_checkSeq hc body tag.span).under (Guard.lawful_resolve false)).under
      (Guard.lawful_binding _)).under (Guard.lawful_call _)

theorem restores_checkCall (tag : Tag) (callee arg : Node) :
    Restores (checkCall eval check tag callee arg) := by
  refine (hc callee).bind fun calleeType => (restores_signature calleeType _).bind fun declared =>
    (hc arg).bind fun argType => ((he callee).under (Guard.lawful_resolve true)).bind
      fun function => ?_
  split
  · exact (restores_checkArg _ _ _ _ _).bind fun _ =>
      ((he _).under (Guard.lawful_resolve true)).bind fun result =>
        (restores_placeholder _ _).bind fun value =>
          ((hc result).under (Guard.lawful_binding _)).under (Guard.lawful_call _)
  · exact restores_throw _
  · exact (restores_checkArg _ _ _ _ _).bind fun _ => restores_pure _
  · exact restores_builtin _

theorem restores_checkDot (tag : Tag) (lhs rhs : Node) :
    Restores (checkDot eval check tag lhs rhs) := by
  unfold checkDot
  split
  · exact restores_fail _
  · refine (he lhs).bind fun owner => ?_
    split
    · split
      · exact hc _
      · exact restores_fail _
    · refine (hc lhs).bind fun ownerType => ?_
      split
      · split
        · exact restores_typeExpr he hc _
        · exact restores_fail _
      · exact restores_fail _

theorem restores_checkBinOp (tag : Tag) (op : Operator) (lhs rhs : Node) :
    Restores (checkBinOp eval check tag op lhs rhs) := by
  unfold checkBinOp
  split
  · exact restores_checkDot he hc tag lhs rhs
  · exact (restores_checkOperand hc op lhs).bind fun _ =>
      (restores_checkOperand hc op rhs).bind fun _ => restores_builtin _

omit hc in
theorem restores_checkRange (range : Option Range) (value : Node) :
    Restores (checkRange eval range value) := by
  unfold checkRange
  split
  · exact restores_pure _
  · refine ((he value).under (Guard.lawful_resolve true)).bind fun x => ?_
    split
    · split
      · exact restores_fail _
      · exact restores_pure _
    · exact restores_pure _

theorem restores_checkField (template : Node) (fields : List (Decl Node)) (range : Option Range)
    (item : Node) : Restores (checkField eval check template fields range item) := by
  unfold checkField
  split
  · split
    · exact restores_fail _
    · split
      · exact restores_fail _
      · exact (restores_typeExpr he hc _).bind fun _ => (hc _).bind fun _ =>
          (restores_expect _ _ _).bind fun _ => restores_checkRange he range _
  · exact restores_fail _

theorem restores_checkFields (template : Node) (fields : List (Decl Node)) (range : Option Range) :
    ∀ items : List Node, Restores (checkFields eval check template fields range items)
  | [] => restores_pure _
  | item :: items => (restores_checkField he hc template fields range item).bind fun _ =>
      restores_checkFields template fields range items

theorem restores_checkInst (tag : Tag) (template : Node) (body : List Node) :
    Restores (checkInst eval check tag template body) := by
  refine (restores_typeExpr he hc template).bind fun ty => ?_
  split
  · refine (restores_checkFields he hc _ _ _ body).bind fun _ => ?_
    split
    · exact restores_fail _
    · exact restores_pure _
  · split
    · split
      · exact restores_pure _
      · exact restores_fail _
    · exact restores_fail _
  · exact restores_fail _

/-- A step of checking restores the environment if evaluating and checking the parts does. -/
theorem restores_step (n : Node) : Restores (step eval check n) := by
  cases n with
  | lit | enum | builtin | unknown => exact restores_builtin _
  | list tag items => exact restores_checkList hc items
  | record tag id fields range =>
    exact (Restores.forM (restores_checkFieldType he hc) fields).bind fun _ => restores_builtin _
  | fnType tag id dom cod =>
    exact (restores_typeExpr he hc dom).bind fun _ => (restores_typeExpr he hc cod).bind fun _ =>
      restores_builtin _
  | selfType tag ty => exact restores_pure _
  | arg tag name ty | field tag name ty => exact restores_typeExpr he hc ty
  | assign tag target value transparent link => exact restores_checkAlias hc tag target value link
  | ident tag name => exact restores_checkIdent hc tag name
  | func tag param body => exact restores_checkFunc he hc tag param body
  | call tag callee arg => exact restores_checkCall he hc tag callee arg
  | binOp tag op lhs rhs => exact restores_checkBinOp he hc tag op lhs rhs
  | matchOn tag scrutinee cases => exact restores_checkMatch hc tag scrutinee cases
  | whileDo tag condition body =>
    exact (restores_expectBool hc condition).bind fun _ => restores_checkSeq hc body _
  | ifElse tag condition thenBody elseBody => exact restores_checkIf hc tag condition thenBody elseBody
  | block tag items => exact restores_checkSeq hc items _
  | inst tag template body => exact restores_checkInst he hc tag template body

end

end Check

theorem restores_check : ∀ (depth : Nat) (n : Node), Restores (check depth n)
  | 0, _ => restores_throw _
  | depth + 1, n => Check.restores_step (restores_eval depth) (restores_check depth) n

/-! ## Whole runs -/

/-- Whatever the machine that a run starts on, and however it ends, the run leaves the environment as
it was: every local binding with its value, its transparency and its other name, in order; the calls;
the two modes; the definitions; and the links of aliases. -/
theorem run_leaves_env (depth : Nat) (s : Machine) :
    (∀ n, ((eval depth n).runOn s).2.env = s.env) ∧
    (∀ n, ((check depth n).runOn s).2.env = s.env) ∧
    (∀ ty, ((typeExpr depth ty).runOn s).2.env = s.env) ∧
    (∀ items, ((evalSeq depth items).runOn s).2.env = s.env) ∧
    (∀ items site, ((checkSeq depth items site).runOn s).2.env = s.env) :=
  ⟨fun n => (restores_eval depth n s).1, fun n => (restores_check depth n s).1,
    fun ty => (Check.restores_typeExpr (restores_eval depth) (restores_check depth) ty s).1,
    fun items => (Eval.restores_evalSeq (restores_eval depth) items s).1,
    fun items site => (Check.restores_checkSeq (restores_check depth) items site s).1⟩

end Residual
