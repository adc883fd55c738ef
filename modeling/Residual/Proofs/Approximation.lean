/-
More depth does not change how a run ends. A pass `Approximates` another one if, unless it is
exhausted, the other one ends the same way and leaves the same machine. A step of evaluation or of
checking, with what works on the parts replaced by what it approximates, approximates the new step,
so whatever a run ends with at some depth, it ends with at every greater depth.
-/
import Residual.Proofs.Pass

namespace Residual

namespace Pass

variable {α β : Type}

/-- Unless the first pass is exhausted, the second one does the same. -/
def Approximates (m m' : Pass α) : Prop :=
  ∀ s, (m.runOn s).1 ≠ .error .exhausted → m'.runOn s = m.runOn s

theorem Approximates.runOn_ok {m m' : Pass α} (h : Approximates m m') {s t : Machine} {a : α}
    (hrun : m.runOn s = (.ok a, t)) : m'.runOn s = (.ok a, t) := by
  have hok : (m.runOn s).1 ≠ .error .exhausted := by
    rw [hrun]
    rintro ⟨⟩
  rw [h s hok, hrun]

theorem approximates_refl (m : Pass α) : Approximates m m := fun _ _ => rfl

theorem approximates_provided (p : Machine → Bool) (m : Pass α) :
    Approximates (m.provided p) m := fun s hs => by
  rcases runOn_provided p m s with ⟨hrun, -⟩ | hrun
  · exact hrun.symm
  · rw [hrun] at hs
    exact absurd rfl hs

theorem approximates_exhausted (m : Pass α) : Approximates (throw .exhausted) m :=
  fun _ h => absurd rfl h

theorem Approximates.trans {m m' m'' : Pass α} (h : Approximates m m') (h' : Approximates m' m'') :
    Approximates m m'' := fun s hs => by
  have heq := h s hs
  rw [← heq] at hs ⊢
  exact h' s hs

theorem Approximates.bind {m m' : Pass α} {f f' : α → Pass β} (hm : Approximates m m')
    (hf : ∀ a, Approximates (f a) (f' a)) : Approximates (m >>= f) (m' >>= f') := fun s hs => by
  rw [runOn_bind] at hs ⊢
  rw [runOn_bind]
  cases hr : m.runOn s with
  | mk r t =>
    rw [hr] at hs
    cases r with
    | error e =>
      have he : (.error e : Except Fault α) ≠ .error .exhausted := fun h => hs (by cases h; rfl)
      rw [hm s (by rw [hr]; exact he), hr]
    | ok a =>
      rw [hm s (by rw [hr]; simp), hr]
      exact hf a t hs

theorem Approximates.map {m m' : Pass α} (f : α → β) (hm : Approximates m m') :
    Approximates (f <$> m) (f <$> m') := by
  rw [map_eq_pure_bind, map_eq_pure_bind]
  exact hm.bind fun _ => approximates_refl _

theorem Approximates.under {g : Guard} {m m' : Pass α} (hm : Approximates m m') :
    Approximates (m.under g) (m'.under g) := fun s hs => by
  rw [runOn_under, runOn_under, hm ⟨g.enter s.env, s.nodes⟩ hs]

theorem Approximates.attempt {m m' : Pass α} (hm : Approximates m m') :
    Approximates m.attempt m'.attempt := fun s hs => by
  rw [runOn_attempt] at hs
  rw [runOn_attempt, runOn_attempt]
  cases hr : m.runOn s with
  | mk r t =>
    rw [hr] at hs
    rw [hm s (by rw [hr]; rintro ⟨⟩; exact hs rfl), hr]

theorem Approximates.mapM {f f' : α → Pass β} (hf : ∀ a, Approximates (f a) (f' a)) :
    ∀ as : List α, Approximates (as.mapM f) (as.mapM f')
  | [] => by
    rw [List.mapM_nil, List.mapM_nil]
    exact approximates_refl _
  | a :: as => by
    rw [List.mapM_cons, List.mapM_cons]
    exact (hf a).bind fun _ => (Approximates.mapM hf as).bind fun _ => approximates_refl _

end Pass

open Pass

namespace Eval

variable {eval eval' : Node → Pass Node} (h : ∀ n, Approximates (eval n) (eval' n))

include h

theorem approximates_evalSeq (items : List Node) :
    Approximates (evalSeq eval items) (evalSeq eval' items) :=
  (Approximates.mapM (fun item => (h item).bind fun _ => approximates_refl _) items).under

theorem approximates_evalType (ty : Node) : Approximates (evalType eval ty) (evalType eval' ty) :=
  (h ty).under

theorem approximates_evalDecl (d : Decl Node) :
    Approximates (evalDecl eval d) (evalDecl eval' d) :=
  (approximates_evalType h d.ty).bind fun _ => approximates_refl _

/-- The value of a sequence. -/
theorem approximates_value (items : List Node) (site : Span) :
    Approximates (evalSeq eval items >>= (seqValue · site))
      (evalSeq eval' items >>= (seqValue · site)) :=
  (approximates_evalSeq h items).bind fun _ => approximates_refl _

theorem approximates_evalFunc (tag : Tag) (param : Decl Node) (body : List Node) :
    Approximates (evalFunc eval tag param body) (evalFunc eval' tag param body) :=
  (approximates_evalType h param.ty).bind fun _ => (approximates_refl _).bind fun _ =>
    (approximates_refl _).bind fun _ => (approximates_evalSeq h body).under.under.bind fun _ =>
      approximates_refl _

theorem approximates_apply (callee : Node) (param : Decl Node) (body : List Node) (arg : Node)
    (site : Span) :
    Approximates (apply eval callee param body arg site) (apply eval' callee param body arg site) :=
  (approximates_value h body site).under.under.under

theorem approximates_unfoldCall (env : Env) (function value : Node) (site : Span) :
    Approximates (unfoldCall eval env function value site)
      (unfoldCall eval' env function value site) := by
  unfold unfoldCall
  split
  · split
    · exact (approximates_apply h _ _ _ _ _).map some
    · exact approximates_refl _
  · exact approximates_refl _

theorem approximates_evalCall (tag : Tag) (callee arg : Node) :
    Approximates (evalCall eval tag callee arg) (evalCall eval' tag callee arg) :=
  (approximates_evalType h callee).bind fun function => (h arg).bind fun value =>
    (approximates_refl _).bind fun env =>
      (approximates_unfoldCall h env function value tag.span).bind fun _ => approximates_refl _

theorem approximates_evalBinOp (tag : Tag) (op : Operator) (lhs rhs : Node) :
    Approximates (evalBinOp eval tag op lhs rhs) (evalBinOp eval' tag op lhs rhs) := by
  unfold evalBinOp
  split
  · exact (h lhs).bind fun _ => approximates_refl _
  · exact (h lhs).bind fun _ => (h rhs).bind fun _ => approximates_refl _

theorem approximates_evalIf (tag : Tag) (condition : Node) (thenBody elseBody : List Node) :
    Approximates (evalIf eval tag condition thenBody elseBody)
      (evalIf eval' tag condition thenBody elseBody) := by
  refine (h condition).bind fun condition => ?_
  split
  · exact approximates_value h _ _
  · exact (approximates_evalSeq h _).bind fun _ => (approximates_evalSeq h _).bind fun _ =>
      approximates_refl _

theorem approximates_isMatch (pattern scrutinee : Node) :
    Approximates (isMatch eval pattern scrutinee) (isMatch eval' pattern scrutinee) := by
  unfold isMatch
  split
  · exact approximates_refl _
  · exact (approximates_refl _).bind fun _ => (h pattern).bind fun _ => approximates_refl _

theorem approximates_evalCases (scrutinee : Node) (site : Span) : ∀ cases : List (Case Node),
    Approximates (evalCases eval scrutinee site cases) (evalCases eval' scrutinee site cases)
  | [] => approximates_refl _
  | c :: cs => by
    refine (approximates_isMatch h c.pattern scrutinee).bind fun hit => ?_
    split
    · exact approximates_value h _ _
    · exact approximates_evalCases scrutinee site cs

theorem approximates_evalCase (c : Case Node) :
    Approximates (evalCase eval c) (evalCase eval' c) := by
  unfold evalCase
  split
  · exact (approximates_refl _).bind fun _ => (approximates_evalSeq h _).bind fun _ =>
      approximates_refl _
  · exact (h _).bind fun _ => (approximates_evalSeq h _).bind fun _ => approximates_refl _

theorem approximates_evalMatch (tag : Tag) (scrutinee : Node) (cases : List (Case Node)) :
    Approximates (evalMatch eval tag scrutinee cases) (evalMatch eval' tag scrutinee cases) := by
  refine (h scrutinee).bind fun scrutinee => ?_
  split
  · exact approximates_evalCases h scrutinee tag.span cases
  · exact (Approximates.mapM (approximates_evalCase h) cases).bind fun _ => approximates_refl _

theorem approximates_evalField (item : Node) :
    Approximates (evalField eval item) (evalField eval' item) := by
  unfold evalField
  split
  · exact approximates_refl _
  · exact h item

/-- A step approximates a step if the evaluation of the parts does. -/
theorem approximates_step (n : Node) : Approximates (step eval n) (step eval' n) := by
  cases n with
  | lit | builtin | enum | unknown => exact approximates_refl _
  | ident => exact approximates_refl _
  | list tag items => exact (Approximates.mapM h items).bind fun _ => approximates_refl _
  | record tag id fields range =>
    exact (Approximates.mapM (approximates_evalDecl h) fields).bind fun _ => approximates_refl _
  | fnType tag id dom cod =>
    exact (approximates_evalType h dom).bind fun _ => (approximates_evalType h cod).bind fun _ =>
      approximates_refl _
  | selfType tag ty | arg tag name ty | field tag name ty =>
    exact (approximates_evalType h ty).bind fun _ => approximates_refl _
  | assign tag target value transparent link => exact (h value).bind fun _ => approximates_refl _
  | func tag param body => exact approximates_evalFunc h tag param body
  | call tag callee arg => exact approximates_evalCall h tag callee arg
  | binOp tag op lhs rhs => exact approximates_evalBinOp h tag op lhs rhs
  | matchOn tag scrutinee cases => exact approximates_evalMatch h tag scrutinee cases
  | whileDo tag condition body =>
    exact (h condition).bind fun _ => (approximates_evalSeq h body).bind fun _ =>
      approximates_refl _
  | ifElse tag condition thenBody elseBody =>
    exact approximates_evalIf h tag condition thenBody elseBody
  | block tag items => exact approximates_value h items _
  | inst tag template body =>
    exact (approximates_evalType h template).bind fun _ =>
      (Approximates.mapM (approximates_evalField h) body).bind fun _ => approximates_refl _

end Eval

/-- However a run ends at some depth, if it is not for want of depth, it ends so at every greater
depth. -/
theorem approximates_eval : ∀ {depth depth' : Nat}, depth ≤ depth' → ∀ n : Node,
    Approximates (eval depth n) (eval depth' n)
  | 0, _, _, _ => approximates_exhausted _
  | _ + 1, _ + 1, h, n =>
    Eval.approximates_step (approximates_eval (Nat.le_of_succ_le_succ h)) n

/-! ## The checker -/

namespace Check

variable {eval eval' check check' : Node → Pass Node}
variable (he : ∀ n, Approximates (eval n) (eval' n)) (hc : ∀ n, Approximates (check n) (check' n))

include hc

theorem approximates_checkItem (item : Node) :
    Approximates (checkItem check item) (checkItem check' item) :=
  (hc item).bind fun _ => approximates_refl _

theorem approximates_checkItems : ∀ items : List Node,
    Approximates (checkItems check items) (checkItems check' items)
  | [] => approximates_refl _
  | item :: items => (approximates_checkItem hc item).bind fun _ => approximates_checkItems items

theorem approximates_checkSeq (items : List Node) (site : Span) :
    Approximates (checkSeq check items site) (checkSeq check' items site) := by
  unfold checkSeq
  split
  · exact approximates_refl _
  · exact ((approximates_checkItems hc _).bind fun _ => approximates_checkItem hc _).under

theorem approximates_checkItemsAgainst (expected : Node) : ∀ items : List Node,
    Approximates (checkItemsAgainst check expected items) (checkItemsAgainst check' expected items)
  | [] => approximates_refl _
  | item :: items => (hc item).bind fun _ => (approximates_refl _).bind fun _ =>
      approximates_checkItemsAgainst expected items

theorem approximates_checkList : ∀ items : List Node,
    Approximates (checkList check items) (checkList check' items)
  | [] => approximates_refl _
  | first :: others => (hc first).bind fun _ =>
      (approximates_checkItemsAgainst hc _ others).bind fun _ => approximates_refl _

theorem approximates_checkAlias (tag : Tag) (target value : Node) (link : Option DefId) :
    Approximates (checkAlias check tag target value link)
      (checkAlias check' tag target value link) := by
  unfold checkAlias
  split
  · exact approximates_refl _
  · refine (approximates_refl _).bind fun env => ?_
    split
    · exact hc value
    · split
      · exact hc value
      · exact approximates_refl _

theorem approximates_checkDefined (value : Node) :
    Approximates (checkDefined check value) (checkDefined check' value) := by
  refine (approximates_refl _).bind fun env => ?_
  split
  · exact approximates_refl _
  · exact (hc value).under

theorem approximates_checkIdent (tag : Tag) (name : Name) :
    Approximates (checkIdent check tag name) (checkIdent check' tag name) := by
  refine (approximates_refl _).bind fun env => ?_
  split
  · exact approximates_refl _
  · refine (approximates_refl _).bind fun value => Approximates.under ?_
    split
    · split
      · exact hc value
      · exact approximates_checkDefined hc value
    · exact hc value

theorem approximates_checkOperand (op : Operator) (operand : Node) :
    Approximates (checkOperand check op operand) (checkOperand check' op operand) :=
  (hc operand).bind fun _ => approximates_refl _

theorem approximates_expectBool (condition : Node) :
    Approximates (expectBool check condition) (expectBool check' condition) :=
  (hc condition).bind fun _ => approximates_refl _

theorem approximates_checkIf (tag : Tag) (condition : Node) (thenBody elseBody : List Node) :
    Approximates (checkIf check tag condition thenBody elseBody)
      (checkIf check' tag condition thenBody elseBody) :=
  (approximates_expectBool hc condition).bind fun _ =>
    (approximates_checkSeq hc thenBody _).attempt.bind fun _ =>
      (approximates_checkSeq hc elseBody _).attempt.bind fun _ => approximates_refl _

theorem approximates_checkCase (scrutineeType : Node) (c : Case Node) :
    Approximates (checkCase check scrutineeType c) (checkCase check' scrutineeType c) := by
  unfold checkCase
  split
  · exact (hc _).bind fun _ => (approximates_refl _).bind fun _ =>
      (approximates_checkSeq hc _ _).attempt.bind fun _ => approximates_refl _
  · exact (approximates_checkSeq hc _ _).attempt.bind fun _ => approximates_refl _

theorem approximates_checkMatch (tag : Tag) (scrutinee : Node) (cases : List (Case Node)) :
    Approximates (checkMatch check tag scrutinee cases) (checkMatch check' tag scrutinee cases) :=
  (hc scrutinee).bind fun _ => (Approximates.mapM (approximates_checkCase hc _) cases).bind fun _ =>
    approximates_refl _

include he

theorem approximates_denoted (ty : Node) :
    Approximates (denoted eval check ty) (denoted eval' check' ty) :=
  (hc ty).bind fun _ => (he ty).under

theorem approximates_typeExpr (ty : Node) :
    Approximates (typeExpr eval check ty) (typeExpr eval' check' ty) :=
  (approximates_denoted he hc ty).bind fun _ => approximates_refl _

theorem approximates_declaredType (ty : Node) :
    Approximates (declaredType eval check ty) (declaredType eval' check' ty) :=
  (approximates_denoted he hc ty).bind fun _ => approximates_refl _

theorem approximates_checkFieldType (d : Decl Node) :
    Approximates (checkFieldType eval check d) (checkFieldType eval' check' d) :=
  (approximates_typeExpr he hc d.ty).attempt.bind fun _ => approximates_refl _

theorem approximates_checkFieldTypes : ∀ fields : List (Decl Node),
    Approximates (fields.forM (checkFieldType eval check)) (fields.forM (checkFieldType eval' check'))
  | [] => approximates_refl _
  | d :: ds => (approximates_checkFieldType he hc d).bind fun _ => approximates_checkFieldTypes ds

theorem approximates_checkFunc (tag : Tag) (param : Decl Node) (body : List Node) :
    Approximates (checkFunc eval check tag param body) (checkFunc eval' check' tag param body) := by
  refine (approximates_refl _).bind fun env => ?_
  split
  · exact approximates_refl _
  · exact (approximates_declaredType he hc param.ty).bind fun _ => (approximates_refl _).bind fun _ =>
      (approximates_checkSeq hc body _).under.under.under.bind fun _ => approximates_refl _

theorem approximates_checkCall (tag : Tag) (callee arg : Node) :
    Approximates (checkCall eval check tag callee arg) (checkCall eval' check' tag callee arg) := by
  refine (hc callee).bind fun calleeType => (approximates_refl _).bind fun declared =>
    (hc arg).bind fun argType => (he callee).under.bind fun function => ?_
  split
  · exact (approximates_refl _).bind fun _ => (he _).under.bind fun result =>
      (approximates_refl _).bind fun _ => (hc result).under.under
  · exact approximates_refl _
  · exact approximates_refl _
  · exact approximates_refl _

theorem approximates_checkDot (tag : Tag) (lhs rhs : Node) :
    Approximates (checkDot eval check tag lhs rhs) (checkDot eval' check' tag lhs rhs) := by
  unfold checkDot
  split
  · exact approximates_refl _
  · refine (he lhs).bind fun owner => ?_
    split
    · split
      · exact hc _
      · exact approximates_refl _
    · refine (hc lhs).bind fun ownerType => ?_
      split
      · split
        · exact approximates_typeExpr he hc _
        · exact approximates_refl _
      · exact approximates_refl _

theorem approximates_checkBinOp (tag : Tag) (op : Operator) (lhs rhs : Node) :
    Approximates (checkBinOp eval check tag op lhs rhs) (checkBinOp eval' check' tag op lhs rhs) := by
  unfold checkBinOp
  split
  · exact approximates_checkDot he hc tag lhs rhs
  · exact (approximates_checkOperand hc op lhs).bind fun _ =>
      (approximates_checkOperand hc op rhs).bind fun _ => approximates_refl _

omit hc in
theorem approximates_checkRange (range : Option Range) (value : Node) :
    Approximates (checkRange eval range value) (checkRange eval' range value) := by
  unfold checkRange
  split
  · exact approximates_refl _
  · exact (he value).under.bind fun _ => approximates_refl _

theorem approximates_checkField (template : Node) (fields : List (Decl Node))
    (range : Option Range) (item : Node) :
    Approximates (checkField eval check template fields range item)
      (checkField eval' check' template fields range item) := by
  unfold checkField
  split
  · split
    · exact approximates_refl _
    · split
      · exact approximates_refl _
      · exact (approximates_typeExpr he hc _).bind fun _ => (hc _).bind fun _ =>
          (approximates_refl _).bind fun _ => approximates_checkRange he range _
  · exact approximates_refl _

theorem approximates_checkFields (template : Node) (fields : List (Decl Node))
    (range : Option Range) : ∀ items : List Node,
    Approximates (checkFields eval check template fields range items)
      (checkFields eval' check' template fields range items)
  | [] => approximates_refl _
  | item :: items => (approximates_checkField he hc template fields range item).bind fun _ =>
      approximates_checkFields template fields range items

theorem approximates_checkInst (tag : Tag) (template : Node) (body : List Node) :
    Approximates (checkInst eval check tag template body)
      (checkInst eval' check' tag template body) := by
  refine (approximates_typeExpr he hc template).bind fun ty => ?_
  split
  · exact (approximates_checkFields he hc _ _ _ body).bind fun _ => approximates_refl _
  · exact approximates_refl _
  · exact approximates_refl _

/-- A step approximates a step if the evaluation and the checking of the parts do. -/
theorem approximates_step (n : Node) : Approximates (step eval check n) (step eval' check' n) := by
  cases n with
  | lit | enum | builtin | selfType | unknown => exact approximates_refl _
  | list tag items => exact approximates_checkList hc items
  | record tag id fields range =>
    exact (approximates_checkFieldTypes he hc fields).bind fun _ => approximates_refl _
  | fnType tag id dom cod =>
    exact (approximates_typeExpr he hc dom).bind fun _ =>
      (approximates_typeExpr he hc cod).bind fun _ => approximates_refl _
  | arg tag name ty | field tag name ty => exact approximates_typeExpr he hc ty
  | assign tag target value transparent link =>
    exact approximates_checkAlias hc tag target value link
  | ident tag name => exact approximates_checkIdent hc tag name
  | func tag param body => exact approximates_checkFunc he hc tag param body
  | call tag callee arg => exact approximates_checkCall he hc tag callee arg
  | binOp tag op lhs rhs => exact approximates_checkBinOp he hc tag op lhs rhs
  | matchOn tag scrutinee cases => exact approximates_checkMatch hc tag scrutinee cases
  | whileDo tag condition body =>
    exact (approximates_expectBool hc condition).bind fun _ => approximates_checkSeq hc body _
  | ifElse tag condition thenBody elseBody =>
    exact approximates_checkIf hc tag condition thenBody elseBody
  | block tag items => exact approximates_checkSeq hc items _
  | inst tag template body => exact approximates_checkInst he hc tag template body

end Check

theorem approximates_check : ∀ {depth depth' : Nat}, depth ≤ depth' → ∀ n : Node,
    Approximates (check depth n) (check depth' n)
  | 0, _, _, _ => approximates_exhausted _
  | _ + 1, _ + 1, h, n =>
    Check.approximates_step (approximates_eval (Nat.le_of_succ_le_succ h))
      (approximates_check (Nat.le_of_succ_le_succ h)) n

/-- A run that ends with an ordinary fault has no result at any depth. -/
theorem check_fails {n : Node} {s : Machine} {depth : Nat} {f : Fault}
    (h : ((check depth n).runOn s).1 = .error f) (hf : f.isOrdinary = true) (depth' : Nat) :
    ((check depth' n).runOn s).1.isOk = false := by
  have hne : ((check depth n).runOn s).1 ≠ .error .exhausted := by
    rw [h]
    rintro ⟨⟩
    cases hf
  rcases Nat.le_total depth depth' with hle | hle
  · rw [approximates_check hle n s hne, h]
    rfl
  · by_cases hexhausted : ((check depth' n).runOn s).1 = .error .exhausted
    · rw [hexhausted]
      rfl
    · rw [← approximates_check hle n s hexhausted, h]
      rfl

end Residual
