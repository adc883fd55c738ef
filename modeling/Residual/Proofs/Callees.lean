/-
Callees that are no functions. The checker learns the type of a callee and evaluates it on its own, so
a callee may turn out to be a function although its type is `Function` or `Any`: its type is that of the
first arm of a branch, or that of a field which has not been looked up, or of a value that has been known
by its type alone.

A callee is inert if this cannot happen. It takes its value from a local name, of which the checker knows
nothing but the type. Or it has a type that is no function type and is no branch, sequence or field of a
record, so that the checker has come by its type through what it evaluates to. Or it is a branch with
arms of one node, all of which are inert. `cautious` is the checker that gives up at a call whose callee
has no function type and is not inert.
-/
import Residual.Proofs.Age
import Residual.Proofs.Layers

namespace Residual

def Node.isFnType : Node → Bool
  | fnType .. => true
  | _ => false

def Node.isInst : Node → Bool
  | inst .. => true
  | _ => false

/-- The access to a field. -/
def Node.isDot : Node → Bool
  | binOp _ .dot .. => true
  | _ => false

/-- Nodes that are evaluated to the value of one of their parts. -/
def Node.isBranch : Node → Bool
  | block .. | ifElse .. | matchOn .. => true
  | _ => false

/-- Nodes that are evaluated to a node of their own kind, or to a literal. -/
def Node.isFixed : Node → Bool
  | ident .. | func .. | call .. | binOp _ .dot .. | block .. | ifElse .. | matchOn .. => false
  | _ => true

def Node.callee? : Node → Option Node
  | call _ callee _ => some callee
  | _ => none

/-! ## Checking cautiously -/

namespace Check

/-- Whether the node takes its value from a local name: it is the name, a field of such a node, or the
result of calling one. -/
def isRooted (locals : Locals) : Node → Bool
  | .ident _ x => locals.contains x
  | .binOp _ .dot lhs _ => isRooted locals lhs
  | .call _ callee _ => isRooted locals callee
  | _ => false

/-- Whether the node has a type that is no function type. -/
def hasOtherType (check : Node → Pass Node) (s : Machine) (n : Node) : Bool :=
  match ((check n).runOn s).1 with
  | .ok ty => !ty.isFnType
  | .error _ => false

mutual

/-- Whether the node cannot turn out to be a function. -/
def isInert (check : Node → Pass Node) (s : Machine) : Node → Bool
  | .block _ items => isInertBody check s items
  | .ifElse _ _ thenBody elseBody =>
    isInertBody check s thenBody && isInertBody check s elseBody
  | .matchOn _ _ cases => areInertCases check s cases
  | n => isRooted s.env.locals n || ((s.env.resolve || !n.isDot) && hasOtherType check s n)

def isInertBody (check : Node → Pass Node) (s : Machine) : List Node → Bool
  | [] => false
  | n :: ns => isInert check s n && ns.isEmpty

def isInertCase (check : Node → Pass Node) (s : Machine) : Case Node → Bool
  | ⟨_, _, body⟩ => isInertBody check s body

def areInertCases (check : Node → Pass Node) (s : Machine) : List (Case Node) → Bool
  | [] => true
  | c :: cs => isInertCase check s c && areInertCases check s cs

end

/-- Whether the callee has a function type or is inert. A callee without a type ends the call. -/
def isSafeCallee (check : Node → Pass Node) (s : Machine) (callee : Node) : Bool :=
  match ((check callee).runOn s).1 with
  | .ok ty => ty.isFnType || isInert check s callee
  | .error _ => true

/-- A step of checking that gives up at a call whose callee may turn out to be a function against its
type. -/
def heed (eval check : Node → Pass Node) (n : Node) : Pass Node :=
  (step eval check n).provided fun s => n.callee?.all (isSafeCallee check s)

end Check

/-- The checker that gives up at a call whose callee may turn out to be a function against its type. -/
def cautious : (depth : Nat) → Node → Pass Node
  | 0, _ => throw .exhausted
  | depth + 1, n => Check.heed (eval depth) (cautious depth) n

open Pass

theorem Check.runOn_heed (ev ck : Node → Pass Node) (n : Node) (s : Machine) :
    (heed ev ck n).runOn s = (step ev ck n).runOn s ∧ n.callee?.all (isSafeCallee ck s) = true ∨
      (heed ev ck n).runOn s = (.error .exhausted, s) := runOn_provided _ _ s

theorem restores_cautious : ∀ (depth : Nat) (n : Node), Restores (cautious depth n)
  | 0, _ => restores_throw _
  | depth + 1, n =>
    (Check.restores_step (restores_eval depth) (restores_cautious depth) n).provided _

/-- Where it does not give up, the cautious checker does what the checker does. -/
theorem approximates_cautious : ∀ (depth : Nat) (n : Node),
    Approximates (cautious depth n) (check depth n)
  | 0, _ => approximates_exhausted _
  | depth + 1, n => (approximates_provided _ _).trans
    (Check.approximates_step (fun n => approximates_refl (eval depth n))
      (approximates_cautious depth) n)

/-- A machine's environment as the checker makes it: of local names only the types are known. -/
structure Env.Ready (c : Nat) (env : Env) : Prop where
  older : env.Older c
  placeholders : ∀ b ∈ env.locals.bindings, b.value.isPlaceholder = true

namespace Callees

/-- Evaluating the node does not give a function. -/
def Denies (env : Env) (c : Nat) (n : Node) : Prop :=
  ∀ depth, Settles AnyFault env c (eval depth n) fun _ v => v.isFunc = false

variable {env : Env} {c : Nat} {n : Node}

/-! ## Names -/

theorem unfoldCall_of_not_isFunc {ev : Node → Pass Node} {function : Node}
    (h : function.isFunc = false) (env : Env) (value : Node) (site : Span) :
    Eval.unfoldCall ev env function value site = pure none := by
  cases function with
  | func => cases h
  | _ => rfl

/-- A call of what is no function stays. -/
theorem settles_evalCall_stays {ev : Node → Pass Node} (he : ∀ n, Restores (ev n)) {tag : Tag}
    {callee arg : Node}
    (h : Settles AnyFault { env with resolve := true } c (ev callee) fun _ v => v.isFunc = false) :
    Settles AnyFault env c (Eval.evalCall ev tag callee arg)
      fun _ v => v.isFunc = false ∧ v.isInst = false := by
  have hcallee : Settles AnyFault env c (Eval.evalType ev callee) fun _ v => v.isFunc = false :=
    Settles.under (g := .resolve true) h (Guard.lawful_resolve true)
  refine hcallee.bind fun c₁ function _ hfunction => (he arg).settles_bind fun c₂ value _ => ?_
  refine settles_env.bind fun c₃ e _ he => ?_
  rw [unfoldCall_of_not_isFunc hfunction, pure_bind]
  have hkept : Settles AnyFault env c₃ (do
      let kept ← Eval.keptCallee e callee function
      return Node.call (← tagAt tag.span) kept value)
        fun _ v => v.isFunc = false ∧ v.isInst = false :=
    (Eval.restores_keptCallee e callee function).settles_bind fun _ _ _ =>
      settles_made _ fun _ _ => ⟨rfl, rfl⟩
  cases e.resolve <;> exact hkept

/-- The value of a local name is not known, and so are its fields and its results. -/
theorem settles_eval_rooted (depth : Nat) : ∀ (n : Node) (env : Env),
    (∀ b ∈ env.locals.bindings, b.value.isPlaceholder = true) →
    Check.isRooted env.locals n = true → Settles AnyFault env c (eval depth n)
      fun _ v => v.isFunc = false ∧ v.isInst = false := by
  induction depth with
  | zero => exact fun _ _ _ _ => settles_throw trivial
  | succ depth ih =>
    intro n env henv h
    cases n with
    | ident tag x =>
      obtain ⟨b, hb⟩ := Option.isSome_iff_exists.1 h
      have hlookup := Env.lookup_bound hb
      have hvalue := henv b (Env.mem_of_lookup_bound hlookup).1
      refine settles_env.bind ?_
      rintro c₁ e _ rfl
      simp only [hlookup, Found.isPlaceholder, hvalue, Bool.not_true, Bool.false_and,
        Bool.false_eq_true, if_false]
      split
      · exact settles_made _ fun _ _ => ⟨rfl, rfl⟩
      · exact settles_pure fun _ _ => ⟨rfl, rfl⟩
    | binOp tag op lhs rhs =>
      cases op with
      | dot =>
        -- the owner is rooted, so it is no instance and the field is not looked up
        refine Settles.bind (ih lhs env henv h) fun c₁ owner _ howner => ?_
        split
        · cases howner.2
        · exact settles_made _ fun _ _ => ⟨rfl, rfl⟩
      | _ => cases h
    | call tag callee arg =>
      -- the callee is rooted, so it is no function and the call is not unfolded
      refine settles_evalCall_stays (restores_eval depth) ?_
      exact (ih callee { env with resolve := true } henv h).mono fun _ _ hv => hv.1
    | _ => cases h

theorem settles_evalIdent {tag : Tag} {x : Name}
    (h : ∀ found, env.lookup x = some found → found.isPlaceholder = true ∨
      ∀ c', Settles AnyFault env c' (valueOf found) fun _ v => v.isFunc = false) :
    Settles AnyFault env c (Eval.evalIdent tag x) fun _ v => v.isFunc = false := by
  refine settles_env.bind ?_
  rintro c₁ e _ rfl
  cases hfound : e.lookup x with
  | none => exact settles_fail trivial
  | some found =>
    by_cases hput : (!found.isPlaceholder && (e.resolve || found.isTransparent)) = true
    · simp only [hput, if_true]
      rcases h found hfound with hplaceholder | hvalue
      · rw [hplaceholder] at hput
        cases hput
      · exact hvalue c₁
    · simp only [hput, Bool.false_eq_true, if_false]
      split
      · exact settles_made _ fun _ _ => rfl
      · exact settles_pure fun _ _ => rfl

/-! ## Branches -/

theorem tracks_bindLocal {v : Node} (h : v.isFunc = false) :
    Tracks AnyFault env c (Eval.bindLocal v) fun _ v _ => v.isFunc = false := by
  unfold Eval.bindLocal
  split
  · refine Tracks.bind settles_env fun c₁ e _ _ _ => Tracks.bind tracks_push fun c₂ _ _ _ _ => ?_
    split
    · refine Tracks.bind (settles_tagAt _) fun _ _ _ _ _ => Tracks.bind (settles_tagAt _) ?_
      exact fun _ _ _ _ _ => tracks_pure fun _ _ => rfl
    · exact tracks_pure fun _ _ => h
  · exact tracks_pure fun _ _ => h

section

variable (hresolve : env.resolve = true)

include hresolve

/-- A sequence of one node is that node. -/
theorem settles_evalSeq_single (h : Denies env c n) (depth : Nat) (site : Span) :
    Settles AnyFault env c (Eval.evalSeq (eval depth) [n] >>= (Eval.seqValue · site))
      fun _ v => v.isFunc = false := by
  have hseq : Settles AnyFault env c (Eval.evalSeq (eval depth) [n])
      fun _ items => ∃ v, items = [v] ∧ v.isFunc = false := by
    refine Tracks.scope ?_ (Eval.restores_evalSeq (restores_eval depth) [n])
    rw [List.mapM_cons, List.mapM_nil]
    simp only [bind_assoc, pure_bind]
    refine Tracks.bind (h depth) fun c₁ v e _ hv => ?_
    refine Tracks.bind (tracks_bindLocal hv.1) fun c₂ v' e' _ hv' => ?_
    exact tracks_pure fun _ _ => ⟨v', rfl, hv'⟩
  refine hseq.bind ?_
  rintro c₁ _ _ ⟨v, rfl, hv⟩
  refine settles_env.bind ?_
  rintro c₂ e _ rfl
  simp only [hresolve, Bool.true_or, if_true]
  exact settles_pure fun _ _ => hv

theorem denies_block (h : Denies env c n) (tag : Tag) : Denies env c (.block tag [n])
  | 0 => settles_throw trivial
  | depth + 1 => settles_evalSeq_single hresolve h depth tag.span

theorem denies_ifElse {a b : Node} (ha : Denies env c a) (hb : Denies env c b) (tag : Tag)
    (condition : Node) : Denies env c (.ifElse tag condition [a] [b])
  | 0 => settles_throw trivial
  | depth + 1 => by
    refine (restores_eval depth condition).settles_bind fun c₁ value hle => ?_
    have ha (d : Nat) := Tracks.of_le (ha d) hle
    have hb (d : Nat) := Tracks.of_le (hb d) hle
    split
    · rename_i taken _
      cases taken with
      | true => exact settles_evalSeq_single hresolve ha depth tag.span
      | false => exact settles_evalSeq_single hresolve hb depth tag.span
    · have hrestores := Eval.restores_evalSeq (restores_eval depth)
      exact (hrestores [a]).settles_bind fun _ _ _ => (hrestores [b]).settles_bind fun _ _ _ =>
        settles_made _ fun _ _ => rfl

theorem settles_evalCases (scrutinee : Node) (site : Span) (depth : Nat) :
    ∀ {cases : List (Case Node)} {c : Nat}, (∀ e ∈ cases, ∃ n, e.body = [n] ∧ Denies env c n) →
    Settles AnyFault env c (Eval.evalCases (eval depth) scrutinee site cases)
      fun _ v => v.isFunc = false
  | [], _, _ => settles_fail trivial
  | e :: cases, c, h => by
    obtain ⟨⟨n, hbody, hn⟩, hcases⟩ := List.forall_mem_cons.1 h
    refine (Eval.restores_isMatch (restores_eval depth) e.pattern scrutinee).settles_bind
      fun c₁ hit hle => ?_
    cases hit with
    | true =>
      rw [if_pos rfl, hbody]
      exact settles_evalSeq_single hresolve (fun d => Tracks.of_le (hn d) hle) depth e.span
    | false =>
      refine settles_evalCases scrutinee site depth fun e' he' => ?_
      obtain ⟨n', hbody', hn'⟩ := hcases e' he'
      exact ⟨n', hbody', fun d => Tracks.of_le (hn' d) hle⟩

theorem denies_matchOn {cases : List (Case Node)}
    (h : ∀ e ∈ cases, ∃ n, e.body = [n] ∧ Denies env c n) (tag : Tag) (scrutinee : Node) :
    Denies env c (.matchOn tag scrutinee cases)
  | 0 => settles_throw trivial
  | depth + 1 => by
    refine (restores_eval depth scrutinee).settles_bind fun c₁ value hle => ?_
    split
    · refine settles_evalCases hresolve value tag.span depth fun e he => ?_
      obtain ⟨n, hbody, hn⟩ := h e he
      exact ⟨n, hbody, fun d => Tracks.of_le (hn d) hle⟩
    · have hrestores := Restores.mapM (Eval.restores_evalCase (restores_eval depth)) cases
      exact hrestores.settles_bind fun _ _ _ => settles_made _ fun _ _ => rfl

end

/-! ## Types that are learnt from values -/

theorem isFnType_checkFunc {ev ck : Node → Pass Node} {tag : Tag} {param : Decl Node}
    {body : List Node} {s t : Machine} {ty : Node}
    (h : (Check.checkFunc ev ck tag param body).runOn s = (.ok ty, t)) : ty.isFnType = true := by
  obtain ⟨e, s₁, -, h⟩ := runOn_bind_ok h
  split at h
  · cases h
  · obtain ⟨_, _, -, h⟩ := runOn_bind_ok h
    obtain ⟨_, _, -, h⟩ := runOn_bind_ok h
    obtain ⟨_, _, -, h⟩ := runOn_bind_ok h
    obtain ⟨_, _, -, h⟩ := runOn_bind_ok h
    obtain ⟨rfl, -⟩ := runOn_pure_ok h
    rfl

theorem exists_step_of_cautious {depth : Nat} {n ty : Node} {s t : Machine}
    (h : (cautious depth n).runOn s = (.ok ty, t)) :
    ∃ d, depth = d + 1 ∧ (Check.step (eval d) (cautious d) n).runOn s = (.ok ty, t) := by
  cases depth with
  | zero => cases h
  | succ d =>
    rcases Check.runOn_heed (eval d) (cautious d) n s with ⟨hrun, -⟩ | hrun
    · exact ⟨d, rfl, hrun.symm.trans h⟩
    · cases hrun.symm.trans h

/-- What has a type that is no function type is no function. -/
theorem isFunc_of_cautious {depth : Nat} {n ty : Node} {s t : Machine} (hty : ty.isFnType = false)
    (h : (cautious depth n).runOn s = (.ok ty, t)) : n.isFunc = false := by
  obtain ⟨d, -, h⟩ := exists_step_of_cautious h
  cases n with
  | func tag param body =>
    rw [isFnType_checkFunc h] at hty
    cases hty
  | _ => rfl

section

variable {s t : Machine} {d : Nat} {ty : Node} (hs : s.env.Ready s.nodes.next)
  (hty : ty.isFnType = false)

include hs hty

theorem denies_ident {tag : Tag} {x : Name}
    (h : (Check.checkIdent (cautious d) tag x).runOn s = (.ok ty, t)) :
    Denies { s.env with resolve := true } s.nodes.next (.ident tag x)
  | 0 => settles_throw trivial
  | depth + 1 => by
    obtain ⟨e, _, henv, h⟩ := runOn_bind_ok h
    rw [runOn_env] at henv
    cases henv
    refine settles_evalIdent fun found hfound => ?_
    have hfound : s.env.lookup x = some found := hfound
    rw [hfound] at h
    cases found with
    | bound b => exact .inl (hs.placeholders b (Env.mem_of_lookup_bound hfound).1)
    | builtin b =>
      exact .inr fun _ => settles_made _ fun _ _ => rfl
    | defined d' v =>
      -- a function would have been checked as one
      cases hv : v.isFunc with
      | false => exact .inr fun _ => settles_pure fun _ _ => hv
      | true =>
        obtain ⟨v', _, hvalue, h⟩ := runOn_bind_ok h
        obtain ⟨rfl, rfl⟩ := runOn_pure_ok hvalue
        obtain ⟨_, h, -⟩ := runOn_under_ok h
        simp only [hv, if_true] at h
        exact absurd hv (by rw [isFunc_of_cautious hty h]; decide)

omit hty in
/-- What one evaluation of an old node tells of its result, all of them do. -/
theorem settles_of_run {p : Node → Bool} (hp : ∀ r n, p (n.relabel r) = p n) {v : Node}
    {s₁ t₁ : Machine} (hrun : (eval d n).runOn s₁ = (.ok v, t₁))
    (henv : s₁.env = { s.env with resolve := true }) (hle : s.nodes.next ≤ s₁.nodes.next)
    (hn : n.Older s.nodes.next) (hv : p v = false) (depth : Nat) :
    Settles AnyFault { s.env with resolve := true } s.nodes.next (eval depth n)
      fun _ v => p v = false := by
  refine (restores_eval depth n).settles ?_ fun _ _ _ _ => trivial
  intro s' t' v' hs' hc hrun'
  rw [← hv]
  refine (eval_agrees hp ?_ hn (hs'.trans henv.symm) hle hc hrun hrun').symm
  rw [henv]
  exact hs.older.resolve true

theorem denies_call {tag : Tag} {callee arg : Node}
    (hn : (Node.call tag callee arg).Older s.nodes.next)
    (h : (Check.checkCall (eval d) (cautious d) tag callee arg).runOn s = (.ok ty, t)) :
    Denies { s.env with resolve := true } s.nodes.next (.call tag callee arg) := by
  obtain ⟨calleeType, s₁, h₁, h⟩ := runOn_bind_ok h
  obtain ⟨declared, s₂, h₂, h⟩ := runOn_bind_ok h
  obtain ⟨argType, s₃, h₃, h⟩ := runOn_bind_ok h
  obtain ⟨function, s₄, h₄, h⟩ := runOn_bind_ok h
  have hsignature := Check.restores_signature calleeType tag.span
  have heval := (restores_eval d callee).under (Guard.lawful_resolve true)
  have henv₃ : s₃.env = s.env := by
    rw [(restores_cautious d arg).env_eq h₃, hsignature.env_eq h₂,
      (restores_cautious d callee).env_eq h₁]
  have hle₃ : s.nodes.next ≤ s₃.nodes.next :=
    calc s.nodes.next ≤ s₁.nodes.next := (restores_cautious d callee).next_le h₁
      _ ≤ s₂.nodes.next := hsignature.next_le h₂
      _ ≤ s₃.nodes.next := (restores_cautious d arg).next_le h₃
  cases hfunc : function.isFunc with
  | false =>
    -- the callee is no function when it is evaluated again, so the call stays
    obtain ⟨u, hfunction, -⟩ := runOn_under_ok h₄
    have hcallee := settles_of_run hs (fun r n => Node.isFunc_relabel r n) hfunction
      (congrArg (Guard.resolve true).enter henv₃) hle₃ (Node.older_call hn).1 hfunc
    intro depth
    cases depth with
    | zero => exact settles_throw trivial
    | succ depth =>
      exact Settles.mono (settles_evalCall_stays (restores_eval depth) (hcallee depth))
        fun _ _ hv => hv.1
  | true =>
    -- the call has the type of its result, so this is no function
    cases function with
    | func ftag param body =>
      cases declared with
      | none => cases h
      | some signature =>
        obtain ⟨_, s₅, h₅, h⟩ := runOn_bind_ok h
        obtain ⟨result, s₆, h₆, h⟩ := runOn_bind_ok h
        obtain ⟨value, s₇, h₇, h⟩ := runOn_bind_ok h
        obtain ⟨_, h, -⟩ := runOn_under_ok h
        obtain ⟨_, h, -⟩ := runOn_under_ok h
        obtain ⟨u, hresult, -⟩ := runOn_under_ok h₆
        have harg := Check.restores_checkArg signature.1 argType tag.span arg.span ftag.span
        have henv₅ : s₅.env = s.env := by rw [harg.env_eq h₅, heval.env_eq h₄, henv₃]
        have hle₅ : s.nodes.next ≤ s₅.nodes.next :=
          calc s.nodes.next ≤ s₃.nodes.next := hle₃
            _ ≤ s₄.nodes.next := heval.next_le h₄
            _ ≤ s₅.nodes.next := harg.next_le h₅
        refine settles_of_run hs (fun r n => Node.isFunc_relabel r n) hresult
          (congrArg (Guard.resolve true).enter henv₅) hle₅ hn ?_
        exact isFunc_of_cautious hty h
    | _ => cases hfunc

/-- The function that stands in a field. -/
def holdsFunc (x : Name) : Node → Bool
  | .inst _ _ body => (Node.fieldValue? body x).any (·.isFunc)
  | _ => false

omit hs hty in
theorem holdsFunc_relabel (x : Name) (r : Relabeling) (n : Node) :
    holdsFunc x (n.relabel r) = holdsFunc x n := by
  cases n with
  | inst t template body =>
    rw [Node.relabel, Node.relabelList_eq, holdsFunc, Node.fieldValue?_relabel, holdsFunc]
    cases Node.fieldValue? body x with
    | none => rfl
    | some value => exact Node.isFunc_relabel r value
  | _ => rfl

theorem denies_dot {tag : Tag} {lhs rhs : Node} (hresolve : s.env.resolve = true)
    (hn : (Node.binOp tag .dot lhs rhs).Older s.nodes.next)
    (h : (Check.checkDot (eval d) (cautious d) tag lhs rhs).runOn s = (.ok ty, t)) :
    Denies { s.env with resolve := true } s.nodes.next (.binOp tag .dot lhs rhs) := by
  have henv : s.env = { s.env with resolve := true } := by rw [← hresolve]
  cases rhs with
  | ident nameTag x =>
    obtain ⟨owner, s₁, h₁, h⟩ := runOn_bind_ok h
    have howner : holdsFunc x owner = false := by
      cases owner with
      | inst itag template body =>
        cases hfield : Node.fieldValue? body x with
        | none => rw [holdsFunc, hfield]; rfl
        | some value =>
          -- the field has the type of its value
          simp only [hfield] at h
          rw [holdsFunc, hfield]
          exact isFunc_of_cautious hty h
      | _ => rfl
    have hlhs := settles_of_run hs (holdsFunc_relabel x) h₁ henv (Nat.le_refl _)
      (Node.older_binOp hn).1 howner
    intro depth
    cases depth with
    | zero => exact settles_throw trivial
    | succ depth =>
      refine Settles.bind (hlhs depth) fun c₁ owner' _ howner' => ?_
      split
      · rename_i body name heq
        cases heq
        split
        · rename_i value hfield
          rw [holdsFunc, hfield] at howner'
          exact settles_pure fun _ _ => howner'
        · exact settles_fail trivial
      · exact settles_made _ fun _ _ => rfl
  | _ => cases h

omit hs hty in
theorem settles_evalBinOp {ev : Node → Pass Node} (he : ∀ n, Restores (ev n)) (tag : Tag)
    {op : Operator} (hop : op ≠ .dot) (lhs rhs : Node) :
    Settles AnyFault env c (Eval.evalBinOp ev tag op lhs rhs) fun _ v => v.isFunc = false := by
  unfold Eval.evalBinOp
  rw [if_neg hop]
  refine (he lhs).settles_bind fun _ _ _ => (he rhs).settles_bind fun _ _ _ => ?_
  dsimp only
  split <;> exact settles_made _ fun _ _ => rfl

omit hs hty in
/-- What is no name, function, call, field or branch is evaluated to a node of its own kind. -/
theorem settles_step {ev : Node → Pass Node} (he : ∀ n, Restores (ev n)) (hn : n.isFixed = true) :
    Settles AnyFault env c (Eval.step ev n) fun _ v => v.isFunc = false := by
  cases n with
  | lit | builtin | enum | unknown => exact settles_pure fun _ _ => rfl
  | list tag items =>
    exact (Restores.mapM he items).settles_bind fun _ _ _ =>
      settles_made _ fun _ _ => rfl
  | record tag id fields range =>
    exact (Restores.mapM (Eval.restores_evalDecl he) fields).settles_bind fun _ _ _ =>
      settles_made _ fun _ _ => rfl
  | fnType tag id dom cod =>
    exact (Eval.restores_evalType he dom).settles_bind fun _ _ _ =>
      (Eval.restores_evalType he cod).settles_bind fun _ _ _ =>
        settles_made _ fun _ _ => rfl
  | selfType tag ty | arg tag x ty | field tag x ty =>
    exact (Eval.restores_evalType he ty).settles_bind fun _ _ _ =>
      settles_made _ fun _ _ => rfl
  | assign tag target value transparent link =>
    exact (he value).settles_bind fun _ _ _ => settles_env.bind fun _ _ _ _ =>
      settles_made _ fun _ _ => rfl
  | whileDo tag condition body =>
    exact (he condition).settles_bind fun _ _ _ =>
      (Eval.restores_evalSeq he body).settles_bind fun _ _ _ =>
        settles_made _ fun _ _ => rfl
  | inst tag template body =>
    exact (Eval.restores_evalType he template).settles_bind fun _ _ _ =>
      (Restores.mapM (Eval.restores_evalField he) body).settles_bind fun _ _ _ =>
        settles_made _ fun _ _ => rfl
  | binOp tag op lhs rhs =>
    exact settles_evalBinOp he tag (by rintro rfl; cases hn) lhs rhs
  | ident | func | call | matchOn | ifElse | block => cases hn

/-- A node that is no branch, sequence or field which has not been looked up, and that has a type which
is no function type, is no function. -/
theorem denies_of_step (hn : n.Older s.nodes.next) (hmode : s.env.resolve = true ∨ n.isDot = false)
    (hbranch : n.isBranch = false)
    (h : (Check.step (eval d) (cautious d) n).runOn s = (.ok ty, t)) :
    Denies { s.env with resolve := true } s.nodes.next n := by
  -- names, calls and fields are all that is neither fixed nor a branch
  by_cases hfixed : n.isFixed = true
  · intro depth
    cases depth with
    | zero => exact settles_throw trivial
    | succ depth => exact settles_step (restores_eval depth) hfixed
  · cases n with
    | ident => exact denies_ident hs hty h
    | call => exact denies_call hs hty hn h
    | func =>
      rw [isFnType_checkFunc h] at hty
      cases hty
    | binOp tag op lhs rhs =>
      have hop : op = .dot := by
        cases op with
        | dot => rfl
        | _ => exact absurd rfl hfixed
      subst hop
      rcases hmode with hresolve | hdot
      · exact denies_dot hs hty hresolve hn h
      · cases hdot
    | block | ifElse | matchOn => cases hbranch
    | _ => exact absurd rfl hfixed

end

/-! ## Inert nodes -/

variable {s : Machine} {d : Nat}

theorem denies_of_type (hs : s.env.Ready s.nodes.next) (hn : n.Older s.nodes.next)
    (hbranch : n.isBranch = false)
    (h : (Check.isRooted s.env.locals n ||
      ((s.env.resolve || !n.isDot) && Check.hasOtherType (cautious d) s n)) = true) :
    Denies { s.env with resolve := true } s.nodes.next n := by
  rw [Bool.or_eq_true, Bool.and_eq_true, Bool.or_eq_true, Bool.not_eq_true'] at h
  rcases h with hrooted | ⟨hmode, htype⟩
  · intro depth
    exact (settles_eval_rooted depth n { s.env with resolve := true } hs.placeholders hrooted).mono
      fun _ _ hv => hv.1
  · unfold Check.hasOtherType at htype
    rcases hrun : (cautious d n).runOn s with ⟨_ | ty, t⟩ <;> rw [hrun] at htype
    · cases htype
    · obtain ⟨d', -, hstep⟩ := exists_step_of_cautious hrun
      exact denies_of_step hs (Bool.not_eq_true' _ ▸ htype) hn hmode hbranch hstep

mutual

theorem denies_of_isInert (hs : s.env.Ready s.nodes.next) : ∀ {n : Node}, n.Older s.nodes.next →
    Check.isInert (cautious d) s n = true → Denies { s.env with resolve := true } s.nodes.next n
  | .block tag items, hn, h => by
    obtain ⟨n, rfl, hdenies⟩ := denies_of_isInertBody hs (Node.older_block hn) h
    exact denies_block rfl hdenies tag
  | .ifElse tag condition thenBody elseBody, hn, h => by
    obtain ⟨-, hthen, helse⟩ := Node.older_ifElse hn
    obtain ⟨hinert, hinert'⟩ := Bool.and_eq_true _ _ ▸ h
    obtain ⟨a, rfl, ha⟩ := denies_of_isInertBody hs hthen hinert
    obtain ⟨b, rfl, hb⟩ := denies_of_isInertBody hs helse hinert'
    exact denies_ifElse rfl ha hb tag condition
  | .matchOn tag scrutinee cases, hn, h =>
    denies_matchOn rfl (denies_of_areInertCases hs (fun e he => ((Node.older_matchOn hn).2 e he).2) h)
      tag scrutinee
  | .lit .., hn, h | .list .., hn, h | .record .., hn, h | .enum .., hn, h | .fnType .., hn, h
  | .selfType .., hn, h | .builtin .., hn, h | .arg .., hn, h | .assign .., hn, h | .ident .., hn, h
  | .func .., hn, h | .call .., hn, h | .binOp .., hn, h | .field .., hn, h | .whileDo .., hn, h
  | .inst .., hn, h | .unknown _, hn, h => denies_of_type hs hn rfl h

theorem denies_of_isInertBody (hs : s.env.Ready s.nodes.next) : ∀ {items : List Node},
    (∀ n ∈ items, n.Older s.nodes.next) →
    Check.isInertBody (cautious d) s items = true →
    ∃ n, items = [n] ∧ Denies { s.env with resolve := true } s.nodes.next n
  | [], _, h => by cases h
  | n :: ns, hitems, h => by
    obtain ⟨hinert, hns⟩ := Bool.and_eq_true _ _ ▸ h
    refine ⟨n, ?_, denies_of_isInert hs (hitems n List.mem_cons_self) hinert⟩
    rw [List.isEmpty_iff.1 hns]

theorem denies_of_isInertCase (hs : s.env.Ready s.nodes.next) : ∀ {e : Case Node},
    (∀ n ∈ e.body, n.Older s.nodes.next) →
    Check.isInertCase (cautious d) s e = true →
    ∃ n, e.body = [n] ∧ Denies { s.env with resolve := true } s.nodes.next n
  | ⟨_, _, _⟩, hbody, h => denies_of_isInertBody hs hbody h

theorem denies_of_areInertCases (hs : s.env.Ready s.nodes.next) : ∀ {cases : List (Case Node)},
    (∀ e ∈ cases, ∀ n ∈ e.body, n.Older s.nodes.next) →
    Check.areInertCases (cautious d) s cases = true →
    ∀ e ∈ cases, ∃ n, e.body = [n] ∧ Denies { s.env with resolve := true } s.nodes.next n
  | [], _, _ => List.forall_mem_nil _
  | e :: cases, hbodies, h => by
    obtain ⟨he, hcases⟩ := List.forall_mem_cons.1 hbodies
    obtain ⟨hinert, hinert'⟩ := Bool.and_eq_true _ _ ▸ h
    exact List.forall_mem_cons.2 ⟨denies_of_isInertCase hs he hinert,
      denies_of_areInertCases hs hcases hinert'⟩

end

end Callees

end Residual
