/-
Names of checked programs. A program that passes the checker is meant to have no name that stands for
nothing, so that evaluating it never meets one. There are two gaps. The checker may pass over a part:
an arm that is void is left out of its branch from the first name on that is being checked already,
and the owner of a field is evaluated instead of checked. And the evaluator makes names of its own: the
binder of a function gets another name if its own is taken, and where residual code that refers to it is
evaluated again, that name is looked up as if it were one of a program.

`vouched` is the checker that gives up where a part may be passed over and has neither passed nor been
found to be closed; `attentive` is the evaluator that gives up where it looks up a name that a binder
has in residual code only. Where neither gives up, no name is missing.
-/
import Residual.Proofs.Closing
import Residual.Proofs.Preservation

namespace Residual

/-! ## Checking thoroughly -/

namespace Check

/-- The parts of a node that the checker may pass over. -/
def overlooked : Node → List (List Node)
  | .ifElse _ _ thenBody elseBody => [thenBody, elseBody]
  | .matchOn _ _ cases => cases.map (·.body)
  | .record _ _ fields _ => fields.map fun d => [d.ty]
  | .binOp _ .dot lhs _ => [[lhs]]
  | _ => []

/-- Whether a part passes the checker, or each of its names at least stands for something. -/
def isVetted (check : Node → Pass Node) (s : Machine) (part : List Node) : Bool :=
  (Node.freeSeq part).all (fun x => (s.env.lookup x).isSome) ||
    ((checkSeq check part .builtin).runOn s).1.isOk

/-- A step of checking that gives up where it may pass over a part that is not vetted. -/
def vouch (eval check : Node → Pass Node) (n : Node) : Pass Node := fun s =>
  if (overlooked n).all (isVetted check s) then (step eval check n).runOn s else (.error .exhausted, s)

end Check

/-- The checker that gives up where it may pass over a part that is not vetted. -/
def vouched : (depth : Nat) → Node → Pass Node
  | 0, _ => throw .exhausted
  | depth + 1, n => Check.vouch (eval depth) (vouched depth) n

open Pass Node

section

variable {ev ck : Node → Pass Node}

theorem Check.vouch_eq (ev ck : Node → Pass Node) (n : Node) : vouch ev ck n =
    (step ev ck n).provided fun s => (overlooked n).all (isVetted ck s) := rfl

theorem Check.runOn_vouch (ev ck : Node → Pass Node) (n : Node) (s : Machine) :
    (vouch ev ck n).runOn s = (step ev ck n).runOn s ∧
        (∀ part ∈ overlooked n, isVetted ck s part = true) ∨
      (vouch ev ck n).runOn s = (.error .exhausted, s) := by
  rw [vouch_eq]
  exact (runOn_provided _ _ s).imp_left fun h => ⟨h.1, List.all_eq_true.1 h.2⟩

theorem Check.approximates_vouch (n : Node) : Approximates (vouch ev ck n) (step ev ck n) :=
  approximates_provided _ _

theorem Check.restores_vouch (he : ∀ n, Restores (ev n)) (hc : ∀ n, Restores (ck n)) (n : Node) :
    Restores (vouch ev ck n) := (restores_step he hc n).provided _

end

theorem restores_vouched : ∀ (depth : Nat) (n : Node), Restores (vouched depth n)
  | 0, _ => restores_throw _
  | depth + 1, n => Check.restores_vouch (restores_eval depth) (restores_vouched depth) n

/-- Where it does not give up, the thorough checker does what the checker does. -/
theorem approximates_vouched : ∀ (depth : Nat) (n : Node),
    Approximates (vouched depth n) (check depth n)
  | 0, _ => approximates_exhausted _
  | depth + 1, n => (Check.approximates_vouch n).trans
    (Check.approximates_step (fun n => approximates_refl (eval depth n))
      (approximates_vouched depth) n)

/-! ## What passes is closed -/

namespace Pass

variable {α β : Type} {env : Env} {m : Pass α} {f : α → Pass β} {Q R : Prop}

/-- What is known of the environment once the pass has ended with a result. -/
def Learns (env : Env) (m : Pass α) (Q : Prop) : Prop :=
  ∀ ⦃s t : Machine⦄ ⦃a : α⦄, s.env = env → m.runOn s = (.ok a, t) → Q

theorem Learns.mono (h : Learns env m Q) (hQR : Q → R) : Learns env m R :=
  fun _ _ _ hs hrun => hQR (h hs hrun)

theorem learns_throw (f : Fault) : Learns env (throw f : Pass α) Q := fun _ _ _ _ hrun => nomatch hrun

theorem learns_fail (e : TypeError) : Learns env (fail e : Pass α) Q := learns_throw _

theorem learns_of (hQ : Q) : Learns env m Q := fun _ _ _ _ _ => hQ

theorem Learns.first (hm : Learns env m Q) : Learns env (m >>= f) Q := fun _ _ _ hs hrun => by
  obtain ⟨_, _, hrun, -⟩ := runOn_bind_ok hrun
  exact hm hs hrun

theorem Learns.next (hm : Restores m) (hf : ∀ a, Learns env (f a) Q) : Learns env (m >>= f) Q :=
  fun _ _ _ hs hrun => by
    obtain ⟨a, _, hrun, hrun'⟩ := runOn_bind_ok hrun
    exact hf a ((hm.env_eq hrun).trans hs) hrun'

theorem Learns.both (hr : Restores m) (hm : Learns env m Q) (hf : ∀ a, Learns env (f a) R) :
    Learns env (m >>= f) (Q ∧ R) := fun _ _ _ hs hrun =>
  ⟨hm.first hs hrun, Learns.next hr hf hs hrun⟩

theorem learns_env {f : Env → Pass β} (hf : Learns env (f env) Q) :
    Learns env (Pass.env >>= f) Q := fun _ _ _ hs hrun => by
  rw [runOn_bind, runOn_env] at hrun
  exact hf hs (hs ▸ hrun)

theorem Learns.under {g : Guard} (h : Learns (g.enter env) m Q) : Learns env (m.under g) Q :=
  fun s _ _ hs hrun => by
    obtain ⟨_, hrun, -⟩ := runOn_under_ok hrun
    exact h (s := ⟨g.enter s.env, s.nodes⟩) (hs ▸ rfl) hrun

theorem Learns.returns (h : Learns env m Q) (hr : Restores m) :
    Returns env (fun _ => m) AnyFault fun _ => Q := fun s hs => by
  refine ⟨(m.runOn s).1, (m.runOn s).2, ?_, 0, fun _ _ => rfl⟩
  cases hrun : m.runOn s with
  | mk r t =>
    cases r with
    | ok a => exact ⟨h hs hrun, (hr.env_eq hrun).trans hs⟩
    | error f => trivial

theorem Leads.learns {P : α → Env → Prop} (h : Leads env (fun _ => m) AnyFault P)
    (hP : ∀ a e, P a e → Q) : Learns env m Q := fun _ _ _ hs hrun =>
  hP _ _ (h.of_run (fun _ _ _ => approximates_refl _) 0 hs hrun)

end Pass

/-- A checker that lets a node pass only if all its names stand for something. -/
def Vouching (ck : Node → Pass Node) : Prop :=
  ∀ ⦃env : Env⦄ ⦃n : Node⦄, n.Closed (fun _ => True) → Learns env (ck n) (n.Closed env.Knows)

namespace Vouching

variable {ev ck : Node → Pass Node} {env : Env} {n : Node}

/-! ### Sequences -/

section

variable (hc : ∀ n, Restores (ck n)) (hck : Vouching ck)

include hc hck

/-- After a node of a sequence, no other name stands for something than the one it binds. -/
theorem leads_checkItem (hn : n.Closed fun _ => True) :
    Leads env (fun _ => Check.checkItem ck n) AnyFault fun _ e =>
      (n.Closed env.Knows ∧
        ∀ x, e.Knows x → env.Knows x ∨ n.boundName? = some x) ∧ Opened env e := by
  refine ((hck hn).returns (hc n)).leads fun ty hclosed => ?_
  cases hname : n.boundName? with
  | none => exact leads_pure ⟨⟨hclosed, fun _ => .inl⟩, .same⟩
  | some name =>
    refine (Check.returns_placeholder _ _).leads fun v _ => Leads.push (leads_pure ?_)
    exact ⟨⟨hclosed, fun x hx => (Env.knows_push.1 hx).imp_right fun h : x = name =>
      congrArg some h.symm⟩, .push _ .same⟩

theorem leads_checkItems : ∀ {items : List Node} {env : Env}, (∀ n ∈ items, n.Closed fun _ => True) →
    Leads env (fun _ => Check.checkItems ck items) AnyFault fun _ e =>
      (∀ rest, ClosedSeq e.Knows rest → ClosedSeq env.Knows (items ++ rest)) ∧
        Opened env e
  | [], env, _ => leads_pure ⟨fun _ h => h, .same⟩
  | item :: items, env, h => by
    refine (leads_checkItem hc hck (h item (by simp))).bind ?_
    rintro _ e ⟨⟨hitem, hfinds⟩, he⟩
    refine (leads_checkItems fun n hn => h n (by simp [hn])).mono ?_
    rintro _ e' ⟨hrest, he'⟩
    exact ⟨fun rest hclosed => closedSeq_cons.2 ⟨hitem, (hrest rest hclosed).mono hfinds⟩,
      he.trans he'⟩

theorem learns_checkSeq {items : List Node} (h : ClosedSeq (fun _ => True) items) (site : Span) :
    Learns env (Check.checkSeq ck items site) (ClosedSeq env.Knows items) := by
  have hall := closedSeq_true.1 h
  unfold Check.checkSeq
  split
  · exact learns_fail _
  · -- The last node is checked apart from the others, and closed under what they bind.
    rename_i last hlast
    have hitems : items.dropLast ++ [last] = items := List.dropLast_append_getLast? last hlast
    suffices hseq : Leads env (fun _ => do
        Check.checkItems ck items.dropLast
        Check.checkItem ck last) AnyFault fun _ _ => ClosedSeq env.Knows items from
      Learns.under (Leads.learns hseq fun _ _ hQ => hQ)
    refine (leads_checkItems hc hck fun n hn => hall n (List.dropLast_subset _ hn)).bind ?_
    rintro _ e ⟨hclosed, -⟩
    refine (leads_checkItem hc hck (hall last (List.mem_of_getLast? hlast))).mono ?_
    rintro _ _ ⟨⟨hlast, -⟩, -⟩
    have := hclosed [last] (closedSeq_of_forall (by simpa using hlast))
    rwa [hitems] at this

/-- A part that is vetted is closed. -/
theorem closedSeq_of_isVetted {s : Machine} {part : List Node} (h : ClosedSeq (fun _ => True) part)
    (hv : Check.isVetted ck s part = true) : ClosedSeq s.env.Knows part := by
  rcases Bool.or_eq_true _ _ ▸ hv with hfound | hok
  · exact ⟨h.1, fun x hx => List.all_eq_true.1 hfound x hx⟩
  · obtain ⟨ty, t, hrun⟩ := runOn_of_isOk hok
    exact learns_checkSeq hc hck h .builtin rfl hrun

end

/-! ### Names, functions and operators -/

theorem learns_typeExpr (hck : Vouching ck) {ty : Node} (h : ty.Closed fun _ => True) :
    Learns env (Check.typeExpr ev ck ty) (ty.Closed env.Knows) := (hck h).first.first

theorem learns_declaredType (hck : Vouching ck) {ty : Node} (h : ty.Closed fun _ => True) :
    Learns env (Check.declaredType ev ck ty) (ty.Closed env.Knows) := (hck h).first.first

/-- An alias has a name for its target, and a closed value. -/
theorem learns_checkAlias (hck : Vouching ck) {tag : Tag} {target value : Node} {transparent : Bool}
    {link : Option DefId} (h : (assign tag target value transparent link).Closed fun _ => True) :
    Learns env (Check.checkAlias ck tag target value link)
      ((assign tag target value transparent link).Closed env.Knows) := by
  obtain ⟨htarget, hvalue⟩ := closed_assign.1 h
  have hlearn : Learns env (ck value)
      ((assign tag target value transparent link).Closed env.Knows) :=
    (hck hvalue).mono fun hv => closed_assign.2 ⟨htarget, hv⟩
  unfold Check.checkAlias
  split
  · exact learns_fail _
  · refine learns_env ?_
    split
    · exact hlearn
    · split
      · exact hlearn
      · exact learns_fail _

theorem learns_checkIdent (tag : Tag) (x : Name) :
    Learns env (Check.checkIdent ck tag x) ((ident tag x).Closed env.Knows) := by
  refine learns_env ?_
  split
  · exact learns_fail _
  · rename_i found hfound
    exact learns_of (closed_ident.2 (by rw [Env.Knows, hfound]; rfl))

theorem learns_checkFunc (he : ∀ n, Restores (ev n)) (hc : ∀ n, Restores (ck n)) (hck : Vouching ck)
    {tag : Tag} {param : Decl Node} {body : List Node}
    (h : (func tag param body).Closed fun _ => True) :
    Learns env (Check.checkFunc ev ck tag param body)
      ((func tag param body).Closed env.Knows) := by
  obtain ⟨hty, hbody⟩ := closed_func.1 h
  refine learns_env ?_
  split
  · exact learns_throw _
  · refine (Learns.both (Check.restores_declaredType he hc _) (learns_declaredType hck hty)
      fun ty => ?_).mono closed_func.2
    refine Learns.next (Check.restores_placeholder _ _) fun value => Learns.first ?_
    let b : Binding := ⟨param.name, value, false, none⟩
    refine Learns.under (Learns.under (Learns.under ?_))
    refine (learns_checkSeq hc hck (hbody.mono fun _ _ => trivial) tag.span).mono fun hclosed =>
      hclosed.mono fun x hx => ?_
    have hx : ((env.enterCall (.func tag param body)).push b).Knows x := hx
    exact Env.knows_push.1 hx

theorem learns_checkCall (hc : ∀ n, Restores (ck n)) (hck : Vouching ck) {tag : Tag}
    {callee arg : Node} (h : (call tag callee arg).Closed fun _ => True) :
    Learns env (Check.checkCall ev ck tag callee arg)
      ((call tag callee arg).Closed env.Knows) := by
  obtain ⟨hcallee, harg⟩ := closed_call.1 h
  refine (Learns.both (hc callee) (hck hcallee) fun calleeType => ?_).mono closed_call.2
  exact Learns.next (Check.restores_signature _ _) fun declared => (hck harg).first

/-- The operands of an operator; of an access, the field is no name, and the owner may be passed
over. -/
theorem learns_checkBinOp (hc : ∀ n, Restores (ck n)) (hck : Vouching ck) {tag : Tag}
    {op : Operator} {lhs rhs : Node} (h : (binOp tag op lhs rhs).Closed fun _ => True)
    (hparts : ∀ part ∈ Check.overlooked (.binOp tag op lhs rhs), ClosedSeq env.Knows part) :
    Learns env (Check.checkBinOp ev ck tag op lhs rhs)
      ((binOp tag op lhs rhs).Closed env.Knows) := by
  unfold Check.checkBinOp
  by_cases hop : op = .dot
  · subst hop
    have hlhs := closedSeq_cons.1 (hparts [lhs] List.mem_cons_self)
    exact learns_of (closed_dot.2 ⟨hlhs.1, (closed_dot.1 h).2⟩)
  · obtain ⟨hl, hr⟩ := (closed_binOp hop).1 h
    rw [if_neg hop]
    refine (Learns.both (Check.restores_checkOperand hc _ _) (hck hl).first fun _ => ?_).mono
      (closed_binOp hop).2
    exact (hck hr).first.first

/-! ### Lists and instances -/

theorem learns_checkItemsAgainst (hc : ∀ n, Restores (ck n)) (hck : Vouching ck) (expected : Node) :
    ∀ {items : List Node}, (∀ n ∈ items, n.Closed fun _ => True) →
    Learns env (Check.checkItemsAgainst ck expected items) (∀ n ∈ items, n.Closed env.Knows)
  | [], _ => learns_of (List.forall_mem_nil _)
  | item :: items, h => by
    refine (Learns.both (hc item) (hck (h item (by simp))) fun ty => ?_).mono
      List.forall_mem_cons.2
    exact Learns.next (Check.restores_expect _ _ _) fun _ =>
      learns_checkItemsAgainst hc hck expected fun n hn => h n (by simp [hn])

theorem learns_checkList (hc : ∀ n, Restores (ck n)) (hck : Vouching ck) :
    ∀ {items : List Node}, (∀ n ∈ items, n.Closed fun _ => True) →
    Learns env (Check.checkList ck items) (∀ n ∈ items, n.Closed env.Knows)
  | [], _ => learns_of (List.forall_mem_nil _)
  | first :: others, h => by
    refine (Learns.both (hc first) (hck (h first (by simp))) fun expected => ?_).mono
      List.forall_mem_cons.2
    exact (learns_checkItemsAgainst hc hck expected fun n hn => h n (by simp [hn])).first

theorem learns_checkField (he : ∀ n, Restores (ev n)) (hc : ∀ n, Restores (ck n))
    (hck : Vouching ck) (template : Node) (fields : List (Decl Node)) (range : Option Range)
    (h : n.Closed fun _ => True) :
    Learns env (Check.checkField ev ck template fields range n) (n.Closed env.Knows) := by
  unfold Check.checkField
  split
  · obtain ⟨htarget, hvalue⟩ := closed_assign.1 h
    split
    · exact learns_fail _
    · split
      · exact learns_fail _
      · exact Learns.next (Check.restores_typeExpr he hc _) fun expected =>
          (hck hvalue).first.mono fun hv => closed_assign.2 ⟨htarget, hv⟩
  · exact learns_fail _

theorem learns_checkFields (he : ∀ n, Restores (ev n)) (hc : ∀ n, Restores (ck n))
    (hck : Vouching ck) (template : Node) (fields : List (Decl Node)) (range : Option Range) :
    ∀ {items : List Node}, (∀ n ∈ items, n.ident? = none → n.Closed fun _ => True) →
    Learns env (Check.checkFields ev ck template fields range items)
      (∀ n ∈ items, n.ident? = none → n.Closed env.Knows)
  | [], _ => learns_of (List.forall_mem_nil _)
  | item :: items, h => by
    have hitem : Learns env (Check.checkField ev ck template fields range item)
        (item.ident? = none → item.Closed env.Knows) := fun _ _ _ hs hrun hident =>
      learns_checkField he hc hck template fields range (h item (by simp) hident) hs hrun
    refine (Learns.both (Check.restores_checkField he hc _ _ _ _) hitem fun _ =>
      learns_checkFields he hc hck template fields range fun n hn => h n (by simp [hn])).mono ?_
    exact (List.forall_mem_cons (p := fun n : Node => n.ident? = none → n.Closed env.Knows)).2

theorem learns_checkInst (he : ∀ n, Restores (ev n)) (hc : ∀ n, Restores (ck n)) (hck : Vouching ck)
    {tag : Tag} {template : Node} {body : List Node}
    (h : (inst tag template body).Closed fun _ => True) :
    Learns env (Check.checkInst ev ck tag template body)
      ((inst tag template body).Closed env.Knows) := by
  obtain ⟨htemplate, hbody⟩ := closed_inst.1 h
  refine (Learns.both (Check.restores_typeExpr he hc _) (learns_typeExpr hck htemplate)
    fun ty => ?_).mono closed_inst.2
  split
  · exact (learns_checkFields he hc hck _ _ _ hbody).first
  · split
    · rename_i member
      split
      · rename_i hmember
        refine learns_of fun n hn hident => ?_
        rw [List.mem_singleton.1 hn] at hident
        simp [hident] at hmember
      · exact learns_fail _
    · exact learns_fail _
  · exact learns_fail _

/-! ### Control -/

theorem learns_checkMatch (hc : ∀ n, Restores (ck n)) (hck : Vouching ck) {tag : Tag}
    {scrutinee : Node} {cases : List (Case Node)}
    (h : (matchOn tag scrutinee cases).Closed fun _ => True)
    (hparts : ∀ part ∈ Check.overlooked (.matchOn tag scrutinee cases),
      ClosedSeq env.Knows part) :
    Learns env (Check.checkMatch ck tag scrutinee cases)
      ((matchOn tag scrutinee cases).Closed env.Knows) := by
  obtain ⟨hs, hcases⟩ := closed_matchOn.1 h
  refine (Learns.both (hc scrutinee) (hck hs) fun ty => Learns.first ?_).mono closed_matchOn.2
  have hpattern (c : Case Node) (hmem : c ∈ cases) : Learns env (Check.checkCase ck ty c)
      (c.pattern.isWildcard = false → c.pattern.Closed env.Knows) := by
    unfold Check.checkCase
    cases hw : c.pattern.isWildcard with
    | true => exact learns_of fun h => nomatch h
    | false => exact (hck ((hcases c hmem).1 hw)).first.mono fun hp _ => hp
  have hall : Returns env (fun _ => cases.mapM (Check.checkCase ck ty)) AnyFault (Traversed
      (fun c _ => c.pattern.isWildcard = false → c.pattern.Closed env.Knows) cases) :=
    Returns.mapM fun c hmem => (hpattern c hmem).returns (Check.restores_checkCase hc ty c)
  refine Leads.learns hall fun arms _ harms c hmem => ?_
  obtain ⟨_, -, hclosed⟩ := harms.1.result c hmem
  exact ⟨hclosed, hparts c.body (List.mem_map_of_mem hmem)⟩

/-! ### Nodes -/

/-- What passes one step has names that stand for something, if the parts that may be passed over
have. -/
theorem learns_step (he : ∀ n, Restores (ev n)) (hc : ∀ n, Restores (ck n)) (hck : Vouching ck)
    (hn : n.Closed fun _ => True)
    (hparts : ∀ part ∈ Check.overlooked n, ClosedSeq env.Knows part) :
    Learns env (Check.step ev ck n) (n.Closed env.Knows) := by
  cases n with
  | lit => exact learns_of closed_lit
  | builtin => exact learns_of closed_builtin
  | enum => exact learns_of closed_enum
  | unknown => exact absurd hn closed_unknown
  | selfType => exact absurd hn closed_selfType
  | list => exact (learns_checkList hc hck (closed_list.1 hn)).mono closed_list.2
  | record tag id fields range =>
    refine learns_of (closed_record.2 fun d hd => ?_)
    exact (closedSeq_cons.1 (hparts [d.ty] (List.mem_map_of_mem hd))).1
  | fnType =>
    obtain ⟨hdom, hcod⟩ := closed_fnType.1 hn
    exact (Learns.both (Check.restores_typeExpr he hc _) (learns_typeExpr hck hdom) fun _ =>
      (learns_typeExpr hck hcod).first).mono closed_fnType.2
  | arg => exact (learns_typeExpr hck (closed_arg.1 hn)).mono closed_arg.2
  | field => exact (learns_typeExpr hck (closed_field.1 hn)).mono closed_field.2
  | assign => exact learns_checkAlias hck hn
  | ident tag x => exact learns_checkIdent tag x
  | func => exact learns_checkFunc he hc hck hn
  | call => exact learns_checkCall hc hck hn
  | binOp => exact learns_checkBinOp hc hck hn hparts
  | matchOn => exact learns_checkMatch hc hck hn hparts
  | whileDo =>
    obtain ⟨hcond, hbody⟩ := closed_whileDo.1 hn
    exact (Learns.both (Check.restores_expectBool hc _) (hck hcond).first fun _ =>
      learns_checkSeq hc hck hbody _).mono closed_whileDo.2
  | ifElse tag c thenBody elseBody =>
    refine (hck (closed_ifElse.1 hn).1).first.first.mono fun hcond => closed_ifElse.2 ⟨hcond, ?_, ?_⟩
    · exact hparts thenBody List.mem_cons_self
    · exact hparts elseBody (List.mem_cons_of_mem _ List.mem_cons_self)
  | block => exact (learns_checkSeq hc hck (closed_block.1 hn) _).mono closed_block.2
  | inst => exact learns_checkInst he hc hck hn

/-- No placeholder occurs in the parts that may be passed over if none occurs in the node. -/
theorem closedSeq_overlooked (h : n.Closed fun _ => True) :
    ∀ part ∈ Check.overlooked n, ClosedSeq (fun _ => True) part := by
  unfold Check.overlooked
  split
  · obtain ⟨-, ht, he⟩ := closed_ifElse.1 h
    simpa using ⟨ht, he⟩
  · simpa using fun c hc => ((closed_matchOn.1 h).2 c hc).2
  · simpa using closed_record.1 h
  · simpa using (closed_dot.1 h).1
  · exact List.forall_mem_nil _

end Vouching

theorem vouching_vouched : ∀ depth : Nat, Vouching (vouched depth)
  | 0, _, _, _ => learns_throw _
  | depth + 1, _, n, hn => fun s t ty hs hrun => by
    subst hs
    have hck := vouching_vouched depth
    rcases Check.runOn_vouch (eval depth) (vouched depth) n s with
      ⟨hstep, hvetted⟩ | hexhausted
    · -- The parts have been vetted where the step starts, so they are closed by the induction.
      refine Vouching.learns_step (restores_eval depth) (restores_vouched depth) hck hn
        (fun part hpart => ?_) rfl (hstep.symm.trans hrun)
      exact Vouching.closedSeq_of_isVetted (restores_vouched depth) hck
        (Vouching.closedSeq_overlooked hn part hpart) (hvetted part hpart)
    · cases hexhausted.symm.trans hrun

/-! ## Evaluating attentively -/

/-- Whether the node is a name that nothing is bound to, and that a binder has in residual code. -/
def Env.isResidualName (env : Env) : Node → Bool
  | .ident _ x => (env.locals.find? x).isNone && env.locals.bindings.any (·.rename == some x)
  | _ => false

/-- The evaluator that gives up where it looks up a name that a binder has in residual code only. -/
def attentive : (depth : Nat) → Node → Pass Node
  | 0, _ => throw .exhausted
  | depth + 1, n => do
    if (← Pass.env).isResidualName n then throw .exhausted else Eval.step (attentive depth) n

theorem restores_attentive : ∀ (depth : Nat) (n : Node), Restores (attentive depth n)
  | 0, _ => restores_throw _
  | depth + 1, n => restores_env.bind fun env => by
    split
    · exact restores_throw _
    · exact Eval.restores_step (restores_attentive depth) n

/-- Where it does not give up, the attentive evaluator does what the evaluator does. -/
theorem approximates_attentive : ∀ (depth : Nat) (n : Node),
    Approximates (attentive depth n) (eval depth n)
  | 0, _ => approximates_exhausted _
  | depth + 1, n => fun s hs => by
    rw [attentive, runOn_bind, runOn_env] at hs ⊢
    cases h : s.env.isResidualName n with
    | true =>
      simp only [h, if_true] at hs
      exact absurd rfl hs
    | false =>
      simp only [h, Bool.false_eq_true, if_false] at hs ⊢
      exact Eval.approximates_step (approximates_attentive depth) n s hs

/-- A name that a binder has in residual code is known, unless it is one of residual code only. -/
theorem Env.knows_of_renames {env : Env} {tag : Tag} {x : Name} (hx : env.Renames x)
    (h : env.isResidualName (.ident tag x) = false) : env.Knows x := by
  obtain ⟨b, hb, hrename⟩ := hx
  have hany : env.locals.bindings.any (·.rename == some x) = true :=
    List.any_eq_true.2 ⟨b, hb, by rw [hrename]; exact beq_self_eq_true _⟩
  cases hfind : env.locals.find? x with
  | none =>
    rw [Env.isResidualName, hany, hfind] at h
    cases h
  | some c =>
    rw [Env.Knows, Env.lookup_bound hfind]
    rfl

/-- Evaluating attentively, no name is missing. -/
theorem closing_attentive : ∀ depth : Nat, Closing False (attentive depth)
  | 0, _, _, _, _, _ => returns_throw fun h => nomatch h
  | depth + 1, _, _, n, henv, hn => by
    refine returns_env.bind fun env heq => ?_
    subst heq
    split
    · exact returns_throw fun h => nomatch h
    · rename_i h
      refine (closing_attentive depth).step (restores_attentive depth) henv hn fun hident hx => .inl ?_
      subst hident
      exact Env.knows_of_renames hx (Bool.eq_false_iff.2 h)

/-! ## Checked programs -/

/-- The node passes the checker over the definitions, which vouches for each of its parts. -/
def Definitions.Passes (store : Definitions) (n : Node) : Prop :=
  ∃ depth s ty t, s.env.IsFresh store ∧ (check depth n).runOn s = (.ok ty, t) ∧
    ((vouched depth n).runOn s).1 ≠ .error .exhausted

/-- The names of a node that passes are defined or built in. -/
theorem Definitions.Passes.closed {store : Definitions} {n : Node} (h : store.Passes n)
    (hn : n.isConcrete = true) {env : Env} (henv : env.IsFresh store) :
    n.Closed env.Knows := by
  obtain ⟨depth, s, ty, t, hs, hcheck, hvouched⟩ := h
  have hrun := approximates_vouched depth n s hvouched
  have hlookup (x : Name) : s.env.lookup x = env.lookup x := by
    rw [Env.lookup, Env.lookup, hs.find?_eq_none, henv.find?_eq_none, hs.store_eq, henv.store_eq]
  refine (vouching_vouched depth ⟨hn, fun _ _ => trivial⟩ rfl
    (hrun.symm.trans hcheck)).mono fun x hx => ?_
  rwa [Env.Knows, hlookup] at hx

/-- Checked programs have no unbound names. Let no placeholder occur in the definitions or in a node,
and let all of them pass the checker, which vouches for each of their parts. Then evaluating the node
never meets a name that stands for nothing, so long as it does not look up a name that a binder has in
residual code only. -/
theorem checked_names_are_found {store : Definitions} {n : Node} {s : Machine} {depth : Nat}
    (hstore : ∀ {x d v}, store.lookup x = some (d, v) → v.isConcrete = true ∧ store.Passes v)
    (hn : n.isConcrete = true) (hpass : store.Passes n) (hs : s.env.IsFresh store)
    (hresolve : s.env.resolve = true)
    (hattentive : ((attentive depth n).runOn s).1 ≠ .error .exhausted) (x : Name) (site : Span) :
    ((eval depth n).runOn s).1 ≠ .error (.error (.unknownName x site)) := by
  -- Nothing is bound yet: what is read is defined, and its value has passed, or is built in.
  have hfinds {v : Node} (hv : v.Closed s.env.Knows) : v.Closed (s.env.Finds False) :=
    hv.mono fun _ => .inl
  have henv : s.env.Closes False (s.env.Finds False) :=
    { defined := fun {x d v} hx => by
        rw [hs.store_eq] at hx
        have hx' := hs.isOver.lookup_defined hx
        exact ⟨.inl (by rw [Env.Knows, hx']; rfl), hfinds ((hstore hx).2.closed (hstore hx).1 hs)⟩
      builtin := fun {x b} hx => .inl (by
        rw [Env.Knows, Env.lookup, hs.find?_eq_none, hx]
        cases s.env.store.lookup x <;> rfl)
      values := fun b hb => by
        rw [hs.locals] at hb
        cases hb
      residuals := fun b hb => by
        rw [hs.locals] at hb
        cases hb
      finds := fun _ hx => hx
      mode := .inl hresolve }
  intro hfault
  obtain ⟨r, t, hends, depth', hrun⟩ :=
    (closing_attentive depth).closed henv (hfinds (hpass.closed hn hs)) s rfl
  have hrun := hrun depth' (Nat.le_refl _)
  rw [approximates_attentive depth n s hattentive, hrun] at hfault
  subst hfault
  exact hends rfl

theorem Definitions.Passes.of_isOk {store : Definitions} {n : Node} {s : Machine} (depth : Nat)
    (hs : s.env.IsFresh store) (h : ((vouched depth n).runOn s).1.isOk = true) :
    store.Passes n := by
  obtain ⟨ty, t, hrun⟩ := runOn_of_isOk h
  have hvouched : ((vouched depth n).runOn s).1 ≠ .error .exhausted := by rw [hrun]; nofun
  exact ⟨depth, s, ty, t, hs, (approximates_vouched depth n s hvouched).trans hrun, hvouched⟩

/-- `flip = @b(Bool) if b then flip(false) else "done"` and `apply = @f(Function) f(true)`. -/
def flipDefinitions : Definitions :=
  ⟨[("flip", .func ⟨0, .builtin⟩ ⟨.builtin, "b", .ident ⟨1, .builtin⟩ "Bool"⟩
      [.ifElse ⟨2, .builtin⟩ (.ident ⟨3, .builtin⟩ "b")
        [.call ⟨4, .builtin⟩ (.ident ⟨5, .builtin⟩ "flip") (.lit ⟨6, .builtin⟩ (.bool false))]
        [.lit ⟨7, .builtin⟩ (.string "done")]]),
    ("apply", .func ⟨8, .builtin⟩ ⟨.builtin, "f", .ident ⟨9, .builtin⟩ "Function"⟩
      [.call ⟨10, .builtin⟩ (.ident ⟨11, .builtin⟩ "f") (.lit ⟨12, .builtin⟩ (.bool true))])]⟩

/-- `{ h = @c(Bool) flip(c); apply(h) }` -/
def flipProgram : Node :=
  .block ⟨13, .builtin⟩
    [.assign ⟨14, .builtin⟩ (.ident ⟨15, .builtin⟩ "h")
      (.func ⟨16, .builtin⟩ ⟨.builtin, "c", .ident ⟨17, .builtin⟩ "Bool"⟩
        [.call ⟨18, .builtin⟩ (.ident ⟨19, .builtin⟩ "flip") (.ident ⟨20, .builtin⟩ "c")]) false none,
    .call ⟨21, .builtin⟩ (.ident ⟨22, .builtin⟩ "apply") (.ident ⟨23, .builtin⟩ "h")]

/-- `(@x(Number) @x(Number) x)(1)(2)` -/
def shadowProgram : Node :=
  .call ⟨0, .builtin⟩
    (.call ⟨1, .builtin⟩
      (.func ⟨2, .builtin⟩ ⟨.builtin, "x", .ident ⟨3, .builtin⟩ "Number"⟩
        [.func ⟨4, .builtin⟩ ⟨.builtin, "x", .ident ⟨5, .builtin⟩ "Number"⟩
          [.ident ⟨6, .builtin⟩ "x"]])
      (.lit ⟨7, .builtin⟩ (.number 1)))
    (.lit ⟨8, .builtin⟩ (.number 2))

/-- The recursive call of `flip` is void where `flip` is checked, but its names stand for something,
so the checker vouches for it. The inner `x` becomes `x#0`, and its function is evaluated again, with
a binder of that name. -/
theorem flip_names_are_found :
    let AreFound (store : Definitions) (n : Node) : Prop := store.Passes n ∧
      ((attentive 20 n).runOn (freshMachine store true)).1 ≠ .error .exhausted ∧
      ∀ x site, ((eval 20 n).runOn (freshMachine store true)).1 ≠
        .error (.error (.unknownName x site))
    AreFound flipDefinitions flipProgram ∧ AreFound .empty shadowProgram := by
  intro AreFound
  have hfound {store : Definitions} {n : Node} (hstore : ∀ entry ∈ store.entries,
      entry.2.isConcrete = true ∧
        ((vouched 20 entry.2).runOn (freshMachine store true)).1.isOk = true)
      (hn : n.isConcrete = true) (hok : ((vouched 20 n).runOn (freshMachine store true)).1.isOk = true)
      (hattentive : ((attentive 20 n).runOn (freshMachine store true)).1.isOk = true) :
      AreFound store n := by
    have hfresh := isFresh_freshMachine store true
    have hpass : store.Passes n := .of_isOk 20 hfresh hok
    have hattentive : ((attentive 20 n).runOn (freshMachine store true)).1 ≠ .error .exhausted := by
      obtain ⟨v, t, hrun⟩ := runOn_of_isOk hattentive
      rw [hrun]
      nofun
    refine ⟨hpass, hattentive, checked_names_are_found (fun hx => ?_) hn hpass hfresh rfl hattentive⟩
    obtain ⟨entry, hentry, rfl⟩ := Definitions.mem_of_lookup hx
    exact ⟨(hstore entry hentry).1, .of_isOk 20 hfresh (hstore entry hentry).2⟩
  exact ⟨hfound (by decide +kernel) (by decide) (by decide +kernel) (by decide +kernel),
    hfound (by decide +kernel) (by decide) (by decide +kernel) (by decide +kernel)⟩

/-- `@x(Number) @x(Number) (@y(Number) x + y)(1)` -/
def renamedProgram : Node :=
  .func ⟨0, .builtin⟩ ⟨.builtin, "x", .ident ⟨1, .builtin⟩ "Number"⟩
    [.func ⟨2, .builtin⟩ ⟨.builtin, "x", .ident ⟨3, .builtin⟩ "Number"⟩
      [.call ⟨4, .builtin⟩
        (.func ⟨5, .builtin⟩ ⟨.builtin, "y", .ident ⟨6, .builtin⟩ "Number"⟩
          [.binOp ⟨7, .builtin⟩ .add (.ident ⟨8, .builtin⟩ "x") (.ident ⟨9, .builtin⟩ "y")])
        (.lit ⟨10, .builtin⟩ (.number 1))]]

/-- `f = @b(Bool) if b then 1 else f(missing)` -/
def voidDefinitions : Definitions :=
  ⟨[("f", .func ⟨0, .builtin⟩ ⟨.builtin, "b", .ident ⟨1, .builtin⟩ "Bool"⟩
    [.ifElse ⟨2, .builtin⟩ (.ident ⟨3, .builtin⟩ "b") [.lit ⟨4, .builtin⟩ (.number 1)]
      [.call ⟨5, .builtin⟩ (.ident ⟨6, .builtin⟩ "f") (.ident ⟨7, .builtin⟩ "missing")]])]⟩

/-- `{ h = f; h(false) }` -/
def voidProgram : Node :=
  .block ⟨8, .builtin⟩
    [.assign ⟨9, .builtin⟩ (.ident ⟨10, .builtin⟩ "h") (.ident ⟨11, .builtin⟩ "f") false none,
    .call ⟨12, .builtin⟩ (.ident ⟨13, .builtin⟩ "h") (.lit ⟨14, .builtin⟩ (.bool false))]

theorem Fault.exists_of_unknownName? {f : Fault} {x : Name} (h : f.unknownName? = some x) :
    ∃ site, f = .error (.unknownName x site) := by
  unfold Fault.unknownName? at h
  split at h
  · cases h
    exact ⟨_, rfl⟩
  · cases h

/-- Both gaps are there. The inner `x` becomes `x#0`, and is looked up by that name when the callee,
evaluated to `@y(Number) x#0 + y`, is unfolded. And the recursive call of `f` is void where `f` is
checked, which is told by its callee alone. -/
theorem checked_name_is_missing :
    let IsMissing (store : Definitions) (n : Node) (x : Name) : Prop :=
      (∀ entry ∈ store.entries, ((check 12 entry.2).runOn (freshMachine store true)).1.isOk = true) ∧
      ((check 12 n).runOn (freshMachine store true)).1.isOk = true ∧
      ∃ site t, (eval 12 n).runOn (freshMachine store true) =
        (.error (.error (.unknownName x site)), t)
    IsMissing .empty renamedProgram "x#0" ∧ IsMissing voidDefinitions voidProgram "missing" := by
  intro IsMissing
  have hmissing {store : Definitions} {n : Node} {x : Name}
      (h : (match ((eval 12 n).runOn (freshMachine store true)).1 with
        | .error f => f.unknownName?
        | .ok _ => none) = some x) :
      ∃ site t, (eval 12 n).runOn (freshMachine store true) =
        (.error (.error (.unknownName x site)), t) := by
    cases hrun : (eval 12 n).runOn (freshMachine store true) with
    | mk r t =>
      rw [hrun] at h
      cases r with
      | ok v => cases h
      | error f =>
        obtain ⟨site, rfl⟩ := Fault.exists_of_unknownName? h
        exact ⟨site, t, rfl⟩
  exact ⟨⟨by decide +kernel, by decide +kernel, hmissing (by decide +kernel)⟩,
    ⟨by decide +kernel, by decide +kernel, hmissing (by decide +kernel)⟩⟩

end Residual
