/-
Rules for the checker, in the manner of those for the evaluator: each function of the checker has a
rule that tells what it leads to from what its parts lead to, for every property of types and every set
of faults. Arms of a branch may be void where the branch is not, so the rules for branches know two sets
of faults.
-/
import Residual.Check
import Residual.Proofs.Logic

namespace Residual.Check

open Pass

variable {ev ck : Nat → Node → Pass Node} {env : Env} {F : Fault → Prop} {P Q R : Node → Prop}

theorem returns_builtin (b : Builtin) (h : ∀ t, P (.builtin t b)) :
    Returns env (fun _ => Pass.builtin b) F P :=
  (returns_tagAt _).bind fun t _ => returns_pure (h t)

theorem returns_placeholder (span : Span) (ty : Node) :
    Returns env (fun _ => placeholder span ty) F fun v => ∃ tag, v = .selfType tag ty :=
  (returns_tagAt _).bind fun tag _ => returns_pure ⟨tag, rfl⟩

/-! ## Names -/

/-- A name that is bound has the type of its value. -/
theorem returns_checkBound {x : Name} {b : Binding} (tag : Tag) (hx : env.lookup x = some (.bound b))
    (h : Returns { env with locals := .empty } (fun d => ck d b.value) F P) :
    Returns env (fun d => checkIdent (ck d) tag x) F P := by
  refine returns_env.bind fun _ heq => ?_
  subst heq
  simp only [hx]
  refine (returns_pure (P := (· = b.value)) rfl).bind fun v hv => ?_
  subst hv
  exact Returns.under h Guard.lawful_globals

theorem returns_checkBuiltin {x : Name} {b : Builtin} (tag : Tag)
    (hx : env.lookup x = some (.builtin b))
    (h : ∀ t, Returns { env with locals := .empty } (fun d => ck d (.builtin t b)) F P) :
    Returns env (fun d => checkIdent (ck d) tag x) F P := by
  refine returns_env.bind fun _ heq => ?_
  subst heq
  simp only [hx]
  refine (returns_builtin b (P := fun v => ∃ t, v = .builtin t b) fun t => ⟨t, rfl⟩).bind fun v hv => ?_
  obtain ⟨t, rfl⟩ := hv
  exact Returns.under (h t) Guard.lawful_globals

/-- A definition is void while it is being checked. -/
theorem returns_checkDefinition {x : Name} {d : DefId} {v : Node} (tag : Tag)
    (hx : env.lookup x = some (.defined d v))
    (hfunc : v.isFunc = true → Returns { env with locals := .empty } (fun d => ck d v) F P)
    (hvoid : v.isFunc = false → env.isOnStack v = true → F .void)
    (hvalue : v.isFunc = false → env.isOnStack v = false →
      Returns ({ env with locals := .empty }.enterCall v) (fun d => ck d v) F P) :
    Returns env (fun d => checkIdent (ck d) tag x) F P := by
  refine returns_env.bind fun _ heq => ?_
  subst heq
  simp only [hx]
  refine (returns_pure (P := (· = v)) rfl).bind fun v' hv => ?_
  subst hv
  refine Returns.under ?_ Guard.lawful_globals
  cases hf : v'.isFunc with
  | true =>
    simp only [if_true]
    exact hfunc hf
  | false =>
    simp only [Bool.false_eq_true, if_false]
    refine returns_env.bind fun _ heq => ?_
    subst heq
    cases hon : env.isOnStack v' with
    | true =>
      have hon' : (Guard.globals.enter env).isOnStack v' = true := hon
      simp only [hon', if_true]
      exact returns_throw (hvoid hf hon)
    | false =>
      have hon' : (Guard.globals.enter env).isOnStack v' = false := hon
      simp only [hon', Bool.false_eq_true, if_false]
      exact Returns.under (hvalue hf hon) (Guard.lawful_call _)

/-! ## Type expressions -/

theorem returns_denoted {ty : Node} (hck : Returns env (fun d => ck d ty) F fun _ => True)
    (hev : Returns { env with resolve := true } (fun d => ev d ty) F P) :
    Returns env (fun d => denoted (ev d) (ck d) ty) F P :=
  hck.bind fun _ _ => Returns.under hev (Guard.lawful_resolve true)

theorem returns_typeExpr {ty : Node} (h : Returns env (fun d => denoted (ev d) (ck d) ty) F P)
    (hP : ∀ v, P v → v.isType = true) :
    Returns env (fun d => typeExpr (ev d) (ck d) ty) F P := by
  refine h.bind fun v hv => ?_
  simp only [hP v hv, if_true]
  exact returns_pure hv

theorem returns_declaredType {ty : Node} (h : Returns env (fun d => denoted (ev d) (ck d) ty) F P)
    (hP : ∀ v, P v → v.isType = true) :
    Returns env (fun d => declaredType (ev d) (ck d) ty) F P := by
  refine h.bind fun v hv => ?_
  simp only [hP v hv, if_true]
  exact returns_pure hv

/-- The type of a field may be void. -/
theorem returns_checkFieldType {d : Decl Node}
    (h : Returns env (fun k => typeExpr (ev k) (ck k) d.ty) F P)
    (hev : ∀ k n, Restores (ev k n)) (hck : ∀ k n, Restores (ck k n)) :
    Returns env (fun k => checkFieldType (ev k) (ck k) d) F fun _ => True := by
  refine (h.attempt fun k => restores_typeExpr (hev k) (hck k) d.ty).bind fun r hr => ?_
  cases r with
  | ok t => exact returns_pure trivial
  | error f =>
    cases f with
    | void => exact returns_pure trivial
    | _ => exact returns_throw hr

theorem returns_checkFieldTypes {fields : List (Decl Node)}
    (h : ∀ d ∈ fields, Returns env (fun k => typeExpr (ev k) (ck k) d.ty) F fun _ => True)
    (hev : ∀ k n, Restores (ev k n)) (hck : ∀ k n, Restores (ck k n)) :
    Returns env (fun k => fields.forM (checkFieldType (ev k) (ck k))) F fun _ => True := by
  induction fields with
  | nil => exact returns_pure trivial
  | cons d fields ih =>
    obtain ⟨hd, hfields⟩ := List.forall_mem_cons.1 h
    exact (returns_checkFieldType hd hev hck).bind fun _ _ => ih hfields

/-! ## Requirements -/

theorem returns_expect {t u : Node} (h : compatible t u = true) (site : Span) :
    Returns env (fun _ => expect t u site) F fun _ => True := by
  simp only [expect, h, if_true]
  exact returns_pure trivial

theorem returns_checkArg {t u : Node} (h : compatible t u = true) (call arg definition : Span) :
    Returns env (fun _ => checkArg t u call arg definition) F fun _ => True := by
  simp only [checkArg, h, if_true]
  exact returns_pure trivial

theorem returns_expectBool {c : Node} (h : Returns env (fun d => ck d c) F P)
    (hP : ∀ t, P t → fits .bool t = true) :
    Returns env (fun d => expectBool (ck d) c) F fun _ => True := by
  refine h.bind fun t ht => ?_
  simp only [hP t ht, if_true]
  exact returns_pure trivial

theorem returns_checkOperand {e : Node} (op : Operator) (h : Returns env (fun d => ck d e) F P)
    (hP : ∀ t, P t → fits .number t = true) :
    Returns env (fun d => checkOperand (ck d) op e) F fun _ => True := by
  refine h.bind fun t ht => ?_
  simp only [hP t ht, if_true]
  exact returns_pure trivial

theorem returns_checkBinOp {op : Operator} {lhs rhs : Node} (tag : Tag) (hop : op ≠ .dot)
    (hl : Returns env (fun d => ck d lhs) F Q) (hQ : ∀ t, Q t → fits .number t = true)
    (hr : Returns env (fun d => ck d rhs) F R) (hR : ∀ t, R t → fits .number t = true)
    (hP : ∀ t, P (.builtin t (if op.isArithmetic then .number else .bool))) :
    Returns env (fun d => checkBinOp (ev d) (ck d) tag op lhs rhs) F P := by
  simp only [checkBinOp, hop, if_false]
  exact (returns_checkOperand op hl hQ).bind fun _ _ => (returns_checkOperand op hr hR).bind
    fun _ _ => returns_builtin _ hP

/-- The items of a list have compatible types. -/
theorem returns_checkList {items : List Node} (h : ∀ e ∈ items, Returns env (fun d => ck d e) F Q)
    (hQ : ∀ t u, Q t → Q u → compatible t u = true) (hP : ∀ t, P (.builtin t .list)) :
    Returns env (fun d => checkList (ck d) items) F P := by
  have hagainst : ∀ {others : List Node} {t : Node}, Q t →
      (∀ e ∈ others, Returns env (fun d => ck d e) F Q) →
      Returns env (fun d => checkItemsAgainst (ck d) t others) F fun _ => True := by
    intro others t ht
    induction others with
    | nil => exact fun _ => returns_pure trivial
    | cons e others ih =>
      intro h
      obtain ⟨he, h⟩ := List.forall_mem_cons.1 h
      exact he.bind fun u hu => (returns_expect (hQ t u ht hu) _).bind fun _ _ => ih h
  cases items with
  | nil => exact returns_builtin .list hP
  | cons first others =>
    obtain ⟨hfirst, h⟩ := List.forall_mem_cons.1 h
    exact hfirst.bind fun t ht => (hagainst ht h).bind fun _ _ => returns_builtin .list hP

/-! ## Sequences -/

/-- The nodes of a sequence pass the checker, each seen by those after it. -/
def ChecksSeq (ck : Nat → Node → Pass Node) (env : Env) (items : List Node) (F : Fault → Prop)
    (P : Node → Prop) : Prop :=
  ∀ last, items.getLast? = some last → Leads env (fun d => do
    checkItems (ck d) items.dropLast
    checkItem (ck d) last) F fun t e => P t ∧ Opened env e

theorem returns_checkItem {e : Node} (h : Returns env (fun d => ck d e) F P)
    (hb : e.boundName? = none) : Returns env (fun d => checkItem (ck d) e) F P := by
  refine h.bind fun t ht => ?_
  simp only [hb]
  exact returns_pure ht

/-- An alias that has a type stands for it in the nodes after it. -/
theorem leads_checkItem_alias {x : Name} {tag xtag : Tag} {value : Node} {transparent : Bool}
    {link : Option DefId}
    (h : Returns env (fun d => ck d (.assign tag (.ident xtag x) value transparent link)) F P) :
    Leads env (fun d => checkItem (ck d) (.assign tag (.ident xtag x) value transparent link)) F
      fun _ e => ∃ ty t, P ty ∧ e = env.push ⟨x, .selfType t ty, false, none⟩ := by
  refine h.leads fun ty hty => (returns_placeholder _ _).leads ?_
  rintro _ ⟨t, rfl⟩
  exact Leads.push (leads_pure ⟨ty, t, hty, rfl⟩)

namespace ChecksSeq

variable {items : List Node}

theorem mono (h : ChecksSeq ck env items F P) (hP : ∀ t, P t → Q t) : ChecksSeq ck env items F Q :=
  fun last hlast => (h last hlast).mono fun t _ ⟨ht, he⟩ => ⟨hP t ht, he⟩

theorem returns (h : ChecksSeq ck env items F P) (hne : items ≠ []) (site : Span) :
    Returns env (fun d => checkSeq (ck d) items site) F P := by
  simp only [checkSeq, List.getLast?_eq_some_getLast hne]
  exact (h _ (List.getLast?_eq_some_getLast hne)).scope

/-- A sequence goes on after its first node. -/
theorem cons {item : Node} {rest : List Node} (hne : rest ≠ [])
    (h : Leads env (fun d => checkItem (ck d) item) F
      fun _ e => Opened env e ∧ ChecksSeq ck e rest F P) : ChecksSeq ck env (item :: rest) F P := by
  intro last hlast
  cases rest with
  | nil => exact absurd rfl hne
  | cons next rest =>
    simp only [List.dropLast_cons_cons, checkItems, bind_assoc]
    rw [List.getLast?_cons_cons] at hlast
    exact h.bind fun _ _ ⟨hopen, hrest⟩ =>
      (hrest last hlast).mono fun t e ⟨ht, he⟩ => ⟨ht, hopen.trans he⟩

end ChecksSeq

theorem checksSeq_single {n : Node} (h : Returns env (fun d => ck d n) F P)
    (hb : n.boundName? = none) : ChecksSeq ck env [n] F P := by
  intro last hlast
  cases hlast
  refine Leads.mono ((returns_pure (P := fun _ => True) trivial).bind
    fun _ _ => returns_checkItem h hb) fun t e ⟨ht, he⟩ => ⟨ht, he ▸ .same⟩

/-- A sequence of one expression has its type. -/
theorem returns_checkSingle {n : Node} (h : Returns env (fun d => ck d n) F P)
    (hb : n.boundName? = none) (site : Span) :
    Returns env (fun d => checkSeq (ck d) [n] site) F P :=
  (checksSeq_single h hb).returns (List.cons_ne_nil _ _) site

/-- An alias has the type of its value, if its name is new. -/
theorem returns_checkAlias {x : Name} {value : Node} (tag xtag : Tag) (link : Option DefId)
    (hx : env.lookup x = none) (h : Returns env (fun d => ck d value) F P) :
    Returns env (fun d => checkAlias (ck d) tag (.ident xtag x) value link) F P := by
  refine returns_env.bind fun _ heq => ?_
  subst heq
  simp only [hx]
  exact h

/-! ## Branches -/

/-- An arm of a branch: it has a type, or else it is void or has a fault. -/
structure IsArm (F : Fault → Prop) (P : Node → Prop) (arm : Except Fault Node × Span) : Prop where
  ok : ∀ t, arm.1 = .ok t → P t
  error : ∀ f, arm.1 = .error f → f = .void ∨ F f

variable {arms : List (Except Fault Node × Span)}

/-- The types that are known of arms are types of arms; if none is, all arms are void. -/
theorem knownTypes_spec (h : ∀ arm ∈ arms, IsArm F P arm) :
    (∃ f, knownTypes arms = .error f ∧ F f) ∨
      ∃ known, knownTypes arms = .ok known ∧ (∀ k ∈ known, P k.1) ∧
        (known = [] → ∀ arm ∈ arms, arm.1 = .error .void) := by
  induction arms with
  | nil => exact .inr ⟨[], rfl, List.forall_mem_nil _, fun _ => List.forall_mem_nil _⟩
  | cons arm arms ih =>
    obtain ⟨harm, hrest⟩ := List.forall_mem_cons.1 h
    obtain ⟨r, site⟩ := arm
    cases r with
    | ok t =>
      rcases ih hrest with ⟨f, hf, hF⟩ | ⟨known, hknown, hP, -⟩
      · refine .inl ⟨f, ?_, hF⟩
        simp only [knownTypes, hf]
        rfl
      · refine .inr ⟨(t, site) :: known, ?_, List.forall_mem_cons.2 ⟨harm.ok t rfl, hP⟩,
          fun heq => absurd heq (List.cons_ne_nil _ _)⟩
        simp only [knownTypes, hknown]
        rfl
    | error f =>
      cases f with
      | void =>
        rcases ih hrest with ⟨f, hf, hF⟩ | ⟨known, hknown, hP, hnone⟩
        · exact .inl ⟨f, hf, hF⟩
        · exact .inr ⟨known, hknown, hP, fun heq => List.forall_mem_cons.2 ⟨rfl, hnone heq⟩⟩
      | _ => exact .inl ⟨_, rfl, (harm.error _ rfl).resolve_left fun heq => by cases heq⟩

/-- A branch has the type of one of its arms. -/
theorem returns_join (site : Span) (h : ∀ arm ∈ arms, IsArm F P arm)
    (hP : ∀ t u, P t → P u → compatible t u = true)
    (hnone : (∀ arm ∈ arms, arm.1 = .error .void) → F (.error (.cannotInfer site))) :
    Returns env (fun _ => join site arms) F P := by
  unfold join
  rcases knownTypes_spec h with ⟨f, hf, hF⟩ | ⟨known, hknown, htypes, hvoid⟩
  · rw [hf]
    exact Returns.bind (returns_throw (P := fun _ => False) hF) fun _ hfalse => hfalse.elim
  · rw [hknown]
    refine (returns_pure (P := (· = known)) rfl : Returns env (fun _ => (liftM (Except.ok known) :
      Pass (List (Node × Span)))) F (· = known)).bind fun known' hknown' => ?_
    subst hknown'
    cases known' with
    | nil => exact returns_throw (hnone (hvoid rfl))
    | cons first others =>
      obtain ⟨hfirst, hothers⟩ := List.forall_mem_cons.1 htypes
      have hfind : others.find? (fun k => !compatible first.1 k.1) = none := by
        rw [List.find?_eq_none]
        intro k hk
        simp [hP first.1 k.1 hfirst (hothers k hk)]
      simp only [hfind]
      exact returns_pure hfirst

/-- An arm is tried. Only a fault that ends the whole pass ends the branch. -/
theorem returns_arm {body : List Node} {site : Span} {G : Fault → Prop}
    (h : Returns env (fun d => checkSeq (ck d) body site) G P)
    (hG : ∀ f, G f → f = .void ∨ F f) (hck : ∀ d n, Restores (ck d n)) :
    Returns env (fun d => attempt (checkSeq (ck d) body site)) F
      fun r => (∀ s, IsArm F P (r, s)) ∧ (r = .error .void → G .void) := by
  have hattempt := h.attempt_faults fun d => restores_checkSeq (hck d) body site
  refine (hattempt.faults fun f hf => ?_).mono fun r hr => ?_
  · refine (hG f hf.1).resolve_left ?_
    rintro rfl
    cases hf.2
  · cases r with
    | ok t =>
      refine ⟨fun s => ⟨fun _ heq => ?_, fun _ heq => ?_⟩, fun heq => ?_⟩
      · cases heq
        exact hr
      · cases heq
      · cases heq
    | error f =>
      refine ⟨fun s => ⟨fun _ heq => ?_, fun _ heq => ?_⟩, fun heq => ?_⟩
      · cases heq
      · cases heq
        exact hG f hr
      · cases heq
        exact hr

section

variable {G G' : Fault → Prop}

/-- A branch by a condition. If both arms are void, its type cannot be inferred. -/
theorem returns_checkIf {c : Node} {thenBody elseBody : List Node} (tag : Tag)
    (hc : Returns env (fun d => ck d c) F Q) (hQ : ∀ t, Q t → fits .bool t = true)
    (hthen : Returns env (fun d => checkSeq (ck d) thenBody tag.span) G P)
    (helse : Returns env (fun d => checkSeq (ck d) elseBody tag.span) G' P)
    (hG : ∀ f, G f → f = .void ∨ F f) (hG' : ∀ f, G' f → f = .void ∨ F f)
    (hck : ∀ d n, Restores (ck d n)) (hP : ∀ t u, P t → P u → compatible t u = true)
    (hnone : G .void → G' .void → F (.error (.cannotInfer tag.span))) :
    Returns env (fun d => checkIf (ck d) tag c thenBody elseBody) F P := by
  refine (returns_expectBool hc hQ).bind fun _ _ => ?_
  refine (returns_arm hthen hG hck).bind fun r hr => (returns_arm helse hG' hck).bind fun r' hr' => ?_
  refine returns_join tag.span ?_ hP fun hvoid => ?_
  · exact List.forall_mem_cons.2 ⟨hr.1 _, List.forall_mem_cons.2 ⟨hr'.1 _, List.forall_mem_nil _⟩⟩
  · obtain ⟨hv, hvoid⟩ := List.forall_mem_cons.1 hvoid
    exact hnone (hr.2 hv) (hr'.2 (List.forall_mem_cons.1 hvoid).1)

theorem returns_checkCase {c : Case Node} {t : Node}
    (hp : c.pattern.isWildcard = false → Returns env (fun d => ck d c.pattern) F Q)
    (hQ : ∀ u, Q u → compatible t u = true)
    (hbody : Returns env (fun d => checkSeq (ck d) c.body c.span) G P)
    (hG : ∀ f, G f → f = .void ∨ F f) (hck : ∀ d n, Restores (ck d n)) :
    Returns env (fun d => checkCase (ck d) t c) F (IsArm F P) := by
  have harm : Returns env (fun d => do
      let ty ← attempt (checkSeq (ck d) c.body c.span)
      return (ty, bodySite c.body c.span)) F (IsArm F P) :=
    (returns_arm hbody hG hck).bind fun r hr => returns_pure (hr.1 _)
  unfold checkCase
  cases hw : c.pattern.isWildcard with
  | true => exact harm
  | false =>
    simp only [Bool.not_false, if_true]
    exact (hp hw).bind fun u hu => (returns_expect (hQ u hu) _).bind fun _ _ => harm

theorem returns_checkMatch {scrutinee : Node} {cases : List (Case Node)} (tag : Tag)
    (hs : Returns env (fun d => ck d scrutinee) F Q)
    (hp : ∀ c ∈ cases, c.pattern.isWildcard = false → Returns env (fun d => ck d c.pattern) F Q)
    (hQ : ∀ t u, Q t → Q u → compatible t u = true)
    (hb : ∀ c ∈ cases, Returns env (fun d => checkSeq (ck d) c.body c.span) G P)
    (hG : ∀ f, G f → f = .void ∨ F f) (hck : ∀ d n, Restores (ck d n))
    (hP : ∀ t u, P t → P u → compatible t u = true) (hnone : F (.error (.cannotInfer tag.span))) :
    Returns env (fun d => checkMatch (ck d) tag scrutinee cases) F P := by
  refine hs.bind fun t ht => ?_
  refine (Returns.mapM_all fun c hc =>
    returns_checkCase (hp c hc) (hQ t · ht) (hb c hc) hG hck).bind fun arms harms => ?_
  exact returns_join tag.span harms hP fun _ => hnone

end

/-! ## Functions and calls -/

/-- A function has a function type, with the type of its body as the result. It is void while it is
being checked. -/
theorem returns_checkFunc {param : Decl Node} {body : List Node} {tag : Tag} {B : Node → Node → Prop}
    (hvoid : env.isOnStack (.func tag param body) = true → F .void)
    (hty : Returns env (fun d => declaredType (ev d) (ck d) param.ty) F Q)
    (hbody : ∀ ty t, Q ty → env.isOnStack (.func tag param body) = false →
      Returns { (env.enterCall (.func tag param body)).push
        ⟨param.name, .selfType t ty, false, none⟩ with resolve := false }
        (fun d => checkSeq (ck d) body tag.span) F (B ty))
    (hmake : ∀ t id ty r, Q ty → B ty r → P (.fnType t id ty r)) :
    Returns env (fun d => checkFunc (ev d) (ck d) tag param body) F P := by
  refine returns_env.bind fun _ heq => ?_
  subst heq
  cases hon : env.isOnStack (.func tag param body) with
  | true =>
    simp only [if_true]
    exact returns_throw (hvoid hon)
  | false =>
    simp only [Bool.false_eq_true, if_false]
    refine hty.bind fun ty hQ => (returns_placeholder _ _).bind fun value hvalue => ?_
    obtain ⟨t, rfl⟩ := hvalue
    refine Returns.bind (Returns.under (Returns.under (Returns.under (hbody ty t hQ hon)
      (Guard.lawful_resolve false)) (Guard.lawful_binding _)) (Guard.lawful_call _)) fun r hr => ?_
    exact (returns_tagAt _).bind fun t' _ => returns_pure (hmake t' _ ty r hQ hr)

/-- A call of what has a function type. If the callee is known, the call has the type of what it
becomes. -/
theorem returns_checkCall {callee arg : Node} (tag : Tag) {S : Node → Node → Prop}
    (hcallee : Returns env (fun d => ck d callee) F
      fun t => ∃ tag id dom cod, t = .fnType tag id dom cod ∧ S dom cod)
    (harg : Returns env (fun d => ck d arg) F Q)
    (hQ : ∀ dom cod t, S dom cod → Q t → compatible dom t = true)
    (hfunction : Returns { env with resolve := true } (fun d => ev d callee) F R)
    (hknown : ∀ dom cod t param body, S dom cod → R (.func t param body) → ∃ N,
      Returns { env with resolve := true } (fun d => ev d (.call tag callee arg)) F N ∧
      ∀ result t', N result → Returns ((env.enterCall (.func t param body)).push
        ⟨param.name, .selfType t' dom, true, none⟩) (fun d => ck d result) F P)
    (hunknown : ∀ dom cod, S dom cod → P cod) :
    Returns env (fun d => checkCall (ev d) (ck d) tag callee arg) F P := by
  refine hcallee.bind fun calleeType hsig => ?_
  obtain ⟨ctag, id, dom, cod, rfl, hS⟩ := hsig
  refine (returns_pure (P := (· = some (dom, cod))) rfl).bind fun declared hdeclared => ?_
  subst hdeclared
  refine harg.bind fun argType hargType =>
    (Returns.under hfunction (Guard.lawful_resolve true)).bind fun f hf => ?_
  have hcompatible := hQ dom cod argType hS hargType
  cases f with
  | func t param body =>
    obtain ⟨N, hresult, hcheck⟩ := hknown dom cod t param body hS hf
    refine (returns_checkArg hcompatible _ _ _).bind fun _ _ =>
      (Returns.under hresult (Guard.lawful_resolve true)).bind fun result hN =>
        (returns_placeholder _ _).bind fun value hvalue => ?_
    obtain ⟨t', rfl⟩ := hvalue
    exact Returns.under (Returns.under (hcheck result t' hN) (Guard.lawful_binding _))
      (Guard.lawful_call _)
  | _ => exact (returns_checkArg hcompatible _ _ _).bind fun _ _ => returns_pure (hunknown dom cod hS)

/-! ## Records -/

/-- A field has the type of its value if the instance is known, and the declared one otherwise. -/
theorem returns_checkDot {lhs : Node} {f : Name} (tag ftag : Tag)
    (hlhs : Returns env (fun d => ev d lhs) F Q)
    (hfield : ∀ t template body, Q (.inst t template body) →
      ∃ value, Node.fieldValue? body f = some value ∧ Returns env (fun d => ck d value) F P)
    (howner : Returns env (fun d => ck d lhs) F fun t => ∃ tag id fields range decl,
      t = .record tag id fields range ∧ Node.fieldDecl? fields f = some decl ∧
      Returns env (fun d => typeExpr (ev d) (ck d) decl.ty) F P) :
    Returns env (fun d => checkDot (ev d) (ck d) tag lhs (.ident ftag f)) F P := by
  refine hlhs.bind fun owner hQ => ?_
  cases owner with
  | inst t template body =>
    obtain ⟨value, hvalue, hck⟩ := hfield t template body hQ
    simp only [hvalue]
    exact hck
  | _ =>
    refine howner.bind fun owner hfields => ?_
    obtain ⟨_, _, fields, _, decl, rfl, hdecl, hty⟩ := hfields
    simp only [hdecl]
    exact hty

/-- The items of the body of a record instance give declared fields values of their types. -/
theorem returns_checkFields {template : Node} {fields : List (Decl Node)} : ∀ {body : List Node},
    (∀ n ∈ body, ∃ t ft f value transparent link decl Q,
      n = .assign t (.ident ft f) value transparent link ∧ Node.fieldDecl? fields f = some decl ∧
      Returns env (fun d => typeExpr (ev d) (ck d) decl.ty) F Q ∧
      Returns env (fun d => ck d value) F Q ∧ ∀ t u, Q t → Q u → compatible t u = true) →
    Returns env (fun d => checkFields (ev d) (ck d) template fields none body) F fun _ => True
  | [], _ => returns_pure trivial
  | n :: body, h => by
    obtain ⟨hn, hbody⟩ := List.forall_mem_cons.1 h
    obtain ⟨t, ft, f, value, transparent, link, decl, Q, rfl, hdecl, hty, hvalue, hQ⟩ := hn
    have hfield : Returns env (fun d => checkField (ev d) (ck d) template fields none
        (.assign t (.ident ft f) value transparent link)) F fun _ => True := by
      simp only [checkField, Node.ident?, hdecl]
      exact hty.bind fun expected hexpected => hvalue.bind fun found hfound =>
        (returns_expect (hQ _ _ hexpected hfound) _).bind fun _ _ => returns_pure trivial
    exact hfield.bind fun _ _ => returns_checkFields hbody

end Residual.Check
