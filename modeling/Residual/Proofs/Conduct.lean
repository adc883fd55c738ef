/-
What every step of the checker keeps up. A regime says which environments and faults are met in a run,
which nodes are checked, and what they evaluate to and which types they have: children of a node that fits
do fit, so does what the checker makes of nodes that fit, and a name stands for a node that fits. Each step
of the checker keeps a regime up if the evaluator and the checker of the parts do. Where a function, a
definition or the result of a call is entered, a regime may have to be changed, and calls may have faults
of their own; these are left to the regime.
-/
import Residual.Proofs.Age
import Residual.Proofs.Parts

namespace Residual

open Pass

/-- Which environments, nodes and faults are met once the counter has come to `c`: nodes that fit may be
checked, values may be evaluated as well, and types are what the checker ends with. -/
structure Regime where
  Ready : (c : Nat) → Env → Prop
  Fit : (c : Nat) → Node → Prop
  Value : (c : Nat) → Node → Prop
  Ty : (c : Nat) → Node → Prop
  Fine : Fault → Prop
  ready_mono : ∀ {c c' : Nat} {env : Env}, Ready c env → c ≤ c' → Ready c' env
  fit_mono : ∀ {c c' : Nat} {n : Node}, Fit c n → c ≤ c' → Fit c' n
  value_mono : ∀ {c c' : Nat} {n : Node}, Value c n → c ≤ c' → Value c' n
  ty_mono : ∀ {c c' : Nat} {n : Node}, Ty c n → c ≤ c' → Ty c' n
  fit_of_value : ∀ {c : Nat} {n : Node}, Value c n → Fit c n
  value_of_ty : ∀ {c : Nat} {n : Node}, Ty c n → Value c n
  ty_of_value : ∀ {c : Nat} {n : Node}, Value c n → n.isType = true → Ty c n
  child : ∀ {c : Nat} {m n : Node}, Fit c n → m ∈ n.children → Value c m
  /-- What a function type and a placeholder are made of are types. -/
  signature : ∀ {c : Nat} {t : Tag} {id : TypeId} {dom cod : Node}, Ty c (.fnType t id dom cod) →
    Ty c dom ∧ Ty c cod
  content : ∀ {c : Nat} {t : Tag} {ty : Node}, Fit c (.selfType t ty) → Ty c ty
  /-- Nodes that are made fit. -/
  builtin : ∀ {c c' : Nat} {env : Env} {t : Tag} (b : Builtin), Ready c env → c ≤ t.id → t.id < c' →
    Ty c' (.builtin t b)
  selfType : ∀ {c c' : Nat} {env : Env} {t : Tag} {ty : Node}, Ready c env → c ≤ t.id → t.id < c' →
    Ty c ty → Fit c' (.selfType t ty)
  fnType : ∀ {c c' : Nat} {env : Env} {t : Tag} {dom cod : Node} (id : TypeId), Ready c env →
    c ≤ t.id → t.id < c' → Ty c dom → Ty c cod → Ty c' (.fnType t id dom cod)
  /-- A name may be bound to a placeholder. -/
  push : ∀ {c : Nat} {env : Env} {t : Tag} {ty : Node} (x : Name) (transparent : Bool), Ready c env →
    Fit c (.selfType t ty) → Ready c (env.push ⟨x, .selfType t ty, transparent, none⟩)
  resolve : ∀ {c : Nat} {env : Env} (b : Bool), Ready c env → Ready c { env with resolve := b }
  globals : ∀ {c : Nat} {env : Env}, Ready c env → Ready c { env with locals := .empty }
  bound : ∀ {c : Nat} {env : Env} {x : Name} {b : Binding}, Ready c env →
    env.lookup x = some (.bound b) → Fit c b.value
  defined : ∀ {c : Nat} {env : Env} {t : Tag} {x : Name} {d : DefId} {v : Node}, Ready c env →
    Fit c (.ident t x) → env.lookup x = some (.defined d v) → Fit c v
  error : ∀ e : TypeError, Fine (.error e)

namespace Regime

/-- An evaluator that keeps the regime up. -/
def Evals (R : Regime) (ev : Node → Pass Node) : Prop :=
  ∀ ⦃env : Env⦄ ⦃c : Nat⦄ ⦃n : Node⦄, R.Ready c env → R.Value c n →
    Settles R.Fine env c (ev n) R.Value

/-- A checker that keeps the regime up. -/
def Checks (R : Regime) (ck : Node → Pass Node) : Prop :=
  ∀ ⦃env : Env⦄ ⦃c : Nat⦄ ⦃n : Node⦄, R.Ready c env → R.Fit c n → Settles R.Fine env c (ck n) R.Ty

variable {R : Regime} {ev ck : Node → Pass Node} {env : Env} {c : Nat} {n : Node} {items : List Node}

theorem fit_child (R : Regime) {m : Node} (h : R.Fit c n) (hm : m ∈ n.children) : R.Fit c m :=
  R.fit_of_value (R.child h hm)

theorem settles_error {α : Type} {P : Nat → α → Prop} (e : TypeError) :
    Settles R.Fine env c (fail e : Pass α) P := settles_fail (R.error e)

theorem settles_builtin (henv : R.Ready c env) (b : Builtin) :
    Settles R.Fine env c (Pass.builtin b) R.Ty := by
  refine (settles_newTag _).bind fun c₁ t _ ht => settles_pure fun c₂ hle => ?_
  exact R.ty_mono (R.builtin b henv ht.1 ht.2) hle

theorem settles_placeholder (henv : R.Ready c env) (span : Span) {ty : Node} (hty : R.Ty c ty) :
    Settles R.Fine env c (Check.placeholder span ty)
      fun c v => ∃ t, v = .selfType t ty ∧ R.Fit c (.selfType t ty) := by
  refine (settles_newTag _).bind fun c₁ t _ ht => settles_pure fun c₂ hle => ⟨t, rfl, ?_⟩
  exact R.fit_mono (R.selfType henv ht.1 ht.2 hty) hle

theorem settles_expect (expected found : Node) (site : Span) :
    Settles R.Fine env c (Check.expect expected found site) fun _ _ => True := by
  unfold Check.expect
  split
  · exact settles_pure fun _ _ => trivial
  · exact settles_error _

theorem settles_checkArg (expected found : Node) (call arg definition : Span) :
    Settles R.Fine env c (Check.checkArg expected found call arg definition) fun _ _ => True := by
  unfold Check.checkArg
  split
  · exact settles_pure fun _ _ => trivial
  · exact settles_error _

/-- A function type tells the types of the argument and of the result. -/
theorem settles_signature {ty : Node} (hty : R.Ty c ty) (site : Span) :
    Settles R.Fine env c (Check.signature ty site) fun c declared =>
      (∀ dom cod, declared = some (dom, cod) → R.Ty c dom ∧ R.Ty c cod) ∧
        ∀ t id dom cod, ty = .fnType t id dom cod → declared ≠ none := by
  unfold Check.signature
  split
  · rename_i dom cod
    refine settles_pure fun c₁ hle => ⟨?_, fun _ _ _ _ _ h => by cases h⟩
    rintro _ _ ⟨⟩
    exact R.signature (R.ty_mono hty hle)
  · exact settles_pure fun _ _ => ⟨fun _ _ h => (by cases h), fun _ _ _ _ h => by cases h⟩
  · exact settles_pure fun _ _ => ⟨fun _ _ h => (by cases h), fun _ _ _ _ h => by cases h⟩
  · exact settles_error _

/-! ## Sequences -/

/-- The type of an arm of a branch is one, and its fault may occur. -/
def IsArm (R : Regime) (c : Nat) (r : Except Fault Node) : Prop :=
  (∀ ty, r = .ok ty → R.Ty c ty) ∧ ∀ f, r = .error f → R.Fine f

theorem IsArm.mono {r : Except Fault Node} {c' : Nat} (h : R.IsArm c r) (hle : c ≤ c') :
    R.IsArm c' r :=
  ⟨fun ty hty => R.ty_mono (h.1 ty hty) hle, h.2⟩

section

variable (hc : ∀ n, Restores (ck n)) (hck : R.Checks ck)

include hck

theorem tracks_checkItem (henv : R.Ready c env) (hn : R.Fit c n) :
    Tracks R.Fine env c (Check.checkItem ck n) fun c ty e => R.Ty c ty ∧ R.Ready c e := by
  refine Tracks.bind (hck henv hn) ?_
  rintro c₁ ty e hle ⟨hty, rfl⟩
  have henv := R.ready_mono henv hle
  split
  · refine Tracks.bind (settles_placeholder henv _ hty) ?_
    rintro c₂ v e' hle' ⟨⟨t, rfl, hv⟩, rfl⟩
    refine Tracks.bind tracks_push ?_
    rintro c₃ _ e'' hle'' rfl
    refine tracks_pure fun c₄ hle₄ => ⟨R.ty_mono hty (by omega), ?_⟩
    exact R.ready_mono (R.push _ false (R.ready_mono henv hle') hv) (by omega)
  · exact tracks_pure fun c₂ hle' => ⟨R.ty_mono hty hle', R.ready_mono henv hle'⟩

theorem tracks_checkItems : ∀ {items : List Node} {env : Env} {c : Nat}, R.Ready c env →
    (∀ n ∈ items, R.Fit c n) →
    Tracks R.Fine env c (Check.checkItems ck items) fun c _ e => R.Ready c e
  | [], _, _, henv, _ => tracks_pure fun _ hle => R.ready_mono henv hle
  | n :: items, env, c, henv, h => by
    obtain ⟨hn, hitems⟩ := List.forall_mem_cons.1 h
    refine Tracks.bind (tracks_checkItem hck henv hn) ?_
    rintro c₁ _ e hle ⟨-, he⟩
    exact tracks_checkItems he fun n hn => R.fit_mono (hitems n hn) hle

include hc

theorem settles_checkSeq (henv : R.Ready c env) (h : ∀ n ∈ items, R.Fit c n) (site : Span) :
    Settles R.Fine env c (Check.checkSeq ck items site) R.Ty := by
  unfold Check.checkSeq
  split
  · exact settles_error _
  · rename_i last hlast
    refine Tracks.scope ?_
      ((Check.opens_checkItems hc _).bind fun _ => Check.opens_checkItem hc last).scope
    refine Tracks.bind
      (tracks_checkItems hck henv fun n hn => h n (List.dropLast_subset _ hn)) ?_
    intro c₁ _ e hle he
    exact (tracks_checkItem hck he (R.fit_mono (h last (List.mem_of_getLast? hlast)) hle)).mono
      fun _ _ _ hP => hP.1

theorem settles_arm (henv : R.Ready c env) (h : ∀ n ∈ items, R.Fit c n) (site : Span) :
    Settles R.Fine env c (attempt (Check.checkSeq ck items site)) R.IsArm :=
  (settles_checkSeq hc hck henv h site).attempt (Check.restores_checkSeq hc items site)

end

/-! ## Branches -/

theorem settles_join {arms : List (Except Fault Node × Span)} (site : Span)
    (h : ∀ arm ∈ arms, R.IsArm c arm.1) :
    Settles R.Fine env c (Check.join site arms) R.Ty := by
  unfold Check.join
  rcases Check.knownTypes_mem arms with ⟨f, hf, arm, harm, heq⟩ | ⟨known, hknown, hall⟩
  · rw [hf]
    exact Settles.bind (P := fun _ _ => False) (settles_throw ((h arm harm).2 f heq))
      fun _ _ _ hfalse => hfalse.elim
  · rw [hknown]
    have hlift : Settles R.Fine env c (liftM (Except.ok known : Except Fault (List (Node × Span))))
        fun _ tys => tys = known := settles_pure fun _ _ => rfl
    refine hlift.bind ?_
    rintro c₁ _ hle rfl
    split
    · exact settles_error _
    · rename_i first firstSite others
      split
      · exact settles_error _
      · have hfirst := (h _ (hall (first, firstSite) List.mem_cons_self)).1 first rfl
        exact settles_pure fun c₂ hle' => R.ty_mono hfirst (Nat.le_trans hle hle')

/-! ## Type expressions -/

section

variable (he : ∀ n, Restores (ev n)) (hc : ∀ n, Restores (ck n))
variable (hev : R.Evals ev) (hck : R.Checks ck)

include hev in
theorem settles_evalType (henv : R.Ready c env) (hn : R.Value c n) :
    Settles R.Fine env c (under (.resolve true) (ev n)) R.Value :=
  Settles.under (hev (R.resolve true henv) hn) (Guard.lawful_resolve true)

include hev hck

theorem settles_denoted (henv : R.Ready c env) (hn : R.Value c n) :
    Settles R.Fine env c (Check.denoted ev ck n) R.Value :=
  (hck henv (R.fit_of_value hn)).bind fun _ _ hle _ =>
    settles_evalType hev (R.ready_mono henv hle) (R.value_mono hn hle)

theorem settles_typeExpr (henv : R.Ready c env) (hn : R.Value c n) :
    Settles R.Fine env c (Check.typeExpr ev ck n) R.Ty := by
  refine (settles_denoted hev hck henv hn).bind fun c₁ v hle hv => ?_
  split
  · rename_i htype
    exact settles_pure fun _ hle' => R.ty_mono (R.ty_of_value hv htype) hle'
  · exact settles_error _

theorem settles_declaredType (henv : R.Ready c env) (hn : R.Value c n) :
    Settles R.Fine env c (Check.declaredType ev ck n) R.Ty := by
  refine (settles_denoted hev hck henv hn).bind fun c₁ v hle hv => ?_
  split
  · rename_i htype
    exact settles_pure fun _ hle' => R.ty_mono (R.ty_of_value hv htype) hle'
  · exact settles_builtin (R.ready_mono henv hle) .any

include he hc in
theorem settles_checkFieldTypes : ∀ {fields : List (Decl Node)} {c : Nat}, R.Ready c env →
    (∀ d ∈ fields, R.Value c d.ty) →
    Settles R.Fine env c (fields.forM (Check.checkFieldType ev ck)) fun _ _ => True
  | [], _, _, _ => settles_pure fun _ _ => trivial
  | d :: fields, c, henv, h => by
    obtain ⟨hd, hfields⟩ := List.forall_mem_cons.1 h
    have hfield : Settles R.Fine env c (Check.checkFieldType ev ck d) fun _ _ => True := by
      refine ((settles_typeExpr hev hck henv hd).attempt (Check.restores_typeExpr he hc d.ty)).bind ?_
      rintro c₁ result hle ⟨-, hfault⟩
      split
      · exact settles_pure fun _ _ => trivial
      · exact settles_pure fun _ _ => trivial
      · rename_i f _
        exact settles_throw (hfault f rfl)
    exact hfield.bind fun c₁ _ hle _ => settles_checkFieldTypes (R.ready_mono henv hle)
      fun d' hd' => R.value_mono (hfields d' hd') hle

end

/-! ## Lists and names -/

section

variable (hck : R.Checks ck)

include hck

theorem settles_checkItemsAgainst (expected : Node) : ∀ {items : List Node} {c : Nat},
    R.Ready c env → (∀ n ∈ items, R.Fit c n) →
    Settles R.Fine env c (Check.checkItemsAgainst ck expected items) fun _ _ => True
  | [], _, _, _ => settles_pure fun _ _ => trivial
  | n :: items, c, henv, h => by
    obtain ⟨hn, hitems⟩ := List.forall_mem_cons.1 h
    refine (hck henv hn).bind fun c₁ ty hle _ => (settles_expect expected ty n.span).bind ?_
    intro c₂ _ hle' _
    exact settles_checkItemsAgainst expected (R.ready_mono henv (Nat.le_trans hle hle'))
      fun n' hn' => R.fit_mono (hitems n' hn') (Nat.le_trans hle hle')

theorem settles_checkList (henv : R.Ready c env) (h : ∀ n ∈ items, R.Fit c n) :
    Settles R.Fine env c (Check.checkList ck items) R.Ty := by
  cases items with
  | nil => exact settles_builtin henv .list
  | cons n items =>
    obtain ⟨hn, hitems⟩ := List.forall_mem_cons.1 h
    refine (hck henv hn).bind fun c₁ expected hle _ => ?_
    have henv := R.ready_mono henv hle
    refine (settles_checkItemsAgainst hck expected henv
      fun n' hn' => R.fit_mono (hitems n' hn') hle).bind fun _ _ hle' _ => ?_
    exact settles_builtin (R.ready_mono henv hle') .list

theorem settles_checkAlias (henv : R.Ready c env) {value : Node} (hvalue : R.Fit c value) (tag : Tag)
    (target : Node) (link : Option DefId) :
    Settles R.Fine env c (Check.checkAlias ck tag target value link) R.Ty := by
  unfold Check.checkAlias
  split
  · exact settles_error _
  · refine settles_env.bind fun c₁ e hle _ => ?_
    have hck := hck (R.ready_mono henv hle) (R.fit_mono hvalue hle)
    split
    · exact hck
    · split
      · exact hck
      · exact settles_error _

/-- A definition is entered, unless it is being looked into already. -/
theorem settles_checkDefined (henter : R.Ready c (env.enterCall n)) (hn : R.Fit c n)
    (hvoid : env.isOnStack n = true → R.Fine .void) :
    Settles R.Fine env c (Check.checkDefined ck n) R.Ty := by
  refine settles_env.bind ?_
  rintro c₁ e hle rfl
  split
  · rename_i hon
    exact settles_throw (hvoid hon)
  · exact Settles.under (hck (R.ready_mono henter hle) (R.fit_mono hn hle)) (Guard.lawful_call n)

theorem settles_checkIdent (henv : R.Ready c env) {tag : Tag} {x : Name}
    (hn : R.Fit c (.ident tag x))
    (hdefined : ∀ {d v c'}, env.lookup x = some (.defined d v) → v.isFunc = false → c ≤ c' →
      Settles R.Fine { env with locals := .empty } c' (Check.checkDefined ck v) R.Ty) :
    Settles R.Fine env c (Check.checkIdent ck tag x) R.Ty := by
  refine settles_env.bind ?_
  rintro c₁ e hle rfl
  split
  · exact settles_error _
  · rename_i found hfound
    have henv := R.ready_mono henv hle
    cases found with
    | bound b =>
      have hv := R.bound henv hfound
      exact Settles.under (hck (R.globals henv) hv) Guard.lawful_globals
    | builtin b =>
      refine (settles_builtin henv b).bind fun c₂ v hle' hv => ?_
      exact Settles.under (hck (R.globals (R.ready_mono henv hle'))
        (R.fit_of_value (R.value_of_ty hv))) Guard.lawful_globals
    | defined d v =>
      -- a function enters itself
      refine Settles.under ?_ Guard.lawful_globals
      show Settles R.Fine _ c₁ (if v.isFunc then ck v else Check.checkDefined ck v) R.Ty
      split
      · exact hck (R.globals henv) (R.defined henv (R.fit_mono hn hle) hfound)
      · rename_i hfunc
        exact hdefined hfound (Bool.not_eq_true _ ▸ hfunc) hle

theorem settles_checkOperand (henv : R.Ready c env) (hn : R.Fit c n) (op : Operator) :
    Settles R.Fine env c (Check.checkOperand ck op n) fun _ _ => True := by
  refine (hck henv hn).bind fun c₁ ty hle _ => ?_
  split
  · exact settles_pure fun _ _ => trivial
  · exact settles_error _

theorem settles_expectBool (henv : R.Ready c env) (hn : R.Fit c n) :
    Settles R.Fine env c (Check.expectBool ck n) fun _ _ => True := by
  refine (hck henv hn).bind fun c₁ ty hle _ => ?_
  split
  · exact settles_pure fun _ _ => trivial
  · exact settles_error _

end

/-! ## Control -/

section

variable (hc : ∀ n, Restores (ck n)) (hck : R.Checks ck)

include hc hck

theorem settles_checkIf (henv : R.Ready c env) {tag : Tag} {condition : Node}
    {thenBody elseBody : List Node} (hn : R.Fit c (.ifElse tag condition thenBody elseBody)) :
    Settles R.Fine env c (Check.checkIf ck tag condition thenBody elseBody) R.Ty := by
  have hthen (n : Node) (hmem : n ∈ thenBody) := R.fit_child hn (Node.mem_children_then hmem)
  have helse (n : Node) (hmem : n ∈ elseBody) := R.fit_child hn (Node.mem_children_else hmem)
  refine (settles_expectBool hck henv (R.fit_child hn List.mem_cons_self)).bind fun c₁ _ hle₁ _ => ?_
  refine (settles_arm hc hck (R.ready_mono henv hle₁) (fun n hn => R.fit_mono (hthen n hn) hle₁)
    _).bind fun c₂ thenType hle₂ hthenType => ?_
  have hle := Nat.le_trans hle₁ hle₂
  refine (settles_arm hc hck (R.ready_mono henv hle) (fun n hn => R.fit_mono (helse n hn) hle) _).bind
    fun c₃ elseType hle₃ helseType => settles_join _ ?_
  exact List.forall_mem_cons.2 ⟨hthenType.mono hle₃, List.forall_mem_singleton.2 helseType⟩

theorem settles_checkCase (henv : R.Ready c env) {e : Case Node} (hpattern : R.Fit c e.pattern)
    (hbody : ∀ n ∈ e.body, R.Fit c n) (scrutineeType : Node) :
    Settles R.Fine env c (Check.checkCase ck scrutineeType e) fun c arm => R.IsArm c arm.1 := by
  have harm (c₁ : Nat) (hle : c ≤ c₁) : Settles R.Fine env c₁ (do
      let ty ← attempt (Check.checkSeq ck e.body e.span)
      return (ty, Check.bodySite e.body e.span)) fun c arm => R.IsArm c arm.1 := by
    refine (settles_arm hc hck (R.ready_mono henv hle) (fun n hn => R.fit_mono (hbody n hn) hle)
      _).bind fun c₂ result _ hresult => settles_pure fun c₃ hle₃ => hresult.mono hle₃
  unfold Check.checkCase
  split
  · refine (hck henv hpattern).bind fun c₁ ty hle _ => ?_
    exact (settles_expect _ _ _).bind fun c₂ _ hle' _ => harm c₂ (Nat.le_trans hle hle')
  · exact harm c (Nat.le_refl c)

theorem settles_checkMatch (henv : R.Ready c env) {tag : Tag} {scrutinee : Node}
    {cases : List (Case Node)} (hn : R.Fit c (.matchOn tag scrutinee cases)) :
    Settles R.Fine env c (Check.checkMatch ck tag scrutinee cases) R.Ty := by
  refine (hck henv (R.fit_child hn List.mem_cons_self)).bind fun c₁ scrutineeType hle _ => ?_
  refine (Settles.mapM (Q := fun c (arm : Except Fault Node × Span) => R.IsArm c arm.1)
    (fun _ _ _ hle harm => harm.mono hle) fun e he c₂ hle' => ?_).bind
    fun c₃ arms _ harms => settles_join _ harms
  have hn := R.fit_mono hn (Nat.le_trans hle hle')
  have hcase {m : Node} (hm : m ∈ e.pattern :: e.body) : R.Fit c₂ m :=
    R.fit_child hn (Node.mem_children_matchOn he hm)
  exact settles_checkCase hc hck (R.ready_mono henv (Nat.le_trans hle hle'))
    (hcase List.mem_cons_self) (fun n hn => hcase (List.mem_cons_of_mem _ hn)) scrutineeType

end

/-! ## Functions, fields and instances -/

section

variable (hc : ∀ n, Restores (ck n)) (hev : R.Evals ev) (hck : R.Checks ck)

include hev hck

include hc in
/-- A function is entered, unless it is being looked into already. Its body sees the parameter as a
placeholder. -/
theorem settles_checkFunc (henv : R.Ready c env) {tag : Tag} {param : Decl Node} {body : List Node}
    (hparam : R.Value c param.ty) (hbody : ∀ n ∈ body, R.Fit c n)
    (henter : R.Ready c (env.enterCall (.func tag param body)))
    (hvoid : env.isOnStack (.func tag param body) = true → R.Fine .void) :
    Settles R.Fine env c (Check.checkFunc ev ck tag param body) R.Ty := by
  refine settles_env.bind ?_
  rintro c₁ e hle₁ rfl
  split
  · rename_i hon
    exact settles_throw (hvoid hon)
  · have henv := R.ready_mono henv hle₁
    refine (settles_declaredType hev hck henv (R.value_mono hparam hle₁)).bind
      fun c₂ ty hle₂ hty => ?_
    refine (settles_placeholder (R.ready_mono henv hle₂) _ hty).bind ?_
    rintro c₃ _ hle₃ ⟨t, rfl, hv⟩
    have hle : c ≤ c₃ := by omega
    have hinner := R.resolve false (R.push param.name false (R.ready_mono henter hle) hv)
    have hresult : Settles R.Fine e c₃ (under (.call (.func tag param body)) <|
        under (.binding ⟨param.name, .selfType t ty, false, none⟩) <|
          under (.resolve false) (Check.checkSeq ck body tag.span)) R.Ty :=
      Settles.under (Settles.under (Settles.under (settles_checkSeq hc hck hinner
        (fun n hn => R.fit_mono (hbody n hn) hle) _) (Guard.lawful_resolve false))
        (Guard.lawful_binding _)) (Guard.lawful_call _)
    refine hresult.bind fun c₄ result hle₄ hresult => (settles_newTag _).bind
      fun c₅ t' hle₅ ht' => settles_pure fun c₆ hle₆ => R.ty_mono ?_ hle₆
    exact R.fnType _ (R.ready_mono henv (show c₁ ≤ c₄ by omega)) ht'.1 ht'.2
      (R.ty_mono hty (by omega)) hresult

theorem settles_checkDot (henv : R.Ready c env) {lhs : Node} (hlhs : R.Value c lhs) (tag : Tag)
    (rhs : Node) : Settles R.Fine env c (Check.checkDot ev ck tag lhs rhs) R.Ty := by
  unfold Check.checkDot
  split
  · exact settles_error _
  · refine (hev henv hlhs).bind fun c₁ owner hle howner => ?_
    have henv := R.ready_mono henv hle
    split
    · rename_i itag template body
      split
      · rename_i value hvalue
        obtain ⟨item, hitem, hchild⟩ := Node.exists_child_of_fieldValue? hvalue
        exact hck henv (R.fit_child (R.fit_child (R.fit_of_value howner) (hitem itag template)) hchild)
      · exact settles_error _
    · refine (hck henv (R.fit_mono (R.fit_of_value hlhs) hle)).bind fun c₂ ty hle' hty => ?_
      split
      · split
        · rename_i decl hdecl
          exact settles_typeExpr hev hck (R.ready_mono henv hle')
            (R.child (R.fit_of_value (R.value_of_ty hty))
              (Node.mem_children_record (List.mem_of_find?_eq_some hdecl)))
        · exact settles_error _
      · exact settles_error _

theorem settles_checkBinOp (henv : R.Ready c env) {op : Operator} {lhs rhs : Node} {tag : Tag}
    (hn : R.Fit c (.binOp tag op lhs rhs)) :
    Settles R.Fine env c (Check.checkBinOp ev ck tag op lhs rhs) R.Ty := by
  have hlhs : R.Value c lhs := R.child hn Node.mem_children_binOp
  unfold Check.checkBinOp
  split
  · exact settles_checkDot hev hck henv hlhs tag rhs
  · rename_i hop
    have hrhs : R.Fit c rhs := R.fit_child hn (Node.mem_children_rhs hop)
    refine (settles_checkOperand hck henv (R.fit_of_value hlhs) op).bind fun c₁ _ hle _ => ?_
    have henv := R.ready_mono henv hle
    exact (settles_checkOperand hck henv (R.fit_mono hrhs hle) op).bind fun _ _ hle' _ =>
      settles_builtin (R.ready_mono henv hle') _

omit hck in
theorem settles_checkRange (henv : R.Ready c env) (hn : R.Value c n) (range : Option Range) :
    Settles R.Fine env c (Check.checkRange ev range n) fun _ _ => True := by
  unfold Check.checkRange
  split
  · exact settles_pure fun _ _ => trivial
  · refine (settles_evalType hev henv hn).bind fun _ _ _ _ => ?_
    split
    · split
      · exact settles_error _
      · exact settles_pure fun _ _ => trivial
    · exact settles_pure fun _ _ => trivial

theorem settles_checkField (henv : R.Ready c env) (template : Node) {fields : List (Decl Node)}
    (hfields : ∀ d ∈ fields, R.Value c d.ty) (range : Option Range)
    (hn : n.ident? = none → R.Value c n) :
    Settles R.Fine env c (Check.checkField ev ck template fields range n) fun _ _ => True := by
  unfold Check.checkField
  split
  · rename_i value _ _
    have hvalue : R.Value c value := R.child (R.fit_of_value (hn rfl)) List.mem_cons_self
    split
    · exact settles_error _
    · split
      · exact settles_error _
      · rename_i decl hdecl
        refine (settles_typeExpr hev hck henv (hfields decl (List.mem_of_find?_eq_some hdecl))).bind
          fun c₁ expected hle₁ _ => ?_
        refine (hck (R.ready_mono henv hle₁) (R.fit_of_value (R.value_mono hvalue hle₁))).bind
          fun c₂ ty hle₂ _ => ?_
        refine (settles_expect _ _ _).bind fun c₃ _ hle₃ _ => ?_
        have hle : c ≤ c₃ := by omega
        exact settles_checkRange hev (R.ready_mono henv hle) (R.value_mono hvalue hle) range
  · exact settles_error _

theorem settles_checkFields (template : Node) {fields : List (Decl Node)} (range : Option Range) :
    ∀ {body : List Node} {c : Nat}, R.Ready c env → (∀ d ∈ fields, R.Value c d.ty) →
    (∀ n ∈ body, n.ident? = none → R.Value c n) →
    Settles R.Fine env c (Check.checkFields ev ck template fields range body) fun _ _ => True
  | [], _, _, _, _ => settles_pure fun _ _ => trivial
  | n :: body, c, henv, hfields, h => by
    obtain ⟨hn, hbody⟩ := List.forall_mem_cons.1 h
    refine (settles_checkField hev hck henv template hfields range hn).bind fun c₁ _ hle _ => ?_
    exact settles_checkFields template range (R.ready_mono henv hle)
      (fun d hd => R.value_mono (hfields d hd) hle)
      fun n' hn' hident => R.value_mono (hbody n' hn' hident) hle

theorem settles_checkInst (henv : R.Ready c env) {tag : Tag} {template : Node} {body : List Node}
    (hn : R.Fit c (.inst tag template body)) :
    Settles R.Fine env c (Check.checkInst ev ck tag template body) R.Ty := by
  refine (settles_typeExpr hev hck henv (R.child hn List.mem_cons_self)).bind fun c₁ ty hle hty => ?_
  split
  · refine (settles_checkFields hev hck _ _ (R.ready_mono henv hle)
      (fun d hd => R.child (R.fit_of_value (R.value_of_ty hty)) (Node.mem_children_record hd))
      fun n hmem hident => R.value_mono (R.child hn (Node.mem_children_inst hmem hident)) hle).bind
      fun c₂ _ hle' _ => ?_
    split
    · exact settles_error _
    · exact settles_pure fun _ hle'' => R.ty_mono hty (Nat.le_trans hle' hle'')
  · split
    · split
      · exact settles_pure fun _ hle' => R.ty_mono hty hle'
      · exact settles_error _
    · exact settles_error _
  · exact settles_error _

end

/-! ## Nodes -/

/-- One step at a node that is no function, call or name. -/
theorem settles_step (he : ∀ n, Restores (ev n)) (hc : ∀ n, Restores (ck n)) (hev : R.Evals ev)
    (hck : R.Checks ck) (henv : R.Ready c env) (hn : R.Fit c n)
    (hfunc : ∀ {tag param body}, n = .func tag param body →
      Settles R.Fine env c (Check.checkFunc ev ck tag param body) R.Ty)
    (hcall : ∀ {tag callee arg}, n = .call tag callee arg →
      Settles R.Fine env c (Check.checkCall ev ck tag callee arg) R.Ty)
    (hdefined : ∀ {tag x d v c'}, n = .ident tag x → env.lookup x = some (.defined d v) →
      v.isFunc = false → c ≤ c' →
      Settles R.Fine { env with locals := .empty } c' (Check.checkDefined ck v) R.Ty) :
    Settles R.Fine env c (Check.step ev ck n) R.Ty := by
  cases n with
  | lit tag l => exact settles_builtin henv _
  | enum | builtin => exact settles_builtin henv .type
  | unknown => exact settles_builtin henv .any
  | list => exact settles_checkList hck henv fun n hmem => R.fit_child hn hmem
  | record =>
    refine (settles_checkFieldTypes he hc hev hck henv
      fun d hd => R.child hn (Node.mem_children_record hd)).bind fun _ _ hle _ => ?_
    exact settles_builtin (R.ready_mono henv hle) .type
  | fnType tag id dom cod =>
    refine (settles_typeExpr hev hck henv (R.child hn List.mem_cons_self)).bind fun c₁ _ hle _ => ?_
    have henv := R.ready_mono henv hle
    have hcod : R.Value c cod := R.child hn (List.mem_cons_of_mem _ List.mem_cons_self)
    exact (settles_typeExpr hev hck henv (R.value_mono hcod hle)).bind
      fun _ _ hle' _ => settles_builtin (R.ready_mono henv hle') .type
  | selfType => exact settles_pure fun _ hle => R.ty_mono (R.content hn) hle
  | arg | field => exact settles_typeExpr hev hck henv (R.child hn List.mem_cons_self)
  | assign tag target value transparent link =>
    exact settles_checkAlias hck henv (R.fit_child hn List.mem_cons_self) tag target link
  | ident tag x => exact settles_checkIdent hck henv hn (hdefined rfl)
  | func => exact hfunc rfl
  | call => exact hcall rfl
  | binOp => exact settles_checkBinOp hev hck henv hn
  | matchOn => exact settles_checkMatch hc hck henv hn
  | whileDo tag condition body =>
    refine (settles_expectBool hck henv (R.fit_child hn List.mem_cons_self)).bind fun c₁ _ hle _ => ?_
    exact settles_checkSeq hc hck (R.ready_mono henv hle)
      (fun n hmem => R.fit_mono (R.fit_child hn (List.mem_cons_of_mem _ hmem)) hle) _
  | ifElse => exact settles_checkIf hc hck henv hn
  | block => exact settles_checkSeq hc hck henv (fun n hmem => R.fit_child hn hmem) _
  | inst => exact settles_checkInst hev hck henv hn

end Regime

end Residual
