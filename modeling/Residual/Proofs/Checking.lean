/-
Steps of checking first-order code. The checker is followed for two purposes at once: well-typed code
passes with its type, and code that passes is well typed. A `Reading` says which of the two. It reads
what is known of a type as built-in types; where two readings of one type differ, the checker may end
with an error. If a type is known, it has one reading and there is no error.
-/
import Residual.Proofs.CheckRules
import Residual.Proofs.Unfolding

namespace Residual

namespace FirstOrder

open Pass

variable {store : Definitions} {p : NodeId → Prop} {g : Stage} {Γ : List (Name × Builtin)} {env : Env}
variable {F : Fault → Prop}

/-! ## Types -/

/-- A node that is a type of data. -/
structure IsDataType (a : Builtin) (t : Node) : Prop where
  data : a.isData = true
  node : ∃ tag, t = .builtin tag a

/-- Types of data are compatible if they are the same. -/
theorem IsDataType.compatible_iff {a b : Builtin} {t u : Node} (ht : IsDataType a t)
    (hu : IsDataType b u) : compatible t u = true ↔ a = b := by
  obtain ⟨ha, tag, rfl⟩ := ht
  obtain ⟨-, tag', rfl⟩ := hu
  have hnames : compatible (.builtin tag a) (.builtin tag' b) = (a.name == b.name) := by
    cases a <;> cases ha <;> rfl
  rw [hnames, beq_iff_eq]
  refine ⟨fun h => ?_, fun h => h ▸ rfl⟩
  have hnamed := a.ofName?_name
  rw [h, b.ofName?_name] at hnamed
  exact (Option.some.inj hnamed).symm

/-- A node that is the type of programs of a shape. -/
def Shape.Denotes : Shape Builtin → Node → Prop
  | .data a, t => FirstOrder.IsDataType a t
  | .fn σ, t => ∃ tag id dom cod, t = .fnType tag id dom cod ∧ σ.Denotes cod

/-- Programs of one shape have compatible types. -/
theorem Shape.Denotes.compatible : ∀ {σ : Shape Builtin} {t u : Node}, σ.Denotes t → σ.Denotes u →
    compatible t u = true
  | .data _, _, _, ht, hu => (FirstOrder.IsDataType.compatible_iff ht hu).2 rfl
  | .fn _, _, _, ⟨_, _, _, _, ht, hcod⟩, ⟨_, _, _, _, hu, hcod'⟩ => by
    subst ht hu
    exact hcod.compatible hcod'

/-- How what is known of types is read as built-in types, and the faults that this allows for. -/
structure Reading {τ : Type} (ty : Builtin → τ) (reads : τ → Builtin → Prop) (F : Fault → Prop) :
    Prop where
  self : ∀ b, reads (ty b) b
  differ : ∀ {a b c}, reads a b → reads a c → b ≠ c → ∀ e, F (.error e)
  void : ¬ F .void

/-- Known types are read as they are, and there is no fault. -/
theorem reading_known : Reading (fun b => b) Eq NoFault :=
  ⟨fun _ => rfl, fun hb hc hne => absurd (hb.symm.trans hc) hne, fun h => h⟩

/-- A type of which nothing is known may be any one. Then there may be errors, but nothing is void. -/
theorem reading_unknown : Reading (fun _ => ()) (fun _ _ => True) (· ≠ .void) :=
  ⟨fun _ => trivial, fun _ _ _ _ h => (nomatch h), fun h => h rfl⟩

/-- A type of data that is a reading of what is known, and of which `Q` is true. -/
def Judged {τ : Type} (reads : τ → Builtin → Prop) (a : τ) (Q : Builtin → Prop) (t : Node) : Prop :=
  ∃ b, IsDataType b t ∧ reads a b ∧ Q b

theorem returns_builtin {a : Builtin} (h : a.isData = true) :
    Returns env (fun _ => Pass.builtin a) F (IsDataType a) :=
  (returns_tagAt _).bind fun tag _ => returns_pure ⟨h, tag, rfl⟩

/-! ## Environments of checking -/

/-- A binding to a placeholder for data of a type. -/
def StandsFor (a : Builtin) (b : Binding) : Prop :=
  (∃ tag ty, b.value = .selfType tag ty ∧ IsDataType a ty) ∧ b.rename = none

/-- Every name in scope stands for data of its type, and no other name is bound. -/
structure Checks (store : Definitions) (p : NodeId → Prop) (Γ : List (Name × Builtin)) (env : Env) :
    Prop extends env.Over store where
  calls : Avoids p env
  vars : Binds StandsFor Γ env
  others : Covers Γ env

namespace Checks

/-- Of names that stand for their types, evaluation knows the types only. -/
theorem interprets (h : Checks store p Γ env) :
    Interprets store p Γ Γ { env with resolve := true } where
  store_eq := h.store_eq
  names := h.names
  resolve := rfl
  calls := h.calls
  vars x a hx := by
    obtain ⟨b, hfind, ⟨tag, ty, hvalue, -⟩, hrename⟩ := h.vars x a hx
    refine ⟨b, hfind, .unknown (by rw [hvalue]; rfl) hrename ?_⟩
    rw [Locals.name_of_find? hfind]
    exact hx

theorem push (h : Checks store p Γ env) {b : Binding} {a : Builtin} (hb : store.IsFree b.name)
    (hv : StandsFor a b) : Checks store p ((b.name, a) :: Γ) (env.push b) where
  toOver := h.toOver.push hb
  calls := h.calls
  vars := h.vars.push hv
  others := h.others.push a b

theorem enterCall (h : Checks store p Γ env) (n : Node) :
    Checks store (fun i => p i ∧ i ≠ n.id) Γ (env.enterCall n) where
  store_eq := h.store_eq
  names := h.names
  calls := h.calls.enterCall n
  vars := h.vars
  others := h.others

theorem resolve (h : Checks store p Γ env) (r : Bool) :
    Checks store p Γ { env with resolve := r } where
  store_eq := h.store_eq
  names := h.names
  calls := h.calls
  vars := h.vars
  others := h.others

/-- Definitions are checked where no local binding is seen. -/
theorem globals (h : Checks store p Γ env) :
    Checks store p [] { env with locals := .empty } where
  store_eq := h.store_eq
  names := fun _ hb => nomatch hb
  calls := h.calls
  vars := .nil
  others := fun _ _ => rfl

theorem isOnStack (h : Checks store p Γ env) {n : Node} (hp : p n.id) : env.isOnStack n = false := by
  rw [Bool.eq_false_iff]
  exact fun hon => h.calls n hon hp

theorem mono (h : Checks store p Γ env) {q : NodeId → Prop} (hq : ∀ i, q i → p i) :
    Checks store q Γ env :=
  { h with calls := fun n hn hqn => h.calls n hn (hq _ hqn) }

end Checks

/-! ## Names and type expressions -/

theorem returns_check_var (h : Checks store p Γ env) {x : Name} {a : Builtin}
    (hx : Γ.lookup x = some a) (tag : Tag) :
    Returns env (fun d => Check.checkIdent (check d) tag x) F (IsDataType a) := by
  obtain ⟨b, hfind, ⟨t, ty, hvalue, hty⟩, -⟩ := h.vars x a hx
  refine Check.returns_checkBound tag (Env.lookup_bound hfind) ?_
  rw [hvalue]
  exact Returns.succ (returns_pure hty)

/-- A definition that is no function is checked where only definitions are seen. -/
theorem returns_check_const (h : Checks store p Γ env) {x : Name} {d : DefId} {v : Node}
    {P : Node → Prop} (hx : store.lookup x = some (d, v)) (hp : p v.id) (hfunc : v.isFunc = false)
    (hv : ∀ {env : Env}, Checks store (fun i => p i ∧ i ≠ v.id) [] env →
      Returns env (fun d => check d v) F P) (tag : Tag) :
    Returns env (fun d => Check.checkIdent (check d) tag x) F P := by
  refine Check.returns_checkDefinition tag (h.toOver.lookup_defined hx) (fun hf => ?_)
    (fun _ hon => ?_) fun _ _ => hv (h.globals.enterCall v)
  · rw [hfunc] at hf
    cases hf
  · exact absurd hp (h.calls v hon)

/-- A type expression stands for its type. -/
theorem returns_declaredType (h : env.Over store) {n : Node} {b : Builtin}
    (hn : store.Declares n b) :
    Returns env (fun d => Check.declaredType (eval d) (check d) n) F (IsDataType b) := by
  have htype {env : Env} : Returns env (fun _ => Pass.builtin .type) F fun _ => True :=
    (returns_tagAt _).bind fun _ _ => returns_pure trivial
  have hcheck : Returns env (fun d => check d n) F fun _ => True := by
    refine Returns.succ ?_
    cases hn with
    | builtin tag hb => exact htype
    | name tag hdata hb =>
      exact Check.returns_checkBuiltin tag (h.lookup_builtin hb) fun _ => Returns.succ htype
  have hover : ({ env with resolve := true } : Env).Over store := ⟨h.store_eq, h.names⟩
  refine Check.returns_declaredType (Check.returns_denoted hcheck
    ((returns_declared hover rfl hn).mono fun _ hv => ⟨hn.isData, hv⟩)) ?_
  rintro _ ⟨-, tag, rfl⟩
  rfl

/-! ## Control -/

section

variable {τ : Type} {ty : Builtin → τ} {reads : τ → Builtin → Prop} {e : Node} {a : τ}
variable {Q : Builtin → Prop}

/-- Two readings of one type are the same, unless an error tells otherwise. -/
theorem returns_require (hR : Reading ty reads F) {b c : Builtin} {t u : Node} (ht : IsDataType b t)
    (hu : IsDataType c u) (hb : reads a b) (hc : reads a c) (err : TypeError) :
    Returns env (fun _ => if compatible t u then pure PUnit.unit else fail err) F
      fun _ => b = c := by
  by_cases h : b = c
  · simp only [(ht.compatible_iff hu).2 h, if_true]
    exact returns_pure h
  · have hfalse : compatible t u = false := by
      rw [Bool.eq_false_iff]
      exact fun htrue => h ((ht.compatible_iff hu).1 htrue)
    simp only [hfalse, Bool.false_eq_true, if_false]
    exact returns_throw (hR.differ hb hc h err)

theorem returns_checkOperand (hR : Reading ty reads F) (op : Operator)
    (h : Returns env (fun d => check d e) F (Judged reads (ty .number) Q)) :
    Returns env (fun d => Check.checkOperand (check d) op e) F fun _ => Q .number := by
  refine h.bind fun t ht => ?_
  obtain ⟨b, hb, hreads, hQ⟩ := ht
  exact (returns_require hR ⟨rfl, _, rfl⟩ hb (hR.self _) hreads _).mono fun _ heq => heq ▸ hQ

theorem returns_expectBool (hR : Reading ty reads F)
    (h : Returns env (fun d => check d e) F (Judged reads (ty .bool) Q)) :
    Returns env (fun d => Check.expectBool (check d) e) F fun _ => Q .bool := by
  refine h.bind fun t ht => ?_
  obtain ⟨b, hb, hreads, hQ⟩ := ht
  exact (returns_require hR ⟨rfl, _, rfl⟩ hb (hR.self _) hreads _).mono fun _ heq => heq ▸ hQ

theorem returns_checkBinOp (hR : Reading ty reads F) {lhs rhs : Node} {op : Operator} (tag : Tag)
    (hop : op ≠ .dot)
    (hl : Returns env (fun d => check d lhs) F (Judged reads (ty .number) (Typed store g Γ lhs)))
    (hr : Returns env (fun d => check d rhs) F (Judged reads (ty .number) (Typed store g Γ rhs))) :
    Returns env (fun d => Check.checkBinOp (eval d) (check d) tag op lhs rhs) F
      (Judged reads (ty (if op.isArithmetic then .number else .bool))
        (Typed store g Γ (.binOp tag op lhs rhs))) := by
  simp only [Check.checkBinOp, hop, if_false]
  refine (returns_checkOperand hR op hl).bind fun _ hl => ?_
  refine (returns_checkOperand hR op hr).bind fun _ hr => ?_
  exact (returns_builtin op.isData_result).mono fun t ht => ⟨_, ht, hR.self _, .binOp tag hop hl hr⟩

/-- The items of a list have the type of the first one. -/
theorem returns_checkItemsAgainst (hR : Reading ty reads F) {t : Node} {b : Builtin}
    (ht : IsDataType b t) (hb : reads a b) : ∀ {items : List Node},
    (∀ e ∈ items, Returns env (fun d => check d e) F (Judged reads a (Typed store g Γ e))) →
    Returns env (fun d => Check.checkItemsAgainst (check d) t items) F
      fun _ => ∀ e ∈ items, Typed store g Γ e b
  | [], _ => returns_pure fun _ he => nomatch he
  | item :: items, h => by
    refine (h item (by simp)).bind fun u hu => ?_
    obtain ⟨c, hc, hreads, hitem⟩ := hu
    refine (returns_require hR ht hc hb hreads _).bind fun _ heq => ?_
    subst heq
    have hitems := returns_checkItemsAgainst hR ht hb fun e he => h e (List.mem_cons_of_mem _ he)
    refine hitems.mono fun _ hall e he => ?_
    rcases List.mem_cons.1 he with rfl | he
    · exact hitem
    · exact hall e he

theorem returns_checkList (hR : Reading ty reads F) (tag : Tag) : ∀ {items : List Node},
    (∀ e ∈ items, Returns env (fun d => check d e) F (Judged reads a (Typed store g Γ e))) →
    Returns env (fun d => Check.checkList (check d) items) F
      (Judged reads (ty .list) (Typed store g Γ (.list tag items)))
  | [], _ => (returns_builtin rfl).mono fun t ht =>
    ⟨_, ht, hR.self _, .list (a := .number) tag fun _ he => nomatch he⟩
  | first :: others, h => by
    refine (h first (by simp)).bind fun t ht => ?_
    obtain ⟨b, hb, hreads, hfirst⟩ := ht
    have hothers := returns_checkItemsAgainst hR hb hreads fun e he => h e (List.mem_cons_of_mem _ he)
    refine hothers.bind fun _ hall => (returns_builtin rfl).mono fun u hu => ?_
    refine ⟨_, hu, hR.self _, .list (a := b) tag fun e he => ?_⟩
    rcases List.mem_cons.1 he with rfl | he
    · exact hfirst
    · exact hall e he

/-- Of arms that are not void, either all have types or one has an error. -/
theorem knownTypes_cases : ∀ {arms : List (Except Fault Node × Span)},
    (∀ arm ∈ arms, arm.1 ≠ .error .void) →
    (∃ f, Check.knownTypes arms = .error f ∧ ∃ arm ∈ arms, arm.1 = .error f) ∨
      ∃ known, Check.knownTypes arms = .ok known ∧ arms = known.map fun k => (.ok k.1, k.2)
  | [], _ => .inr ⟨[], rfl, rfl⟩
  | (.error .void, _) :: _, h => absurd rfl (h _ List.mem_cons_self)
  | (.error (.error err), _) :: _, _ => .inl ⟨_, rfl, _, List.mem_cons_self, rfl⟩
  | (.error (.contradiction ..), _) :: _, _ => .inl ⟨_, rfl, _, List.mem_cons_self, rfl⟩
  | (.error .exhausted, _) :: _, _ => .inl ⟨_, rfl, _, List.mem_cons_self, rfl⟩
  | (.ok t, site) :: arms, h => by
    rcases knownTypes_cases fun arm harm => h arm (List.mem_cons_of_mem _ harm) with
      ⟨f, hf, arm, harm, heq⟩ | ⟨known, hknown, heq⟩
    · refine .inl ⟨f, ?_, arm, List.mem_cons_of_mem _ harm, heq⟩
      simp only [Check.knownTypes, hf]
      rfl
    · refine .inr ⟨(t, site) :: known, ?_, by rw [heq]; rfl⟩
      simp only [Check.knownTypes, hknown]
      rfl

/-- An arm of a branch that has a type, or a fault. -/
def Arm (reads : τ → Builtin → Prop) (F : Fault → Prop) (a : τ) (Q : Builtin → Prop)
    (arm : Except Fault Node × Span) : Prop :=
  match arm.1 with
  | .ok t => Judged reads a Q t
  | .error f => F f

/-- The common type of the arms of a branch is the type of each of them. -/
theorem returns_join (hR : Reading ty reads F) {ι : Type} {Q : ι → Builtin → Prop} {is : List ι}
    {arms : List (Except Fault Node × Span)} (site : Span) (hne : is ≠ [])
    (h : Traversed (fun i => Arm reads F a (Q i)) is arms) :
    Returns env (fun _ => Check.join site arms) F (Judged reads a fun b => ∀ i ∈ is, Q i b) := by
  have hvoid : ∀ arm ∈ arms, arm.1 ≠ .error .void := by
    intro arm harm heq
    obtain ⟨i, -, hi⟩ := h.origin arm harm
    rw [Arm, heq] at hi
    exact hR.void hi
  unfold Check.join
  rcases knownTypes_cases hvoid with ⟨f, hf, arm, harm, heq⟩ | ⟨known, hknown, rfl⟩
  · rw [hf]
    obtain ⟨i, -, hi⟩ := h.origin arm harm
    rw [Arm, heq] at hi
    exact Returns.bind (returns_throw (P := fun _ => False) hi) fun _ hfalse => hfalse.elim
  · rw [hknown]
    refine (returns_pure (P := (· = known)) rfl : Returns env (fun _ => (liftM (Except.ok known) :
      Pass (List (Node × Span)))) F (· = known)).bind fun known' hknown' => ?_
    subst hknown'
    have hjudged : ∀ k ∈ known', ∃ i, Judged reads a (Q i) k.1 := fun k hk => by
      obtain ⟨i, -, hi⟩ := h.origin (.ok k.1, k.2) (List.mem_map_of_mem hk)
      exact ⟨i, hi⟩
    match known' with
    | [] =>
      obtain ⟨i, hi⟩ := List.exists_mem_of_ne_nil is hne
      obtain ⟨_, harm, -⟩ := h.result i hi
      cases harm
    | (t, tsite) :: others =>
      obtain ⟨_, b, hb, hreads, -⟩ := hjudged (t, tsite) (by simp)
      cases hfind : others.find? fun k => !compatible t k.1 with
      | some k =>
        obtain ⟨_, c, hc, hreads', -⟩ := hjudged k (by simp [List.mem_of_find?_eq_some hfind])
        have hfalse : compatible t k.1 = false := by simpa using List.find?_some hfind
        simp only [hfind]
        refine returns_throw (hR.differ hreads hreads' (fun heq => ?_) _)
        rw [(hb.compatible_iff hc).2 heq] at hfalse
        cases hfalse
      | none =>
        have hagree : ∀ k ∈ (t, tsite) :: others, compatible t k.1 = true := fun k hk => by
          rcases List.mem_cons.1 hk with rfl | hk
          · exact (hb.compatible_iff hb).2 rfl
          · simpa using List.find?_eq_none.1 hfind k hk
        simp only [hfind]
        refine returns_pure ⟨b, hb, hreads, fun i hi => ?_⟩
        obtain ⟨_, harm, hi⟩ := h.result i hi
        obtain ⟨k, hk, rfl⟩ := List.mem_map.1 harm
        obtain ⟨c, hc, -, hQ⟩ := hi
        exact (hb.compatible_iff hc).1 (hagree k hk) ▸ hQ

/-- A branch of one expression, as an arm. -/
theorem returns_arm (h : Returns env (fun d => check d e) F (Judged reads a Q))
    (hb : e.boundName? = none) (site : Span) :
    Returns env (fun d => attempt (Check.checkSeq (check d) [e] site)) F
      fun r => ∀ s, Arm reads F a Q (r, s) := by
  have hrestores d := Check.restores_checkSeq (restores_check d) [e] site
  refine ((Check.returns_checkSingle h hb site).attempt hrestores).mono fun r hr s => ?_
  cases r <;> exact hr

theorem returns_checkIf (hR : Reading ty reads F) {c e e' : Node} (tag : Tag)
    (hc : Returns env (fun d => check d c) F (Judged reads (ty .bool) (Typed store g Γ c)))
    (ht : Returns env (fun d => check d e) F (Judged reads a (Typed store g Γ e)))
    (he : Returns env (fun d => check d e') F (Judged reads a (Typed store g Γ e')))
    (hbt : e.boundName? = none) (hbe : e'.boundName? = none) :
    Returns env (fun d => Check.checkIf (check d) tag c [e] [e']) F
      (Judged reads a (Typed store g Γ (.ifElse tag c [e] [e']))) := by
  refine (returns_expectBool hR hc).bind fun _ hc => ?_
  refine (returns_arm ht hbt tag.span).bind fun r hr => ?_
  refine (returns_arm he hbe tag.span).bind fun r' hr' => ?_
  have harms : Traversed (fun e => Arm reads F a (Typed store g Γ e)) [e, e']
      [(r, Check.bodySite [e] tag.span), (r', Check.bodySite [e'] tag.span)] :=
    .cons (hr _) (.cons (hr' _) (traversed_nil _))
  refine (returns_join hR tag.span (List.cons_ne_nil _ _) harms).mono fun t ht => ?_
  obtain ⟨b, hb, hreads, hall⟩ := ht
  exact ⟨b, hb, hreads, .ifElse tag hc (hall e (by simp)) (hall e' (by simp))⟩

theorem returns_checkWhile (hR : Reading ty reads F) {c e : Node} (tag : Tag)
    (hc : Returns env (fun d => check d c) F (Judged reads (ty .bool) (Typed store g Γ c)))
    (he : Returns env (fun d => check d e) F (Judged reads a (Typed store g Γ e)))
    (hb : e.boundName? = none) :
    Returns env (fun d => Check.step (eval d) (check d) (.whileDo tag c [e])) F
      (Judged reads a (Typed store g Γ (.whileDo tag c [e]))) := by
  refine (returns_expectBool hR hc).bind fun _ hc => ?_
  refine (Check.returns_checkSingle he hb tag.span).mono fun t ht => ?_
  obtain ⟨b, hb, hreads, he⟩ := ht
  exact ⟨b, hb, hreads, .whileDo tag hc he⟩

/-- The pattern of a case has the type of the value it is for, and its body is an arm. -/
theorem returns_checkCase_of_arm (hR : Reading ty reads F) {c : Case Node} {t : Node} {s : Builtin}
    {a b : τ} {P : Builtin → Prop} (ht : IsDataType s t) (hs : reads a s)
    (hp : c.pattern.isWildcard = false →
      Returns env (fun d => check d c.pattern) F (Judged reads a P))
    (hbody : Returns env (fun d => attempt (Check.checkSeq (check d) c.body c.span)) F
      fun r => ∀ s, Arm reads F b Q (r, s)) :
    Returns env (fun d => Check.checkCase (check d) t c) F fun arm =>
      (c.pattern.isWildcard = false → P s) ∧ Arm reads F b Q arm := by
  have harm : Returns env (fun d => do
      let ty ← attempt (Check.checkSeq (check d) c.body c.span)
      return (ty, Check.bodySite c.body c.span)) F (Arm reads F b Q) :=
    hbody.bind fun r hr => returns_pure (hr _)
  unfold Check.checkCase
  cases hw : c.pattern.isWildcard with
  | true => exact harm.mono fun arm harm => ⟨fun h => (nomatch h), harm⟩
  | false =>
    simp only [Bool.not_false, if_true]
    refine (hp hw).bind fun u hu => ?_
    obtain ⟨s', hs', hreads, hpattern⟩ := hu
    refine (returns_require hR ht hs' hs hreads _).bind fun _ heq => ?_
    subst heq
    exact harm.mono fun arm harm => ⟨fun _ => hpattern, harm⟩

theorem returns_checkCase (hR : Reading ty reads F) {c : Case Node} {t : Node} {s : Builtin}
    {a b : τ} (ht : IsDataType s t) (hs : reads a s)
    (hp : c.pattern.isWildcard = false →
      Returns env (fun d => check d c.pattern) F (Judged reads a (Typed store g Γ c.pattern)))
    (hbody : c.body = [e]) (he : Returns env (fun d => check d e) F (Judged reads b Q))
    (hb : e.boundName? = none) :
    Returns env (fun d => Check.checkCase (check d) t c) F fun arm =>
      (c.pattern.isWildcard = false → Typed store g Γ c.pattern s) ∧ Arm reads F b Q arm := by
  refine returns_checkCase_of_arm hR ht hs hp ?_
  rw [hbody]
  exact returns_arm he hb c.span

theorem returns_checkMatch (hR : Reading ty reads F) {scrutinee : Node} {cases : List (Case Node)}
    {a b : τ} (tag : Tag)
    (hs : Returns env (fun d => check d scrutinee) F (Judged reads a (Typed store g Γ scrutinee)))
    (hp : ∀ c ∈ cases, c.pattern.isWildcard = false →
      Returns env (fun d => check d c.pattern) F (Judged reads a (Typed store g Γ c.pattern)))
    (hb : ∀ c ∈ cases, ∃ e, c.body = [e] ∧ e.boundName? = none ∧
      Returns env (fun d => check d e) F (Judged reads b (Typed store g Γ e)))
    (hw : ∃ c ∈ cases, c.pattern.isWildcard = true) :
    Returns env (fun d => Check.checkMatch (check d) tag scrutinee cases) F
      (Judged reads b (Typed store g Γ (.matchOn tag scrutinee cases))) := by
  refine hs.bind fun t ht => ?_
  obtain ⟨s, hdenotes, hreads, hs⟩ := ht
  have harms : Returns env (fun d => cases.mapM (Check.checkCase (check d) t)) F
      (Traversed (fun c arm => (c.pattern.isWildcard = false → Typed store g Γ c.pattern s) ∧
        Arm reads F b (fun b => ∀ e ∈ c.body, Typed store g Γ e b) arm) cases) := by
    refine Returns.mapM fun c hc => ?_
    obtain ⟨e, hbody, hbound, he⟩ := hb c hc
    refine returns_checkCase hR hdenotes hreads (hp c hc) hbody (he.mono fun u hu => ?_) hbound
    obtain ⟨b', hb', hreads', he'⟩ := hu
    refine ⟨b', hb', hreads', fun e' hmem => ?_⟩
    rw [hbody, List.mem_singleton] at hmem
    exact hmem ▸ he'
  refine harms.bind fun arms harms => ?_
  obtain ⟨w, hmem, hwild⟩ := hw
  refine (returns_join hR tag.span (List.ne_nil_of_mem hmem) (harms.imp fun _ _ h => h.2)).mono
    fun u hu => ?_
  obtain ⟨b', hb', hreads', hall⟩ := hu
  refine ⟨b', hb', hreads', .matchOn tag hs (fun c hc hwild => ?_) (fun c hc => ?_) hall
    ⟨w, hmem, hwild⟩⟩
  · obtain ⟨_, -, hpattern, -⟩ := harms.result c hc
    exact hpattern hwild
  · obtain ⟨e, hbody, -⟩ := hb c hc
    rw [hbody]
    rfl

/-! ## Functions and calls -/

/-- A function has a function type, with the type of its body as the result. -/
theorem returns_checkFunc (h : Checks store p Γ env) {t : Tag} {param : Decl Node}
    {body : List Node} {b : Builtin} {P : Node → Prop} (hp : p t.id)
    (hty : store.Declares param.ty b) (hfree : store.IsFree param.name)
    (hbody : ∀ {env : Env}, Checks store (fun i => p i ∧ i ≠ t.id) ((param.name, b) :: Γ) env →
      Returns env (fun d => Check.checkSeq (check d) body t.span) F P) :
    Returns env (fun d => Check.checkFunc (eval d) (check d) t param body) F
      fun ty => ∃ tag id dom cod, ty = .fnType tag id dom cod ∧ IsDataType b dom ∧ P cod := by
  refine Check.returns_checkFunc (B := fun _ => P) (fun hon => absurd hp (h.calls _ hon))
    (returns_declaredType h.toOver hty) (fun dom t' hdom _ => hbody (Checks.resolve ?_ false))
    fun u id dom cod hdom hcod => ⟨u, id, dom, cod, rfl, hdom, hcod⟩
  exact (h.enterCall (.func t param body)).push (b := ⟨param.name, .selfType t' dom, false, none⟩)
    hfree ⟨⟨t', dom, rfl, hdom⟩, rfl⟩

/-- The callee of a call of a known function. -/
theorem returns_check_callee (h : Checks store p Γ env) {f : Name} {d : DefId} {t : Tag}
    {param : Decl Node} {body : List Node} {b : Builtin} {P : Node → Prop}
    (hf : store.lookup f = some (d, .func t param body)) (hp : p t.id)
    (hty : store.Declares param.ty b) (hfree : store.IsFree param.name)
    (hbody : ∀ {env : Env}, Checks store (fun i => p i ∧ i ≠ t.id) [(param.name, b)] env →
      Returns env (fun d => Check.checkSeq (check d) body t.span) F P) (ftag : Tag) :
    Returns env (fun d => check d (.ident ftag f)) F
      fun ty => ∃ tag id dom cod, ty = .fnType tag id dom cod ∧ IsDataType b dom ∧ P cod := by
  refine Returns.succ (Check.returns_checkDefinition ftag (h.toOver.lookup_defined hf)
    (fun _ => Returns.succ (returns_checkFunc h.globals hp hty hfree hbody)) (fun hfunc => ?_)
    fun hfunc => ?_)
  all_goals cases hfunc

/-- Residual code passes the checker with its type. -/
def ResidualChecks (store : Definitions) : Prop :=
  ∀ {Γ : List (Name × Builtin)} {e : Node} {a : Builtin} {env : Env},
    Typed store .residual Γ e a → Checks store (fun _ => False) Γ env →
    Returns env (fun d => check d e) NoFault (IsDataType a)

/-- A call has the type of what it becomes, if that is residual code. -/
theorem returns_checkCall (hR : Reading ty reads F) (hres : ResidualChecks store)
    (h : Checks store p Γ env) {callee arg : Node} {b : Builtin} {C : Builtin → Prop} (tag : Tag)
    (hcallee : Returns env (fun d => check d callee) F fun ty =>
      ∃ tag id dom cod, ty = .fnType tag id dom cod ∧ IsDataType b dom ∧ ∃ c, reads a c ∧ C c)
    (harg : Returns env (fun d => check d arg) F
      (Judged reads (ty b) (Typed store (.source p) Γ arg)))
    (hfunction : ∀ c, C c → Returns { env with resolve := true } (fun d => eval d callee) F
      fun f => ∃ t param body, f = .func t param body ∧ store.IsFree param.name ∧
        Γ.lookup param.name = none)
    (hcall : ∀ c, C c → Typed store (.source p) Γ arg b →
      Returns { env with resolve := true } (fun d => eval d (.call tag callee arg)) F
        (Typed store .residual Γ · c)) :
    Returns env (fun d => Check.checkCall (eval d) (check d) tag callee arg) F
      (Judged reads a fun c => C c ∧ Typed store (.source p) Γ arg b) := by
  refine hcallee.bind fun fnType hfn => ?_
  obtain ⟨u, id, dom, cod, rfl, hdom, c, hc, hC⟩ := hfn
  refine (returns_pure (P := (· = some (dom, cod))) rfl).bind fun declared hdeclared => ?_
  subst hdeclared
  refine harg.bind fun argType hargType => ?_
  obtain ⟨b', hargType, hreads, harg⟩ := hargType
  refine (Returns.under (hfunction c hC) (Guard.lawful_resolve true)).bind fun function hf => ?_
  obtain ⟨t, param, body, rfl, hfree, hx⟩ := hf
  refine (returns_require hR hdom hargType (hR.self b) hreads _).bind fun _ heq => ?_
  subst heq
  refine (Returns.under (hcall c hC harg) (Guard.lawful_resolve true)).bind fun r hr => ?_
  refine (Check.returns_placeholder _ _).bind fun value hvalue => ?_
  obtain ⟨t', rfl⟩ := hvalue
  have henv := ((h.enterCall (.func t param body)).push
    (b := ⟨param.name, .selfType t' dom, true, none⟩) hfree ⟨⟨t', dom, rfl, hdom⟩, rfl⟩).mono
    (q := fun _ => False) fun _ hq => hq.elim
  have hr' : Typed store .residual ((param.name, b) :: Γ) r c :=
    hr.weaken rfl fun _ _ => lookup_cons_of_some b hx
  have hresult : Returns env (fun d => under (.call (.func t param body)) (under (.binding
      ⟨param.name, .selfType t' dom, true, none⟩) (check d r))) NoFault (IsDataType c) :=
    Returns.under (Returns.under (hres hr' henv) (Guard.lawful_binding _)) (Guard.lawful_call _)
  exact hresult.noFault.mono fun t ht => ⟨c, ht, hc, hC, harg⟩

/-- A call of a definition has the type of its body. -/
theorem returns_check_call (hR : Reading ty reads F) (hres : ResidualChecks store)
    (h : Checks store p Γ env) {f : Name} {d : DefId} {t : Tag} {param : Decl Node}
    {body : List Node} {arg : Node} {b : Builtin} (tag ftag : Tag)
    (hf : store.lookup f = some (d, .func t param body)) (hp : p t.id)
    (hty : store.Declares param.ty b) (hx : Γ.lookup param.name = none)
    (hfree : store.IsFree param.name)
    (hcallee : Returns env (fun d => check d (.ident ftag f)) F fun ty =>
      ∃ tag id dom cod, ty = .fnType tag id dom cod ∧ IsDataType b dom ∧
        ∃ c, reads a c ∧ Body (fun b => b) store (fun i => p i ∧ i ≠ t.id) [(param.name, b)] body
          (.data c))
    (harg : Returns env (fun d => check d arg) F
      (Judged reads (ty b) (Typed store (.source p) Γ arg))) :
    Returns env (fun d => Check.checkCall (eval d) (check d) tag (.ident ftag f) arg) F
      (Judged reads a (Typed store (.source p) Γ (.call tag (.ident ftag f) arg))) := by
  have hcode (c : Builtin) (hbody : Body (fun b => b) store (fun i => p i ∧ i ≠ t.id)
      [(param.name, b)] body (.data c)) (harg : Typed store (.source p) Γ arg b) :
      Typed store (.source p) Γ (.call tag (.ident ftag f) arg) c :=
    .call tag ftag harg hf hp hty hx hfree hbody
  refine (returns_checkCall hR hres h tag hcallee harg (fun c _ => ?_) fun c hbody harg =>
    (hcode c hbody harg).returns rfl h.interprets).mono fun _ ⟨c, hc, hreads, hbody, harg⟩ =>
      ⟨c, hc, hreads, hcode c hbody harg⟩
  exact (returns_found rfl ((h.resolve true).toOver.lookup_defined hf) rfl rfl ftag).mono
    fun _ hv => ⟨t, param, body, hv, hfree, hx⟩

/-! ## Sequences -/

/-- An alias is seen by the nodes after it as data of its type. -/
theorem leads_check_alias (h : Checks store p Γ env) {x : Name} {value : Node} (tag xtag : Tag)
    (transparent : Bool) (link : Option DefId)
    (hvalue : Returns env (fun d => check d value) F (Judged reads a Q)) (hx : Γ.lookup x = none)
    (hfree : store.IsFree x) :
    Leads env
      (fun d => Check.checkItem (check d) (.assign tag (.ident xtag x) value transparent link)) F
      fun _ e => Opened env e ∧ ∃ b, reads a b ∧ Q b ∧ Checks store p ((x, b) :: Γ) e := by
  have halias : Returns env
      (fun d => check d (.assign tag (.ident xtag x) value transparent link)) F
      (Judged reads a Q) := by
    exact Returns.succ (Check.returns_checkAlias tag xtag link
      (h.toOver.lookup_free hfree (h.others x hx)) hvalue)
  refine (Check.leads_checkItem_alias halias).mono ?_
  rintro _ _ ⟨ty, t, ⟨b, hb, hreads, hQ⟩, rfl⟩
  have henv := h.push (b := ⟨x, .selfType t ty, false, none⟩) hfree ⟨⟨t, ty, rfl, hb⟩, rfl⟩
  exact ⟨.push _ .same, b, hreads, hQ, henv⟩

end

end FirstOrder

end Residual
