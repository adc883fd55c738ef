/-
Rules for the evaluator. Each function of the evaluator has one rule, which tells what it leads to from
what its parts lead to. What is said of the parts is open: the rules are the same for every invariant
of environments and every property of results, whether runs are known to end or not. An invariant is
carried through the evaluator by applying them.
-/
import Residual.Proofs.Logic

namespace Residual.Eval

open Pass

variable {ev : Nat → Node → Pass Node} {env : Env} {F : Fault → Prop} {P Q R : Node → Prop}

/-! ## Names and types -/

/-- A name becomes what it stands for, or stays under the name that its binder bears. -/
theorem returns_evalFound {x : Name} {found : Found} (tag : Tag) (hfound : env.lookup x = some found)
    (hvalue : found.isPlaceholder = false → (env.resolve || found.isTransparent) = true →
      Returns env (fun _ => Pass.valueOf found) F P)
    (hkept : found.isPlaceholder = true ∨ (env.resolve || found.isTransparent) = false →
      ∀ t, P (.ident t (found.rename?.getD x))) :
    Returns env (fun _ => evalIdent tag x) F P := by
  refine returns_env.bind fun _ heq => ?_
  subst heq
  simp only [hfound]
  cases hput : !found.isPlaceholder && (env.resolve || found.isTransparent) with
  | true =>
    simp only [if_true]
    rw [Bool.and_eq_true, Bool.not_eq_true'] at hput
    exact hvalue hput.1 hput.2
  | false =>
    simp only [Bool.false_eq_true, if_false]
    rw [Bool.and_eq_false_iff, Bool.not_eq_false'] at hput
    have hname := hkept hput
    cases hrename : found.rename? with
    | none =>
      rw [hrename] at hname
      exact returns_pure (hname tag)
    | some other =>
      rw [hrename] at hname
      exact (returns_tagAt _).bind fun t _ => returns_pure (hname t)

/-- A name may also stand for nothing. -/
theorem returns_evalIdent {x : Name} (tag : Tag)
    (hmissing : env.lookup x = none → F (.error (.unknownName x tag.span)))
    (hvalue : ∀ found, env.lookup x = some found → found.isPlaceholder = false →
      (env.resolve || found.isTransparent) = true → Returns env (fun _ => Pass.valueOf found) F P)
    (hkept : ∀ found, env.lookup x = some found →
      found.isPlaceholder = true ∨ (env.resolve || found.isTransparent) = false →
      ∀ t, P (.ident t (found.rename?.getD x))) :
    Returns env (fun _ => evalIdent tag x) F P := by
  cases hlookup : env.lookup x with
  | none =>
    refine returns_env.bind fun _ heq => ?_
    subst heq
    simp only [hlookup]
    exact returns_throw (hmissing hlookup)
  | some found => exact returns_evalFound tag hlookup (hvalue found hlookup) (hkept found hlookup)

/-- What is put in place of a name is known: a local may be a placeholder. -/
theorem returns_evalName {x : Name} (tag : Tag)
    (hmissing : env.lookup x = none → F (.error (.unknownName x tag.span)))
    (hbound : ∀ b, env.lookup x = some (.bound b) → (b.value.isPlaceholder = false → P b.value) ∧
      (b.value.isPlaceholder = true ∨ env.resolve = false → ∀ t, P (.ident t (b.rename.getD x))))
    (hdefined : ∀ d v, env.lookup x = some (.defined d v) →
      (env.resolve = true → P v) ∧ ∀ t, P (.ident t x))
    (hbuiltin : ∀ b, env.lookup x = some (.builtin b) → ∀ t, P (.builtin t b) ∧ P (.ident t x)) :
    Returns env (fun _ => evalIdent tag x) F P := by
  refine returns_evalIdent tag hmissing (fun found hfound hknown hput => ?_)
    fun found hfound hkept t => ?_
  · cases found with
    | bound b => exact returns_pure ((hbound b hfound).1 hknown)
    | defined d v =>
      exact returns_pure ((hdefined d v hfound).1 (by simpa [Found.isTransparent] using hput))
    | builtin b => exact (returns_tagAt _).bind fun t _ => returns_pure (hbuiltin b hfound t).1
  · cases found with
    | bound b => exact (hbound b hfound).2 (hkept.imp_right fun h => (Bool.or_eq_false_iff.1 h).1) t
    | defined d v => exact (hdefined d v hfound).2 t
    | builtin b => exact (hbuiltin b hfound t).2

theorem returns_evalType {n : Node}
    (h : Returns { env with resolve := true } (fun d => ev d n) F P) :
    Returns env (fun d => evalType (ev d) n) F P :=
  Returns.under h (Guard.lawful_resolve true)

/-! ## Functions and calls -/

/-- What a parameter is bound to in the body of its function. -/
theorem isPlaceholder_param (ty : Node) (t : Tag) :
    Node.isPlaceholder (if ty.isType then .selfType t ty else .unknown t) = true := by
  split <;> rfl

/-- A function is evaluated under its binder. -/
theorem returns_evalFunc {tag : Tag} {param : Decl Node} {body : List Node}
    {B : Node → List Node → Prop}
    (hty : Returns env (fun d => evalType (ev d) param.ty) F Q)
    (hbody : ∀ ty t, Q ty → Returns ((env.enterCall (.func tag param body)).push ⟨param.name,
      if ty.isType then .selfType t ty else .unknown t, false, env.freshName param.name⟩)
      (fun d => evalSeq (ev d) body) F (B ty))
    (hmake : ∀ t ty vs, Q ty → B ty vs →
      P (.func t { param with name := (env.freshName param.name).getD param.name, ty } vs)) :
    Returns env (fun d => evalFunc (ev d) tag param body) F P := by
  refine hty.bind fun ty hQ => (returns_tagAt _).bind fun t _ => returns_env.bind fun _ heq => ?_
  subst heq
  refine (Returns.under (Returns.under (hbody ty t hQ) (Guard.lawful_binding _))
    (Guard.lawful_call _)).bind fun vs hvs => ?_
  exact (returns_tagAt _).bind fun t' _ => returns_pure (hmake t' ty vs hQ hvs)

/-- The body of a function, with the parameter bound to the argument. -/
theorem returns_apply {f : Node} {param : Decl Node} {body : List Node} {arg : Node} {site : Span}
    (h : Returns ({ env.enterCall f with transparent := true }.push ⟨param.name, arg, true, none⟩)
      (fun d => evalSeq (ev d) body >>= (seqValue · site)) F P) :
    Returns env (fun d => apply (ev d) f param body arg site) F P :=
  Returns.under (Returns.under (Returns.under h (Guard.lawful_binding _))
    (Guard.lawful_transparent true)) (Guard.lawful_call _)

/-- A call stays if the callee is no function, or one that is being looked into, unless names are
resolved and the argument is known. -/
def Stays (env : Env) (f v : Node) : Prop :=
  f.isFunc = false ∨ env.isOnStack f = true ∧ (env.resolve = false ∨ v.isStatic = false)

theorem returns_unfoldCall {f v : Node} {site : Span}
    (h : ∀ t param body, f = .func t param body → ¬ Stays env f v →
      Returns env (fun d => apply (ev d) f param body v site) F P) :
    Returns env (fun d => unfoldCall (ev d) env f v site) F
      fun r => (∀ w, r = some w → P w) ∧ (r = none → Stays env f v) := by
  have hnone (hstays : Stays env f v) : Returns env (fun _ => pure none) F
      fun r => (∀ w, r = some w → P w) ∧ (r = none → Stays env f v) :=
    returns_pure ⟨nofun, fun _ => hstays⟩
  cases f with
  | func t param body =>
    cases hunfold : !env.isOnStack (.func t param body) || (env.resolve && v.isStatic) with
    | false =>
      simp only [unfoldCall, hunfold, Bool.false_eq_true, if_false]
      rw [Bool.or_eq_false_iff, Bool.not_eq_false', Bool.and_eq_false_iff] at hunfold
      exact hnone (.inr hunfold)
    | true =>
      simp only [unfoldCall, hunfold, if_true]
      rw [Bool.or_eq_true, Bool.not_eq_true', Bool.and_eq_true] at hunfold
      have hgoes : ¬ Stays env (.func t param body) v := by
        rintro (hfunc | ⟨hon, hkept⟩)
        · cases hfunc
        · rcases hunfold with hoff | ⟨hr, hs⟩
          · rw [hon] at hoff
            cases hoff
          · rcases hkept with hr' | hs'
            · rw [hr] at hr'
              cases hr'
            · rw [hs] at hs'
              cases hs'
      refine (h t param body rfl hgoes).map fun w hw => ⟨fun _ heq => ?_, nofun⟩
      cases heq
      exact hw
  | _ => exact hnone (.inl rfl)

/-- A callee that is a function keeps its name in residual code if the name is that of a definition. -/
theorem returns_residualCallee {callee f : Node}
    (hf : (∀ t x d v, callee = .ident t x → env.lookup x = some (.defined d v) → f.isFunc = false) →
      P f)
    (hname : ∀ t x found, callee = .ident t x → env.lookup x = some found → f.isFunc = true →
      (∃ d v, found = .defined d v) ∨ (∃ b, found = .builtin b) → P callee) :
    Returns env (fun _ => residualCallee callee f) F P := by
  cases callee with
  | ident t x =>
    refine returns_env.bind fun _ heq => ?_
    subst heq
    cases hfunc : f.isFunc with
    | false => exact returns_pure (hf fun _ _ _ _ _ _ => hfunc)
    | true =>
      cases hfound : env.lookup x with
      | none =>
        refine returns_pure (hf fun _ _ _ _ hx hdef => ?_)
        cases hx
        rw [hfound] at hdef
        cases hdef
      | some found =>
        cases found with
        | bound b =>
          refine returns_pure (hf fun _ _ _ _ hx hdef => ?_)
          cases hx
          rw [hfound] at hdef
          cases hdef
        | defined d v =>
          exact returns_pure (hname t x _ rfl hfound hfunc (.inl ⟨d, v, rfl⟩))
        | builtin b => exact returns_pure (hname t x _ rfl hfound hfunc (.inr ⟨b, rfl⟩))
  | _ => exact returns_pure (hf fun _ _ _ _ hx => by cases hx)

/-- Where names are kept, a callee that is a name is evaluated as one. -/
theorem returns_keptCallee {callee f : Node}
    (hname : ∀ t x, callee = .ident t x → env.resolve = false →
      Returns env (fun _ => evalIdent t x) F P)
    (hother : callee.ident? = none ∨ env.resolve = true →
      Returns env (fun _ => residualCallee callee f) F P) :
    Returns env (fun _ => keptCallee env callee f) F P := by
  cases hr : env.resolve with
  | true =>
    simp only [keptCallee, hr]
    exact hother (.inr hr)
  | false =>
    cases callee with
    | ident t x =>
      simp only [keptCallee, hr]
      exact hname t x rfl hr
    | _ =>
      simp only [keptCallee, hr]
      exact hother (.inl rfl)

/-- A call becomes what it is unfolded to where names are resolved, and otherwise stays with its parts
evaluated. -/
theorem returns_evalCall {callee arg : Node} (tag : Tag)
    (hcallee : Returns env (fun d => evalType (ev d) callee) F Q)
    (harg : Returns env (fun d => ev d arg) F R)
    (happly : ∀ t param body v, Q (.func t param body) → R v → ¬ Stays env (.func t param body) v →
      Returns env (fun d => apply (ev d) (.func t param body) param body v tag.span) F
        fun w => env.resolve = true → P w)
    (hkept : ∀ f v, Q f → R v → (env.resolve = true → Stays env f v) →
      Returns env (fun _ => keptCallee env callee f) F fun k => ∀ t, P (.call t k v)) :
    Returns env (fun d => evalCall (ev d) tag callee arg) F P := by
  refine hcallee.bind fun f hf => harg.bind fun v hv => returns_env.bind fun _ heq => ?_
  subst heq
  have hunfold : Returns env (fun d => unfoldCall (ev d) env f v tag.span) F
      fun r => (∀ w, r = some w → env.resolve = true → P w) ∧ (r = none → Stays env f v) := by
    refine returns_unfoldCall fun t param body heq hgoes => ?_
    subst heq
    exact happly t param body v hf hv hgoes
  refine hunfold.bind fun r hr => ?_
  have hcall (hstays : env.resolve = true → Stays env f v) : Returns env (fun _ => do
      let callee ← keptCallee env callee f
      return .call (← tagAt tag.span) callee v) F P :=
    (hkept f v hf hv hstays).bind fun k hk => (returns_tagAt _).bind fun t _ => returns_pure (hk t)
  cases hresolve : env.resolve with
  | true =>
    cases r with
    | some w => exact returns_pure (hr.1 w rfl hresolve)
    | none => exact hcall fun _ => hr.2 rfl
  | false => exact hcall fun hresolve' => by rw [hresolve] at hresolve'; cases hresolve'

/-! ## Operators -/

/-- A field is taken out of an instance. -/
theorem returns_evalDot {lhs rhs : Node} (tag : Tag) (hlhs : Returns env (fun d => ev d lhs) F Q)
    (hfield : ∀ t template body t' name, Q (.inst t template body) → rhs = .ident t' name →
      (∃ value, Node.fieldValue? body name = some value ∧ P value) ∨
      Node.fieldValue? body name = none ∧ F (.error (.noSuchField rhs template tag.span)))
    (hkept : ∀ owner t, Q owner → (∀ t' template body t'' name, owner = .inst t' template body →
      rhs ≠ .ident t'' name) → P (.binOp t .dot owner rhs)) :
    Returns env (fun d => evalDot (ev d) tag lhs rhs) F P := by
  refine hlhs.bind fun owner howner => ?_
  split
  · rename_i t template body t' name
    rcases hfield t template body t' name howner rfl with ⟨value, hvalue, hP⟩ | ⟨hnone, hF⟩
    · simp only [hvalue]
      exact returns_pure hP
    · simp only [hnone]
      exact returns_throw hF
  · rename_i hother
    exact (returns_tagAt _).bind fun t _ => returns_pure (hkept owner t howner
      fun t' template body t'' name ho hr => hother t' template body t'' name ho hr)

/-- Two numbers are folded. -/
theorem returns_evalBinOp {op : Operator} {lhs rhs : Node} (tag : Tag) (hop : op ≠ .dot)
    (hlhs : Returns env (fun d => ev d lhs) F Q) (hrhs : Returns env (fun d => ev d rhs) F R)
    (hfold : ∀ a b x y l t, Q a → R b → a.number? = some x → b.number? = some y →
      op.fold x y = some l → P (.lit t l))
    (hkept : ∀ a b t, Q a → R b →
      (∀ x y, a.number? = some x → b.number? = some y → op.fold x y = none) → P (.binOp t op a b)) :
    Returns env (fun d => evalBinOp (ev d) tag op lhs rhs) F P := by
  simp only [evalBinOp, hop, if_false]
  refine hlhs.bind fun a ha => hrhs.bind fun b hb => ?_
  split
  · rename_i l hl
    simp only [Option.bind_eq_bind, Option.bind_eq_some_iff] at hl
    obtain ⟨x, hx, y, hy, hl⟩ := hl
    exact (returns_tagAt _).bind fun t _ => returns_pure (hfold a b x y l t ha hb hx hy hl)
  · rename_i hnone
    refine (returns_tagAt _).bind fun t _ => returns_pure (hkept a b t ha hb fun x y hx hy => ?_)
    simpa [hx, hy] using hnone

/-! ## Control -/

theorem returns_evalIf {c : Node} {thenBody elseBody : List Node} {T E : List Node → Prop} (tag : Tag)
    (hc : Returns env (fun d => ev d c) F Q)
    (hthen : ∀ v, Q v → v.bool? = some true →
      Returns env (fun d => evalSeq (ev d) thenBody >>= (seqValue · tag.span)) F P)
    (helse : ∀ v, Q v → v.bool? = some false →
      Returns env (fun d => evalSeq (ev d) elseBody >>= (seqValue · tag.span)) F P)
    (hthens : Returns env (fun d => evalSeq (ev d) thenBody) F T)
    (helses : Returns env (fun d => evalSeq (ev d) elseBody) F E)
    (hkept : ∀ v ts es t, Q v → v.bool? = none → T ts → E es → P (.ifElse t v ts es)) :
    Returns env (fun d => evalIf (ev d) tag c thenBody elseBody) F P := by
  refine hc.bind fun v hv => ?_
  split
  · rename_i taken htaken
    cases taken with
    | true => exact hthen v hv htaken
    | false => exact helse v hv htaken
  · rename_i hnone
    exact hthens.bind fun ts hts => helses.bind fun es hes => (returns_tagAt _).bind fun t _ =>
      returns_pure (hkept v ts es t hv hnone hts hes)

/-- The pattern `_` always matches. -/
theorem returns_isMatch {pattern : Node} (v : Node)
    (h : pattern.isWildcard = false → Returns env (fun d => ev d pattern) F Q) :
    Returns env (fun d => isMatch (ev d) pattern v) F
      fun hit => if pattern.isWildcard then hit = true
        else ∃ w, Q w ∧ hit = Node.equal env.links w v := by
  unfold isMatch
  cases hw : pattern.isWildcard with
  | true =>
    simp only [if_true]
    exact returns_pure rfl
  | false =>
    simp only [Bool.false_eq_true, if_false]
    refine returns_env.bind fun _ heq => (h hw).bind fun w hv => ?_
    subst heq
    exact returns_pure ⟨w, hv, rfl⟩

/-- A case is taken, or the search goes on. -/
theorem returns_evalCases_cons {c : Case Node} {cs : List (Case Node)} {v : Node} {site : Span}
    {hits : Bool → Prop} (hp : Returns env (fun d => isMatch (ev d) c.pattern v) F hits)
    (hbody : hits true → Returns env (fun d => evalSeq (ev d) c.body >>= (seqValue · c.span)) F P)
    (hrest : hits false → Returns env (fun d => evalCases (ev d) v site cs) F P) :
    Returns env (fun d => evalCases (ev d) v site (c :: cs)) F P := by
  refine hp.bind fun hit hhit => ?_
  cases hit with
  | true =>
    simp only [if_true]
    exact hbody hhit
  | false =>
    simp only [Bool.false_eq_true, if_false]
    exact hrest hhit

/-- Of the cases of a match one is taken, or there is none for everything else. -/
theorem returns_evalCases (v : Node) (site : Span) : ∀ {cases : List (Case Node)},
    (∀ c ∈ cases, c.pattern.isWildcard = false →
      Returns env (fun d => ev d c.pattern) F Q) →
    (∀ c ∈ cases, Returns env (fun d => evalSeq (ev d) c.body >>= (seqValue · c.span)) F P) →
    ((∀ c ∈ cases, c.pattern.isWildcard = false) → F (.error (.noMatchingCase v site))) →
    Returns env (fun d => evalCases (ev d) v site cases) F P
  | [], _, _, hnone => returns_throw (hnone (List.forall_mem_nil _))
  | c :: cs, hp, hb, hnone => by
    obtain ⟨hpc, hp⟩ := List.forall_mem_cons.1 hp
    obtain ⟨hbc, hb⟩ := List.forall_mem_cons.1 hb
    refine returns_evalCases_cons (returns_isMatch v hpc) (fun _ => hbc) fun hhit => ?_
    refine returns_evalCases v site hp hb fun hcs => hnone (List.forall_mem_cons.2 ⟨?_, hcs⟩)
    cases hw : c.pattern.isWildcard with
    | true => simp [hw] at hhit
    | false => rfl

/-- What a case of a match that stays becomes. -/
structure KeptCase (S : Node → Prop) (B : List Node → Prop) (c c' : Case Node) : Prop where
  wildcard : c.pattern.isWildcard = true → c'.pattern = c.pattern
  pattern : c.pattern.isWildcard = false → S c'.pattern
  body : B c'.body

section

variable {S : Node → Prop} {B : List Node → Prop}

theorem returns_evalCase {c : Case Node}
    (hp : c.pattern.isWildcard = false → Returns env (fun d => ev d c.pattern) F S)
    (hb : Returns env (fun d => evalSeq (ev d) c.body) F B) :
    Returns env (fun d => evalCase (ev d) c) F (KeptCase S B c) := by
  unfold evalCase
  cases hw : c.pattern.isWildcard with
  | true =>
    simp only [if_true]
    refine (returns_pure (P := (· = c.pattern)) rfl).bind fun pattern hpattern => ?_
    subst hpattern
    refine hb.bind fun vs hvs => returns_pure ⟨fun _ => rfl, fun hn => ?_, hvs⟩
    rw [hw] at hn
    cases hn
  | false =>
    simp only [Bool.false_eq_true, if_false]
    refine (hp hw).bind fun pattern hpattern => hb.bind fun vs hvs =>
      returns_pure ⟨fun hwild => ?_, fun _ => hpattern, hvs⟩
    rw [hw] at hwild
    cases hwild

/-- A match of a known node is decided, and otherwise its cases stay. -/
theorem returns_evalMatch {scrutinee : Node} {cases : List (Case Node)} (tag : Tag)
    (hs : Returns env (fun d => ev d scrutinee) F Q)
    (hp : ∀ c ∈ cases, c.pattern.isWildcard = false → Returns env (fun d => ev d c.pattern) F S)
    (htaken : ∀ c ∈ cases, Returns env (fun d => evalSeq (ev d) c.body >>= (seqValue · c.span)) F P)
    (hbodies : ∀ c ∈ cases, Returns env (fun d => evalSeq (ev d) c.body) F B)
    (hnone : ∀ v, Q v → (∀ c ∈ cases, c.pattern.isWildcard = false) →
      F (.error (.noMatchingCase v tag.span)))
    (hkept : ∀ v cs t, Q v → v.isStatic = false → Traversed (KeptCase S B) cases cs →
      P (.matchOn t v cs)) :
    Returns env (fun d => evalMatch (ev d) tag scrutinee cases) F P := by
  refine hs.bind fun v hv => ?_
  cases hstatic : v.isStatic with
  | true =>
    simp only [if_true]
    exact returns_evalCases v tag.span hp htaken (hnone v hv)
  | false =>
    simp only [Bool.false_eq_true, if_false]
    exact (Returns.mapM fun c hc => returns_evalCase (hp c hc) (hbodies c hc)).bind fun cs hcs =>
      (returns_tagAt _).bind fun t _ => returns_pure (hkept v cs t hv hstatic hcs)

variable {cases cs : List (Case Node)}

theorem pattern_of_kept (h : Traversed (KeptCase S B) cases cs) :
    ∀ c ∈ cs, c.pattern.isWildcard = false → S c.pattern := fun c hc hw => by
  obtain ⟨c', -, hkept⟩ := h.origin c hc
  cases hw' : c'.pattern.isWildcard with
  | false => exact hkept.pattern hw'
  | true =>
    rw [hkept.wildcard hw', hw'] at hw
    cases hw

/-- If the pattern `_` has the property as well, all patterns have it. -/
theorem patterns_of_kept (h : Traversed (KeptCase S B) cases cs)
    (hwild : ∀ c ∈ cases, S c.pattern) : ∀ c ∈ cs, S c.pattern := fun c hc => by
  obtain ⟨c', hc', hkept⟩ := h.origin c hc
  cases hw : c'.pattern.isWildcard with
  | false => exact hkept.pattern hw
  | true =>
    rw [hkept.wildcard hw]
    exact hwild c' hc'

theorem body_of_kept (h : Traversed (KeptCase S B) cases cs) : ∀ c ∈ cs, B c.body := fun c hc => by
  obtain ⟨_, -, hkept⟩ := h.origin c hc
  exact hkept.body

theorem wildcard_of_kept (h : Traversed (KeptCase S B) cases cs)
    (hw : ∃ c ∈ cases, c.pattern.isWildcard = true) : ∃ c ∈ cs, c.pattern.isWildcard = true := by
  obtain ⟨c, hc, hwild⟩ := hw
  obtain ⟨c', hc', hkept⟩ := h.result c hc
  exact ⟨c', hc', by rwa [hkept.wildcard hwild]⟩

end

/-! ## Instances -/

/-- A name in the body of an instance is a member of an enum. -/
theorem returns_evalField {n : Node} (hmember : ∀ t x, n = .ident t x → P n)
    (hother : n.ident? = none → Returns env (fun d => ev d n) F P) :
    Returns env (fun d => evalField (ev d) n) F P := by
  cases n with
  | ident t x => exact returns_pure (hmember t x rfl)
  | _ => exact hother rfl

/-! ## Sequences -/

/-- The value of a sequence is its last node where names are resolved or nothing is bound; otherwise
the sequence becomes a block. -/
theorem returns_seqValue {vs : List Node} {site : Span}
    (hempty : vs = [] → F (.error (.emptySequence site)))
    (hlast : env.resolve = true ∨ vs.any (·.isAlias) = false → ∀ v, vs.getLast? = some v → P v)
    (hblock : env.resolve = false → vs.any (·.isAlias) = true → ∀ t, P (.block t vs)) :
    Returns env (fun _ => seqValue vs site) F P := by
  refine returns_env.bind fun _ heq => ?_
  subst heq
  cases hvalue : env.resolve || !vs.any (·.isAlias) with
  | true =>
    rw [Bool.or_eq_true, Bool.not_eq_true'] at hvalue
    simp only [if_true]
    cases hv : vs.getLast? with
    | none => exact returns_throw (hempty (List.getLast?_eq_none_iff.1 hv))
    | some v => exact returns_pure (hlast hvalue v hv)
  | false =>
    rw [Bool.or_eq_false_iff, Bool.not_eq_false'] at hvalue
    simp only [Bool.false_eq_true, if_false]
    exact (returns_tagAt _).bind fun t _ => returns_pure (hblock hvalue.1 hvalue.2 t)

/-- Likewise, where the sequence is known to have a last node. -/
theorem returns_seqLast {vs : List Node} {site : Span}
    (hlast : env.resolve = true ∨ vs.any (·.isAlias) = false → ∃ v, vs.getLast? = some v ∧ P v)
    (hblock : env.resolve = false → vs.any (·.isAlias) = true → ∀ t, P (.block t vs)) :
    Returns env (fun _ => seqValue vs site) F P := by
  refine returns_seqValue (fun hnil => ?_) (fun hvalue v hv => ?_) hblock
  · obtain ⟨v, hv, -⟩ := hlast (.inr (by rw [hnil]; rfl))
    rw [hnil] at hv
    cases hv
  · obtain ⟨w, hw, hP⟩ := hlast hvalue
    rw [hv] at hw
    cases hw
    exact hP

/-- The last node of a sequence is that of its rest. -/
theorem exists_last_cons {v : Node} {vs : List Node} (h : ∃ w, vs.getLast? = some w ∧ P w) :
    ∃ w, (v :: vs).getLast? = some w ∧ P w := by
  obtain ⟨w, hlast, hw⟩ := h
  refine ⟨w, ?_, hw⟩
  rw [List.getLast?_cons, hlast]
  rfl

/-- A sequence goes on after its first node, in the environment that this one has left. -/
theorem leads_cons {T : List Node → Prop} {n : Node} {rest : List Node}
    (h : Leads env (fun d => do bindLocal (← ev d n)) F fun v e => Opened env e ∧
      Leads e (fun d => rest.mapM fun item => do bindLocal (← ev d item)) F
        fun vs e' => T (v :: vs) ∧ Opened e e') :
    Leads env (fun d => (n :: rest).mapM fun item => do bindLocal (← ev d item)) F
      fun vs e => T vs ∧ Opened env e := by
  simp only [List.mapM_cons]
  refine Leads.bind h ?_
  rintro v e ⟨hopen, hrest⟩
  refine Leads.bind hrest ?_
  rintro vs e' ⟨hvs, hopen'⟩
  exact leads_pure ⟨hvs, hopen.trans hopen'⟩

/-- What sequences keep up. Nodes have a property and environments an invariant, such that an alias with
the property may be bound, and keeps it under the other name that it then bears. -/
structure Upkeep (I : Env → Prop) (P : Node → Prop) : Prop where
  bind : ∀ {env : Env} {t xt : Tag} {x : Name} {value : Node} {transparent : Bool}
    {link : Option DefId}, I env → P (.assign t (.ident xt x) value transparent link) →
    I (env.push ⟨x, value, transparent || env.transparent, env.freshName x⟩)
  rename : ∀ {env : Env} {t xt : Tag} {x other : Name} {value : Node} {transparent : Bool}
    {link : Option DefId}, P (.assign t (.ident xt x) value transparent link) →
    env.freshName x = some other →
    ∀ t' xt' link', P (.assign t' (.ident xt' other) value transparent link')
  block : ∀ {items : List Node} (t : Tag), (∀ n ∈ items, P n) → P (.block t items)

namespace Upkeep

variable {I : Env → Prop}

theorem leads_bindLocal (h : Upkeep I P) (henv : I env) {n : Node} (hn : P n) :
    Leads env (fun _ => bindLocal n) F fun v e => P v ∧ Opened env e ∧ I e := by
  unfold bindLocal
  split
  · refine returns_env.leads fun _ heq => Leads.push ?_
    subst heq
    have henv' := h.bind henv hn
    cases hfresh : env.freshName _ with
    | none =>
      rw [hfresh] at henv'
      exact leads_pure ⟨hn, .push _ .same, henv'⟩
    | some other =>
      rw [hfresh] at henv'
      exact (returns_tagAt _).leads fun _ _ => (returns_tagAt _).leads fun _ _ =>
        leads_pure ⟨h.rename hn hfresh _ _ _, .push _ .same, henv'⟩
  · exact leads_pure ⟨hn, .same, henv⟩

/-- Each node is evaluated in the environment that the nodes before it have left. -/
theorem leads_items (h : Upkeep I P) : ∀ {items : List Node} {env : Env},
    (∀ n ∈ items, ∀ ⦃env : Env⦄, I env → Returns env (fun d => ev d n) F P) → I env →
    Leads env (fun d => items.mapM fun item => do bindLocal (← ev d item)) F
      fun vs e => (∀ v ∈ vs, P v) ∧ Opened env e
  | [], _, _, _ => by
    simp only [List.mapM_nil]
    exact leads_pure ⟨List.forall_mem_nil _, .same⟩
  | n :: items, env, hitems, henv => by
    obtain ⟨hn, hitems⟩ := List.forall_mem_cons.1 hitems
    refine leads_cons ((hn henv).leads fun v hv => (h.leads_bindLocal henv hv).mono ?_)
    rintro v e ⟨hv, hopen, henv'⟩
    exact ⟨hopen, (h.leads_items hitems henv').mono fun vs _ ⟨hvs, hopen'⟩ =>
      ⟨List.forall_mem_cons.2 ⟨hv, hvs⟩, hopen'⟩⟩

theorem returns_evalSeq (h : Upkeep I P) {items : List Node}
    (hitems : ∀ n ∈ items, ∀ ⦃env : Env⦄, I env → Returns env (fun d => ev d n) F P)
    (henv : I env) : Returns env (fun d => evalSeq (ev d) items) F fun vs => ∀ v ∈ vs, P v :=
  Leads.scope (h.leads_items hitems henv)

/-- A sequence has the property if its nodes evaluate to nodes that have it. -/
theorem returns_value (h : Upkeep I P) {items : List Node}
    (hitems : ∀ n ∈ items, ∀ ⦃env : Env⦄, I env → Returns env (fun d => ev d n) F P)
    (henv : I env) {site : Span} (hF : F (.error (.emptySequence site))) :
    Returns env (fun d => evalSeq (ev d) items >>= (seqValue · site)) F P :=
  (h.returns_evalSeq hitems henv).bind fun _ hvs => returns_seqValue (fun _ => hF)
    (fun _ v hv => hvs v (List.mem_of_getLast? hv)) fun _ _ t => h.block t hvs

end Upkeep

end Residual.Eval
