/-
Type soundness of expressions without functions. An expression that passes the checker evaluates to a
literal, and the type that the checker gave is that of the literal.

The checker and the evaluator see different environments: the former binds a name to a placeholder for
its type, the latter to a literal. A context of types stands between the two. What the checker finds
out about an expression is stated as what the evaluator does with it in every environment that fits
the context, so that one walk along the checker's steps is enough.
-/
import Residual.Proofs.Known
import Residual.Proofs.Preservation

namespace Residual

theorem Node.eq_lit_of_isLiteral {n : Node} (h : n.isLiteral = true) : ∃ tag l, n = .lit tag l := by
  cases n <;> first | exact ⟨_, _, rfl⟩ | cases h

/-- Every definition is a literal. -/
def Definitions.AreLiterals (store : Definitions) : Prop :=
  ∀ {x d v}, store.lookup x = some (d, v) → v.isLiteral = true

namespace Soundness

/-! ## Expressions -/

mutual

/-- An expression without functions: literals, names that are not those of built-in types, operators,
`if`, `match` with a case for everything, and blocks. -/
inductive Simple : Node → Prop where
  | lit (tag : Tag) (l : Literal) : Simple (.lit tag l)
  | ident {x : Name} (tag : Tag) (hx : Builtin.ofName? x = none) : Simple (.ident tag x)
  | binOp {op : Operator} {lhs rhs : Node} (tag : Tag) (hop : op ≠ .dot) (hl : Simple lhs)
    (hr : Simple rhs) : Simple (.binOp tag op lhs rhs)
  | ifElse {c : Node} {thenBody elseBody : List Node} (tag : Tag) (hc : Simple c)
    (ht : SimpleSeq thenBody) (he : SimpleSeq elseBody) : Simple (.ifElse tag c thenBody elseBody)
  | matchOn {scrutinee : Node} {cases : List (Case Node)} (tag : Tag) (hs : Simple scrutinee)
    (hp : ∀ c ∈ cases, c.pattern.isWildcard = false → Simple c.pattern)
    (hb : ∀ c ∈ cases, SimpleSeq c.body) (hw : ∃ c ∈ cases, c.pattern.isWildcard = true) :
    Simple (.matchOn tag scrutinee cases)
  | block {items : List Node} (tag : Tag) (h : SimpleSeq items) : Simple (.block tag items)

/-- A sequence of expressions and aliases, of which no alias is the last node. -/
inductive SimpleSeq : List Node → Prop where
  | nil : SimpleSeq []
  | cons {n : Node} {rest : List Node} (h : Simple n) (hrest : SimpleSeq rest) :
    SimpleSeq (n :: rest)
  | bind {x : Name} {value : Node} {transparent : Bool} {link : Option DefId} {rest : List Node}
    (tag xtag : Tag) (h : Simple value) (hrest : SimpleSeq rest) (hne : rest ≠ []) :
    SimpleSeq (.assign tag (.ident xtag x) value transparent link :: rest)

end

theorem Simple.boundName? {n : Node} (h : Simple n) : n.boundName? = none := by cases h <;> rfl

/-! ## Contexts -/

open Pass Residual.FirstOrder

/-- A literal of a type. -/
def IsLiteralOf (a : Builtin) (v : Node) : Prop := ∃ tag l, v = .lit tag l ∧ l.builtin = a

theorem IsLiteralOf.isAlias {a : Builtin} {v : Node} (h : IsLiteralOf a v) : v.isAlias = false := by
  obtain ⟨_, _, rfl, -⟩ := h
  rfl

theorem IsLiteralOf.isPlaceholder {a : Builtin} {v : Node} (h : IsLiteralOf a v) :
    v.isPlaceholder = false := by
  obtain ⟨_, _, rfl, -⟩ := h
  rfl

theorem IsLiteralOf.isStatic {a : Builtin} {v : Node} (h : IsLiteralOf a v) : v.isStatic = true := by
  obtain ⟨_, _, rfl, -⟩ := h
  rfl

theorem IsLiteralOf.number? {v : Node} (h : IsLiteralOf .number v) : ∃ x, v.number? = some x := by
  obtain ⟨_, _ | x | _, rfl, hl⟩ := h
  · cases hl
  · exact ⟨x, rfl⟩
  · cases hl

theorem IsLiteralOf.bool? {v : Node} (h : IsLiteralOf .bool v) : ∃ b, v.bool? = some b := by
  obtain ⟨_, b | _ | _, rfl, hl⟩ := h
  · exact ⟨b, rfl⟩
  · cases hl
  · cases hl

/-- An environment of the checker: the names of the context stand for their types, and nothing is
being checked. -/
structure Judges (store : Definitions) (Γ : List (Name × Builtin)) (env : Env) : Prop where
  store_eq : env.store = store
  calls : env.calls = .empty
  vars : Binds StandsFor Γ env
  others : Covers Γ env

/-- An environment of the evaluator: the names of the context are bound to literals of their types. -/
structure Realizes (store : Definitions) (Γ : List (Name × Builtin)) (env : Env) : Prop where
  store_eq : env.store = store
  resolve : env.resolve = true
  vars : Binds (fun a b => IsLiteralOf a b.value) Γ env
  others : Covers Γ env

variable {store : Definitions} {Γ : List (Name × Builtin)} {env : Env}

theorem Judges.push (h : Judges store Γ env) {b : Binding} {a : Builtin} (hb : StandsFor a b) :
    Judges store ((b.name, a) :: Γ) (env.push b) :=
  ⟨h.store_eq, h.calls, h.vars.push hb, h.others.push a b⟩

theorem Realizes.push (h : Realizes store Γ env) {b : Binding} {a : Builtin}
    (hb : IsLiteralOf a b.value) : Realizes store ((b.name, a) :: Γ) (env.push b) :=
  ⟨h.store_eq, h.resolve, h.vars.push hb, h.others.push a b⟩

/-- Wherever the context is realized, the expression evaluates to a literal of the type. -/
def Sound (store : Definitions) (Γ : List (Name × Builtin)) (n : Node) (a : Builtin) : Prop :=
  ∀ {env : Env}, Realizes store Γ env → Returns env (fun d => eval d n) NoFault (IsLiteralOf a)

/-- Likewise the last node of a sequence, after the others. -/
def SoundSeq (store : Definitions) (Γ : List (Name × Builtin)) (items : List Node) (a : Builtin) :
    Prop :=
  ∀ {env : Env}, Realizes store Γ env → EvalsSeq env items NoFault (IsLiteralOf a)

/-! ## What the evaluator does -/

section

variable {a b : Builtin}

theorem sound_lit (tag : Tag) (l : Literal) : Sound store Γ (.lit tag l) l.builtin :=
  fun _ => Returns.succ (returns_pure ⟨tag, l, rfl, rfl⟩)

theorem sound_var {x : Name} (tag : Tag) (hx : Γ.lookup x = some a) :
    Sound store Γ (.ident tag x) a := fun henv => by
  obtain ⟨b, hfind, hb⟩ := henv.vars x a hx
  exact (returns_found henv.resolve (Env.lookup_bound hfind) hb.isPlaceholder rfl tag).mono
    fun _ hn => hn ▸ hb

theorem sound_const {x : Name} {d : DefId} {ltag : Tag} {l : Literal} (tag : Tag)
    (hx : Γ.lookup x = none) (hl : store.lookup x = some (d, .lit ltag l)) :
    Sound store Γ (.ident tag x) l.builtin := fun {env} henv => by
  have hlookup : env.lookup x = some (.defined d (.lit ltag l)) := by
    rw [Env.lookup, henv.others x hx, henv.store_eq, hl]
  exact (returns_found henv.resolve hlookup rfl rfl tag).mono fun _ hn => hn ▸ ⟨ltag, l, rfl, rfl⟩

theorem sound_binOp {op : Operator} {lhs rhs : Node} (tag : Tag) (hop : op ≠ .dot)
    (hl : Sound store Γ lhs .number) (hr : Sound store Γ rhs .number) :
    Sound store Γ (.binOp tag op lhs rhs) (if op.isArithmetic then .number else .bool) :=
  fun henv => by
    have hnumber {v : Node} (hv : IsLiteralOf .number v) : ∃ x, v.number? = some x ∧ True := by
      simpa using hv.number?
    refine returns_fold tag hop ((hl henv).mono fun _ => hnumber) ((hr henv).mono fun _ => hnumber)
      fun x y _ _ => ?_
    obtain ⟨l, hfold⟩ := Operator.exists_fold hop x y
    exact ⟨l, hfold, fun t => ⟨t, l, rfl, Operator.builtin_of_fold hfold⟩⟩

theorem sound_ifElse {c : Node} {thenBody elseBody : List Node} (tag : Tag)
    (hc : Sound store Γ c .bool) (ht : SoundSeq store Γ thenBody a)
    (he : SoundSeq store Γ elseBody a) : Sound store Γ (.ifElse tag c thenBody elseBody) a :=
  fun henv => by
    refine returns_branch (R := fun _ => True) tag henv.resolve
      ((hc henv).mono fun v hv => by simpa using hv.bool?) fun taken _ => ?_
    cases taken with
    | true => exact ht henv
    | false => exact he henv

/-- The search for a case ends at one with the pattern `_`, if not before. -/
theorem sound_matchOn {scrutinee : Node} {cases : List (Case Node)} (tag : Tag)
    (hs : Sound store Γ scrutinee b)
    (hp : ∀ c ∈ cases, c.pattern.isWildcard = false → Sound store Γ c.pattern b)
    (hb : ∀ c ∈ cases, SoundSeq store Γ c.body a) (hw : ∃ c ∈ cases, c.pattern.isWildcard = true) :
    Sound store Γ (.matchOn tag scrutinee cases) a := fun henv => by
  refine returns_decided tag (hs henv) (fun _ hv => hv.isStatic) fun v _ =>
    Eval.returns_evalCases v tag.span (fun c hc hwild => hp c hc hwild henv)
      (fun c hc => (hb c hc henv).value henv.resolve c.span) fun hnone => ?_
  obtain ⟨c, hc, hwild⟩ := hw
  rw [hnone c hc] at hwild
  cases hwild

theorem sound_block {items : List Node} (tag : Tag) (h : SoundSeq store Γ items a) :
    Sound store Γ (.block tag items) a := fun henv =>
  Returns.succ ((h henv).value henv.resolve tag.span)

theorem soundSeq_last {n : Node} (h : Sound store Γ n a) : SoundSeq store Γ [n] a := fun henv =>
  .last (h henv) fun _ hv => hv.isAlias

theorem soundSeq_next {n : Node} {rest : List Node} (h : Sound store Γ n b)
    (hrest : SoundSeq store Γ rest a) : SoundSeq store Γ (n :: rest) a := fun henv =>
  .next (h henv) (fun _ hv => hv.isAlias) (hrest henv)

theorem soundSeq_bind {x : Name} {value : Node} {transparent : Bool} {link : Option DefId}
    {rest : List Node} (tag xtag : Tag) (h : Sound store Γ value b)
    (hrest : SoundSeq store ((x, b) :: Γ) rest a) :
    SoundSeq store Γ (.assign tag (.ident xtag x) value transparent link :: rest) a := fun henv =>
  .bind tag xtag transparent link (h henv) fun v hv =>
    hrest (henv.push (b := ⟨x, v, _, _⟩) hv)

end

/-! ## What the checker finds out -/

/-- A type of data with which the expression is sound. -/
abbrev Found (Q : Builtin → Prop) (t : Node) : Prop := Judged (fun _ _ => True) () Q t

section

variable {n : Node} {Q : Builtin → Prop}

/-- The type of a name is that of what it stands for. -/
theorem returns_check_ident (hstore : store.AreLiterals) {x : Name} (tag : Tag)
    (hx : Builtin.ofName? x = none) (henv : Judges store Γ env) :
    Returns env (fun d => check d (.ident tag x)) NotVoid (Found (Sound store Γ (.ident tag x))) := by
  refine Returns.succ (returns_env.bind fun _ heq => ?_)
  subst heq
  cases hΓ : Γ.lookup x with
  | some a =>
    obtain ⟨b, hfind, ⟨t, ty, hvalue, hty⟩, -⟩ := henv.vars x a hΓ
    simp only [Env.lookup_bound hfind]
    refine (returns_pure (P := (· = b.value)) rfl).bind fun v hv => ?_
    subst hv
    rw [hvalue]
    exact Returns.under (Returns.succ (returns_pure ⟨a, hty, trivial, sound_var tag hΓ⟩))
      Guard.lawful_globals
  | none =>
    have hfind := henv.others x hΓ
    cases hdef : store.lookup x with
    | none =>
      have hlookup : env.lookup x = none := by rw [Env.lookup, hfind, henv.store_eq, hdef, hx]; rfl
      simp only [hlookup]
      refine returns_throw ?_
      rintro ⟨⟩
    | some found =>
      obtain ⟨d, v⟩ := found
      have hlookup : env.lookup x = some (.defined d v) := by
        rw [Env.lookup, hfind, henv.store_eq, hdef]
      obtain ⟨ltag, l, rfl⟩ := Node.eq_lit_of_isLiteral (hstore hdef)
      simp only [hlookup]
      refine (returns_pure (P := (· = Node.lit ltag l)) rfl).bind fun v hv => ?_
      subst hv
      refine Returns.under (returns_env.bind fun _ heq => ?_) Guard.lawful_globals
      subst heq
      -- The value of a definition is checked unless that is going on already.
      have hstack : (Guard.globals.enter env).isOnStack (.lit ltag l) = false := by
        have hcalls : (Guard.globals.enter env).calls = .empty := henv.calls
        rw [Env.isOnStack, hcalls]
        rfl
      simp only [hstack]
      exact Returns.under (Returns.succ ((returns_builtin l.isData_builtin).mono
        fun _ ht => ⟨_, ht, trivial, sound_const tag hΓ hdef⟩)) (Guard.lawful_call _)

theorem returns_check_binOp {op : Operator} {lhs rhs : Node} (tag : Tag) (hop : op ≠ .dot)
    (hl : Returns env (fun d => check d lhs) NotVoid (Found (Sound store Γ lhs)))
    (hr : Returns env (fun d => check d rhs) NotVoid (Found (Sound store Γ rhs))) :
    Returns env (fun d => Check.checkBinOp (eval d) (check d) tag op lhs rhs) NotVoid
      (Found (Sound store Γ (.binOp tag op lhs rhs))) := by
  simp only [Check.checkBinOp, hop, if_false]
  refine (returns_checkOperand reading_unknown op hl).bind fun _ hl => ?_
  refine (returns_checkOperand reading_unknown op hr).bind fun _ hr => ?_
  exact (returns_builtin op.isData_result).mono fun t ht => ⟨_, ht, trivial, sound_binOp tag hop hl hr⟩

/-- The empty sequence has no type; any other one has that of its last node. -/
theorem returns_check_seq {items : List Node} {P : Node → Prop}
    (h : Check.ChecksSeq check env items NotVoid P) (site : Span) :
    Returns env (fun d => Check.checkSeq (check d) items site) NotVoid P := by
  cases items with
  | nil => exact returns_throw fun h => nomatch h
  | cons n rest => exact h.returns (List.cons_ne_nil _ _) site

/-- A sequence as an arm of a branch. -/
theorem returns_check_arm {items : List Node} (h : Check.ChecksSeq check env items NotVoid (Found Q))
    (site : Span) :
    Returns env (fun d => attempt (Check.checkSeq (check d) items site)) NotVoid
      fun r => ∀ s, Arm (fun _ _ => True) NotVoid () Q (r, s) := by
  have hrestores d := Check.restores_checkSeq (restores_check d) items site
  refine ((returns_check_seq h site).attempt hrestores).mono fun r hr s => ?_
  cases r <;> exact hr

theorem returns_check_ifElse {c : Node} {thenBody elseBody : List Node} (tag : Tag)
    (hc : Returns env (fun d => check d c) NotVoid (Found (Sound store Γ c)))
    (ht : Check.ChecksSeq check env thenBody NotVoid (Found (SoundSeq store Γ thenBody)))
    (he : Check.ChecksSeq check env elseBody NotVoid (Found (SoundSeq store Γ elseBody))) :
    Returns env (fun d => Check.checkIf (check d) tag c thenBody elseBody) NotVoid
      (Found (Sound store Γ (.ifElse tag c thenBody elseBody))) := by
  refine (returns_expectBool reading_unknown hc).bind fun _ hc => ?_
  refine (returns_check_arm ht tag.span).bind fun r hr => ?_
  refine (returns_check_arm he tag.span).bind fun r' hr' => ?_
  have harms : Traversed (fun body => Arm (fun _ _ => True) NotVoid () (SoundSeq store Γ body))
      [thenBody, elseBody]
      [(r, Check.bodySite thenBody tag.span), (r', Check.bodySite elseBody tag.span)] :=
    .cons (hr _) (.cons (hr' _) (traversed_nil _))
  refine (returns_join reading_unknown tag.span (List.cons_ne_nil _ _) harms).mono fun t ht => ?_
  obtain ⟨b, hb, -, hall⟩ := ht
  exact ⟨b, hb, trivial, sound_ifElse tag hc (hall _ (by simp)) (hall _ (by simp))⟩

theorem returns_check_case {c : Case Node} {t : Node} {s : Builtin} (ht : FirstOrder.IsDataType s t)
    (hp : c.pattern.isWildcard = false →
      Returns env (fun d => check d c.pattern) NotVoid (Found (Sound store Γ c.pattern)))
    (hb : Check.ChecksSeq check env c.body NotVoid (Found (SoundSeq store Γ c.body))) :
    Returns env (fun d => Check.checkCase (check d) t c) NotVoid fun arm =>
      (c.pattern.isWildcard = false → Sound store Γ c.pattern s) ∧
        Arm (fun _ _ => True) NotVoid () (SoundSeq store Γ c.body) arm :=
  returns_checkCase_of_arm reading_unknown (a := ()) ht trivial hp (returns_check_arm hb c.span)

theorem returns_check_matchOn {scrutinee : Node} {cases : List (Case Node)} (tag : Tag)
    (hs : Returns env (fun d => check d scrutinee) NotVoid (Found (Sound store Γ scrutinee)))
    (hp : ∀ c ∈ cases, c.pattern.isWildcard = false →
      Returns env (fun d => check d c.pattern) NotVoid (Found (Sound store Γ c.pattern)))
    (hb : ∀ c ∈ cases, Check.ChecksSeq check env c.body NotVoid (Found (SoundSeq store Γ c.body)))
    (hw : ∃ c ∈ cases, c.pattern.isWildcard = true) :
    Returns env (fun d => Check.checkMatch (check d) tag scrutinee cases) NotVoid
      (Found (Sound store Γ (.matchOn tag scrutinee cases))) := by
  refine hs.bind fun t ht => ?_
  obtain ⟨s, hdenotes, -, hs⟩ := ht
  refine (Returns.mapM fun c hc => returns_check_case hdenotes (hp c hc) (hb c hc)).bind
    fun arms harms => ?_
  have hne : cases ≠ [] := List.ne_nil_of_mem hw.choose_spec.1
  refine (returns_join reading_unknown tag.span hne (harms.imp fun _ _ h => h.2)).mono
    fun u hu => ?_
  obtain ⟨b, hb, -, hall⟩ := hu
  refine ⟨b, hb, trivial, sound_matchOn tag hs (fun c hc hwild => ?_) hall hw⟩
  obtain ⟨_, -, hpattern, -⟩ := harms.result c hc
  exact hpattern hwild

/-- An alias passes if its name is free or its own, and is seen after that as data of its type. -/
theorem leads_check_bind {x : Name} {value : Node} (tag xtag : Tag) (transparent : Bool)
    (link : Option DefId) (henv : Judges store Γ env)
    (hvalue : Returns env (fun d => check d value) NotVoid (Found Q)) :
    Leads env
      (fun d => Check.checkItem (check d) (.assign tag (.ident xtag x) value transparent link))
      NotVoid fun _ e => Opened env e ∧ ∃ b, Q b ∧ Judges store ((x, b) :: Γ) e := by
  have halias : Returns env
      (fun d => check d (.assign tag (.ident xtag x) value transparent link)) NotVoid (Found Q) := by
    refine Returns.succ (returns_env.bind fun _ heq => ?_)
    subst heq
    cases env.lookup x with
    | none => exact hvalue
    | some found =>
      simp only []
      split
      · exact hvalue
      · exact returns_throw fun h => nomatch h
  refine (Check.leads_checkItem_alias halias).mono ?_
  rintro _ _ ⟨ty, t, ⟨b, hb, -, hQ⟩, rfl⟩
  have henv' := henv.push (b := ⟨x, .selfType t ty, false, none⟩) ⟨⟨t, ty, rfl, hb⟩, rfl⟩
  exact ⟨.push _ .same, b, hQ, henv'⟩

end

mutual

/-- An expression that passes the checker is sound with the type it is given. -/
theorem Simple.checked (hstore : store.AreLiterals) : ∀ {n : Node}, Simple n →
    ∀ {Γ : List (Name × Builtin)} {env : Env}, Judges store Γ env →
    Returns env (fun d => check d n) NotVoid (Found (Sound store Γ n))
  | _, .lit tag l, _, _, _ => Returns.succ ((returns_builtin l.isData_builtin).mono
    fun _ ht => ⟨_, ht, trivial, sound_lit tag l⟩)
  | _, .ident tag hx, _, _, henv => returns_check_ident hstore tag hx henv
  | _, .binOp tag hop hl hr, _, _, henv => Returns.succ
    (returns_check_binOp tag hop (hl.checked hstore henv) (hr.checked hstore henv))
  | _, .ifElse tag hc ht he, _, _, henv => Returns.succ (returns_check_ifElse tag
    (hc.checked hstore henv) (ht.checked hstore henv) (he.checked hstore henv))
  | _, .matchOn tag hs hp hb hw, _, _, henv => Returns.succ (returns_check_matchOn tag
    (hs.checked hstore henv) (fun c hc hwild => (hp c hc hwild).checked hstore henv)
    (fun c hc => (hb c hc).checked hstore henv) hw)
  | _, .block tag h, _, _, henv => Returns.succ ((returns_check_seq (h.checked hstore henv)
    tag.span).mono fun _ ⟨b, hb, _, hseq⟩ => ⟨b, hb, trivial, sound_block tag hseq⟩)

theorem SimpleSeq.checked (hstore : store.AreLiterals) : ∀ {items : List Node}, SimpleSeq items →
    ∀ {Γ : List (Name × Builtin)} {env : Env}, Judges store Γ env →
    Check.ChecksSeq check env items NotVoid (Found (SoundSeq store Γ items))
  | _, .nil, _, _, _ => fun _ hlast => nomatch hlast
  | [_], .cons h _, _, _, henv =>
    (Check.checksSeq_single (h.checked hstore henv) h.boundName?).mono
      fun _ ⟨b, hb, _, hn⟩ => ⟨b, hb, trivial, soundSeq_last hn⟩
  | _ :: _ :: _, .cons h hrest, _, _, henv => by
    refine .cons (List.cons_ne_nil _ _) (Leads.mono (Check.returns_checkItem (h.checked hstore henv)
      h.boundName?) fun _ e ⟨⟨b, _, _, hn⟩, he⟩ => ?_)
    subst he
    exact ⟨.same, (hrest.checked hstore henv).mono
      fun _ ⟨b, hb, _, hseq⟩ => ⟨b, hb, trivial, soundSeq_next hn hseq⟩⟩
  | _, .bind tag xtag h hrest hne, _, _, henv => by
    refine .cons hne ((leads_check_bind tag xtag _ _ henv (h.checked hstore henv)).mono
      fun _ e ⟨hopen, b, hvalue, henv'⟩ => ⟨hopen, ?_⟩)
    exact (hrest.checked hstore henv').mono
      fun _ ⟨c, hc, _, hseq⟩ => ⟨c, hc, trivial, soundSeq_bind tag xtag hvalue hseq⟩

end

end Soundness

open Soundness in
/-- Type soundness: over definitions that are literals, an expression that passes the checker
evaluates to a literal, and the type it passed with is that of the literal. -/
theorem eval_yields_checked_type {store : Definitions} (hstore : store.AreLiterals) {n : Node}
    (hn : Simple n) {ty : Node} {depth : Nat} {s s' t : Machine} (hs : s.env.IsFresh store)
    (hs' : s'.env.IsFresh store) (hresolve : s'.env.resolve = true)
    (hcheck : (check depth n).runOn s = (.ok ty, t)) :
    ∃ l tag ltag t' depth', ty = .builtin tag l.builtin ∧
      ∀ d ≥ depth', (eval d n).runOn s' = (.ok (.lit ltag l), t') := by
  have henv : Judges store [] s.env :=
    ⟨hs.store_eq, hs.calls, .nil, fun x _ => hs.find?_eq_none x⟩
  have henv' : Realizes store [] s'.env :=
    ⟨hs'.store_eq, hresolve, .nil, fun x _ => hs'.find?_eq_none x⟩
  obtain ⟨⟨b, ⟨-, tag, rfl⟩, -, hsound⟩, -⟩ :=
    (hn.checked hstore henv).of_run (fun _ _ hle => approximates_check hle n) depth rfl hcheck
  -- Soundness of the type that was found is all that is needed of the checker's run.
  obtain ⟨r, t', hends, depth', hrun⟩ := hsound henv' s' rfl
  cases r with
  | error f => exact hends.elim
  | ok v =>
    obtain ⟨⟨ltag, l, rfl, rfl⟩, -⟩ := hends
    exact ⟨l, tag, ltag, t', depth', rfl, hrun⟩

/-- `limit = 3` -/
def limitDefinitions : Definitions := ⟨[("limit", .lit ⟨0, .builtin⟩ (.number 3))]⟩

/-- `{ z = if limit < 2 then { w = "a"; w } else "b";
match z { "a" => 1, _ => { y = limit; y + 1 } } }` -/
def limitProgram : Node :=
  .block ⟨1, .builtin⟩
    [.assign ⟨2, .builtin⟩ (.ident ⟨3, .builtin⟩ "z")
      (.ifElse ⟨4, .builtin⟩
        (.binOp ⟨5, .builtin⟩ .lt (.ident ⟨6, .builtin⟩ "limit") (.lit ⟨7, .builtin⟩ (.number 2)))
        [.assign ⟨8, .builtin⟩ (.ident ⟨9, .builtin⟩ "w") (.lit ⟨10, .builtin⟩ (.string "a"))
          false none, .ident ⟨11, .builtin⟩ "w"]
        [.lit ⟨12, .builtin⟩ (.string "b")]) false none,
    .matchOn ⟨13, .builtin⟩ (.ident ⟨14, .builtin⟩ "z")
      [⟨.builtin, .lit ⟨15, .builtin⟩ (.string "a"), [.lit ⟨16, .builtin⟩ (.number 1)]⟩,
      ⟨.builtin, .ident ⟨17, .builtin⟩ "_",
        [.assign ⟨18, .builtin⟩ (.ident ⟨19, .builtin⟩ "y") (.ident ⟨20, .builtin⟩ "limit")
          false none,
        .binOp ⟨21, .builtin⟩ .add (.ident ⟨22, .builtin⟩ "y")
          (.lit ⟨23, .builtin⟩ (.number 1))]⟩]]

open Soundness in
theorem simple_limitProgram : Simple limitProgram := by
  refine .block _ (.bind _ _ (.ifElse _ (.binOp _ (by decide) (.ident _ rfl) (.lit _ _))
    (.bind _ _ (.lit _ _) (.cons (.ident _ rfl) .nil) (List.cons_ne_nil _ _))
    (.cons (.lit _ _) .nil)) (.cons (.matchOn _ (.ident _ rfl) (fun c hc hw => ?_) (fun c hc => ?_)
    ⟨_, List.mem_cons_of_mem _ List.mem_cons_self, rfl⟩) .nil) (List.cons_ne_nil _ _))
  all_goals
    simp only [List.mem_cons, List.not_mem_nil, or_false] at hc
    obtain rfl | rfl := hc
  · exact .lit _ _
  · cases hw
  · exact .cons (.lit _ _) .nil
  · exact .bind _ _ (.ident _ rfl) (.cons (.binOp _ (by decide) (.ident _ rfl) (.lit _ _)) .nil)
      (List.cons_ne_nil _ _)

/-- The program passes, and therefore has a value of the type that it passes with. -/
theorem eval_yields_checked_type_limit :
    ∃ ty t l tag ltag t' depth',
      (check 20 limitProgram).runOn (freshMachine limitDefinitions true) = (.ok ty, t) ∧
      ty = .builtin tag l.builtin ∧ ∀ d ≥ depth',
        (eval d limitProgram).runOn (freshMachine limitDefinitions true) =
          (.ok (.lit ltag l), t') := by
  have hstore : limitDefinitions.AreLiterals := fun hx => by
    obtain ⟨entry, hentry, rfl⟩ := Definitions.mem_of_lookup hx
    obtain rfl := List.mem_singleton.1 hentry
    rfl
  have hcheck : ((check 20 limitProgram).runOn (freshMachine limitDefinitions true)).1.isOk =
    true := by decide +kernel
  obtain ⟨ty, t, hcheck⟩ := Pass.runOn_of_isOk hcheck
  obtain ⟨l, tag, ltag, t', depth', hty, heval⟩ := eval_yields_checked_type hstore
    simple_limitProgram (isFresh_freshMachine _ true) (isFresh_freshMachine _ true) rfl hcheck
  exact ⟨ty, t, l, tag, ltag, t', depth', hcheck, hty, heval⟩

end Residual
