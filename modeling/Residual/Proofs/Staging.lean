/-
Evaluation in two stages. In the first stage not every value is known, and code is left over; in the
second stage the code is evaluated. What code is left over is told by what it becomes: `CodeFor` a value
is a node that becomes the value in every environment of the second stage. Where all is known from the
start, the node has to be the value itself.

A `Setting` says what the environments of the two stages are, and how names go in them. An expression is
in `Stages` of a setting if it has one value whatever is known in the first stage: every environment
that holds code for the values of the names in scope makes code for that value of it. There is one rule
for each kind of expression. A condition that is not known yet leaves both branches over, with their
aliases, and where names are kept a block stays with its aliases.
-/
import Residual.Proofs.Selection
import Residual.Proofs.Soundness

namespace Residual.Staging

open Pass Residual.FirstOrder Residual.Selection

/-! ## Values -/

/-- A literal, a built-in type, or a list of values. -/
inductive Value : Node → Prop where
  | lit (tag : Tag) (l : Literal) : Value (.lit tag l)
  | builtin (tag : Tag) (b : Builtin) : Value (.builtin tag b)
  | list {items : List Node} (tag : Tag) (h : ∀ n ∈ items, Value n) : Value (.list tag items)

/-- The type of a value. -/
def typeOf? : Node → Option Builtin
  | .lit _ l => some l.builtin
  | .builtin .. => some .type
  | .list .. => some .list
  | _ => none

/-- A value may stand where a type is asked for; everything may stand for `Any`. -/
def Fits (a : Builtin) (w : Node) : Prop := a = .any ∨ typeOf? w = some a

theorem Fits.number? {w : Node} (h : Fits .number w) : ∃ x, w.number? = some x := by
  rcases h with h | h
  · cases h
  · cases w with
    | lit tag l =>
      cases l with
      | number x => exact ⟨x, rfl⟩
      | bool | string => cases h
    | _ => cases h

theorem Fits.bool? {w : Node} (h : Fits .bool w) : ∃ b, w.bool? = some b := by
  rcases h with h | h
  · cases h
  · cases w with
    | lit tag l =>
      cases l with
      | bool b => exact ⟨b, rfl⟩
      | number | string => cases h
    | _ => cases h

/-- A node that is a value, up to its tags. -/
structure Shows (w n : Node) : Prop where
  value : Value n
  bare : n.bare = w

section

variable {w n : Node}

theorem Shows.isAlias (h : Shows w n) : n.isAlias = false := by cases h.value <;> rfl

theorem Shows.isPlaceholder (h : Shows w n) : n.isPlaceholder = false := by cases h.value <;> rfl

theorem Shows.number?_eq (h : Shows w n) : n.number? = w.number? := by
  rw [← h.bare, Node.number?_relabel]

theorem Shows.bool?_eq (h : Shows w n) : n.bool? = w.bool? := by
  rw [← h.bare, Node.bool?_relabel]

theorem shows_lit (tag : Tag) (l : Literal) : Shows (.lit noTag l) (.lit tag l) := ⟨.lit tag l, rfl⟩

theorem shows_list {ws ns : List Node} (tag : Tag) (h : List.Forall₂ Shows ws ns) :
    Shows (.list noTag ws) (.list tag ns) := by
  constructor
  · refine .list tag fun n hn => ?_
    obtain ⟨w, -, hw⟩ := (traversed_of_forall₂ h).origin n hn
    exact hw.value
  · have hbare : ns.map Node.bare = ws.map id := map_eq_of_forall₂ (h.imp fun _ _ hw => hw.bare)
    rw [Node.bare, Node.relabel, Node.relabelList_eq, hbare, List.map_id]
    rfl

/-- A value is what it is in every environment. -/
theorem Value.returns {env : Env} {F : Fault → Prop} (h : Value n) :
    Returns env (fun d => eval d n) F (Shows n.bare) := by
  induction h with
  | lit tag l => exact Returns.succ (returns_pure ⟨.lit tag l, rfl⟩)
  | builtin tag b => exact Returns.succ (returns_pure ⟨.builtin tag b, rfl⟩)
  | @list items tag _ ih =>
    refine Returns.succ ((Returns.forall₂ ih).bind fun ns hns => ?_)
    refine (returns_tagAt _).bind fun t _ => returns_pure ?_
    have hshows : List.Forall₂ Shows (items.map Node.bare) ns := List.forall₂_map_left_iff.2 hns
    have hlist := shows_list t hshows
    rwa [Node.bare, Node.relabel, Node.relabelList_eq]

end

/-! ## Code -/

/-- What is known in the first stage, and where code is evaluated in the second one. -/
structure Outlook where
  /-- Whether all values are known already. -/
  known : Bool
  later : Env → Prop
  resolve : ∀ {env}, later env → env.resolve = true

/-- In every such environment the node evaluates to the value. -/
def Becomes (later : Env → Prop) (w n : Node) : Prop :=
  ∀ {env : Env}, later env → Returns env (fun d => eval d n) NoFault (Shows w)

/-- Likewise the last node of a sequence, after the others. -/
def BecomesSeq (later : Env → Prop) (w : Node) (ns : List Node) : Prop :=
  ∀ {env : Env}, later env → EvalsSeq env ns NoFault (Shows w)

/-- Code for a value: it becomes the value, and is the value already if all is known. -/
structure CodeFor (o : Outlook) (w n : Node) : Prop where
  becomes : Becomes o.later w n
  literal : ∀ tag l, n = .lit tag l → w = .lit noTag l
  isAlias : n.isAlias = false
  isPlaceholder : n.isPlaceholder = false
  shows : o.known = true → Shows w n

variable {o : Outlook} {w n : Node}

theorem Shows.codeFor (h : Shows w n) : CodeFor o w n where
  becomes _ := by
    rw [← h.bare]
    exact h.value.returns
  literal tag l hn := by
    rw [← h.bare, hn]
    rfl
  isAlias := h.isAlias
  isPlaceholder := h.isPlaceholder
  shows _ := h

/-- A name that stays, while not all is known, is code for what it is later. -/
theorem codeFor_ident {x : Name} (tag : Tag) (hknown : o.known = false)
    (h : Becomes o.later w (.ident tag x)) : CodeFor o w (.ident tag x) where
  becomes := h
  literal _ _ h := by cases h
  isAlias := rfl
  isPlaceholder := rfl
  shows h := by
    rw [hknown] at h
    cases h

/-- A literal that is code for a number is that number. -/
theorem CodeFor.number?_eq (h : CodeFor o w n) {x : Float} (hx : n.number? = some x) :
    w.number? = some x := by
  cases n with
  | lit tag l =>
    rw [h.literal tag l rfl]
    cases l <;> cases hx
    rfl
  | _ => cases hx

theorem CodeFor.bool?_eq (h : CodeFor o w n) {b : Bool} (hb : n.bool? = some b) :
    w.bool? = some b := by
  cases n with
  | lit tag l =>
    rw [h.literal tag l rfl]
    cases l <;> cases hb
    rfl
  | _ => cases hb

/-- A sequence that becomes the value as a whole. If it comes to its last node, where names are resolved
or where nothing is bound, then that node is code for the value. -/
structure CodeSeq (o : Outlook) (resolve : Bool) (w : Node) (ns : List Node) : Prop where
  becomes : BecomesSeq o.later w ns
  last : resolve = true ∨ ns.any (·.isAlias) = false → ∃ n, ns.getLast? = some n ∧ CodeFor o w n

/-- The last node of a longer sequence is that of its rest. -/
theorem CodeSeq.cons {o' : Outlook} {resolve : Bool} {m : Node} {ns : List Node}
    (h : CodeSeq o' resolve w ns) (hbecomes : BecomesSeq o.later w (m :: ns))
    (hcode : resolve = true ∨ m.isAlias = false → ∀ n, CodeFor o' w n → CodeFor o w n) :
    CodeSeq o resolve w (m :: ns) where
  becomes := hbecomes
  last hlast := by
    rw [List.any_cons, Bool.or_eq_false_iff] at hlast
    obtain ⟨n, hn, hcodeFor⟩ := h.last (hlast.imp_right And.right)
    refine ⟨n, ?_, hcode (hlast.imp_right And.left) n hcodeFor⟩
    rw [List.getLast?_cons, hn]
    rfl

/-- The sequence is evaluated, node by node, to code for the value. -/
def LeavesSeq (o : Outlook) (env : Env) (items : List Node) (w : Node) : Prop :=
  Leads env (fun d => items.mapM fun item => do Eval.bindLocal (← eval d item)) NoFault
    fun ns e => CodeSeq o env.resolve w ns ∧ Opened env e

/-- Where names are kept, a sequence with aliases stays as a block. -/
theorem LeavesSeq.value {env : Env} {items : List Node} (h : LeavesSeq o env items w)
    (hkept : env.resolve = false → o.known = false) (site : Span) :
    Returns env (fun d => Eval.evalSeq (eval d) items >>= (Eval.seqValue · site)) NoFault
      (CodeFor o w) := by
  refine (Leads.scope h).bind fun ns hns => Eval.returns_seqLast hns.last fun hresolve _ t => ?_
  refine ⟨fun hl => Returns.succ ((hns.becomes hl).value (o.resolve hl) t.span),
    fun _ _ h => (by cases h), rfl, rfl, fun hknown => ?_⟩
  rw [hkept hresolve] at hknown
  cases hknown

/-! ## Settings -/

/-- What a name that is not bound stands for: a literal that it is defined as, or a built-in type. -/
inductive Meaning (store : Definitions) (x : Name) : Node → Builtin → Prop where
  | defined {d : DefId} {tag : Tag} {l : Literal} (h : store.lookup x = some (d, .lit tag l)) :
    Meaning store x (.lit noTag l) l.builtin
  | builtin {b : Builtin} (h : store.lookup x = none) (hb : Builtin.ofName? x = some b) :
    Meaning store x (.builtin noTag b) .type

/-- An alias may take a name that is not in scope: one that nothing else has, or that of a definition
of which no alias bears a suffixed form. -/
structure CanBind (store : Definitions) (names : Name → Prop) (Γ : List (Name × Builtin)) (y : Name) :
    Prop where
  name : names y
  unbound : Γ.lookup y = none
  free : (store.lookup y = none ∧ Builtin.ofName? y = none) ∨
    (store.lookup y).isSome = true ∧ ∀ k, ¬ names (Env.suffixed y k)

/-- How the outlook changes where an alias of a value is bound under a name. -/
structure Outlook.Binds (o o' : Outlook) (resolve : Bool) (y : Name) (w : Node) : Prop where
  later : ∀ {env : Env} {b : Binding}, o.later env → b.name = y → Shows w b.value →
    o'.later (env.push b)
  code : resolve = true → ∀ {w n : Node}, CodeFor o' w n → CodeFor o w n

/-- A way to evaluate in two stages: the environments of the first stage that hold code for the values
of the names in scope, given the outlook on the second stage. Aliases take their names from `names`. -/
structure Setting (store : Definitions) (names : Name → Prop) where
  Host : (σ : Name → Node) → (Γ : List (Name × Builtin)) → Outlook → Env → Prop
  kept : ∀ {σ Γ o env}, Host σ Γ o env → env.resolve = false → o.known = false
  var : ∀ {σ Γ o env x a} (tag : Tag), Host σ Γ o env → Γ.lookup x = some a →
    Returns env (fun d => eval d (.ident tag x)) NoFault (CodeFor o (σ x))
  unbound : ∀ {σ Γ o env x w a} (tag : Tag), Host σ Γ o env → Γ.lookup x = none →
    Meaning store x w a → Returns env (fun d => eval d (.ident tag x)) NoFault (CodeFor o w)
  bind : ∀ {σ Γ o env y w m} (b : Builtin) (transparent : Bool), Host σ Γ o env →
    CanBind store names Γ y → CodeFor o w m → ∃ o',
      Host (Function.update σ y w) ((y, b) :: Γ) o' (env.push ⟨y, m, transparent, env.freshName y⟩) ∧
      o.Binds o' env.resolve ((env.freshName y).getD y) w

/-- The values fit the types of the names in scope. -/
def Realizes (σ : Name → Node) (Γ : List (Name × Builtin)) : Prop :=
  ∀ y a, Γ.lookup y = some a → Fits a (σ y)

variable {store : Definitions} {names : Name → Prop} {σ : Name → Node} {Γ : List (Name × Builtin)}
variable {env : Env}

theorem Realizes.update (h : Realizes σ Γ) {y : Name} {a : Builtin} (hw : Fits a w) :
    Realizes (Function.update σ y w) ((y, a) :: Γ) := by
  intro z b hz
  by_cases hzy : z = y
  · subst hzy
    rw [List.lookup_cons_self] at hz
    cases hz
    rwa [Function.update_self]
  · rw [lookup_cons_of_ne a hzy] at hz
    rw [Function.update_of_ne hzy]
    exact h z b hz

/-- Where names are resolved, one that is not bound becomes what it stands for. -/
theorem Meaning.returns {F : Fault → Prop} {x : Name} {a : Builtin} (h : Meaning store x w a)
    (tag : Tag) (hstore : env.store = store) (hfind : env.locals.find? x = none)
    (hresolve : env.resolve = true) :
    Returns env (fun d => eval d (.ident tag x)) F (Shows w) := by
  cases h with
  | @defined d ltag l hl =>
    have hlookup : env.lookup x = some (.defined d (.lit ltag l)) := by
      rw [Env.lookup, hfind, hstore, hl]
    refine (returns_found hresolve hlookup rfl rfl tag).mono ?_
    rintro _ rfl
    exact shows_lit ltag l
  | @builtin b hdef hb =>
    have hlookup : env.lookup x = some (.builtin b) := by
      rw [Env.lookup, hfind, hstore, hdef, hb]
      rfl
    refine Returns.succ (returns_env.bind fun _ heq => ?_)
    subst heq
    simp only [hlookup, Found.isPlaceholder, hresolve, Bool.not_false, Bool.true_or, Bool.and_self,
      if_true]
    exact (returns_tagAt _).bind fun t _ => returns_pure ⟨.builtin t b, rfl⟩

/-! ## Expressions -/

namespace Setting

variable {S : Setting store names}

/-- Whatever the values of the names in scope, the expression has a value of the type, and becomes code
for it wherever there is code for theirs. -/
def Stages (S : Setting store names) (Γ : List (Name × Builtin)) (n : Node) (a : Builtin) : Prop :=
  ∀ {σ : Name → Node}, Realizes σ Γ → ∃ w, Fits a w ∧
    ∀ {o : Outlook} {env : Env}, S.Host σ Γ o env →
      Returns env (fun d => eval d n) NoFault (CodeFor o w)

/-- Likewise a sequence, by the value of its last node. -/
def StagesSeq (S : Setting store names) (Γ : List (Name × Builtin)) (items : List Node)
    (a : Builtin) : Prop :=
  ∀ {σ : Name → Node}, Realizes σ Γ → ∃ w, Fits a w ∧
    ∀ {o : Outlook} {env : Env}, S.Host σ Γ o env → LeavesSeq o env items w

variable {a b : Builtin}

theorem stages_lit (tag : Tag) (l : Literal) : S.Stages Γ (.lit tag l) l.builtin := by
  intro σ _
  refine ⟨.lit noTag l, .inr rfl, fun _ => ?_⟩
  exact Returns.succ (returns_pure (shows_lit tag l).codeFor)

theorem stages_var {x : Name} (tag : Tag) (hx : Γ.lookup x = some a) :
    S.Stages Γ (.ident tag x) a := by
  intro σ hσ
  exact ⟨σ x, hσ x a hx, fun henv => S.var tag henv hx⟩

theorem stages_unbound {x : Name} (tag : Tag) (hx : Γ.lookup x = none) (h : Meaning store x w a) :
    S.Stages Γ (.ident tag x) a := by
  intro σ _
  refine ⟨w, ?_, fun henv => S.unbound tag henv hx h⟩
  cases h <;> exact .inr rfl

/-- Two numbers that are known are folded. Otherwise the operator stays, and folds later. -/
theorem stages_binOp {op : Operator} {lhs rhs : Node} (tag : Tag) (hop : op ≠ .dot)
    (hl : S.Stages Γ lhs .number) (hr : S.Stages Γ rhs .number) :
    S.Stages Γ (.binOp tag op lhs rhs) (if op.isArithmetic then .number else .bool) := by
  intro σ hσ
  obtain ⟨w, hw, hlhs⟩ := hl hσ
  obtain ⟨w', hw', hrhs⟩ := hr hσ
  obtain ⟨x, hx⟩ := hw.number?
  obtain ⟨y, hy⟩ := hw'.number?
  obtain ⟨l, hfold⟩ := Operator.exists_fold hop x y
  refine ⟨.lit noTag l, .inr (congrArg some (Operator.builtin_of_fold hfold)),
    fun {o env} henv => ?_⟩
  suffices hstep : Returns env (fun d => Eval.evalBinOp (eval d) tag op lhs rhs) NoFault
      (CodeFor o (.lit noTag l)) from Returns.succ hstep
  simp only [Eval.evalBinOp, hop, if_false]
  refine (hlhs henv).bind fun m hm => (hrhs henv).bind fun n hn => ?_
  split
  · -- both operands are known now, and their numbers are those of the values
    rename_i l' hfolded
    simp only [Option.bind_eq_bind, Option.bind_eq_some_iff] at hfolded
    obtain ⟨x', hx', y', hy', hfold'⟩ := hfolded
    have hxx : x = x' := Option.some.inj (hx.symm.trans (hm.number?_eq hx'))
    have hyy : y = y' := Option.some.inj (hy.symm.trans (hn.number?_eq hy'))
    subst hxx hyy
    obtain rfl : l = l' := Option.some.inj (hfold.symm.trans hfold')
    exact (returns_tagAt _).bind fun t _ => returns_pure (shows_lit t l).codeFor
  · -- one of them is not; the operator folds in the second stage
    rename_i hfolded
    refine (returns_tagAt _).bind fun t _ => returns_pure ?_
    refine ⟨fun hk => ?_, fun _ _ h => (by cases h), rfl, rfl, fun hknown => ?_⟩
    · refine returns_fold t hop (A := (· = x)) (B := (· = y))
        ((hm.becomes hk).mono fun _ h => ⟨x, h.number?_eq.trans hx, rfl⟩)
        ((hn.becomes hk).mono fun _ h => ⟨y, h.number?_eq.trans hy, rfl⟩) ?_
      rintro _ _ rfl rfl
      exact ⟨l, hfold, fun t => shows_lit t l⟩
    · -- With all values known, both numbers are.
      have hm' := (hm.shows hknown).number?_eq.trans hx
      have hn' := (hn.shows hknown).number?_eq.trans hy
      simp [hm', hn', hfold] at hfolded

/-- The values of a list of expressions, each with its code. -/
theorem exists_values {items : List Node} (hσ : Realizes σ Γ) (h : ∀ n ∈ items, ∃ a, S.Stages Γ n a) :
    ∃ ws, ∀ {o : Outlook} {env : Env}, S.Host σ Γ o env →
      List.Forall₂ (fun n w => Returns env (fun d => eval d n) NoFault (CodeFor o w)) items ws := by
  induction items with
  | nil => exact ⟨[], fun _ => .nil⟩
  | cons n items ih =>
    obtain ⟨⟨a, hn⟩, hitems⟩ := List.forall_mem_cons.1 h
    obtain ⟨w, -, hw⟩ := hn hσ
    obtain ⟨ws, hws⟩ := ih hitems
    exact ⟨w :: ws, fun henv => .cons (hw henv) (hws henv)⟩

theorem stages_list {items : List Node} (tag : Tag) (h : ∀ n ∈ items, ∃ a, S.Stages Γ n a) :
    S.Stages Γ (.list tag items) .list := by
  intro σ hσ
  obtain ⟨ws, hws⟩ := exists_values hσ h
  refine ⟨.list noTag ws, .inr rfl, fun {o env} henv => ?_⟩
  refine Returns.succ ((Returns.traverse (hws henv)).bind fun ns hns => ?_)
  refine (returns_tagAt _).bind fun t _ => returns_pure ?_
  refine ⟨fun hk => ?_, fun _ _ h => (by cases h), rfl, rfl, fun hknown => ?_⟩
  · have hbecomes := hns.flip.imp fun n w (hn : CodeFor o w n) => hn.becomes hk
    exact Returns.succ ((Returns.traverse hbecomes).bind fun ns' hns' =>
      (returns_tagAt _).bind fun t' _ => returns_pure (shows_list t' hns'))
  · exact shows_list t (hns.imp fun _ _ hn => hn.shows hknown)

/-! ## Sequences -/

theorem StagesSeq.mono {items : List Node} (h : S.StagesSeq Γ items a)
    (hab : ∀ w, Fits a w → Fits b w) : S.StagesSeq Γ items b := by
  intro σ hσ
  obtain ⟨w, hw, hseq⟩ := h hσ
  exact ⟨w, hab w hw, hseq⟩

theorem stagesSeq_last {n : Node} (h : S.Stages Γ n a) : S.StagesSeq Γ [n] a := by
  intro σ hσ
  obtain ⟨w, hw, hn⟩ := h hσ
  refine ⟨w, hw, fun {o env} henv => ?_⟩
  exact leads_last (hn henv) (fun _ h => h.isAlias) fun m hm =>
    ⟨fun hk => .last (hm.becomes hk) fun _ h => h.isAlias, fun _ => ⟨m, rfl, hm⟩⟩

theorem stagesSeq_next {n : Node} {rest : List Node} (h : S.Stages Γ n b)
    (hrest : S.StagesSeq Γ rest a) : S.StagesSeq Γ (n :: rest) a := by
  intro σ hσ
  obtain ⟨w', -, hn⟩ := h hσ
  obtain ⟨w, hw, hseq⟩ := hrest hσ
  refine ⟨w, hw, fun {o env} henv => ?_⟩
  refine leads_next (hn henv) (fun _ h => h.isAlias) fun m hm => (hseq henv).mono ?_
  rintro ns e ⟨hns, hopen⟩
  have hbecomes : BecomesSeq o.later w (m :: ns) := fun hk =>
    .next (hm.becomes hk) (fun _ h => h.isAlias) (hns.becomes hk)
  exact ⟨hns.cons hbecomes fun _ _ hn => hn, hopen⟩

/-- An alias is seen as the code of its value. It stays in a sequence that stays, under the name that it
bears in residual code. -/
theorem stagesSeq_bind {y : Name} {value : Node} {transparent : Bool} {link : Option DefId}
    {rest : List Node} (tag ytag : Tag) (hy : CanBind store names Γ y) (h : S.Stages Γ value b)
    (hrest : S.StagesSeq ((y, b) :: Γ) rest a) :
    S.StagesSeq Γ (.assign tag (.ident ytag y) value transparent link :: rest) a := by
  intro σ hσ
  obtain ⟨w', hw', hvalue⟩ := h hσ
  obtain ⟨w, hw, hseq⟩ := hrest (hσ.update hw')
  refine ⟨w, hw, fun {o env} henv => ?_⟩
  refine Eval.leads_cons ((leads_alias tag ytag transparent link (hvalue henv)).mono ?_)
  rintro _ _ ⟨m, hm, rfl, t, t', link', rfl⟩
  obtain ⟨o', henv', hbinds⟩ := S.bind b (transparent || env.transparent) henv hy hm
  refine ⟨.push _ .same, (hseq henv').mono ?_⟩
  rintro ns e ⟨hns, hopen⟩
  have hbecomes : BecomesSeq o.later w
      (.assign t (.ident t' ((env.freshName y).getD y)) m transparent link' :: ns) := fun hk =>
    .bind t t' transparent link' (hm.becomes hk) fun _ hv => hns.becomes (hbinds.later hk rfl hv)
  refine ⟨hns.cons hbecomes fun hcode _ hn => ?_, hopen⟩
  rcases hcode with hresolve | halias
  · exact hbinds.code hresolve hn
  · cases halias

theorem stages_block {items : List Node} (tag : Tag) (h : S.StagesSeq Γ items a) :
    S.Stages Γ (.block tag items) a := by
  intro σ hσ
  obtain ⟨w, hw, hseq⟩ := h hσ
  exact ⟨w, hw, fun henv => Returns.succ ((hseq henv).value (S.kept henv) tag.span)⟩

/-- A branch is taken once the condition is known. Until then both stay. -/
theorem stages_ifElse {c : Node} {thenBody elseBody : List Node} (tag : Tag)
    (hc : S.Stages Γ c .bool) (ht : S.StagesSeq Γ thenBody a) (he : S.StagesSeq Γ elseBody a) :
    S.Stages Γ (.ifElse tag c thenBody elseBody) a := by
  intro σ hσ
  obtain ⟨wc, hwc, hcond⟩ := hc hσ
  obtain ⟨taken, htaken⟩ := hwc.bool?
  obtain ⟨wt, hwt, hthen⟩ := ht hσ
  obtain ⟨we, hwe, helse⟩ := he hσ
  refine ⟨if taken then wt else we, by cases taken <;> assumption, fun {o env} henv => ?_⟩
  refine Returns.succ ((hcond henv).bind fun m hm => ?_)
  cases hbool : m.bool? with
  | some taken' =>
    obtain rfl : taken = taken' := Option.some.inj (htaken.symm.trans (hm.bool?_eq hbool))
    simp only []
    cases taken with
    | true => exact (hthen henv).value (S.kept henv) tag.span
    | false => exact (helse henv).value (S.kept henv) tag.span
  | none =>
    simp only []
    -- both arms are specialized; which of them counts is seen in the second stage
    refine (Leads.scope (hthen henv)).bind fun ns hns => ?_
    refine (Leads.scope (helse henv)).bind fun ns' hns' => ?_
    refine (returns_tagAt _).bind fun t _ => returns_pure ?_
    refine ⟨fun hk => ?_, fun _ _ h => (by cases h), rfl, rfl, fun hknown => ?_⟩
    · refine returns_branch t (o.resolve hk) (R := (· = taken))
        ((hm.becomes hk).mono fun _ h => ⟨taken, h.bool?_eq.trans htaken, rfl⟩) ?_
      intro taken' htaken'
      cases taken <;> subst htaken'
      · exact hns'.becomes hk
      · exact hns.becomes hk
    · -- With all values known, the condition is.
      rw [(hm.shows hknown).bool?_eq, htaken] at hbool
      cases hbool

end Setting

end Residual.Staging
