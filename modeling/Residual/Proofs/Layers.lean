/-
Layers of nodes without calls. The checker follows a name to its definition, and notices when it meets
that definition again. It does not notice where evaluation has brought a definition to it: the value of
a field, and the types of fields, parameters and instances, are checked as they come. Ranks of names
keep these from going round. A node of layer `k` holds field accesses only on nodes of a lower layer,
all of whose names rank below `k`; layer 0 is that of types, without functions, instances and field
accesses. A name is defined by a node of the layer that it ranks at.

Evaluation keeps the layer of a node, and it ends: without calls it never evaluates what it has put in
place of a name.
-/
import Residual.Proofs.Known
import Residual.Proofs.Names

namespace Residual

/-- Ranks of names. A name that a binder bears in place of another one ranks like it. -/
structure Ranking where
  rank : Name → Nat
  rank_suffixed : ∀ x k, rank (Env.suffixed x k) = rank x

theorem Ranking.rank_freshName (r : Ranking) {env : Env} {x other : Name}
    (h : env.freshName x = some other) : r.rank other = r.rank x := by
  cases ht : env.isTaken x with
  | false =>
    rw [Env.freshName_of_free ht] at h
    cases h
  | true =>
    obtain ⟨k, hk, -, -⟩ := Env.freshName_of_taken ht
    rw [hk] at h
    cases h
    exact r.rank_suffixed x k

/-- A name without what a suffix adds to it. -/
def Ranking.stem (x : Name) : List Char := x.toList.takeWhile (· != '#')

theorem Ranking.stem_suffixed (x : Name) (k : Nat) : stem (Env.suffixed x k) = stem x := by
  have hlist : (Env.suffixed x k).toList = x.toList ++ '#' :: (toString k).toList := by
    simp [Env.suffixed]
  rw [stem, hlist, List.takeWhile_append]
  split
  · rename_i h
    rw [stem, List.takeWhile_cons_of_neg (by decide), List.append_nil,
      (List.takeWhile_prefix _).eq_of_length h]
  · rfl

/-- Ranks that are given by stems. -/
def Ranking.ofStem (f : List Char → Nat) : Ranking :=
  ⟨fun x => f (stem x), fun x k => by rw [stem_suffixed]⟩

namespace Layers

open Pass

/-! ## Layers -/

/-- The names of the node rank at most at `k`. -/
abbrev Below (r : Ranking) (k : Nat) (n : Node) : Prop := n.Within (r.rank · ≤ k)

mutual

/-- Nodes of a layer. -/
inductive Layered (r : Ranking) : Nat → Node → Prop where
  | lit {k : Nat} (tag : Tag) (l : Literal) : Layered r k (.lit tag l)
  | enum {k : Nat} (tag : Tag) (id : TypeId) (members : List Name) :
    Layered r k (.enum tag id members)
  | builtin {k : Nat} (tag : Tag) (b : Builtin) : Layered r k (.builtin tag b)
  | unknown {k : Nat} (tag : Tag) : Layered r k (.unknown tag)
  | ident {k : Nat} {x : Name} (tag : Tag) (h : k = 0 → r.rank x = 0) : Layered r k (.ident tag x)
  | list {k : Nat} {items : List Node} (tag : Tag) (h : ∀ n ∈ items, Layered r k n) :
    Layered r k (.list tag items)
  | record {k : Nat} {fields : List (Decl Node)} (tag : Tag) (id : TypeId) (range : Option Range)
    (h : ∀ d ∈ fields, Layered r 0 d.ty) (hbelow : ∀ d ∈ fields, Below r 0 d.ty) :
    Layered r k (.record tag id fields range)
  | fnType {k : Nat} {dom cod : Node} (tag : Tag) (id : TypeId) (hdom : Layered r 0 dom)
    (hcod : Layered r 0 cod) (hbelow : Below r 0 dom ∧ Below r 0 cod) :
    Layered r k (.fnType tag id dom cod)
  | selfType {k : Nat} {ty : Node} (tag : Tag) (h : Layered r 0 ty) (hbelow : Below r 0 ty) :
    Layered r k (.selfType tag ty)
  | arg {k : Nat} {ty : Node} (tag : Tag) (x : Name) (h : Layered r 0 ty) (hbelow : Below r 0 ty) :
    Layered r k (.arg tag x ty)
  | field {k : Nat} {ty : Node} (tag : Tag) (x : Name) (h : Layered r 0 ty)
    (hbelow : Below r 0 ty) : Layered r k (.field tag x ty)
  | assign {k : Nat} {target value : Node} {transparent : Bool} {link : Option DefId} (tag : Tag)
    (h : Layered r k value) (hname : ∀ x, target.ident? = some x → Layered r (r.rank x) value)
    (hbelow : ∀ x, target.ident? = some x → Below r (r.rank x) value) :
    Layered r k (.assign tag target value transparent link)
  | func {k : Nat} {param : Decl Node} {body : List Node} (tag : Tag) (hty : Layered r 0 param.ty)
    (hbelow : Below r 0 param.ty) (hbody : ∀ n ∈ body, Layered r (k + 1) n) :
    Layered r (k + 1) (.func tag param body)
  | binOp {k : Nat} {op : Operator} {lhs rhs : Node} (tag : Tag) (hop : op ≠ .dot)
    (hl : Layered r k lhs) (hr : Layered r k rhs) : Layered r k (.binOp tag op lhs rhs)
  | dot {k : Nat} {lhs : Node} (tag : Tag) (rhs : Node) (h : Layered r k lhs)
    (hbelow : Below r k lhs) : Layered r (k + 1) (.binOp tag .dot lhs rhs)
  | matchOn {k : Nat} {scrutinee : Node} {cases : List (Case Node)} (tag : Tag)
    (hs : Layered r k scrutinee) (hp : ∀ c ∈ cases, Layered r k c.pattern)
    (hb : ∀ c ∈ cases, ∀ n ∈ c.body, Layered r k n) : Layered r k (.matchOn tag scrutinee cases)
  | whileDo {k : Nat} {c : Node} {body : List Node} (tag : Tag) (hc : Layered r k c)
    (hb : ∀ n ∈ body, Layered r k n) : Layered r k (.whileDo tag c body)
  | ifElse {k : Nat} {c : Node} {thenBody elseBody : List Node} (tag : Tag) (hc : Layered r k c)
    (ht : ∀ n ∈ thenBody, Layered r k n) (he : ∀ n ∈ elseBody, Layered r k n) :
    Layered r k (.ifElse tag c thenBody elseBody)
  | block {k : Nat} {items : List Node} (tag : Tag) (h : ∀ n ∈ items, Layered r k n) :
    Layered r k (.block tag items)
  | inst {k : Nat} {template : Node} {body : List Node} (tag : Tag) (ht : Layered r 0 template)
    (hbelow : Below r 0 template) (hbody : ∀ n ∈ body, LayeredField r (k + 1) n) :
    Layered r (k + 1) (.inst tag template body)

/-- Items of the body of an instance. The name of a field stands for nothing, so its rank does not
matter. -/
inductive LayeredField (r : Ranking) : Nat → Node → Prop where
  | value {k : Nat} {value : Node} (tag : Tag) (target : Node) (transparent : Bool)
    (link : Option DefId) (h : Layered r k value) :
    LayeredField r k (.assign tag target value transparent link)
  | other {k : Nat} {n : Node} (h : Layered r k n) (hn : n.isAlias = false) : LayeredField r k n

end

variable {r : Ranking}

mutual

/-- What is of a layer is of every higher one. -/
theorem Layered.mono : ∀ {j : Nat} {n : Node}, Layered r j n → ∀ {k : Nat}, j ≤ k → Layered r k n
  | _, _, .lit tag l, _, _ => .lit tag l
  | _, _, .enum tag id members, _, _ => .enum tag id members
  | _, _, .builtin tag b, _, _ => .builtin tag b
  | _, _, .unknown tag, _, _ => .unknown tag
  | _, _, .ident tag h, _, hle => .ident tag fun hk => h (by omega)
  | _, _, .list tag h, _, hle => .list tag fun n hn => (h n hn).mono hle
  | _, _, .record tag id range h hbelow, _, _ => .record tag id range h hbelow
  | _, _, .fnType tag id hdom hcod hbelow, _, _ => .fnType tag id hdom hcod hbelow
  | _, _, .selfType tag h hbelow, _, _ => .selfType tag h hbelow
  | _, _, .arg tag x h hbelow, _, _ => .arg tag x h hbelow
  | _, _, .field tag x h hbelow, _, _ => .field tag x h hbelow
  | _, _, .assign tag h hname hbelow, _, hle => .assign tag (h.mono hle) hname hbelow
  | _, _, .func tag hty hbelow hbody, k + 1, hle =>
    .func tag hty hbelow fun n hn => (hbody n hn).mono hle
  | _, _, .binOp tag hop hl hr, _, hle => .binOp tag hop (hl.mono hle) (hr.mono hle)
  | _, _, .dot tag rhs h hbelow, k + 1, hle =>
    .dot tag rhs (h.mono (Nat.le_of_succ_le_succ hle))
      fun x hx => Nat.le_trans (hbelow x hx) (Nat.le_of_succ_le_succ hle)
  | _, _, .matchOn tag hs hp hb, _, hle => .matchOn tag (hs.mono hle)
    (fun c hc => (hp c hc).mono hle) fun c hc n hn => (hb c hc n hn).mono hle
  | _, _, .whileDo tag hc hb, _, hle => .whileDo tag (hc.mono hle) fun n hn => (hb n hn).mono hle
  | _, _, .ifElse tag hc ht he, _, hle => .ifElse tag (hc.mono hle)
    (fun n hn => (ht n hn).mono hle) fun n hn => (he n hn).mono hle
  | _, _, .block tag h, _, hle => .block tag fun n hn => (h n hn).mono hle
  | _, _, .inst tag ht hbelow hbody, k + 1, hle =>
    .inst tag ht hbelow fun n hn => (hbody n hn).mono hle

theorem LayeredField.mono : ∀ {j : Nat} {n : Node}, LayeredField r j n → ∀ {k : Nat}, j ≤ k →
    LayeredField r k n
  | _, _, .value tag target transparent link h, _, hle =>
    .value tag target transparent link (h.mono hle)
  | _, _, .other h hn, _, hle => .other (h.mono hle) hn

end

/-- A node of a layer whose names belong there. -/
structure Tame (r : Ranking) (k : Nat) (n : Node) : Prop where
  layered : Layered r k n
  below : Below r k n

theorem Tame.mono {j k : Nat} {n : Node} (h : Tame r j n) (hle : j ≤ k) : Tame r k n :=
  ⟨h.layered.mono hle, fun x hx => Nat.le_trans (h.below x hx) hle⟩

/-- A type: a node of layer 0. -/
abbrev Flat (r : Ranking) (n : Node) : Prop := Tame r 0 n

section

variable {k : Nat}

theorem tame_ident {x : Name} (tag : Tag) (h : r.rank x ≤ k) : Tame r k (.ident tag x) :=
  ⟨.ident tag fun hk => by omega, Node.within_ident.2 h⟩

theorem tame_list {items : List Node} (tag : Tag) (h : ∀ n ∈ items, Tame r k n) :
    Tame r k (.list tag items) :=
  ⟨.list tag fun n hn => (h n hn).layered, Node.within_list.2 fun n hn => (h n hn).below⟩

theorem tame_block {items : List Node} (tag : Tag) (h : ∀ n ∈ items, Tame r k n) :
    Tame r k (.block tag items) :=
  ⟨.block tag fun n hn => (h n hn).layered, Node.within_block.2 fun n hn => (h n hn).below⟩

theorem tame_builtin (tag : Tag) (b : Builtin) : Tame r k (.builtin tag b) :=
  ⟨.builtin tag b, Node.within_builtin⟩

theorem tame_record {fields : List (Decl Node)} (tag : Tag) (id : TypeId) (range : Option Range)
    (h : ∀ d ∈ fields, Flat r d.ty) : Tame r k (.record tag id fields range) :=
  ⟨.record tag id range (fun d hd => (h d hd).layered) fun d hd => (h d hd).below,
    Node.within_record.2 fun d hd => ((h d hd).mono (Nat.zero_le k)).below⟩

theorem tame_fnType {dom cod : Node} (tag : Tag) (id : TypeId) (hdom : Flat r dom)
    (hcod : Flat r cod) : Tame r k (.fnType tag id dom cod) :=
  ⟨.fnType tag id hdom.layered hcod.layered ⟨hdom.below, hcod.below⟩,
    Node.within_fnType.2 ⟨(hdom.mono (Nat.zero_le k)).below, (hcod.mono (Nat.zero_le k)).below⟩⟩

theorem tame_selfType {ty : Node} (tag : Tag) (h : Flat r ty) : Tame r k (.selfType tag ty) :=
  ⟨.selfType tag h.layered h.below, (h.mono (Nat.zero_le k)).below⟩

theorem tame_dot {lhs rhs : Node} (tag : Tag) (h : Tame r k lhs) (hrhs : Below r (k + 1) rhs) :
    Tame r (k + 1) (.binOp tag .dot lhs rhs) :=
  ⟨.dot tag rhs h.layered h.below, Node.within_binOp.2 ⟨(h.mono (Nat.le_succ k)).below, hrhs⟩⟩

/-- A field of an instance is of the layer of the instance. -/
theorem layered_fieldValue? {body : List Node} {x : Name} {value : Node}
    (h : ∀ n ∈ body, LayeredField r k n) (hv : Node.fieldValue? body x = some value) :
    Layered r k value := by
  obtain ⟨_, _, _, _, hitem, -⟩ := Node.exists_of_fieldValue? hv
  cases h _ hitem with
  | value _ _ _ _ h => exact h
  | other _ hn => cases hn

theorem Tame.fieldValue? {tag : Tag} {template : Node} {body : List Node} {x : Name} {value : Node}
    (h : Tame r k (.inst tag template body)) (hv : Node.fieldValue? body x = some value) :
    Tame r k value := by
  refine ⟨?_, Node.within_fieldValue? (Node.within_inst.1 h.below).2 hv⟩
  cases h.layered with
  | inst _ _ _ hbody => exact layered_fieldValue? hbody hv

end

/-! ## Environments -/

/-- The faults that a program can have; giving up for lack of depth is none of them. -/
abbrev Ordinary : Fault → Prop := (·.isOrdinary = true)

/-- What a name stands for is of the layer that the name ranks at, if it is known. -/
structure Tamed (r : Ranking) (env : Env) : Prop where
  store : ∀ {x d v}, env.store.lookup x = some (d, v) → Tame r (r.rank x) v
  locals : ∀ b ∈ env.locals.bindings, b.value.isPlaceholder = true ∨ Tame r (r.rank b.name) b.value
  renames : ∀ b ∈ env.locals.bindings, ∀ x, b.rename = some x → r.rank x = r.rank b.name

variable {env : Env} {k : Nat} {n : Node}

theorem Tamed.push (h : Tamed r env) {b : Binding}
    (hb : b.value.isPlaceholder = true ∨ Tame r (r.rank b.name) b.value)
    (hrename : ∀ x, b.rename = some x → r.rank x = r.rank b.name) : Tamed r (env.push b) where
  store := h.store
  locals := List.forall_mem_cons.2 ⟨hb, h.locals⟩
  renames := List.forall_mem_cons.2 ⟨hrename, h.renames⟩

/-- Evaluation ends, with a node of the layer unless there is a fault. -/
def Evals (r : Ranking) (k : Nat) (n : Node) : Prop :=
  ∀ {env : Env}, Tamed r env → Returns env (fun d => eval d n) Ordinary (Tame r k)

/-! ## Sequences -/

/-- An alias gets another name that ranks like the one that it had. -/
theorem upkeep : Eval.Upkeep (Tamed r) (Tame r k) where
  bind := by
    rintro env t xt x value transparent link henv ⟨⟨⟩, -⟩
    rename_i hvalue hname hrank
    exact henv.push (.inr ⟨hname x rfl, hrank x rfl⟩) fun other hother => r.rank_freshName hother
  rename := by
    rintro env t xt x other value transparent link ⟨⟨⟩, hbelow⟩ hfresh t' xt' link'
    rename_i hvalue hname hrank
    have hother := r.rank_freshName hfresh
    refine ⟨.assign _ hvalue ?_ ?_, ?_⟩
    · rintro _ ⟨⟩
      exact hother ▸ hname x rfl
    · rintro _ ⟨⟩
      exact hother ▸ hrank x rfl
    · obtain ⟨htarget, hbelow⟩ := Node.within_assign.1 hbelow
      refine Node.within_assign.2 ⟨Node.within_ident.2 ?_, hbelow⟩
      rw [hother]
      exact Node.within_ident.1 htarget
  block t hvs := tame_block t hvs

theorem returns_evalSeq {items : List Node} (h : ∀ n ∈ items, Evals r k n) (henv : Tamed r env) :
    Returns env (fun d => Eval.evalSeq (eval d) items) Ordinary fun vs => ∀ v ∈ vs, Tame r k v :=
  upkeep.returns_evalSeq (fun n hn _ henv => h n hn henv) henv

theorem returns_value {items : List Node} (h : ∀ n ∈ items, Evals r k n) (henv : Tamed r env)
    (site : Span) :
    Returns env (fun d => Eval.evalSeq (eval d) items >>= (Eval.seqValue · site)) Ordinary
      (Tame r k) :=
  upkeep.returns_value (fun n hn _ henv => h n hn henv) henv rfl

/-! ## Nodes -/

theorem Tamed.resolve (h : Tamed r env) (b : Bool) : Tamed r { env with resolve := b } :=
  ⟨h.store, h.locals, h.renames⟩

theorem Tamed.enterCall (h : Tamed r env) (f : Node) : Tamed r (env.enterCall f) :=
  ⟨h.store, h.locals, h.renames⟩

theorem returns_evalType (h : Evals r k n) (henv : Tamed r env) :
    Returns env (fun d => Eval.evalType (eval d) n) Ordinary (Tame r k) :=
  Eval.returns_evalType (h (henv.resolve true))

theorem evals_of_pure (h : Tame r k n) (hstep : ∀ d, eval (d + 1) n = pure n) : Evals r k n := by
  intro env _
  refine Returns.succ ?_
  simp only [hstep]
  exact returns_pure h

/-- A name becomes what it stands for, or stays under a name of the same rank. -/
theorem evals_ident {x : Name} (tag : Tag) (hx : r.rank x ≤ k) : Evals r k (.ident tag x) := by
  intro env henv
  refine Returns.succ (Eval.returns_evalName tag (fun _ => rfl) (fun b hb => ?_)
    (fun d v hv => ⟨fun _ => (henv.store (Env.lookup_of_defined hv)).mono hx, fun t => tame_ident t hx⟩)
    fun b _ t => ⟨tame_builtin t b, tame_ident t hx⟩)
  obtain ⟨hmem, rfl⟩ := Env.mem_of_lookup_bound hb
  refine ⟨fun hknown => ?_, fun _ t => tame_ident t ?_⟩
  · refine ((henv.locals b hmem).resolve_left ?_).mono hx
    rw [hknown]
    decide
  · cases hrename : b.rename with
    | none => exact hx
    | some other => exact (henv.renames b hmem other hrename).symm ▸ hx

theorem evals_list {items : List Node} (tag : Tag) (h : ∀ n ∈ items, Evals r k n) :
    Evals r k (.list tag items) := by
  intro env henv
  refine Returns.succ ((Returns.mapM_all fun n hn => h n hn henv).bind fun vs hvs => ?_)
  exact (returns_tagAt _).bind fun t _ => returns_pure (tame_list t hvs)

theorem evals_record {fields : List (Decl Node)} (tag : Tag) (id : TypeId) (range : Option Range)
    (h : ∀ d ∈ fields, Evals r 0 d.ty) : Evals r k (.record tag id fields range) := by
  intro env henv
  have hfields : Returns env (fun d => fields.mapM (Eval.evalDecl (eval d))) Ordinary
      fun ds => ∀ d ∈ ds, Flat r d.ty :=
    Returns.mapM_all fun d hd => (returns_evalType (h d hd) henv).bind fun ty hty =>
      returns_pure hty
  refine Returns.succ (hfields.bind fun ds hds => ?_)
  exact (returns_tagAt _).bind fun t _ => returns_pure (tame_record t id range hds)

theorem evals_fnType {dom cod : Node} (tag : Tag) (id : TypeId) (hdom : Evals r 0 dom)
    (hcod : Evals r 0 cod) : Evals r k (.fnType tag id dom cod) := by
  intro env henv
  refine Returns.succ ((returns_evalType hdom henv).bind fun dom' hdom' => ?_)
  refine (returns_evalType hcod henv).bind fun cod' hcod' => ?_
  exact (returns_tagAt _).bind fun t _ => returns_pure (tame_fnType t id hdom' hcod')

theorem evals_selfType {ty : Node} (tag : Tag) (h : Evals r 0 ty) :
    Evals r k (.selfType tag ty) := by
  intro env henv
  refine Returns.succ ((returns_evalType h henv).bind fun ty' hty' => ?_)
  exact (returns_tagAt _).bind fun t _ => returns_pure (tame_selfType t hty')

theorem evals_arg {ty : Node} (tag : Tag) (x : Name) (h : Evals r 0 ty) :
    Evals r k (.arg tag x ty) := by
  intro env henv
  refine Returns.succ ((returns_evalType h henv).bind fun ty' hty' => ?_)
  exact (returns_tagAt _).bind fun t _ => returns_pure
    ⟨.arg t x hty'.layered hty'.below, (hty'.mono (Nat.zero_le k)).below⟩

theorem evals_field {ty : Node} (tag : Tag) (x : Name) (h : Evals r 0 ty) :
    Evals r k (.field tag x ty) := by
  intro env henv
  refine Returns.succ ((returns_evalType h henv).bind fun ty' hty' => ?_)
  exact (returns_tagAt _).bind fun t _ => returns_pure
    ⟨.field t x hty'.layered hty'.below, (hty'.mono (Nat.zero_le k)).below⟩

/-- The value of an alias is evaluated once, for the layer around it and for that of its name. -/
theorem evals_assign {target value : Node} (tag : Tag) (transparent : Bool) (link : Option DefId)
    (htarget : Below r k target) (h : Evals r k value)
    (hname : ∀ x, target.ident? = some x → Evals r (r.rank x) value) :
    Evals r k (.assign tag target value transparent link) := by
  intro env henv
  have hvalue : Returns env (fun d => eval d value) Ordinary
      fun v => Tame r k v ∧ ∀ x, target.ident? = some x → Tame r (r.rank x) v := by
    cases hx : target.ident? with
    | none =>
      refine (h henv).mono fun v hv => ⟨hv, ?_⟩
      rintro x ⟨⟩
    | some x =>
      refine ((h henv).and (hname x hx henv)).mono ?_
      rintro v ⟨hv, hv'⟩
      refine ⟨hv, ?_⟩
      rintro _ ⟨⟩
      exact hv'
  refine Returns.succ (hvalue.bind ?_)
  rintro v ⟨hv, hv'⟩
  refine returns_env.bind fun _ _ => (returns_tagAt _).bind fun t _ => returns_pure ⟨?_, ?_⟩
  · exact .assign t hv.layered (fun x hx => (hv' x hx).layered) fun x hx => (hv' x hx).below
  · exact Node.within_assign.2 ⟨htarget, hv.below⟩

/-- The parameter of a function is unknown in its body, and keeps its rank if it is renamed. -/
theorem evals_func {param : Decl Node} {body : List Node} (tag : Tag)
    (hname : r.rank param.name ≤ k + 1) (hty : Evals r 0 param.ty)
    (hbody : ∀ n ∈ body, Evals r (k + 1) n) : Evals r (k + 1) (.func tag param body) := by
  intro env henv
  -- a placeholder need not be of any layer, since it is never put in place of its name
  refine Returns.succ (Eval.returns_evalFunc (returns_evalType hty henv) (fun ty t _ =>
    returns_evalSeq hbody ((henv.enterCall _).push (.inl (Eval.isPlaceholder_param ty t))
      fun x hx => r.rank_freshName hx)) fun t ty vs hflat hvs => ⟨?_, ?_⟩)
  · exact .func t hflat.layered hflat.below fun v hv => (hvs v hv).layered
  · refine Node.within_func.2
      ⟨?_, (hflat.mono (Nat.zero_le _)).below, fun v hv => (hvs v hv).below⟩
    cases hfresh : env.freshName param.name with
    | none => exact hname
    | some other => exact (r.rank_freshName hfresh).symm ▸ hname

theorem evals_binOp {op : Operator} {lhs rhs : Node} (tag : Tag) (hop : op ≠ .dot)
    (hl : Evals r k lhs) (hr : Evals r k rhs) : Evals r k (.binOp tag op lhs rhs) := by
  intro env henv
  exact Returns.succ (Eval.returns_evalBinOp tag hop (hl henv) (hr henv)
    (fun _ _ _ _ l t _ _ _ _ _ => ⟨.lit t l, Node.within_lit⟩) fun a b t ha hb _ =>
      ⟨.binOp t hop ha.layered hb.layered, Node.within_binOp.2 ⟨ha.below, hb.below⟩⟩)

/-- What is taken out of an instance comes from a lower layer. -/
theorem evals_dot {lhs rhs : Node} (tag : Tag) (hl : Evals r k lhs) (hr : Below r (k + 1) rhs) :
    Evals r (k + 1) (.binOp tag .dot lhs rhs) := by
  intro env henv
  refine Returns.succ (Eval.returns_evalDot tag (hl henv) (fun t template body t' x howner _ => ?_)
    fun owner t howner _ => tame_dot t howner hr)
  cases hvalue : Node.fieldValue? body x with
  | some value => exact .inl ⟨value, rfl, (howner.fieldValue? hvalue).mono (Nat.le_succ k)⟩
  | none => exact .inr ⟨rfl, rfl⟩

theorem evals_block {items : List Node} (tag : Tag) (h : ∀ n ∈ items, Evals r k n) :
    Evals r k (.block tag items) := by
  intro env henv
  exact Returns.succ (returns_value h henv tag.span)

theorem evals_ifElse {c : Node} {thenBody elseBody : List Node} (tag : Tag) (hc : Evals r k c)
    (ht : ∀ n ∈ thenBody, Evals r k n) (he : ∀ n ∈ elseBody, Evals r k n) :
    Evals r k (.ifElse tag c thenBody elseBody) := by
  intro env henv
  refine Returns.succ (Eval.returns_evalIf tag (hc henv) (fun _ _ _ => returns_value ht henv _)
    (fun _ _ _ => returns_value he henv _) (returns_evalSeq ht henv) (returns_evalSeq he henv)
    fun v ts es t hv _ hts hes => ⟨?_, ?_⟩)
  · exact .ifElse t hv.layered (fun n hn => (hts n hn).layered) fun n hn => (hes n hn).layered
  · exact Node.within_ifElse.2
      ⟨hv.below, fun n hn => (hts n hn).below, fun n hn => (hes n hn).below⟩

theorem evals_whileDo {c : Node} {body : List Node} (tag : Tag) (hc : Evals r k c)
    (hb : ∀ n ∈ body, Evals r k n) : Evals r k (.whileDo tag c body) := by
  intro env henv
  refine Returns.succ ((hc henv).bind fun v hv => (returns_evalSeq hb henv).bind fun vs hvs => ?_)
  refine (returns_tagAt _).bind fun t _ => returns_pure ⟨?_, ?_⟩
  · exact .whileDo t hv.layered fun n hn => (hvs n hn).layered
  · exact Node.within_whileDo.2 ⟨hv.below, fun n hn => (hvs n hn).below⟩

theorem evals_matchOn {scrutinee : Node} {cases : List (Case Node)} (tag : Tag)
    (hs : Evals r k scrutinee) (hp : ∀ c ∈ cases, Evals r k c.pattern)
    (hpt : ∀ c ∈ cases, Tame r k c.pattern) (hb : ∀ c ∈ cases, ∀ n ∈ c.body, Evals r k n) :
    Evals r k (.matchOn tag scrutinee cases) := by
  intro env henv
  refine Returns.succ (Eval.returns_evalMatch tag (hs henv) (fun c hc _ => hp c hc henv)
    (fun c hc => returns_value (hb c hc) henv c.span) (fun c hc => returns_evalSeq (hb c hc) henv)
    (fun _ _ _ => rfl) fun v cs t hv _ hcs => ?_)
  have hpatterns := Eval.patterns_of_kept hcs hpt
  have hbodies := Eval.body_of_kept hcs
  refine ⟨.matchOn t hv.layered (fun c hc => (hpatterns c hc).layered)
    fun c hc n hn => (hbodies c hc n hn).layered, Node.within_matchOn.2 ⟨hv.below, fun c hc => ?_⟩⟩
  exact ⟨(hpatterns c hc).below, fun n hn => (hbodies c hc n hn).below⟩

/-- An item of the body of an instance, with its names. -/
structure TameField (r : Ranking) (k : Nat) (n : Node) : Prop where
  layered : LayeredField r k n
  below : Below r k n

/-- Likewise an item of the body of an instance. -/
def EvalsField (r : Ranking) (k : Nat) (n : Node) : Prop :=
  ∀ {env : Env}, Tamed r env →
    Returns env (fun d => Eval.evalField (eval d) n) Ordinary (TameField r k)

theorem evalsField_value {target value : Node} (tag : Tag) (transparent : Bool)
    (link : Option DefId) (htarget : Below r k target) (h : Evals r k value) :
    EvalsField r k (.assign tag target value transparent link) := by
  intro env henv
  refine Returns.succ ((h henv).bind fun v hv => returns_env.bind fun _ _ => ?_)
  exact (returns_tagAt _).bind fun t _ => returns_pure
    ⟨.value t target transparent _ hv.layered, Node.within_assign.2 ⟨htarget, hv.below⟩⟩

theorem Layered.field_of (h : Layered r k n) : LayeredField r k n := by
  cases hn : n.isAlias with
  | false => exact .other h hn
  | true =>
    cases h with
    | assign tag h _ _ => exact .value tag _ _ _ h
    | _ => cases hn

/-- A member of an enum names itself. -/
theorem evalsField_other (ht : Tame r k n) (h : Evals r k n) : EvalsField r k n := by
  intro env henv
  exact Eval.returns_evalField (fun _ _ _ => ⟨ht.layered.field_of, ht.below⟩)
    fun _ => (h henv).mono fun v hv => ⟨hv.layered.field_of, hv.below⟩

theorem evals_inst {template : Node} {body : List Node} (tag : Tag) (ht : Evals r 0 template)
    (hb : ∀ n ∈ body, EvalsField r (k + 1) n) : Evals r (k + 1) (.inst tag template body) := by
  intro env henv
  refine Returns.succ ((returns_evalType ht henv).bind fun ty hty => ?_)
  refine (Returns.mapM_all fun n hn => hb n hn henv).bind fun vs hvs => ?_
  refine (returns_tagAt _).bind fun t _ => returns_pure ⟨?_, ?_⟩
  · exact .inst t hty.layered hty.below fun v hv => (hvs v hv).layered
  · exact Node.within_inst.2 ⟨(hty.mono (Nat.zero_le _)).below, fun v hv => (hvs v hv).below⟩

mutual

/-- Evaluation ends, and keeps the layer. -/
theorem Layered.evals : ∀ {k : Nat} {n : Node}, Layered r k n → Below r k n → Evals r k n
  | _, _, .lit tag l, hb => evals_of_pure ⟨.lit tag l, hb⟩ fun _ => rfl
  | _, _, .enum tag id members, hb => evals_of_pure ⟨.enum tag id members, hb⟩ fun _ => rfl
  | _, _, .builtin tag b, hb => evals_of_pure ⟨.builtin tag b, hb⟩ fun _ => rfl
  | _, _, .unknown tag, hb => evals_of_pure ⟨.unknown tag, hb⟩ fun _ => rfl
  | _, _, .ident tag _, hb => evals_ident tag (Node.within_ident.1 hb)
  | _, _, .list tag h, hb => evals_list tag fun n hn => (h n hn).evals (Node.within_list.1 hb n hn)
  | _, _, .record tag id range h hbelow, _ => evals_record tag id range
    fun d hd => (h d hd).evals (hbelow d hd)
  | _, _, .fnType tag id hdom hcod hbelow, _ => evals_fnType tag id (hdom.evals hbelow.1)
    (hcod.evals hbelow.2)
  | _, _, .selfType tag h hbelow, _ => evals_selfType tag (h.evals hbelow)
  | _, _, .arg tag x h hbelow, _ => evals_arg tag x (h.evals hbelow)
  | _, _, .field tag x h hbelow, _ => evals_field tag x (h.evals hbelow)
  | _, _, .assign tag h hname hbelow, hb => evals_assign tag _ _ (Node.within_assign.1 hb).1
    (h.evals (Node.within_assign.1 hb).2) fun x hx => (hname x hx).evals (hbelow x hx)
  | _, _, .func tag hty hbelow hbody, hb => evals_func tag (Node.within_func.1 hb).1
    (hty.evals hbelow) fun n hn => (hbody n hn).evals ((Node.within_func.1 hb).2.2 n hn)
  | _, _, .binOp tag hop hl hr, hb => evals_binOp tag hop (hl.evals (Node.within_binOp.1 hb).1)
    (hr.evals (Node.within_binOp.1 hb).2)
  | _, _, .dot tag rhs h hbelow, hb => evals_dot tag (h.evals hbelow) (Node.within_binOp.1 hb).2
  | _, _, .matchOn tag hs hp hc, hb => evals_matchOn tag (hs.evals (Node.within_matchOn.1 hb).1)
    (fun c hm => (hp c hm).evals ((Node.within_matchOn.1 hb).2 c hm).1)
    (fun c hm => ⟨hp c hm, ((Node.within_matchOn.1 hb).2 c hm).1⟩)
    fun c hm n hn => (hc c hm n hn).evals (((Node.within_matchOn.1 hb).2 c hm).2 n hn)
  | _, _, .whileDo tag hc hbody, hb => evals_whileDo tag (hc.evals (Node.within_whileDo.1 hb).1)
    fun n hn => (hbody n hn).evals ((Node.within_whileDo.1 hb).2 n hn)
  | _, _, .ifElse tag hc ht he, hb => evals_ifElse tag (hc.evals (Node.within_ifElse.1 hb).1)
    (fun n hn => (ht n hn).evals ((Node.within_ifElse.1 hb).2.1 n hn))
    fun n hn => (he n hn).evals ((Node.within_ifElse.1 hb).2.2 n hn)
  | _, _, .block tag h, hb => evals_block tag
    fun n hn => (h n hn).evals (Node.within_block.1 hb n hn)
  | _, _, .inst tag ht hbelow hbody, hb => evals_inst tag (ht.evals hbelow)
    fun n hn => (hbody n hn).evals ((Node.within_inst.1 hb).2 n hn)

theorem LayeredField.evals : ∀ {k : Nat} {n : Node}, LayeredField r k n → Below r k n →
    EvalsField r k n
  | _, _, .value tag _ transparent link h, hb => evalsField_value tag transparent link
    (Node.within_assign.1 hb).1 (h.evals (Node.within_assign.1 hb).2)
  | _, _, .other h _, hb => evalsField_other ⟨h, hb⟩ (h.evals hb)

end

theorem Tame.evals (h : Tame r k n) : Evals r k n := h.layered.evals h.below

end Layers

end Residual
