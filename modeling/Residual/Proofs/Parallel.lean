/-
Alike programs are evaluated alike. From environments that are alike, in which names that are used in
each other's place stand for alike values, alike nodes evaluate to alike nodes, or both fail in the
same way. Each step of the evaluator has its rule, and `keeps_eval` ties the knot.
-/
import Residual.Proofs.Relation
import Residual.Proofs.Wording

namespace Residual

/-! ## Environments that are alike -/

/-- Values of bindings. The type of a placeholder is one that the checker found. -/
inductive Node.Held (ℓ : Likeness) : Node → Node → Prop where
  | value {n n' : Node} (h : n.Alike ℓ n') : Held ℓ n n'
  | placeholder {ty ty' : Node} (t : Tag) (h : ty.TypeAlike ℓ ty') :
    Held ℓ (.selfType t ty) (.selfType (t.relabel ℓ.tags) ty')

theorem Node.Held.isPlaceholder_eq {ℓ : Likeness} {n n' : Node} (h : n.Held ℓ n') :
    n'.isPlaceholder = n.isPlaceholder := by
  cases h with
  | value h => exact h.isPlaceholder_eq
  | placeholder => rfl

theorem Node.Held.span_eq {ℓ : Likeness} {n n' : Node} (h : n.Held ℓ n') :
    n'.span = ℓ.span n.span := by
  cases h with
  | value h => exact h.span_eq
  | placeholder => rfl

theorem Node.Held.alike {ℓ : Likeness} {n n' : Node} (h : n.Held ℓ n')
    (hn : n.isPlaceholder = false) : n.Alike ℓ n' := by
  cases h with
  | value h => exact h
  | placeholder => cases hn

/-- Bindings with alike values and the same other name, which is one that binders may have. -/
structure Binding.Alike (ℓ : Likeness) (b b' : Binding) : Prop where
  value : b.value.Held ℓ b'.value
  transparent : b'.transparent = b.transparent
  rename : b'.rename = b.rename
  bound : ∀ x, b.rename = some x → ℓ.bound x

inductive Found.Alike (ℓ : Likeness) : Found → Found → Prop where
  | bound {b b' : Binding} (h : b.Alike ℓ b') : Alike ℓ (.bound b) (.bound b')
  | defined {v v' : Node} (d : DefId) (h : v.Alike ℓ v') : Alike ℓ (.defined d v) (.defined d v')
  | builtin (b : Builtin) : Alike ℓ (.builtin b) (.builtin b)

/-- The place of a definition is the same, and its values are alike. -/
def Definitions.Alike (ℓ : Likeness) (a a' : DefId × Node) : Prop := a'.1 = a.1 ∧ a.2.Alike ℓ a'.2

/-- What names stand for is alike, where one is used in the other's place. -/
structure Env.Alike (ℓ : Likeness) (e e' : Env) : Prop where
  bound : ∀ {x x' : Name}, ℓ.used x x' →
    Option.Rel (Binding.Alike ℓ) (e.locals.find? x) (e'.locals.find? x')
  defined : ∀ {x x' : Name}, ℓ.used x x' →
    Option.Rel (Definitions.Alike ℓ) (e.store.lookup x) (e'.store.lookup x')
  calls : e'.calls.nodes.map Node.id = e.calls.nodes.map fun n => ℓ.id n.id
  resolve : e'.resolve = e.resolve
  transparent : e'.transparent = e.transparent
  links : Links.Follow ℓ.tags e.links e'.links

namespace Found.Alike

variable {ℓ : Likeness} {found found' : Found}

theorem isTransparent_eq (h : found.Alike ℓ found') : found'.isTransparent = found.isTransparent := by
  cases h with
  | bound h => exact h.transparent
  | _ => rfl

theorem isPlaceholder_eq (h : found.Alike ℓ found') : found'.isPlaceholder = found.isPlaceholder := by
  cases h with
  | bound h => exact h.value.isPlaceholder_eq
  | defined d h => exact h.isPlaceholder_eq
  | builtin => rfl

theorem isLinked_eq (h : found.Alike ℓ found') (link : Option DefId) :
    found'.isLinked link = found.isLinked link := by cases h <;> rfl

theorem span_eq (h : found.Alike ℓ found') : found'.span = ℓ.span found.span := by
  cases h with
  | bound h => exact h.value.span_eq
  | defined d h => exact h.span_eq
  | builtin => exact ℓ.span_builtin.symm

theorem rename?_eq (h : found.Alike ℓ found') : found'.rename? = found.rename? := by
  cases h with
  | bound h => exact h.rename
  | _ => rfl

theorem bound_rename? (h : found.Alike ℓ found') {x : Name} (hx : found.rename? = some x) :
    ℓ.bound x := by
  cases h with
  | bound h => exact h.bound x hx
  | _ => cases hx

end Found.Alike

theorem isSome_of_rel {α β : Type} {R : α → β → Prop} {a : Option α} {b : Option β}
    (h : Option.Rel R a b) : b.isSome = a.isSome := by cases h <;> rfl

namespace Env.Alike

variable {ℓ : Likeness} {e e' : Env}

theorem lookup_alike (h : e.Alike ℓ e') {x x' : Name} (hx : ℓ.used x x') :
    Option.Rel (Found.Alike ℓ) (e.lookup x) (e'.lookup x') := by
  unfold lookup
  have hbound := h.bound hx
  generalize e.locals.find? x = b, e'.locals.find? x' = b' at hbound
  cases hbound with
  | some hb => exact .some (.bound hb)
  | none =>
    have hdefined := h.defined hx
    generalize e.store.lookup x = v, e'.store.lookup x' = v' at hdefined
    cases hdefined with
    | some hv =>
      obtain ⟨hd, hv⟩ := hv
      exact .some (hd ▸ .defined _ hv)
    | none =>
      simp only
      rw [← ℓ.used_builtin hx]
      cases Builtin.ofName? x with
      | none => exact .none
      | some b => exact .some (.builtin b)

theorem isTaken_eq (h : e.Alike ℓ e') {x : Name} (hx : ℓ.bound x) : e'.isTaken x = e.isTaken x := by
  have hlocals := h.bound (ℓ.bound_used hx)
  have hstore := h.defined (ℓ.bound_used hx)
  rw [isTaken, isTaken, Locals.contains, Locals.contains, Definitions.contains_eq,
    Definitions.contains_eq]
  rw [isSome_of_rel hlocals, isSome_of_rel hstore]

theorem freshName_eq (h : e.Alike ℓ e') {x : Name} (hx : ℓ.bound x) :
    e'.freshName x = e.freshName x :=
  freshName_congr (h.isTaken_eq hx) fun k => h.isTaken_eq (ℓ.bound_suffixed k hx)

omit e' in
/-- The other name of a binder is one that binders may have. -/
theorem bound_freshName {x other : Name} (hx : ℓ.bound x) (h : e.freshName x = some other) :
    ℓ.bound other := by
  cases ht : e.isTaken x with
  | false =>
    rw [freshName_of_free ht] at h
    cases h
  | true =>
    obtain ⟨k, hk, -⟩ := freshName_of_taken ht
    rw [hk] at h
    cases h
    exact ℓ.bound_suffixed k hx

theorem isOnStack_eq (h : e.Alike ℓ e') {n n' : Node} (hn : n'.id = ℓ.id n.id) :
    e'.isOnStack n' = e.isOnStack n := by
  have hany (ns : List Node) (i : NodeId) : (ns.any fun m => m.id == i) =
      (ns.map Node.id).any (· == i) := by rw [List.any_map]; rfl
  rw [isOnStack, isOnStack, Calls.contains_eq, Calls.contains_eq]
  simp only [Node.isSame]
  rw [hany, h.calls, hn, List.any_map]
  congr 1
  funext m
  rw [Bool.eq_iff_iff]
  simp [ℓ.injective.eq_iff]

theorem of?_eq (h : e.Alike ℓ e') {t : Tag} {target value target' value' : Node}
    {transparent : Bool} {link : Option DefId} :
    e'.links.of? (.assign (t.relabel ℓ.tags) target' value' transparent link) =
      e.links.of? (.assign t target value transparent link) := h.links t.id link

/-- One more binding, by names that are used in each other's place and in no other's. -/
theorem push_pair (h : e.Alike ℓ e') {b b' : Binding} (hb : b.Alike ℓ b')
    (hx : ∀ {x x' : Name}, ℓ.used x x' → (b.name = x ↔ b'.name = x')) :
    (e.push b).Alike ℓ (e'.push b') where
  bound {x x'} hused := by
    rw [push, push, Locals.find?_eq, Locals.find?_eq, Locals.bindings_push, Locals.bindings_push,
      List.find?_cons, List.find?_cons, ← Locals.find?_eq, ← Locals.find?_eq]
    have heq : (b'.name == x') = (b.name == x) := by
      rw [Bool.eq_iff_iff, beq_iff_eq, beq_iff_eq]
      exact (hx hused).symm
    rw [heq]
    cases b.name == x with
    | true => exact .some hb
    | false => exact h.bound hused
  defined := h.defined
  calls := h.calls
  resolve := h.resolve
  transparent := h.transparent
  links := h.links

theorem push (h : e.Alike ℓ e') {b b' : Binding} (hb : b.Alike ℓ b') (hname : b'.name = b.name)
    (hx : ℓ.bound b.name) : (e.push b).Alike ℓ (e'.push b') := by
  refine h.push_pair hb fun hused => ?_
  rw [hname]
  exact ℓ.used_iff (ℓ.bound_used hx) hused

theorem enterCall (h : e.Alike ℓ e') {n n' : Node} (hn : n'.id = ℓ.id n.id) :
    (e.enterCall n).Alike ℓ (e'.enterCall n') := by
  have hcalls : (n' :: e'.calls.nodes).map Node.id = (n :: e.calls.nodes).map fun m => ℓ.id m.id := by
    rw [List.map_cons, List.map_cons, h.calls, hn]
  exact { h with calls := hcalls }

theorem globals (h : e.Alike ℓ e') :
    { e with locals := .empty }.Alike ℓ { e' with locals := .empty } :=
  { h with bound := fun _ => .none }

end Env.Alike

/-! ## Passes in parallel -/

/-- The counter of the second machine is ahead by as much as the likeness says. -/
def Likeness.Ahead (ℓ : Likeness) (c c' : Counter) : Prop :=
  ℓ.since ≤ c.next ∧ c'.next = c.next + ℓ.ahead

/-- From machines that are alike, two passes end with related results or with faults that are alike,
and leave machines that are alike. -/
abbrev Parallel {α α' : Type} (ℓ : Likeness) (R : α → α' → Prop) (m : Pass α) (m' : Pass α') : Prop :=
  Pass.Related ℓ.Ahead (Env.Alike ℓ) (Fault.Alike ℓ) R m m'

section

open Pass

variable {α α' β β' : Type} {ℓ : Likeness} {R : α → α' → Prop} {Q : β → β' → Prop}

theorem parallel_fail {e e' : TypeError} (h : e.Alike ℓ e') : Parallel ℓ R (fail e) (fail e') :=
  related_fail (.error h)

/-- The tags that two passes make correspond to each other. -/
theorem parallel_tagAt {f : Tag → Pass β} {f' : Tag → Pass β'} (span : Span)
    (hf : ∀ t : Tag, Parallel ℓ Q (f t) (f' (t.relabel ℓ.tags))) :
    Parallel ℓ Q (tagAt span >>= f) (tagAt (ℓ.span span) >>= f') := by
  refine (related_tagAt (T := fun t t' => t' = t.relabel ℓ.tags) span (ℓ.span span) ?_).bind ?_
  · intro c c' hc
    refine ⟨?_, Nat.le_succ_of_le hc.1, ?_⟩
    · rw [Tag.relabel]
      show (⟨c'.next, ℓ.span span⟩ : Tag) = ⟨ℓ.id c.next, ℓ.span span⟩
      rw [ℓ.made _ hc.1, hc.2]
    · show c'.next + 1 = c.next + 1 + ℓ.ahead
      rw [hc.2]
      omega
  · intro t t' ht
    subst ht
    exact hf t

theorem Parallel.mapM {f : α → Pass β} {f' : α' → Pass β'} {as : List α} {as' : List α'}
    (has : List.Forall₂ R as as') (h : ∀ a a', R a a' → Parallel ℓ Q (f a) (f' a')) :
    Parallel ℓ (List.Forall₂ Q) (as.mapM f) (as'.mapM f') := by
  induction has with
  | nil =>
    rw [List.mapM_nil, List.mapM_nil]
    exact related_pure .nil
  | cons ha _ ih =>
    rw [List.mapM_cons, List.mapM_cons]
    exact (h _ _ ha).bind fun b b' hb => ih.bind fun bs bs' hbs => related_pure (.cons hb hbs)

theorem parallel_builtin (b : Builtin) :
    Parallel ℓ (Node.Alike ℓ) (Pass.builtin b) (Pass.builtin b) := by
  have hmade : Parallel ℓ (Node.Alike ℓ) (Pass.builtin b)
      (tagAt (ℓ.span .builtin) >>= fun t => pure (Node.builtin t b)) :=
    parallel_tagAt _ fun t => related_pure (.builtin t b)
  rwa [ℓ.span_builtin] at hmade

theorem parallel_valueOf {found found' : Found} (h : found.Alike ℓ found') :
    Parallel ℓ (Node.Held ℓ) (valueOf found) (valueOf found') := by
  cases h with
  | bound h => exact related_pure h.value
  | defined d h => exact related_pure (.value h)
  | builtin b => exact (parallel_builtin b).mono fun _ _ hn => .value hn

/-- What is not a placeholder is no type of the checker. -/
theorem parallel_known {found found' : Found} (h : found.Alike ℓ found')
    (hfound : found.isPlaceholder = false) :
    Parallel ℓ (Node.Alike ℓ) (valueOf found) (valueOf found') := by
  cases h with
  | bound h => exact related_pure (h.value.alike hfound)
  | defined d h => exact related_pure h
  | builtin b => exact parallel_builtin b

end

/-! ## The evaluator -/

open Pass Node

namespace Eval

variable {ℓ : Likeness}

theorem parallel_evalIdent (t : Tag) {x x' : Name} (hx : ℓ.used x x') :
    Parallel ℓ (Alike ℓ) (evalIdent t x) (evalIdent (t.relabel ℓ.tags) x') := by
  refine related_env.bind fun e e' he => ?_
  have hlookup := he.lookup_alike hx
  generalize e.lookup x = found, e'.lookup x' = found' at hlookup
  cases hlookup with
  | none => exact parallel_fail (.unknownName hx _)
  | @some found found' hfound =>
    simp only [hfound.isPlaceholder_eq, hfound.isTransparent_eq, hfound.rename?_eq, he.resolve]
    split
    · rename_i hknown
      rw [Bool.and_eq_true, Bool.not_eq_true'] at hknown
      exact parallel_known hfound hknown.1
    · split
      · rename_i other hother
        exact parallel_tagAt _ fun t' =>
          related_pure (.ident t' (ℓ.bound_used (hfound.bound_rename? hother)))
      · exact related_pure (.ident t hx)

theorem parallel_bindLocal {item item' : Node} (h : item.Alike ℓ item') :
    Parallel ℓ (Alike ℓ) (bindLocal item) (bindLocal item') := by
  have halike := h
  cases h with
  | assign t target transparent link hx hv =>
    cases target with
    | ident nameTag name =>
      have hname : ℓ.bound name := hx name rfl
      refine related_env.bind fun e e' he => ?_
      have hfresh (x : Name) (hx : e.freshName name = some x) : ℓ.bound x :=
        Env.Alike.bound_freshName hname hx
      rw [he.freshName_eq hname, he.transparent]
      refine (related_push fun _ _ h => h.push ⟨.value hv, rfl, rfl, hfresh⟩ rfl hname).bind
        fun _ _ _ => ?_
      split
      · rename_i other hother
        refine parallel_tagAt _ fun t₁ => parallel_tagAt _ fun t₂ => ?_
        rw [he.of?_eq]
        refine related_pure (.assign t₂ (.ident t₁ other) transparent _ ?_ hv)
        rintro x hx
        cases hx
        exact hfresh other hother
      · exact related_pure halike
    | _ => exact related_pure halike
  | _ => exact related_pure halike

theorem parallel_residualCallee {callee callee' evaluated evaluated' : Node}
    (hc : callee.Alike ℓ callee') (he : evaluated.Alike ℓ evaluated') :
    Parallel ℓ (Alike ℓ) (residualCallee callee evaluated) (residualCallee callee' evaluated') := by
  have hcallee := hc
  cases hc with
  | ident t hx =>
    refine related_env.bind fun e e' henv => ?_
    have hlookup := henv.lookup_alike hx
    rw [he.isFunc_eq]
    generalize e.lookup _ = found, e'.lookup _ = found' at hlookup
    cases evaluated.isFunc with
    | false => exact related_pure he
    | true =>
      cases hlookup with
      | none => exact related_pure he
      | some hfound =>
        cases hfound with
        | bound => exact related_pure he
        | defined | builtin => exact related_pure hcallee
  | _ => exact related_pure he

theorem parallel_seqValue {items items' : List Node} (h : List.Forall₂ (Alike ℓ) items items')
    (site : Span) : Parallel ℓ (Alike ℓ) (seqValue items site) (seqValue items' (ℓ.span site)) := by
  refine related_env.bind fun e e' he => ?_
  rw [he.resolve, isAlias_any_eq h]
  split
  · have hlast := forall₂_getLast? h
    generalize items.getLast? = last, items'.getLast? = last' at hlast
    cases hlast with
    | none => exact parallel_fail (.emptySequence _)
    | some hlast => exact related_pure hlast
  · exact parallel_tagAt _ fun t => related_pure (.block t h)

/-- Alike nodes evaluate to alike nodes, and so do items of instances. -/
structure Keeps (ℓ : Likeness) (eval : Node → Pass Node) : Prop where
  node : ∀ {n n' : Node}, n.Alike ℓ n' → Parallel ℓ (Alike ℓ) (eval n) (eval n')
  item : ∀ {v v' : Node} (t : Tag) (target : Node) (transparent : Bool) (link : Option DefId),
    v.Alike ℓ v' → Parallel ℓ (ItemAlike ℓ (Alike ℓ)) (eval (.assign t target v transparent link))
      (eval (.assign (t.relabel ℓ.tags) (target.relabel ℓ.tags) v' transparent link))

section

variable {eval : Node → Pass Node} (restores : ∀ n, Restores (eval n)) (h : Keeps ℓ eval)

include restores h

theorem parallel_evalSeq {items items' : List Node} (hi : List.Forall₂ (Alike ℓ) items items') :
    Parallel ℓ (List.Forall₂ (Alike ℓ)) (evalSeq eval items) (evalSeq eval items') := by
  refine Related.under ?_ (fun _ _ he => he) (restores_evalSeq restores items)
    (restores_evalSeq restores items')
  exact Parallel.mapM hi fun n n' hn => (h.node hn).bind fun v v' hv => parallel_bindLocal hv

theorem parallel_evalType {ty ty' : Node} (hty : ty.Alike ℓ ty') :
    Parallel ℓ (Alike ℓ) (evalType eval ty) (evalType eval ty') :=
  (h.node hty).under (fun _ _ he => { he with resolve := rfl }) (restores_evalType restores ty)
    (restores_evalType restores ty')

theorem parallel_evalDecl {d d' : Decl Node} (hd : Decl.Alike ℓ (Alike ℓ) d d') :
    Parallel ℓ (Decl.Alike ℓ (Alike ℓ)) (evalDecl eval d) (evalDecl eval d') := by
  cases hd with
  | mk span name hty =>
    exact (parallel_evalType restores h hty).bind fun _ _ hty => related_pure (.mk span name hty)

theorem parallel_evalFunc (t : Tag) {param param' : Decl Node} {body body' : List Node}
    (hx : ℓ.bound param.name) (hparam : Decl.Alike ℓ (Alike ℓ) param param')
    (hbody : List.Forall₂ (Alike ℓ) body body') :
    Parallel ℓ (Alike ℓ) (evalFunc eval t param body)
      (evalFunc eval (t.relabel ℓ.tags) param' body') := by
  cases hparam with
  | @mk ty ty' span name hty =>
    refine (parallel_evalType restores h hty).bind fun ty ty' hty => parallel_tagAt _ fun t' =>
      related_env.bind fun e e' he => ?_
    have hfresh : ∀ x, e.freshName name = some x → ℓ.bound x := fun x => Env.Alike.bound_freshName hx
    have hvalue : (if ty.isType then Node.selfType t' ty else .unknown t').Alike ℓ
        (if ty'.isType then .selfType (t'.relabel ℓ.tags) ty' else .unknown (t'.relabel ℓ.tags)) := by
      rw [hty.isType_eq]
      split
      · exact .selfType t' hty
      · exact .unknown t'
    rw [he.freshName_eq hx]
    refine Related.bind (R := List.Forall₂ (Alike ℓ)) ?_ fun body body' hbody =>
      parallel_tagAt _ fun t => related_pure (.func t ?_ (.mk span _ hty) hbody)
    · have inner (b : Binding) (body : List Node) :=
        (restores_evalSeq restores body).under (Guard.lawful_binding b)
      have outer (b : Binding) (n : Node) (body : List Node) :=
        (inner b body).under (Guard.lawful_call n)
      refine Related.under (Related.under ?_ (fun _ _ h => ?_) (inner _ _) (inner _ _))
        (fun _ _ h => ?_) (outer _ _ _) (outer _ _ _)
      · exact parallel_evalSeq restores h hbody
      · exact h.push ⟨.value hvalue, rfl, rfl, hfresh⟩ rfl hx
      · exact h.enterCall rfl
    · cases hrename : e.freshName name with
      | none => exact hx
      | some other => exact hfresh other hrename

theorem parallel_apply {callee callee' : Node} {param param' : Decl Node} {body body' : List Node}
    {arg arg' : Node} (hid : callee'.id = ℓ.id callee.id) (hname : param'.name = param.name)
    (hx : ℓ.bound param.name) (hbody : List.Forall₂ (Alike ℓ) body body') (harg : arg.Alike ℓ arg')
    (site : Span) : Parallel ℓ (Alike ℓ) (apply eval callee param body arg site)
      (apply eval callee' param' body' arg' (ℓ.span site)) := by
  have inner (b : Binding) (body : List Node) (site : Span) :=
    ((restores_evalSeq restores body).bind fun items =>
      restores_seqValue items site).under (Guard.lawful_binding b)
  have middle (b : Binding) (body : List Node) (site : Span) :=
    (inner b body site).under (Guard.lawful_transparent true)
  have outer (b : Binding) (n : Node) (body : List Node) (site : Span) :=
    (middle b body site).under (Guard.lawful_call n)
  refine Related.under (Related.under (Related.under ?_ (fun _ _ h => ?_) (inner _ _ _) (inner _ _ _))
    (fun _ _ h => { h with transparent := rfl }) (middle _ _ _) (middle _ _ _)) (fun _ _ h => ?_)
    (outer _ _ _ _) (outer _ _ _ _)
  · exact (parallel_evalSeq restores h hbody).bind fun _ _ hitems => parallel_seqValue hitems site
  · exact h.push ⟨.value harg, rfl, rfl, fun _ h => by cases h⟩ hname hx
  · exact h.enterCall hid

theorem parallel_unfoldCall {e e' : Env} (he : e.Alike ℓ e') {function function' value value' : Node}
    (hf : function.Alike ℓ function') (hv : value.Alike ℓ value') (site : Span) :
    Parallel ℓ (Option.Rel (Alike ℓ)) (unfoldCall eval e function value site)
      (unfoldCall eval e' function' value' (ℓ.span site)) := by
  have hid := hf.id_eq
  cases hf with
  | func t hx hparam hbody =>
    unfold unfoldCall
    simp only [he.isOnStack_eq hid, he.resolve, hv.isStatic_eq]
    split
    · cases hparam
      exact (parallel_apply restores h rfl rfl hx hbody hv site).map fun _ _ hn => .some hn
    · exact related_pure .none
  | _ => exact related_pure .none

omit restores h in
theorem parallel_keptCallee {e e' : Env} (he : e.Alike ℓ e') {callee callee' function function' : Node}
    (hc : callee.Alike ℓ callee') (hf : function.Alike ℓ function') :
    Parallel ℓ (Alike ℓ) (keptCallee e callee function) (keptCallee e' callee' function') := by
  unfold keptCallee
  rw [he.resolve]
  cases e.resolve with
  | true => exact parallel_residualCallee hc hf
  | false =>
    have hcallee := hc
    cases hc with
    | ident t hx => exact parallel_evalIdent t hx
    | _ => exact parallel_residualCallee hcallee hf

theorem parallel_evalCall (t : Tag) {callee callee' arg arg' : Node} (hc : callee.Alike ℓ callee')
    (ha : arg.Alike ℓ arg') :
    Parallel ℓ (Alike ℓ) (evalCall eval t callee arg)
      (evalCall eval (t.relabel ℓ.tags) callee' arg') := by
  refine (parallel_evalType restores h hc).bind fun function function' hf =>
    (h.node ha).bind fun value value' hv => related_env.bind fun e e' he =>
      (parallel_unfoldCall restores h he hf hv t.span).bind fun result result' hresult => ?_
  rw [he.resolve]
  cases hresult with
  | some hresult =>
    cases e.resolve with
    | true => exact related_pure hresult
    | false => exact (parallel_keptCallee he hc hf).bind fun _ _ hkept => parallel_tagAt _ fun t =>
        related_pure (.call t hkept hv)
  | none =>
    cases e.resolve <;> exact (parallel_keptCallee he hc hf).bind fun _ _ hkept =>
      parallel_tagAt _ fun t => related_pure (.call t hkept hv)

omit restores in
theorem parallel_evalDot (t : Tag) {lhs lhs' : Node} (rhs : Node) (hl : lhs.Alike ℓ lhs') :
    Parallel ℓ (Alike ℓ) (evalDot eval t lhs rhs)
      (evalDot eval (t.relabel ℓ.tags) lhs' (rhs.relabel ℓ.tags)) := by
  refine (h.node hl).bind fun owner owner' ho => ?_
  have howner := ho
  cases ho with
  | @inst template template' body body' t' htemplate hbody =>
    cases rhs with
    | ident nameTag name =>
      have hvalue := fieldValue?_alike hbody name
      simp only [relabel]
      generalize fieldValue? body name = value, fieldValue? body' name = value' at hvalue
      cases hvalue with
      | some hvalue => exact related_pure hvalue
      | none => exact parallel_fail (.noSuchField (looks_relabel _) htemplate.looks _)
    | _ => exact parallel_tagAt _ fun t => related_pure (.dot t _ howner)
  | _ => exact parallel_tagAt _ fun t => related_pure (.dot t rhs howner)

omit restores in
theorem parallel_evalBinOp (t : Tag) {op : Operator} (hop : op ≠ .dot) {lhs lhs' rhs rhs' : Node}
    (hl : lhs.Alike ℓ lhs') (hr : rhs.Alike ℓ rhs') :
    Parallel ℓ (Alike ℓ) (evalBinOp eval t op lhs rhs)
      (evalBinOp eval (t.relabel ℓ.tags) op lhs' rhs') := by
  unfold evalBinOp
  rw [if_neg hop, if_neg hop]
  refine (h.node hl).bind fun a a' ha => (h.node hr).bind fun b b' hb => ?_
  simp only [ha.number?_eq, hb.number?_eq]
  split
  · exact parallel_tagAt _ fun t => related_pure (.lit t _)
  · exact parallel_tagAt _ fun t => related_pure (.binOp t hop ha hb)

theorem parallel_evalIf (t : Tag) {condition condition' : Node}
    {thenBody thenBody' elseBody elseBody' : List Node} (hc : condition.Alike ℓ condition')
    (hthen : List.Forall₂ (Alike ℓ) thenBody thenBody')
    (helse : List.Forall₂ (Alike ℓ) elseBody elseBody') :
    Parallel ℓ (Alike ℓ) (evalIf eval t condition thenBody elseBody)
      (evalIf eval (t.relabel ℓ.tags) condition' thenBody' elseBody') := by
  refine (h.node hc).bind fun condition condition' hc => ?_
  rw [hc.bool?_eq]
  split
  · rename_i taken _
    refine Related.bind (R := List.Forall₂ (Alike ℓ)) ?_ fun _ _ hitems => parallel_seqValue hitems _
    cases taken with
    | true => exact parallel_evalSeq restores h hthen
    | false => exact parallel_evalSeq restores h helse
  · exact (parallel_evalSeq restores h hthen).bind fun _ _ hthen =>
      (parallel_evalSeq restores h helse).bind fun _ _ helse => parallel_tagAt _ fun t =>
        related_pure (.ifElse t hc hthen helse)

omit restores in
theorem parallel_isMatch {pattern pattern' scrutinee scrutinee' : Node}
    (hp : pattern.Alike ℓ pattern') (hs : scrutinee.Alike ℓ scrutinee') :
    Parallel ℓ Eq (isMatch eval pattern scrutinee) (isMatch eval pattern' scrutinee') := by
  unfold isMatch
  rw [hp.isWildcard_eq]
  split
  · exact related_pure rfl
  · exact related_env.bind fun e e' he => (h.node hp).bind fun v v' hv =>
      related_pure (Alike.equal_eq he.links hv hs).symm

theorem parallel_evalCases {scrutinee scrutinee' : Node} (hs : scrutinee.Alike ℓ scrutinee')
    (site : Span) {cases cases' : List (Case Node)}
    (hcases : List.Forall₂ (Case.Alike ℓ (Alike ℓ)) cases cases') :
    Parallel ℓ (Alike ℓ) (evalCases eval scrutinee site cases)
      (evalCases eval scrutinee' (ℓ.span site) cases') := by
  induction hcases with
  | nil => exact parallel_fail (.noMatchingCase hs.looks _)
  | cons hcase _ ih =>
    cases hcase with
    | mk span hp hbody =>
      refine (parallel_isMatch h hp hs).bind fun hit hit' heq => ?_
      subst heq
      cases hit with
      | true => exact (parallel_evalSeq restores h hbody).bind fun _ _ hitems =>
          parallel_seqValue hitems span
      | false => exact ih

theorem parallel_evalCase {c c' : Case Node} (hc : Case.Alike ℓ (Alike ℓ) c c') :
    Parallel ℓ (Case.Alike ℓ (Alike ℓ)) (evalCase eval c) (evalCase eval c') := by
  cases hc with
  | mk span hp hbody =>
    unfold evalCase
    simp only [hp.isWildcard_eq]
    split
    · exact (related_pure hp).bind fun _ _ hp => (parallel_evalSeq restores h hbody).bind
        fun _ _ hbody => related_pure (Case.Alike.mk span hp hbody)
    · exact (h.node hp).bind fun _ _ hp => (parallel_evalSeq restores h hbody).bind
        fun _ _ hbody => related_pure (Case.Alike.mk span hp hbody)

theorem parallel_evalMatch (t : Tag) {scrutinee scrutinee' : Node} {cases cases' : List (Case Node)}
    (hs : scrutinee.Alike ℓ scrutinee')
    (hcases : List.Forall₂ (Case.Alike ℓ (Alike ℓ)) cases cases') :
    Parallel ℓ (Alike ℓ) (evalMatch eval t scrutinee cases)
      (evalMatch eval (t.relabel ℓ.tags) scrutinee' cases') := by
  refine (h.node hs).bind fun scrutinee scrutinee' hs => ?_
  rw [hs.isStatic_eq]
  split
  · exact parallel_evalCases restores h hs t.span hcases
  · exact (Parallel.mapM hcases fun c c' hc => parallel_evalCase restores h hc).bind fun _ _ hcases =>
      parallel_tagAt _ fun t => related_pure (.matchOn t hs hcases)

omit restores in
theorem parallel_evalField {item item' : Node} (hi : ItemAlike ℓ (Alike ℓ) item item') :
    Parallel ℓ (ItemAlike ℓ (Alike ℓ)) (evalField eval item) (evalField eval item') := by
  cases hi with
  | bind t target transparent link hv => exact h.item t target transparent link hv
  | member t x => exact related_pure (.member t x)
  | other hn hplain halias hident =>
    have heval := (h.node hn).bind fun v v' hv => related_pure (hv.item hplain)
    simp only [bind_pure] at heval
    cases hn with
    | ident => cases hident
    | _ => exact heval

/-- A step of evaluation goes in parallel if the evaluation of the parts does. -/
theorem parallel_step {n n' : Node} (hn : n.Alike ℓ n') :
    Parallel ℓ (Alike ℓ) (step eval n) (step eval n') := by
  have halike := hn
  cases hn with
  | lit | builtin | enum | unknown => exact related_pure halike
  | list t hitems =>
    exact (Parallel.mapM hitems fun n n' hn => h.node hn).bind fun _ _ hitems =>
      parallel_tagAt _ fun t => related_pure (.list t hitems)
  | record t hid range hfields =>
    exact (Parallel.mapM hfields fun d d' hd => parallel_evalDecl restores h hd).bind
      fun _ _ hfields => parallel_tagAt _ fun t => related_pure (.record t hid range hfields)
  | fnType t hid hdom hcod =>
    exact (parallel_evalType restores h hdom).bind fun _ _ hdom =>
      (parallel_evalType restores h hcod).bind fun _ _ hcod => parallel_tagAt _ fun t =>
        related_pure (.fnType t hid hdom hcod)
  | selfType t hty =>
    exact (parallel_evalType restores h hty).bind fun _ _ hty => parallel_tagAt _ fun t =>
      related_pure (.selfType t hty)
  | arg t x hty =>
    exact (parallel_evalType restores h hty).bind fun _ _ hty => parallel_tagAt _ fun t =>
      related_pure (.arg t x hty)
  | field t x hty =>
    exact (parallel_evalType restores h hty).bind fun _ _ hty => parallel_tagAt _ fun t =>
      related_pure (.field t x hty)
  | assign t target transparent link hx hv =>
    refine (h.node hv).bind fun _ _ hv => related_env.bind fun e e' he => ?_
    rw [show (t.relabel ℓ.tags).id = ℓ.tags.id t.id from rfl, he.links]
    exact parallel_tagAt _ fun t => related_pure (.assign t target transparent _ hx hv)
  | ident t hx => exact parallel_evalIdent t hx
  | func t hx hparam hbody => exact parallel_evalFunc restores h t hx hparam hbody
  | call t hc ha => exact parallel_evalCall restores h t hc ha
  | binOp t hop hl hr => exact parallel_evalBinOp h t hop hl hr
  | dot t rhs hl => exact parallel_evalDot h t rhs hl
  | matchOn t hs hcases => exact parallel_evalMatch restores h t hs hcases
  | whileDo t hc hbody =>
    exact (h.node hc).bind fun _ _ hc => (parallel_evalSeq restores h hbody).bind fun _ _ hbody =>
      parallel_tagAt _ fun t => related_pure (.whileDo t hc hbody)
  | ifElse t hc hthen helse => exact parallel_evalIf restores h t hc hthen helse
  | block t hitems =>
    exact (parallel_evalSeq restores h hitems).bind fun _ _ hitems => parallel_seqValue hitems t.span
  | inst t htemplate hbody =>
    exact (parallel_evalType restores h htemplate).bind fun _ _ htemplate =>
      (Parallel.mapM hbody fun n n' hn => parallel_evalField h hn).bind fun _ _ hbody =>
        parallel_tagAt _ fun t => related_pure (.inst t htemplate hbody)

omit restores in
/-- An alias in the body of an instance is evaluated without a look at its target. -/
theorem parallel_alias {v v' : Node} (t : Tag) (target : Node) (transparent : Bool)
    (link : Option DefId) (hv : v.Alike ℓ v') :
    Parallel ℓ (ItemAlike ℓ (Alike ℓ)) (step eval (.assign t target v transparent link))
      (step eval (.assign (t.relabel ℓ.tags) (target.relabel ℓ.tags) v' transparent link)) := by
  refine (h.node hv).bind fun _ _ hv => related_env.bind fun e e' he => ?_
  rw [show (t.relabel ℓ.tags).id = ℓ.tags.id t.id from rfl, he.links]
  exact parallel_tagAt _ fun t => related_pure (.bind t target transparent _ hv)

end

end Eval

/-- Alike nodes are evaluated alike, at every depth. -/
theorem keeps_eval (ℓ : Likeness) : ∀ depth : Nat, Eval.Keeps ℓ (eval depth)
  | 0 => ⟨fun _ => related_throw .exhausted, fun _ _ _ _ _ => related_throw .exhausted⟩
  | depth + 1 => ⟨fun hn => Eval.parallel_step (restores_eval depth) (keeps_eval ℓ depth) hn,
      fun t target transparent link hv =>
        Eval.parallel_alias (keeps_eval ℓ depth) t target transparent link hv⟩

end Residual
