/-
Values evaluate to themselves. A reduced value has nothing to look up: its names are those of fields,
parameters, members and alias targets, which stand for themselves. The evaluator makes a reduced value
anew, part by part, and nothing but the identities of its nodes is new: locations, names of types,
ranges, transparency and links of aliases are those of the value. Which bindings, definitions and
calls there are makes no difference, and neither does the mode.

A pass `Copies` if from some depth on it ends with one result in all environments with the same links,
and leaves the environment as it is.
-/
import Mathlib.Data.List.Forall2
import Residual.Proofs.Pass

namespace Residual

/-! ## Content -/

/-- The tag without its identity. -/
def Tag.anonymous (t : Tag) : Tag := { t with id := 0 }

namespace Node

mutual

/-- All that a node holds besides the identities in it, with the links that its aliases have now. -/
def content (links : Links) : Node → Node
  | lit t value => lit t.anonymous value
  | list t items => list t.anonymous (contentList links items)
  | record t id fields range => record t.anonymous id (contentDecls links fields) range
  | enum t id members => enum t.anonymous id members
  | fnType t id dom cod => fnType t.anonymous id (content links dom) (content links cod)
  | selfType t ty => selfType t.anonymous (content links ty)
  | builtin t b => builtin t.anonymous b
  | arg t name ty => arg t.anonymous name (content links ty)
  | assign t target value transparent link =>
    assign t.anonymous (content links target) (content links value) transparent
      (links.current t.id link)
  | ident t name => ident t.anonymous name
  | func t param body => func t.anonymous (contentDecl links param) (contentList links body)
  | call t f a => call t.anonymous (content links f) (content links a)
  | binOp t op lhs rhs => binOp t.anonymous op (content links lhs) (content links rhs)
  | field t name ty => field t.anonymous name (content links ty)
  | matchOn t scrutinee cases =>
    matchOn t.anonymous (content links scrutinee) (contentCases links cases)
  | whileDo t condition body =>
    whileDo t.anonymous (content links condition) (contentList links body)
  | ifElse t condition thenBody elseBody =>
    ifElse t.anonymous (content links condition) (contentList links thenBody)
      (contentList links elseBody)
  | block t items => block t.anonymous (contentList links items)
  | inst t template body => inst t.anonymous (content links template) (contentList links body)
  | unknown t => unknown t.anonymous

def contentList (links : Links) : List Node → List Node
  | [] => []
  | n :: ns => content links n :: contentList links ns

def contentDecl (links : Links) : Decl Node → Decl Node
  | ⟨span, name, ty⟩ => ⟨span, name, content links ty⟩

def contentDecls (links : Links) : List (Decl Node) → List (Decl Node)
  | [] => []
  | d :: ds => contentDecl links d :: contentDecls links ds

def contentCases (links : Links) : List (Case Node) → List (Case Node)
  | [] => []
  | ⟨span, pattern, body⟩ :: cs =>
    ⟨span, content links pattern, contentList links body⟩ :: contentCases links cs

end

theorem contentList_congr {links : Links} {ns ms : List Node}
    (h : List.Forall₂ (fun n m => content links m = content links n) ns ms) :
    contentList links ms = contentList links ns := by
  induction h with
  | nil => rfl
  | cons h _ ih => rw [contentList, h, ih, contentList]

theorem contentDecls_congr {links : Links} {ds es : List (Decl Node)}
    (h : List.Forall₂ (fun d e => contentDecl links e = contentDecl links d) ds es) :
    contentDecls links es = contentDecls links ds := by
  induction h with
  | nil => rfl
  | cons h _ ih => rw [contentDecls, h, ih, contentDecls]

/-! ## Reduced values -/

/-- A value in which nothing is left to do. -/
inductive IsReduced : Node → Prop where
  | lit (t : Tag) (value : Literal) : IsReduced (lit t value)
  | builtin (t : Tag) (b : Builtin) : IsReduced (builtin t b)
  | enum (t : Tag) (id : TypeId) (members : List Name) : IsReduced (enum t id members)
  | unknown (t : Tag) : IsReduced (unknown t)
  | list (t : Tag) {items : List Node} (h : ∀ n ∈ items, IsReduced n) : IsReduced (list t items)
  | record (t : Tag) (id : TypeId) {fields : List (Decl Node)} (range : Option Range)
    (h : ∀ d ∈ fields, IsReduced d.ty) : IsReduced (record t id fields range)
  | fnType (t : Tag) (id : TypeId) {dom cod : Node} (hdom : IsReduced dom) (hcod : IsReduced cod) :
    IsReduced (fnType t id dom cod)
  | selfType (t : Tag) {ty : Node} (h : IsReduced ty) : IsReduced (selfType t ty)
  | arg (t : Tag) (name : Name) {ty : Node} (h : IsReduced ty) : IsReduced (arg t name ty)
  | field (t : Tag) (name : Name) {ty : Node} (h : IsReduced ty) : IsReduced (field t name ty)
  | assign (t : Tag) (target : Node) {value : Node} (transparent : Bool) (link : Option DefId)
    (h : IsReduced value) : IsReduced (assign t target value transparent link)
  /-- The body of an instance has identifiers, and aliases with reduced values. -/
  | inst (t : Tag) {template : Node} {body : List Node} (htemplate : IsReduced template)
    (hshape : ∀ n ∈ body, n.ident?.isSome = true ∨ n.isAlias = true)
    (hbody : ∀ n ∈ body, n.isAlias = true → IsReduced n) : IsReduced (inst t template body)

end Node

/-! ## Copying -/

namespace Pass

variable {α β : Type}

/-- From every counter beyond the nodes with links, and from some depth on, the passes end with one
result in all environments with these links, and leave the environment as it is. -/
def Copies (links : Links) (m : Nat → Pass α) (P : α → Prop) : Prop :=
  ∀ c : Counter, (∀ id ≥ c.next, links.find? id = none) →
    ∃ a c', c.next ≤ c'.next ∧ P a ∧ ∃ depth, ∀ d ≥ depth, ∀ env : Env, env.links = links →
      (m d).runOn ⟨env, c⟩ = (.ok a, ⟨env, c'⟩)

variable {links : Links} {m : Nat → Pass α} {P : α → Prop} {Q : β → Prop}

theorem copies_pure {a : α} (h : P a) : Copies links (fun _ => pure a) P :=
  fun c _ => ⟨a, c, Nat.le_refl _, h, 0, fun _ _ _ _ => rfl⟩

/-- A new identity has no link. -/
theorem copies_tagAt (span : Span) :
    Copies links (fun _ => tagAt span) fun t => t.span = span ∧ links.find? t.id = none :=
  fun c hc => ⟨⟨c.next, span⟩, c.alloc.2, Nat.le_succ _, ⟨rfl, hc _ (Nat.le_refl _)⟩, 0,
    fun _ _ _ _ => rfl⟩

theorem Copies.bind {f : Nat → α → Pass β} (hm : Copies links m P)
    (hf : ∀ a, P a → Copies links (fun d => f d a) Q) : Copies links (fun d => m d >>= f d) Q := by
  intro c hc
  obtain ⟨a, c₁, hle₁, ha, depth₁, hrun₁⟩ := hm c hc
  obtain ⟨b, c₂, hle₂, hb, depth₂, hrun₂⟩ := hf a ha c₁ fun id hid => hc id (by omega)
  refine ⟨b, c₂, by omega, hb, max depth₁ depth₂, fun d hd env henv => ?_⟩
  rw [runOn_bind, hrun₁ d (by omega) env henv]
  exact hrun₂ d (by omega) env henv

theorem Copies.succ (h : Copies links (fun d => m (d + 1)) P) : Copies links m P := by
  intro c hc
  obtain ⟨a, c', hle, ha, depth, hrun⟩ := h c hc
  refine ⟨a, c', hle, ha, depth + 1, fun d hd => ?_⟩
  obtain ⟨k, rfl⟩ : ∃ k, d = k + 1 := ⟨d - 1, by omega⟩
  exact hrun k (by omega)

/-- The mode makes no difference. -/
theorem Copies.resolve (h : Copies links m P) (b : Bool) :
    Copies links (fun d => under (.resolve b) (m d)) P := by
  intro c hc
  obtain ⟨a, c', hle, ha, depth, hrun⟩ := h c hc
  refine ⟨a, c', hle, ha, depth, fun d hd env henv => ?_⟩
  rw [runOn_under, hrun d hd _ (by exact henv)]
  rfl

/-- Of the environment the links may be read. -/
theorem Copies.readLinks {f : Nat → Links → Pass β} (h : Copies links (fun d => f d links) Q) :
    Copies links (fun d => do f d (← Pass.env).links) Q := by
  intro c hc
  obtain ⟨b, c', hle, hb, depth, hrun⟩ := h c hc
  refine ⟨b, c', hle, hb, depth, fun d hd env henv => ?_⟩
  rw [runOn_bind, runOn_env]
  subst henv
  exact hrun d hd env rfl

/-- What is made with a new tag. -/
theorem copies_tagged {span : Span} {f : Tag → β}
    (h : ∀ t, t.span = span → links.find? t.id = none → Q (f t)) :
    Copies links (fun _ => do return f (← tagAt span)) Q :=
  (copies_tagAt span).bind fun t ht => copies_pure (h t ht.1 ht.2)

theorem Copies.mapM {f : Nat → α → Pass β} {R : α → β → Prop} :
    ∀ {xs : List α}, (∀ x ∈ xs, Copies links (fun d => f d x) (R x)) →
      Copies links (fun d => xs.mapM (f d)) (List.Forall₂ R xs)
  | [], _ => copies_pure .nil
  | x :: xs, h => by
    simp only [List.mapM_cons]
    refine (h x List.mem_cons_self).bind fun y hy => ?_
    refine (Copies.mapM fun z hz => h z (List.mem_cons_of_mem x hz)).bind fun ys hys => ?_
    exact copies_pure (.cons hy hys)

end Pass

/-! ## Evaluation of reduced values -/

open Pass Node

theorem Tag.anonymous_eq {t t' : Tag} (h : t'.span = t.span) : t'.anonymous = t.anonymous := by
  rw [anonymous, anonymous, h]

theorem Links.current_of_find? {links : Links} {id : NodeId} (h : links.find? id = none)
    (made : Option DefId) : links.current id made = made := by
  rw [current, h]
  cases made <;> rfl

section

variable {links : Links}

/-- The passes end with nodes that have the content of `n`. -/
abbrev Recreates (links : Links) (n : Node) (m : Nat → Pass Node) : Prop :=
  Copies links m fun w => w.content links = n.content links

theorem copies_evalDecl {d : Decl Node} (h : Recreates links d.ty fun depth => eval depth d.ty) :
    Copies links (fun depth => Eval.evalDecl (eval depth) d) fun e =>
      contentDecl links e = contentDecl links d :=
  (h.resolve true).bind fun ty hty => copies_pure (by rw [contentDecl, contentDecl, hty])

theorem recreates_evalField {n : Node} (hshape : n.ident?.isSome = true ∨ n.isAlias = true)
    (h : n.isAlias = true → Recreates links n fun depth => eval depth n) :
    Recreates links n fun depth => Eval.evalField (eval depth) n := by
  cases n with
  | ident t name => exact copies_pure rfl
  | assign t target value transparent link => exact h rfl
  | _ => simp [ident?, isAlias] at hshape

/-- A reduced value is made anew with the content that it has. -/
theorem recreates_eval {v : Node} (h : v.IsReduced) : Recreates links v fun d => eval d v := by
  induction h with
  | lit | builtin | enum | unknown => exact Copies.succ (copies_pure rfl)
  | list t h ih =>
    refine Copies.succ ((Copies.mapM ih).bind fun items hitems => copies_tagged fun t' ht _ => ?_)
    rw [content, content, contentList_congr hitems, Tag.anonymous_eq ht]
  | record t id range h ih =>
    refine Copies.succ ((Copies.mapM fun d hd => copies_evalDecl (ih d hd)).bind
      fun fields hfields => copies_tagged fun t' ht _ => ?_)
    rw [content, content, contentDecls_congr hfields, Tag.anonymous_eq ht]
  | fnType t id hdom hcod ihdom ihcod =>
    refine Copies.succ ((ihdom.resolve true).bind fun dom hdom =>
      (ihcod.resolve true).bind fun cod hcod => copies_tagged fun t' ht _ => ?_)
    rw [content, content, hdom, hcod, Tag.anonymous_eq ht]
  | selfType t h ih | arg t name h ih | field t name h ih =>
    refine Copies.succ ((ih.resolve true).bind fun ty hty => copies_tagged fun t' ht _ => ?_)
    rw [content, content, hty, Tag.anonymous_eq ht]
  | assign t target transparent link h ih =>
    refine Copies.succ (ih.bind fun value hvalue => Copies.readLinks
      (f := fun _ ls => do
        return assign (← tagAt t.span) target value transparent (ls.current t.id link))
      (copies_tagged fun t' ht hnew => ?_))
    rw [content, content, hvalue, Tag.anonymous_eq ht, Links.current_of_find? hnew]
  | inst t htemplate hshape hbody ihtemplate ihbody =>
    refine Copies.succ ((ihtemplate.resolve true).bind fun template htemplate =>
      (Copies.mapM fun n hn => recreates_evalField (hshape n hn) (ihbody n hn)).bind
        fun body hbody => copies_tagged fun t' ht _ => ?_)
    rw [content, content, htemplate, contentList_congr hbody, Tag.anonymous_eq ht]

end

/-- Evaluating a reduced value succeeds, in every environment and in both modes, with a node that has
the content of the value: all but the identities of nodes is the same, the links of aliases among it.
There is one result for all environments whose aliases have the same links, so no binding, no
definition and no call has a part in it. Links belong to nodes that have been made. -/
theorem eval_reduced {v : Node} (hv : v.IsReduced) {links : Links} {c : Counter}
    (hlinks : ∀ id ≥ c.next, links.find? id = none) :
    ∃ w c' depth, w.content links = v.content links ∧ ∀ d ≥ depth, ∀ env : Env, env.links = links →
      (eval d v).runOn ⟨env, c⟩ = (.ok w, ⟨env, c'⟩) := by
  obtain ⟨w, c', -, hw, depth, hrun⟩ := recreates_eval hv c hlinks
  exact ⟨w, c', depth, hw, hrun⟩

/-- `[struct[0..10] { x: Number } { x = 3, Red }, self(enum { A }) -> ?]` -/
def nestedValue : Node :=
  .list ⟨0, .bare 1 2⟩ [
    .inst ⟨1, .bare 2 3⟩
      (.record ⟨2, .bare 3 4⟩ "struct#0" [⟨.bare 4 5, "x", .builtin ⟨3, .builtin⟩ .number⟩]
        (some ⟨0, 10⟩))
      [.assign ⟨4, .bare 5 6⟩ (.ident ⟨5, .bare 6 7⟩ "x") (.lit ⟨6, .bare 7 8⟩ (.number 3)) true none,
        .ident ⟨7, .bare 8 9⟩ "Red"],
    .fnType ⟨8, .bare 9 10⟩ "fn#1" (.selfType ⟨9, .builtin⟩ (.enum ⟨10, .builtin⟩ "enum#2" ["A"]))
      (.unknown ⟨11, .builtin⟩)]

theorem isReduced_nestedValue : nestedValue.IsReduced := by
  refine .list _ (List.forall_mem_cons.2 ⟨.inst _ (.record _ _ _ ?_) (by decide) ?_,
    List.forall_mem_singleton.2 (.fnType _ _ (.selfType _ (.enum ..)) (.unknown _))⟩)
  · exact List.forall_mem_singleton.2 (.builtin ..)
  · exact List.forall_mem_cons.2 ⟨fun _ => .assign _ _ _ _ (.lit ..),
      List.forall_mem_singleton.2 fun h => by cases h⟩

/-- The alias is linked to a definition, and the result is the same whether `x` and `Red` are bound,
defined or neither. -/
theorem eval_reduced_linked : ∃ w c' depth,
    w.content ⟨[(4, 7)]⟩ = nestedValue.content ⟨[(4, 7)]⟩ ∧
    ∀ d ≥ depth, ∀ env : Env, env.links = ⟨[(4, 7)]⟩ →
      (eval d nestedValue).runOn ⟨env, ⟨12⟩⟩ = (.ok w, ⟨env, c'⟩) := by
  refine eval_reduced isReduced_nestedValue fun id (hid : 12 ≤ id) => ?_
  have hne : (id == 4) = false := beq_eq_false_iff_ne.2 (by omega)
  rw [Links.find?, List.lookup_cons, hne]
  rfl

end Residual
