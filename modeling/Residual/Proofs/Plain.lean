/-
Likenesses under which names are used as they are. A node is like itself under other tags then, as long
as the names in it may be used and the types in it have names that types of the program may have. An
environment is like itself under other tags if the nodes in it are.
-/
import Residual.Proofs.Equivariance
import Residual.Proofs.Names
import Residual.Proofs.Parallel
import Residual.Proofs.Parts

namespace Residual

/-- A set of names that has the other names that a binder may get as well. -/
def Name.IsClosed (P : Name → Prop) : Prop := ∀ x k, P x → P (Env.suffixed x k)

/-- The names of a set are used as they are, and other names are not used. -/
def Likeness.within {P : Name → Prop} (closed : Name.IsClosed P) (ν : Numbering)
    (placement : Placement) : Likeness where
  toNumbering := ν
  toPlacement := placement
  used x x' := x = x' ∧ P x
  bound := P
  used_iff := by
    rintro x x' y y' ⟨rfl, -⟩ ⟨rfl, -⟩
    rfl
  bound_used hx := ⟨rfl, hx⟩
  bound_suffixed k hx := closed _ k hx
  used_builtin := by
    rintro x x' ⟨rfl, -⟩
    rfl
  used_wildcard := by
    rintro x x' ⟨rfl, -⟩
    rfl

theorem Likeness.plain_within {P : Name → Prop} {closed : Name.IsClosed P} {ν : Numbering}
    {placement : Placement} : (within closed ν placement).Plain := fun _ _ h => h.1

/-- All names are used as they are. -/
def Likeness.sameNames (ν : Numbering) (placement : Placement) : Likeness :=
  .within (P := fun _ => True) (fun _ _ _ => trivial) ν placement

namespace Node

variable {ℓ : Likeness}

/-- Children are within what the node is within. -/
theorem Within.child {P : Name → Prop} {m n : Node} (h : n.Within P) (hm : m ∈ n.children) :
    m.Within P := by
  cases n with
  | lit | enum | builtin | ident | unknown => cases hm
  | list | block => exact forall_mem_namesList.1 h m hm
  | record t id fields range =>
    obtain ⟨d, hd, rfl⟩ := List.mem_map.1 hm
    exact within_record.1 h d hd
  | fnType | call =>
    obtain ⟨ha, hb⟩ := List.forall_mem_append.1 h
    rcases List.mem_pair.1 hm with rfl | rfl
    · exact ha
    · exact hb
  | selfType | arg | field =>
    rw [List.mem_singleton.1 hm]
    exact h
  | assign t target value transparent link =>
    rw [List.mem_singleton.1 hm]
    exact (within_assign.1 h).2
  | func t param body =>
    obtain ⟨-, hty, hbody⟩ := within_func.1 h
    exact List.forall_mem_cons.2 ⟨hty, hbody⟩ m hm
  | binOp t op lhs rhs =>
    obtain ⟨hl, hr⟩ := within_binOp.1 h
    rw [children] at hm
    split at hm
    · rw [List.mem_singleton.1 hm]
      exact hl
    · rcases List.mem_pair.1 hm with rfl | rfl
      · exact hl
      · exact hr
  | matchOn t scrutinee cases =>
    obtain ⟨hs, hcases⟩ := within_matchOn.1 h
    rcases List.mem_cons.1 hm with rfl | hm
    · exact hs
    · obtain ⟨c, hc, hm⟩ := List.mem_flatMap.1 hm
      exact List.forall_mem_cons.2 (hcases c hc) m hm
  | whileDo t condition body => exact List.forall_mem_cons.2 (within_whileDo.1 h) m hm
  | ifElse t condition thenBody elseBody =>
    obtain ⟨hc, hbodies⟩ := within_ifElse.1 h
    exact List.forall_mem_cons.2 ⟨hc, List.forall_mem_append.2 hbodies⟩ m hm
  | inst t template body =>
    obtain ⟨htemplate, hbody⟩ := within_inst.1 h
    rcases List.mem_cons.1 hm with rfl | hm
    · exact htemplate
    · exact hbody m (List.mem_filter.1 hm).1

/-- The types in the node have names that types of the program may have. -/
def Typed (ℓ : Likeness) (n : Node) : Prop := n.All fun m => ∀ id, m.typeId? = some id → ℓ.typeId id

/-- The node is like itself under other tags. -/
def Relabeled (ℓ : Likeness) (n : Node) : Prop := n.Alike ℓ (n.relabel ℓ.tags)

theorem alike_relabelList {ns : List Node} (h : ∀ m ∈ ns, m.Relabeled ℓ) :
    List.Forall₂ (Alike ℓ) ns (relabelList ℓ.tags ns) := by
  rw [relabelList_eq, List.forall₂_map_right_iff, List.forall₂_same]
  exact h

theorem alike_relabelDecl {d : Decl Node} (h : d.ty.Relabeled ℓ) :
    Decl.Alike ℓ (Alike ℓ) d (relabelDecl ℓ.tags d) := by
  rw [relabelDecl_eq]
  exact .mk d.span d.name h

theorem alike_relabelDecls {ds : List (Decl Node)} (h : ∀ d ∈ ds, d.ty.Relabeled ℓ) :
    List.Forall₂ (Decl.Alike ℓ (Alike ℓ)) ds (relabelDecls ℓ.tags ds) := by
  rw [relabelDecls_eq, List.forall₂_map_right_iff, List.forall₂_same]
  exact fun d hd => alike_relabelDecl (h d hd)

theorem alike_relabelCases {cs : List (Case Node)}
    (h : ∀ c ∈ cs, ∀ m ∈ c.pattern :: c.body, m.Relabeled ℓ) :
    List.Forall₂ (Case.Alike ℓ (Alike ℓ)) cs (relabelCases ℓ.tags cs) := by
  rw [relabelCases_eq, List.forall₂_map_right_iff, List.forall₂_same]
  intro c hc
  have hbody := alike_relabelList fun m hm => h c hc m (List.mem_cons_of_mem _ hm)
  rw [relabelList_eq] at hbody
  rw [relabelCase_eq]
  exact .mk c.span (h c hc _ List.mem_cons_self) hbody

/-- The members of an enum in the body of an instance stand for themselves. -/
theorem alike_relabelItems (hplain : ℓ.Plain) {ns : List Node}
    (h : ∀ m ∈ ns, m.ident? = none → m.Relabeled ℓ) :
    List.Forall₂ (ItemAlike ℓ (Alike ℓ)) ns (relabelList ℓ.tags ns) := by
  rw [relabelList_eq, List.forall₂_map_right_iff, List.forall₂_same]
  intro m hm
  cases m with
  | ident t x => exact .member t x
  | _ => exact (h _ hm rfl).item hplain

/-- Where names are used as they are, a node within the names that may be used is like itself under
other tags. -/
theorem Typed.alike_relabel (hplain : ℓ.Plain) {n : Node} (hn : n.Typed ℓ)
    (hbound : n.Within ℓ.bound) : n.Alike ℓ (n.relabel ℓ.tags) := by
  have ih : ∀ m ∈ n.children, m.Relabeled ℓ := fun m hm =>
    have := sizeOf_children hm
    Typed.alike_relabel hplain (hn.child hm) (hbound.child hm)
  have hid := hn.self
  cases n with
  | lit t value => exact .lit t value
  | enum t id members => exact .enum t (hid id rfl) members
  | builtin t b => exact .builtin t b
  | unknown t => exact .unknown t
  | ident t x => exact .ident t (ℓ.bound_used (within_ident.1 hbound))
  | list t items => exact .list t (alike_relabelList ih)
  | block t items => exact .block t (alike_relabelList ih)
  | record t id fields range =>
    exact .record t (hid id rfl) range
      (alike_relabelDecls fun d hd => ih _ (mem_children_record hd))
  | fnType t id dom cod =>
    exact .fnType t (hid id rfl) (ih dom (by simp [children])) (ih cod (by simp [children]))
  | selfType t ty => exact .selfType t (ih ty List.mem_cons_self)
  | arg t x ty => exact .arg t x (ih ty List.mem_cons_self)
  | field t x ty => exact .field t x (ih ty List.mem_cons_self)
  | assign t target value transparent link =>
    refine .assign t target transparent link (fun x hx => ?_) (ih value List.mem_cons_self)
    exact (within_assign.1 hbound).1.of_ident? hx
  | func t param body =>
    exact .func t (within_func.1 hbound).1 (alike_relabelDecl (ih _ List.mem_cons_self))
      (alike_relabelList fun m hm => ih m (List.mem_cons_of_mem _ hm))
  | call t callee argument =>
    exact .call t (ih callee (by simp [children])) (ih argument (by simp [children]))
  | binOp t op lhs rhs =>
    by_cases hop : op = .dot
    · subst hop
      exact .dot t rhs (ih lhs mem_children_binOp)
    · exact .binOp t hop (ih lhs mem_children_binOp) (ih rhs (mem_children_rhs hop))
  | matchOn t scrutinee cases =>
    exact .matchOn t (ih scrutinee List.mem_cons_self)
      (alike_relabelCases fun c hc m hm => ih m (mem_children_matchOn hc hm))
  | whileDo t condition body =>
    exact .whileDo t (ih condition List.mem_cons_self)
      (alike_relabelList fun m hm => ih m (List.mem_cons_of_mem _ hm))
  | ifElse t condition thenBody elseBody =>
    exact .ifElse t (ih condition List.mem_cons_self)
      (alike_relabelList fun m hm => ih m (mem_children_then hm))
      (alike_relabelList fun m hm => ih m (mem_children_else hm))
  | inst t template body =>
    exact .inst t (ih template List.mem_cons_self)
      (alike_relabelItems hplain fun m hm hident => ih m (mem_children_inst hm hident))
termination_by sizeOf n

end Node

/-- An environment is like itself under other tags, with local bindings that may have other types. -/
theorem Env.alike_relabel {ℓ : Likeness} (hplain : ℓ.Plain) {env : Env} {locals : Locals}
    (hlocals : ∀ x, Option.Rel (Binding.Alike ℓ) (env.locals.find? x) (locals.find? x))
    (hstore : ∀ entry ∈ env.store.entries, entry.2.Typed ℓ ∧ entry.2.Within ℓ.bound) :
    env.Alike ℓ { env.relabel ℓ.tags with locals } where
  bound {x x'} hx := by
    obtain rfl := hplain _ _ hx
    exact hlocals x
  defined {x x'} hx := by
    obtain rfl := hplain _ _ hx
    have hlookup := Definitions.lookup_relabel ℓ.tags env.store x
    show Option.Rel (Definitions.Alike ℓ) _ ((env.store.relabel ℓ.tags).lookup x)
    rw [hlookup]
    cases hfound : env.store.lookup x with
    | none => exact .none
    | some found =>
      obtain ⟨d, v⟩ := found
      obtain ⟨entry, hentry, rfl⟩ := Definitions.mem_of_lookup hfound
      obtain ⟨htyped, hwithin⟩ := hstore entry hentry
      exact .some ⟨rfl, htyped.alike_relabel hplain hwithin⟩
  calls := by
    show (env.calls.nodes.map (Node.relabel ℓ.tags)).map Node.id = _
    rw [List.map_map]
    exact List.map_congr_left fun n _ => Node.id_relabel _ n
  resolve := rfl
  transparent := rfl
  links := Links.current_relabel ℓ.injective env.links

end Residual
