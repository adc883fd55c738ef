/-
Field access commutes with evaluation. An instance is evaluated field by field, in the order of its
body, and the names of its fields stay. So the field that an access takes out of the evaluated instance
is the first one of that name in the body, evaluated, however often the name occurs there. And an
instance that passes the checker has a field for each that its record declares.
-/
import Mathlib.Data.List.Forall2
import Residual.Proofs.Operands

namespace Residual

open Pass Node

/-! ## Bodies -/

/-- Two aliases under the same name, and how their values are related. -/
inductive Node.FieldRel (R : Node → Node → Prop) : Node → Node → Prop
  | intro {value value' : Node} (tag tag' : Tag) (target : Node) (transparent transparent' : Bool)
      (link link' : Option DefId) (h : R value value') :
      FieldRel R (assign tag target value transparent link)
        (assign tag' target value' transparent' link')

/-- Where the fields of two bodies correspond one by one, so do the first ones of a name. -/
theorem Node.fieldValue?_rel {R : Node → Node → Prop} {body body' : List Node}
    (h : List.Forall₂ (FieldRel R) body body') (name : Name) :
    Option.Rel R (fieldValue? body name) (fieldValue? body' name) := by
  unfold fieldValue?
  induction h with
  | nil => exact .none
  | cons hfield _ ih =>
    rw [List.findSome?_cons, List.findSome?_cons]
    cases hfield with
    | intro _ _ target _ _ _ _ hvalue =>
      dsimp only
      cases target.ident? == some name with
      | true => exact .some hvalue
      | false => exact ih

/-! ## Evaluated instances -/

/-- At some later moment of a run from the machine, `n` is evaluated to `v`. -/
def Machine.YieldsLater (s : Machine) (depth : Nat) (n v : Node) : Prop :=
  ∃ s' t, s.After s' ∧ (eval depth n).runOn s' = (.ok v, t)

/-- From the machine, `n` is evaluated to `v` up to the identities that are made on the way. -/
def Machine.YieldsLike (s : Machine) (depth : Nat) (n v : Node) : Prop :=
  ∃ w t k, (eval depth n).runOn s = (.ok w, t) ∧ v = w.relabel (.shift s.nodes.next k)

/-- What is evaluated later on is evaluated in the same way from the start. -/
theorem Machine.YieldsLater.like {s : Machine} {depth : Nat} {n v : Node} (h : s.YieldsLater depth n v)
    (hs : s.env.Older s.nodes.next) (hn : n.Older s.nodes.next) : s.YieldsLike depth n v := by
  obtain ⟨s', t', ⟨henv, hle⟩, hrun'⟩ := h
  have hok := eval_isOk_ahead hs hn henv hle depth
  rw [hrun'] at hok
  obtain ⟨w, t, hrun⟩ := runOn_of_isOk hok.symm
  exact ⟨w, t, _, hrun, eval_relabel_ahead hs hn henv hle hrun hrun'⟩

/-- A field keeps its name and its place, and its value is evaluated. -/
theorem fieldRel_evalField {s s' t : Machine} {depth : Nat} {item item' : Node} (h : s.After s')
    (hitem : item.boundName?.isSome = true)
    (hrun : (Eval.evalField (eval depth) item).runOn s' = (.ok item', t)) :
    item.FieldRel (s.YieldsLater depth) item' := by
  cases item with
  | assign tag target value transparent link =>
    cases depth with
    | zero => cases hrun
    | succ depth =>
      obtain ⟨value', t₁, hvalue, hrun⟩ := runOn_bind_ok hrun
      cases hrun
      exact .intro _ _ _ _ _ _ _
        ⟨s', t₁, h, (approximates_eval (Nat.le_succ depth) value).runOn_ok hvalue⟩
  | _ => cases hitem

/-- The machine moves on along the body, and stays one that comes after the first. -/
theorem fieldRel_evalFields {s : Machine} {depth : Nat} :
    ∀ {body body' : List Node} {s' t : Machine}, s.After s' →
      (∀ item ∈ body, item.boundName?.isSome = true) →
      (body.mapM (Eval.evalField (eval depth))).runOn s' = (.ok body', t) →
      List.Forall₂ (FieldRel (s.YieldsLater depth)) body body'
  | [], _, _, _, _, _, hrun => by
    rw [List.mapM_nil] at hrun
    obtain ⟨rfl, -⟩ := runOn_pure_ok hrun
    exact .nil
  | item :: body, _, _, _, h, hbody, hrun => by
    rw [List.forall_mem_cons] at hbody
    rw [List.mapM_cons] at hrun
    obtain ⟨item', t₁, hitem, hrun⟩ := runOn_bind_ok hrun
    obtain ⟨rest', t₂, hrest, hrun⟩ := runOn_bind_ok hrun
    obtain ⟨rfl, -⟩ := runOn_pure_ok hrun
    have h₁ := h.run (Eval.restores_evalField (restores_eval depth) item) hitem
    exact .cons (fieldRel_evalField h hbody.1 hitem) (fieldRel_evalFields h₁ hbody.2 hrest)

/-- An instance is evaluated to an instance, field by field. -/
theorem eval_inst_ok {s t : Machine} {depth : Nat} {tag : Tag} {template v : Node} {body : List Node}
    (hbody : ∀ item ∈ body, item.boundName?.isSome = true)
    (hrun : (eval (depth + 1) (.inst tag template body)).runOn s = (.ok v, t)) :
    ∃ tag' template' body', v = .inst tag' template' body' ∧
      List.Forall₂ (FieldRel (s.YieldsLater depth)) body body' := by
  obtain ⟨template', t₁, htemplate, hrun⟩ := runOn_bind_ok hrun
  obtain ⟨body', t₂, hfields, hrun⟩ := runOn_bind_ok hrun
  cases hrun
  have h := (Machine.After.refl s).run (Eval.restores_evalType (restores_eval depth) template)
    htemplate
  exact ⟨_, _, _, rfl, fieldRel_evalFields h hbody hfields⟩

/-- From the machine, an access to `name` evaluates to `v`, wherever it stands. -/
def Machine.Accesses (s : Machine) (depth : Nat) (owner : Node) (name : Name) (v : Node) (t : Machine) :
    Prop :=
  ∀ dot label : Tag, (eval depth (.binOp dot .dot owner (.ident label name))).runOn s = (.ok v, t)

/-- An access takes the field out of the evaluated instance. -/
theorem accesses_field {s t : Machine} {depth : Nat} {owner template v : Node} {tag : Tag}
    {body : List Node} {name : Name}
    (hrun : (eval depth owner).runOn s = (.ok (.inst tag template body), t))
    (hfield : fieldValue? body name = some v) : s.Accesses (depth + 1) owner name v t := by
  intro dot label
  show (Eval.evalDot (eval depth) dot owner (.ident label name)).runOn s = (.ok v, t)
  rw [Eval.evalDot, runOn_bind, hrun]
  dsimp only
  rw [hfield]
  rfl

/-! ## Checked instances -/

/-- An instance of a record has a field for each that is declared. -/
theorem fieldValue?_of_check {s t : Machine} {depth : Nat} {tag tag' : Tag} {template : Node}
    {body : List Node} {id : TypeId} {fields : List (Decl Node)} {range : Option Range}
    (hrun : (check depth (.inst tag template body)).runOn s = (.ok (.record tag' id fields range), t))
    {d : Decl Node} (hd : d ∈ fields) : (fieldValue? body d.name).isSome = true := by
  cases depth with
  | zero => cases hrun
  | succ depth =>
    obtain ⟨ty, t₁, -, hrun⟩ := runOn_bind_ok hrun
    -- the type that is returned is that of the template, so the template was a record
    split at hrun
    · obtain ⟨_, t₂, -, hrun⟩ := runOn_bind_ok hrun
      split at hrun
      · cases hrun
      · rename_i hnone
        obtain ⟨heq, -⟩ := runOn_pure_ok hrun
        cases heq
        have hbound := List.find?_eq_none.1 hnone d hd
        exact Option.isSome_iff_ne_none.2 (by simpa using hbound)
    · split at hrun
      · split at hrun
        · obtain ⟨heq, -⟩ := runOn_pure_ok hrun
          cases heq
        · cases hrun
      · cases hrun
    · cases hrun

/-! ## Access -/

theorem Node.Older.fieldValue? {c : Nat} {tag : Tag} {template v : Node} {body : List Node} {name : Name}
    (h : (inst tag template body).Older c) (hv : Node.fieldValue? body name = some v) : v.Older c := by
  obtain ⟨_, _, _, _, hitem, -⟩ := exists_of_fieldValue? hv
  exact older_assign ((older_inst h).2 _ hitem)

/-- An instance whose body binds names only is evaluated to an instance with the same fields. The first
field of a name becomes what its value is evaluated to, and an access to that name gives exactly this.
If the instance passes the checker as one of a record, every field that the record declares can be
accessed. -/
theorem access_commutes_eval {s t : Machine} {depth : Nat} {tag : Tag} {template v : Node}
    {body : List Node} (hbody : ∀ item ∈ body, item.boundName?.isSome = true)
    (hrun : (eval (depth + 1) (.inst tag template body)).runOn s = (.ok v, t)) :
    ∃ tag' template' body', v = .inst tag' template' body' ∧
      (∀ x, (fieldValue? body' x).isSome = (fieldValue? body x).isSome) ∧
      (∀ x n w, fieldValue? body x = some n → fieldValue? body' x = some w →
        s.YieldsLater depth n w ∧
        (s.env.Older s.nodes.next → (inst tag template body).Older s.nodes.next →
          s.YieldsLike depth n w) ∧
        s.Accesses (depth + 2) (.inst tag template body) x w t) ∧
      ∀ depth' tag₁ id fields range t₁,
        (check depth' (.inst tag template body)).runOn s = (.ok (.record tag₁ id fields range), t₁) →
        ∀ d ∈ fields, ∃ w, s.Accesses (depth + 2) (.inst tag template body) d.name w t := by
  obtain ⟨tag', template', body', rfl, hfields⟩ := eval_inst_ok hbody hrun
  have hpresent (x : Name) : (fieldValue? body' x).isSome = (fieldValue? body x).isSome := by
    have hrel := fieldValue?_rel hfields x
    generalize fieldValue? body x = n?, fieldValue? body' x = w? at hrel
    cases hrel <;> rfl
  refine ⟨tag', template', body', rfl, hpresent, fun x n w hn hw => ?_, ?_⟩
  · have hrel := fieldValue?_rel hfields x
    rw [hn, hw] at hrel
    cases hrel with
    | some hyields =>
      exact ⟨hyields, fun hs hinst => hyields.like hs (hinst.fieldValue? hn), accesses_field hrun hw⟩
  · intro depth' tag₁ id fields range t₁ hcheck d hd
    have hsome := fieldValue?_of_check hcheck hd
    rw [← hpresent] at hsome
    obtain ⟨w, hw⟩ := Option.isSome_iff_exists.1 hsome
    exact ⟨w, accesses_field hrun hw⟩

/-- `1 + 2` -/
def onePlusTwo : Node :=
  .binOp ⟨7, .builtin⟩ .add (.lit ⟨8, .builtin⟩ (.number 1)) (.lit ⟨9, .builtin⟩ (.number 2))

/-- `P { y = 4, x = 1 + 2, x = 5 }` -/
def pointInstance : Node :=
  .inst ⟨10, .builtin⟩ pointType [
    .assign ⟨11, .builtin⟩ (.ident ⟨12, .builtin⟩ "y") (.lit ⟨13, .builtin⟩ (.number 4)) false none,
    .assign ⟨14, .builtin⟩ (.ident ⟨15, .builtin⟩ "x") onePlusTwo false none,
    .assign ⟨16, .builtin⟩ (.ident ⟨17, .builtin⟩ "x") (.lit ⟨18, .builtin⟩ (.number 5)) false none]

theorem older_pointInstance : pointInstance.Older 30 := fun r hr => by
  have hid (i : Nat) (hi : i < 30) : r.id i = i := hr.id_eq i hi
  simp [pointInstance, pointType, onePlusTwo, Node.relabel, Node.relabelDecl, Tag.relabel, hid,
    hr.span_eq]

/-- Of the two fields `x` the first one is read, and all that the record declares can be. -/
theorem access_commutes_eval_point : ∃ v t w tag id fields range t₁,
    (eval 4 pointInstance).runOn (freshMachine ⟨[]⟩ true) = (.ok v, t) ∧
    (check 5 pointInstance).runOn (freshMachine ⟨[]⟩ true) = (.ok (.record tag id fields range), t₁) ∧
    (freshMachine ⟨[]⟩ true).YieldsLike 3 onePlusTwo w ∧
    (freshMachine ⟨[]⟩ true).Accesses 5 pointInstance "x" w t ∧
    ∀ d ∈ fields, ∃ w', (freshMachine ⟨[]⟩ true).Accesses 5 pointInstance d.name w' t := by
  obtain ⟨v, t, hrun⟩ := runOn_of_isOk (m := eval 4 pointInstance) (s := freshMachine ⟨[]⟩ true)
    (by decide +kernel)
  obtain ⟨ty, t₁, hcheck⟩ := runOn_of_isOk (m := check 5 pointInstance)
    (s := freshMachine ⟨[]⟩ true) (by decide +kernel)
  have hrecord : ((check 5 pointInstance).runOn (freshMachine ⟨[]⟩ true)).1.toOption.map
      Node.ctorIdx = some pointType.ctorIdx := by decide +kernel
  rw [hcheck] at hrecord
  have henv : (freshMachine ⟨[]⟩ true).env.Older 30 :=
    ((isFresh_freshMachine _ _).ready (List.forall_mem_nil _) (List.forall_mem_nil _)).older
  obtain ⟨tag', template', body', rfl, hpresent, hfields, hdeclared⟩ :=
    access_commutes_eval (by decide) hrun
  obtain ⟨w, hw⟩ := Option.isSome_iff_exists.1 (hpresent "x")
  obtain ⟨-, hlike, haccess⟩ := hfields "x" onePlusTwo w rfl hw
  cases ty with
  | record tag id fields range =>
    exact ⟨_, t, w, tag, id, fields, range, t₁, hrun, hcheck, hlike henv older_pointInstance, haccess,
      hdeclared 5 tag id fields range t₁ hcheck⟩
  | _ => cases hrecord

end Residual
