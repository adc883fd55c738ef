/-
Which types are compatible. Among types along whose results no placeholder stands, and whose names
tell built-in types, records and enums, and function types apart, compatibility is a preorder. What
stands in the fields of a record or before the arrow of a function type has no say in it, and so
types are as compatible after they are evaluated as before, however often that happens.
-/
import Mathlib.Data.Set.Basic
import Residual.Proofs.Pass

namespace Residual

open Pass

/-! ## Kinds of types -/

/-- The kinds of types that names should tell apart. -/
inductive TypeKind where
  | builtin
  /-- records and enums -/
  | nominal
  | function
  deriving DecidableEq

namespace Node

def kind? : Node → Option TypeKind
  | builtin .. => some .builtin
  | record .. | enum .. => some .nominal
  | fnType .. => some .function
  | _ => none

/-- The type itself and, if it is a function type, its result, the result of that, and so on. -/
def results : Node → List Node
  | fnType tag id dom cod => fnType tag id dom cod :: cod.results
  | n => [n]

/-- Along the results there are types only, and no placeholder. -/
def IsSolid (n : Node) : Prop := ∀ m ∈ n.results, m.kind?.isSome = true

/-- No name along the results of the one is that of another kind of type along those of the other. -/
def Apart (a b : Node) : Prop :=
  ∀ m ∈ a.results, ∀ m' ∈ b.results, m.typeId? = m'.typeId? → m.kind? = m'.kind?

theorem mem_results_self (n : Node) : n ∈ n.results := by
  cases n <;> exact List.mem_cons_self

theorem IsSolid.kind? {n : Node} (h : n.IsSolid) : n.kind?.isSome = true := h n n.mem_results_self

theorem IsSolid.result {tag : Tag} {id : TypeId} {dom cod : Node}
    (h : (fnType tag id dom cod).IsSolid) : cod.IsSolid :=
  fun m hm => h m (List.mem_cons_of_mem _ hm)

theorem Apart.kind?_eq {a b : Node} (h : a.Apart b) (hid : a.typeId? = b.typeId?) :
    a.kind? = b.kind? := h a a.mem_results_self b b.mem_results_self hid

theorem Apart.result {tag tag' : Tag} {id id' : TypeId} {dom dom' a b : Node}
    (h : (fnType tag id dom a).Apart (fnType tag' id' dom' b)) : a.Apart b :=
  fun m hm m' hm' => h m (List.mem_cons_of_mem _ hm) m' (List.mem_cons_of_mem _ hm')

theorem exists_of_kind?_function {n : Node} (h : n.kind? = some .function) :
    ∃ tag id dom cod, n = fnType tag id dom cod := by
  cases n with
  | fnType tag id dom cod => exact ⟨tag, id, dom, cod, rfl⟩
  | _ => cases h

end Node

/-! ## Compatibility is a preorder -/

@[simp] theorem compatible_any (tag : Tag) (n : Node) : compatible (.builtin tag .any) n = true := by
  cases n <;> rfl

/-- Types of one kind and one name accept the same, but for function types. -/
theorem compatible_congr_left {a b : Node} (hkind : a.kind? = b.kind?) (hid : a.typeId? = b.typeId?)
    (ha : a.kind?.isSome = true) (hfun : a.kind? ≠ some .function) (c : Node) :
    compatible a c = compatible b c := by
  cases a with
  | builtin tag x =>
    cases b with
    | builtin tag' y =>
      obtain rfl : x = y := Builtin.name_injective (Option.some.inj hid)
      cases x <;> cases c <;> rfl
    | _ => cases hkind
  | record | enum =>
    cases b with
    | record | enum =>
      obtain rfl := Option.some.inj hid
      cases c <;> rfl
    | _ => cases hkind
  | fnType => exact absurd rfl hfun
  | _ => cases ha

/-- All that a type other than a placeholder may be compatible with. -/
theorem compatible_cases {a b : Node} (ha : a.kind?.isSome = true) (hb : b.kind?.isSome = true)
    (h : compatible a b = true) :
    (∃ tag, a = .builtin tag .any) ∨
      (∃ tag, a = .builtin tag .function) ∧ b.kind? = some .function ∨
      a.kind? = some .function ∧ b.kind? = some .function ∨ a.typeId? = b.typeId? := by
  have hname {i j : TypeId} (hij : (i == j) = true) : some i = some j :=
    congrArg some (beq_iff_eq.1 hij)
  cases a with
  | builtin tag x =>
    cases b with
    | fnType =>
      cases x with
      | any => exact .inl ⟨tag, rfl⟩
      | function => exact .inr (.inl ⟨⟨tag, rfl⟩, rfl⟩)
      | _ => exact .inr (.inr (.inr (hname h)))
    | builtin | record | enum =>
      cases x with
      | any => exact .inl ⟨tag, rfl⟩
      | _ => exact .inr (.inr (.inr (hname h)))
    | _ => cases hb
  | fnType =>
    cases b with
    | fnType => exact .inr (.inr (.inl ⟨rfl, rfl⟩))
    | builtin | record | enum => exact .inr (.inr (.inr (hname h)))
    | _ => cases hb
  | record | enum =>
    cases b with
    | builtin | fnType | record | enum => exact .inr (.inr (.inr (hname h)))
    | _ => cases hb
  | _ => cases ha

/-- If names tell kinds apart, a function type is compatible with function types only. -/
theorem exists_of_compatible_fnType {tag : Tag} {id : TypeId} {dom cod b : Node} (hb : b.IsSolid)
    (hab : (Node.fnType tag id dom cod).Apart b)
    (h : compatible (.fnType tag id dom cod) b = true) :
    ∃ tag' id' dom' cod', b = .fnType tag' id' dom' cod' := by
  refine Node.exists_of_kind?_function ?_
  rcases compatible_cases rfl hb.kind? h with ⟨tag, heq⟩ | ⟨-, hfun⟩ | ⟨-, hfun⟩ | hid
  · cases heq
  · exact hfun
  · exact hfun
  · exact (hab.kind?_eq hid).symm

theorem compatible_refl {a : Node} (ha : a.IsSolid) : compatible a a = true := by
  cases a with
  | fnType tag id dom cod =>
    rw [compatible]
    exact compatible_refl ha.result
  | builtin tag x => cases x <;> rfl
  | record | enum => exact beq_self_eq_true _
  | _ => cases ha.kind?

/-- What `Any` accepts is all there is, what `Function` accepts is all that function types are
compatible with, and every other type accepts types of its own kind and name only. -/
theorem compatible_trans_of_ne_function {a b c : Node} (ha : a.kind?.isSome = true)
    (hfun : a.kind? ≠ some .function) (hb : b.IsSolid) (hc : c.IsSolid) (hab : a.Apart b)
    (hbc : b.Apart c) (h : compatible a b = true) (h' : compatible b c = true) :
    compatible a c = true := by
  rcases compatible_cases ha hb.kind? h with ⟨tag, rfl⟩ | ⟨⟨tag, rfl⟩, hb'⟩ | ⟨ha', -⟩ | hid
  · exact compatible_any tag c
  · obtain ⟨_, _, _, _, rfl⟩ := Node.exists_of_kind?_function hb'
    obtain ⟨_, _, _, _, rfl⟩ := exists_of_compatible_fnType hc hbc h'
    rfl
  · exact absurd ha' hfun
  · rwa [compatible_congr_left (hab.kind?_eq hid) hid ha hfun]

theorem compatible_trans {a b c : Node} (ha : a.IsSolid) (hb : b.IsSolid) (hc : c.IsSolid)
    (hab : a.Apart b) (hbc : b.Apart c) (h : compatible a b = true) (h' : compatible b c = true) :
    compatible a c = true := by
  cases a with
  | fnType tag id dom cod =>
    obtain ⟨_, _, _, _, rfl⟩ := exists_of_compatible_fnType hb hab h
    obtain ⟨_, _, _, _, rfl⟩ := exists_of_compatible_fnType hc hbc h'
    rw [compatible] at h h' ⊢
    exact compatible_trans ha.result hb.result hc.result hab.result hbc.result h h'
  | builtin | record | enum =>
    exact compatible_trans_of_ne_function rfl (by rintro ⟨⟩) hb hc hab hbc h h'
  | _ => cases ha.kind?

/-- Types along whose results no placeholder stands, and whose names tell their kinds: no function type
there bears the name of a record, an enum or a built-in type, and no record or enum that of a built-in
type. -/
structure TellsKinds (T : Set Node) : Prop where
  isSolid : ∀ t ∈ T, t.IsSolid
  apart : ∀ t ∈ T, ∀ u ∈ T, t.Apart u

/-- Among types whose names tell their kinds, compatibility is reflexive and transitive. -/
theorem compatible_isPreorder {T : Set Node} (hT : TellsKinds T) :
    IsPreorder T fun a b => compatible a b where
  refl a := compatible_refl (hT.isSolid a a.2)
  trans a b c := compatible_trans (hT.isSolid a a.2) (hT.isSolid b b.2) (hT.isSolid c c.2)
    (hT.apart a a.2 b b.2) (hT.apart b b.2 c c.2)

def numberType : Node := .builtin ⟨0, .builtin⟩ .number

/-- `struct { x: Number }` -/
def pointRecord : Node := .record ⟨1, .builtin⟩ "P" [⟨.builtin, "x", numberType⟩] none

/-- `Number -> Any` -/
def toAnything : Node := .fnType ⟨2, .builtin⟩ "A" numberType (.builtin ⟨3, .builtin⟩ .any)

/-- `Number -> Function` -/
def toFunction : Node := .fnType ⟨4, .builtin⟩ "B" numberType (.builtin ⟨5, .builtin⟩ .function)

/-- `Number -> P -> Number` -/
def toPointFunction : Node :=
  .fnType ⟨6, .builtin⟩ "C" numberType (.fnType ⟨7, .builtin⟩ "D" pointRecord numberType)

theorem tellsKinds_curried :
    TellsKinds {t | t ∈ [toAnything, toFunction, toPointFunction, pointRecord]} := by
  constructor
  · simp only [Set.mem_ofPred_eq, Node.IsSolid]
    decide +kernel
  · simp only [Set.mem_ofPred_eq, Node.Apart]
    decide +kernel

theorem compatible_isPreorder_curried :
    TellsKinds {t | t ∈ [toAnything, toFunction, toPointFunction, pointRecord]} ∧
      compatible toAnything toFunction ∧ compatible toFunction toPointFunction ∧
      compatible toAnything toPointFunction := by
  have htells := tellsKinds_curried
  have hleft : compatible toAnything toFunction := by decide +kernel
  have hright : compatible toFunction toPointFunction := by decide +kernel
  exact ⟨htells, hleft, hright, (compatible_isPreorder htells).trans
    ⟨toAnything, by simp⟩ ⟨toFunction, by simp⟩ ⟨toPointFunction, by simp⟩ hleft hright⟩

-- `Function` accepts a function type that bears the name of a record, but not the record
example :
    let misnamed := Node.fnType ⟨8, .builtin⟩ "P" numberType numberType
    compatible (.builtin ⟨9, .builtin⟩ .function) misnamed ∧ compatible misnamed pointRecord ∧
      ¬ compatible (.builtin ⟨9, .builtin⟩ .function) pointRecord := by decide +kernel

-- a placeholder makes a bridge between any two types
example :
    let placeholder := Node.selfType ⟨8, .builtin⟩ numberType
    compatible pointRecord placeholder ∧ compatible placeholder numberType ∧
      ¬ compatible pointRecord numberType := by decide +kernel

/-! ## Evaluated types -/

namespace Node

/-- Types whose results and contents are types again, and so on. -/
def isTypeThroughout : Node → Bool
  | builtin .. | record .. | enum .. => true
  | fnType _ _ _ cod => cod.isTypeThroughout
  | selfType _ ty => ty.isTypeThroughout
  | _ => false

/-- Two types that agree along their results and contents, whatever their fields, members and
parameters are. -/
inductive SameType : Node → Node → Prop
  | builtin (tag tag' : Tag) (b : Builtin) : SameType (builtin tag b) (builtin tag' b)
  | record (tag tag' : Tag) (id : TypeId) (fields fields' : List (Decl Node))
      (range range' : Option Range) :
      SameType (record tag id fields range) (record tag' id fields' range')
  | enum (tag tag' : Tag) (id : TypeId) (members members' : List Name) :
      SameType (enum tag id members) (enum tag' id members')
  | fnType {cod cod' : Node} (tag tag' : Tag) (id : TypeId) (dom dom' : Node)
      (h : SameType cod cod') : SameType (fnType tag id dom cod) (fnType tag' id dom' cod')
  | selfType {ty ty' : Node} (tag tag' : Tag) (h : SameType ty ty') :
      SameType (selfType tag ty) (selfType tag' ty')

namespace SameType

variable {a a' b b' : Node}

theorem isType (h : SameType a a') : a'.isType = true := by
  cases h <;> rfl

theorem ctorIdx_eq (h : SameType a a') : a'.ctorIdx = a.ctorIdx := by
  cases h <;> rfl

theorem typeId?_eq (h : SameType a a') : a'.typeId? = a.typeId? := by
  induction h with
  | selfType _ _ _ ih => exact ih
  | _ => rfl

theorem compatible_eq (ha : SameType a a') (hb : SameType b b') :
    compatible a' b' = compatible a b := by
  induction ha generalizing b b' with
  | fnType tag tag' id dom dom' hcod ih =>
    cases hb with
    | fnType _ _ _ _ _ hcod' =>
      have hcods := ih hcod'
      exact hcods
    | _ => rfl
  | builtin tag tag' x => cases x <;> cases hb <;> rfl
  | _ => cases hb <;> rfl

end SameType

end Node

/-- Every type is evaluated in place. -/
theorem sameType_eval {t t' : Node} {depth : Nat} {s s' : Machine} (ht : t.isTypeThroughout = true)
    (hrun : (eval depth t).runOn s = (.ok t', s')) : t.SameType t' := by
  cases depth with
  | zero => cases hrun
  | succ depth =>
    cases t with
    | builtin tag b =>
      obtain ⟨rfl, -⟩ := runOn_pure_ok hrun
      exact .builtin ..
    | enum tag id members =>
      obtain ⟨rfl, -⟩ := runOn_pure_ok hrun
      exact .enum ..
    | record tag id fields range =>
      obtain ⟨_, _, -, hrun⟩ := runOn_bind_ok hrun
      cases hrun
      exact .record ..
    | fnType tag id dom cod =>
      obtain ⟨_, _, -, hrun⟩ := runOn_bind_ok hrun
      obtain ⟨_, _, hcod, hrun⟩ := runOn_bind_ok hrun
      obtain ⟨_, hcod, -⟩ := runOn_under_ok hcod
      cases hrun
      have ih := sameType_eval (show cod.isTypeThroughout = true from ht) hcod
      exact .fnType _ _ _ _ _ ih
    | selfType tag ty =>
      obtain ⟨_, _, hty, hrun⟩ := runOn_bind_ok hrun
      obtain ⟨_, hty, -⟩ := runOn_under_ok hty
      cases hrun
      have ih := sameType_eval (show ty.isTypeThroughout = true from ht) hty
      exact .selfType _ _ ih
    | _ => cases ht

/-- Evaluating a type gives a type of the same form and name. Two types are compatible after they are
evaluated if and only if they were before, also where they are evaluated in different environments. -/
theorem eval_keeps_compatible {t u t' u' : Node} {depth depth' : Nat} {s s' r r' : Machine}
    (ht : t.isTypeThroughout = true) (hu : u.isTypeThroughout = true)
    (hrun : (eval depth t).runOn s = (.ok t', s')) (hrun' : (eval depth' u).runOn r = (.ok u', r')) :
    (t'.isType = true ∧ t'.ctorIdx = t.ctorIdx ∧ t'.typeId? = t.typeId?) ∧
      compatible t' u' = compatible t u := by
  have hsame := sameType_eval ht hrun
  have hsame' := sameType_eval hu hrun'
  exact ⟨⟨hsame.isType, hsame.ctorIdx_eq, hsame.typeId?_eq⟩, hsame.compatible_eq hsame'⟩

/-- `P -> struct { p: P }` -/
def toHolder (name : TypeId) : Node :=
  .fnType ⟨6, .builtin⟩ name (.ident ⟨7, .builtin⟩ "P")
    (.record ⟨8, .builtin⟩ "R" [⟨.builtin, "p", .ident ⟨9, .builtin⟩ "P"⟩] none)

/-- A machine on which `P` is defined. -/
def typeMachine (value : Node) (resolve : Bool) : Machine :=
  ⟨{ Env.start ⟨[("P", value)]⟩ .empty default with resolve }, ⟨10⟩⟩

/-- `P` is a record where the one type is evaluated and a built-in type where the other is, and still
the two are compatible. -/
theorem eval_keeps_compatible_toHolder : ∃ t' s' u' r',
    (eval 4 (toHolder "F")).runOn (typeMachine pointRecord true) = (.ok t', s') ∧
    (eval 5 (toHolder "G")).runOn (typeMachine numberType false) = (.ok u', r') ∧
    t'.typeId? = some "F" ∧ compatible t' u' = true := by
  obtain ⟨t', s', hrun⟩ := runOn_of_isOk (m := eval 4 (toHolder "F"))
    (s := typeMachine pointRecord true) (by decide +kernel)
  obtain ⟨u', r', hrun'⟩ := runOn_of_isOk (m := eval 5 (toHolder "G"))
    (s := typeMachine numberType false) (by decide +kernel)
  obtain ⟨⟨-, -, hid⟩, hcompatible⟩ := eval_keeps_compatible rfl rfl hrun hrun'
  exact ⟨t', s', u', r', hrun, hrun', hid, hcompatible⟩

end Residual
