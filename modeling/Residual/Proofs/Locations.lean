/-
Locations make no difference. Two programs that are the same trees with the same sharing, at whatever
locations, evaluate to the same trees or fail with the same words, and so with their types. The names
of the types that the checker makes for functions tell where the functions are, so types are the same
up to these names; and no type of the programs may have such a name.

The identities of the nodes of both programs are mapped to common ones. What is left of a program under
these and without locations is its outline. Each program runs like its outline, so two programs with one
outline run alike.
-/
import Residual.Proofs.Accord
import Residual.Proofs.Plain

namespace Residual

open Pass Node

/-! ## Names of types -/

/-- Whether the name is like those that the checker makes for the types of functions. -/
def TypeId.isInferred (id : TypeId) : Bool := "fn@".toList.isPrefixOf id.toList

theorem isInferred_functionTypeId (span : Span) :
    TypeId.isInferred (Check.functionTypeId span) = true := by
  rw [TypeId.isInferred, Check.functionTypeId, String.toList_append, List.isPrefixOf_iff_prefix]
  exact List.prefix_append _ _

namespace Node

/-- No type in the node has a name like those of the checker. -/
def IsSource (n : Node) : Prop := n.All fun m => ∀ id, m.typeId? = some id → id.isInferred = false

/-- The types that the checker finds: those of the program, and its own types of functions. -/
inductive IsTyping : Node → Prop where
  | source {n : Node} (h : n.IsSource) : IsTyping n
  | inferred {dom cod : Node} (t : Tag) {id : TypeId} (hid : id.isInferred = true)
    (hdom : IsTyping dom) (hcod : IsTyping cod) : IsTyping (fnType t id dom cod)

/-- What names may be bound to: nodes of the program, and placeholders of types of the checker. -/
inductive IsBindable : Node → Prop where
  | source {n : Node} (h : n.IsSource) : IsBindable n
  | placeholder {ty : Node} (t : Tag) (h : ty.IsTyping) : IsBindable (selfType t ty)

/-- The type with one name for all types that the checker made. -/
def unnamed : Node → Node
  | fnType t id dom cod => fnType t (if id.isInferred then "fn@" else id) dom.unnamed cod.unnamed
  | selfType t ty => selfType t ty.unnamed
  | n => n

theorem unnamed_relabel (r : Relabeling) : ∀ n : Node, (n.relabel r).unnamed = n.unnamed.relabel r
  | fnType t id dom cod => by
    rw [relabel, unnamed, unnamed_relabel r dom, unnamed_relabel r cod, unnamed, relabel]
  | selfType t ty => by rw [relabel, unnamed, unnamed_relabel r ty, unnamed, relabel]
  | lit .. | list .. | record .. | enum .. | builtin .. | arg .. | assign .. | ident .. | func ..
  | call .. | binOp .. | field .. | matchOn .. | whileDo .. | ifElse .. | block .. | inst ..
  | unknown .. => rfl

/-- Types of the program keep their names. -/
theorem IsSource.unnamed_eq : ∀ {n : Node}, n.IsSource → n.unnamed = n
  | fnType t id dom cod, h => by
    have hdom : dom.IsSource := h.child (by simp [children])
    have hcod : cod.IsSource := h.child (by simp [children])
    rw [unnamed, h.self id rfl, hdom.unnamed_eq, hcod.unnamed_eq]
    rfl
  | selfType t ty, h => by
    have hty : ty.IsSource := h.child List.mem_cons_self
    rw [unnamed, hty.unnamed_eq]
  | lit .., _ | list .., _ | record .., _ | enum .., _ | builtin .., _ | arg .., _ | assign .., _
  | ident .., _ | func .., _ | call .., _ | binOp .., _ | field .., _ | matchOn .., _
  | whileDo .., _ | ifElse .., _ | block .., _ | inst .., _ | unknown .., _ => rfl

end Node

/-! ## Outlines -/

/-- Nodes get the identities of the numbering, and lose their locations. -/
def Numbering.unlocated (ν : Numbering) : Relabeling := ⟨ν.id, fun _ => .builtin⟩

section

variable (ν : Numbering)

def Node.outline (n : Node) : Node := n.relabel ν.unlocated

def Binding.outline (b : Binding) : Binding := { b with value := b.value.unnamed.outline ν }

def Locals.outline (ls : Locals) : Locals where
  bindings := ls.bindings.map (Binding.outline ν)
  size := ls.size
  levels := Binding.levels (ls.bindings.map (Binding.outline ν))
  size_eq := by rw [List.length_map, ls.size_eq]
  levels_eq := rfl

/-- The environment without locations. Only its local bindings may hold types of the checker. -/
def Env.outline (env : Env) : Env :=
  { env.relabel ν.unlocated with locals := env.locals.outline ν }

def Machine.outline (s : Machine) : Machine := ⟨s.env.outline ν, ⟨s.nodes.next + ν.ahead⟩⟩

theorem Locals.find?_outline (ls : Locals) (x : Name) :
    (ls.outline ν).find? x = (ls.find? x).map (Binding.outline ν) := by
  rw [find?_eq, find?_eq, outline, List.find?_map]
  rfl

end

/-- No type of the program has a name like those of the checker. -/
structure Env.IsSource (env : Env) : Prop where
  locals : ∀ b ∈ env.locals.bindings, b.value.IsBindable
  store : ∀ entry ∈ env.store.entries, entry.2.IsSource

/-- The machines are the same but for locations: the identities that are in use or still to be made get
common ones under the two numberings, and then they have one outline. -/
structure Machine.Corresponds (ν ν' : Numbering) (s s' : Machine) : Prop where
  since_left : ν.since ≤ s.nodes.next
  since_right : ν'.since ≤ s'.nodes.next
  source_left : s.env.IsSource
  source_right : s'.env.IsSource
  outline_eq : s.outline ν = s'.outline ν'

/-- The nodes are the same but for locations. -/
structure Node.Corresponds (ν ν' : Numbering) (n n' : Node) : Prop where
  source_left : n.IsSource
  source_right : n'.IsSource
  outline_eq : n.outline ν = n'.outline ν'

/-! ## Programs run like their outlines -/

/-- Locations are lost, and the types that the checker makes may have any of its names. -/
def Placement.none : Placement where
  span _ := .builtin
  typeId id := id.isInferred = false
  inferred id id' := id.isInferred = true ∧ id'.isInferred = true
  span_builtin := rfl
  typeId_builtin b := by cases b <;> decide
  inferred_span span := ⟨isInferred_functionTypeId span, isInferred_functionTypeId .builtin⟩
  inferred_iff := by
    rintro i i' j ⟨hi, hi'⟩ hj
    constructor
    · rintro rfl
      cases hi.symm.trans hj
    · rintro rfl
      cases hi'.symm.trans hj

def Likeness.unlocated (ν : Numbering) : Likeness := .sameNames ν .none

section

variable {ν : Numbering}

theorem Likeness.plain_unlocated : (unlocated ν).Plain := plain_within

theorem Node.IsSource.alike_outline {n : Node} (h : n.IsSource) :
    n.Alike (.unlocated ν) (n.outline ν) :=
  Typed.alike_relabel Likeness.plain_unlocated h fun _ _ => trivial

theorem Node.IsTyping.alike_outline {ty : Node} (h : ty.IsTyping) :
    ty.TypeAlike (.unlocated ν) (ty.unnamed.outline ν) := by
  induction h with
  | source h =>
    rw [h.unnamed_eq]
    exact .source h.alike_outline
  | inferred t hid _ _ ihdom ihcod =>
    rw [unnamed, if_pos hid]
    exact .inferred t ⟨hid, by decide⟩ ihdom ihcod

theorem Node.IsBindable.held_outline {n : Node} (h : n.IsBindable) :
    n.Held (.unlocated ν) (n.unnamed.outline ν) := by
  cases h with
  | source h =>
    rw [h.unnamed_eq]
    exact .value h.alike_outline
  | placeholder t h => exact .placeholder t h.alike_outline

theorem Env.IsSource.alike_outline {env : Env} (h : env.IsSource) :
    env.Alike (.unlocated ν) (env.outline ν) := by
  refine Env.alike_relabel (ℓ := .unlocated ν) Likeness.plain_unlocated ?_
    fun entry hentry => ⟨h.store entry hentry, fun _ _ => trivial⟩
  intro x
  rw [Locals.find?_outline]
  cases hfind : env.locals.find? x with
  | none => exact .none
  | some b =>
    rw [Locals.find?_eq] at hfind
    have hb := h.locals b (List.mem_of_find?_eq_some hfind)
    exact .some ⟨hb.held_outline, rfl, rfl, fun _ _ => trivial⟩

/-- A type and that of the outline differ in names of the checker. -/
theorem Node.TypeAlike.unnamed_outline {ty ty' : Node} (h : ty.TypeAlike (.unlocated ν) ty') :
    ty.unnamed.outline ν = ty'.unnamed := by
  induction h with
  | source h =>
    -- no matter what its name is, a type of the program has it in the outline as well
    rw [h.eq_relabel Likeness.plain_unlocated, unnamed_relabel]
    rfl
  | inferred t hid _ _ ihdom ihcod =>
    rw [unnamed, unnamed, if_pos hid.1, if_pos hid.2, ← ihdom, ← ihcod]
    rfl

end

/-! ## Two programs with one outline -/

/-- Faults that say the same: errors have the same message and the same labels. -/
inductive Fault.Same : Fault → Fault → Prop where
  | void : Same .void .void
  | error {e e' : TypeError} (hmessage : ∀ layout, e.message layout = e'.message layout)
    (hlabels : e.labels.map (·.text) = e'.labels.map (·.text)) : Same (.error e) (.error e')
  | contradiction {func func' ty ty' : Node}
    (htext : ∀ layout, contradictionText layout func ty = contradictionText layout func' ty') :
    Same (.contradiction func ty) (.contradiction func' ty')
  | exhausted : Same .exhausted .exhausted

section

variable {ν ν' : Numbering}

theorem Fault.Alike.same {f f' g : Fault} (h : f.Alike (.unlocated ν) g)
    (h' : f'.Alike (.unlocated ν') g) : f.Same f' := by
  have hplain := Likeness.plain_unlocated (ν := ν)
  have hplain' := Likeness.plain_unlocated (ν := ν')
  cases h with
  | void =>
    cases h' with
    | void => exact .void
  | exhausted =>
    cases h' with
    | exhausted => exact .exhausted
  | error h =>
    cases h' with
    | error h' =>
      refine .error (fun layout => ?_) ?_
      · rw [← h.message_eq hplain, h'.message_eq hplain']
      · rw [← h.labels_eq, h'.labels_eq]
  | contradiction hfunc hty =>
    cases h' with
    | contradiction hfunc' hty' =>
      refine .contradiction fun layout => ?_
      rw [contradictionText, ← hfunc.inline_eq hplain, ← hty.inline_eq hplain,
        hfunc'.inline_eq hplain', hty'.inline_eq hplain', contradictionText]

/-- Two passes that go like a third from its outline end in the same way. -/
theorem Parallel.meet {R R' : Node → Node → Prop} {m m' o : Pass Node}
    (h : Parallel (.unlocated ν) R m o) (h' : Parallel (.unlocated ν') R' m' o) {s s' : Machine}
    (hs : s.Corresponds ν ν' s') :
    Outcomes Fault.Same (fun a a' => ∃ b, R a b ∧ R' a' b) (m.runOn s).1 (m'.runOn s').1 := by
  -- the two machines have one outline, so one run from there is like both
  have henv' := hs.source_right.alike_outline (ν := ν')
  have houtline : (s'.outline ν').env = (s.outline ν).env := congrArg Machine.env hs.outline_eq.symm
  have hnodes : (s'.outline ν').nodes = (s.outline ν).nodes :=
    congrArg Machine.nodes hs.outline_eq.symm
  obtain ⟨hends, -⟩ := h s (s.outline ν) hs.source_left.alike_outline ⟨hs.since_left, rfl⟩
  obtain ⟨hends', -⟩ := h' s' (s.outline ν) (houtline ▸ henv') (hnodes ▸ ⟨hs.since_right, rfl⟩)
  generalize (m.runOn s).1 = r, (m'.runOn s').1 = r', (o.runOn (s.outline ν)).1 = e at hends hends'
  cases hends with
  | ok ha =>
    cases hends' with
    | ok ha' => exact .ok ⟨_, ha, ha'⟩
  | error hf =>
    cases hends' with
    | error hf' => exact .error (hf.same hf')

end

/-- Locations make no difference. On machines that are the same but for locations, nodes that are the
same but for locations evaluate to such nodes again, or both fail in the same words. Their types are the
same but for locations and for the names of the types that the checker made, or again both fail in the
same words. -/
theorem results_ignore_locations {ν ν' : Numbering} {s s' : Machine} {n n' : Node}
    (hs : s.Corresponds ν ν' s') (hn : n.Corresponds ν ν' n') (depth : Nat) :
    Outcomes Fault.Same (fun a a' => a.outline ν = a'.outline ν')
        ((eval depth n).runOn s).1 ((eval depth n').runOn s').1 ∧
      Outcomes Fault.Same (fun ty ty' => ty.unnamed.outline ν = ty'.unnamed.outline ν')
        ((check depth n).runOn s).1 ((check depth n').runOn s').1 := by
  have hleft := hn.source_left.alike_outline (ν := ν)
  have hright := hn.source_right.alike_outline (ν := ν')
  rw [← hn.outline_eq] at hright
  constructor
  · have hleft := (keeps_eval _ depth).node hleft
    have hright := (keeps_eval _ depth).node hright
    refine (hleft.meet hright hs).mono ?_
    rintro a a' ⟨b, hb, hb'⟩
    exact (hb.eq_relabel Likeness.plain_unlocated).symm.trans (hb'.eq_relabel Likeness.plain_unlocated)
  · have hleft := (keeps_check _ depth).node hleft
    have hright := (keeps_check _ depth).node hright
    refine (hleft.meet hright hs).mono ?_
    rintro ty ty' ⟨u, hu, hu'⟩
    exact hu.unnamed_outline.trans hu'.unnamed_outline.symm

/-- All identities are ahead by `k`. -/
def Numbering.shift (k : Nat) : Numbering where
  id i := i + k
  since := 0
  ahead := k
  injective _ _ h := Nat.add_right_cancel h
  made _ _ := rfl

/-- `@x(Number) x + 1` at a location, with identities from `i` on -/
def incrementAt (i : NodeId) (span : Span) : Node :=
  .func ⟨i, span⟩ ⟨span, "x", .ident ⟨i + 1, span⟩ "Number"⟩
    [.binOp ⟨i + 2, span⟩ .add (.ident ⟨i + 3, span⟩ "x") (.lit ⟨i + 4, span⟩ (.number 1))]

def incrementMachine (i : NodeId) (span : Span) : Machine :=
  ⟨.start ⟨[("increment", incrementAt i span)]⟩ .empty default, ⟨i + 6⟩⟩

theorem isSource_incrementAt (i : NodeId) (span : Span) : (incrementAt i span).IsSource := by
  refine all_of_partsWithin 3 rfl ?_
  simp [incrementAt, partsWithin, children, typeId?]

theorem isSource_incrementMachine (i : NodeId) (span : Span) :
    (incrementMachine i span).env.IsSource where
  locals := List.forall_mem_nil _
  store := List.forall_mem_singleton.2 (isSource_incrementAt i span)

/-- The type of `increment` is named after its location, and is the same otherwise. -/
theorem results_ignore_locations_increment :
    ∃ ty ty' : Node,
      ((check 5 (.ident ⟨5, .bare 30 39⟩ "increment")).runOn (incrementMachine 0 (.bare 3 17))).1 =
        .ok ty ∧
      ((check 5 (.ident ⟨15, .bare 80 89⟩ "increment")).runOn (incrementMachine 10 (.bare 40 54))).1 =
        .ok ty' ∧
      ty.typeId? = some "fn@3-17" ∧ ty'.typeId? = some "fn@40-54" ∧
      ty.unnamed.outline (.shift 10) = ty'.unnamed.outline (.shift 0) := by
  have hident (t : Tag) (x : Name) : (Node.ident t x).IsSource :=
    all_of_partsWithin 1 rfl (by simp [partsWithin, children, typeId?])
  have hs : (incrementMachine 0 (.bare 3 17)).Corresponds (.shift 10) (.shift 0)
      (incrementMachine 10 (.bare 40 54)) :=
    ⟨Nat.zero_le _, Nat.zero_le _, isSource_incrementMachine _ _, isSource_incrementMachine _ _, rfl⟩
  have hn : (Node.ident ⟨5, .bare 30 39⟩ "increment").Corresponds (.shift 10) (.shift 0)
      (.ident ⟨15, .bare 80 89⟩ "increment") := ⟨hident _ _, hident _ _, rfl⟩
  have hname : (((check 5 (.ident ⟨5, .bare 30 39⟩ "increment")).runOn
      (incrementMachine 0 (.bare 3 17))).1.toOption.bind typeId?) = some "fn@3-17" := by
    decide +kernel
  have hname' : (((check 5 (.ident ⟨15, .bare 80 89⟩ "increment")).runOn
      (incrementMachine 10 (.bare 40 54))).1.toOption.bind typeId?) = some "fn@40-54" := by
    decide +kernel
  obtain ⟨-, hends⟩ := results_ignore_locations hs hn 5
  generalize ((check 5 (.ident ⟨5, .bare 30 39⟩ "increment")).runOn
    (incrementMachine 0 (.bare 3 17))).1 = r, ((check 5 (.ident ⟨15, .bare 80 89⟩ "increment")).runOn
      (incrementMachine 10 (.bare 40 54))).1 = r' at *
  cases hends with
  | ok h => exact ⟨_, _, rfl, rfl, hname, hname', h⟩
  | error => cases hname

-- a record that has such a name is compatible with functions at one location, and with no others
example :
    let record := Node.record ⟨0, .builtin⟩ "fn@3-17" [] none
    let number := Node.builtin ⟨1, .builtin⟩ .number
    let function (span : Span) := Node.fnType ⟨2, .builtin⟩ (Check.functionTypeId span) number number
    compatible record (function (.bare 3 17)) = true ∧
      compatible record (function (.bare 40 54)) = false := by decide +kernel

end Residual
