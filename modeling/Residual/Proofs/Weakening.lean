/-
Definitions that nobody mentions. Registering a name, with any value, makes no difference to a node if the
name occurs neither in the node nor in what its names may stand for: evaluating it and checking it go the
same way as before, also if they have no end. A pass looks up names that it made up itself as well, when
it renames a binder; these have a `#` in them, so a name without one is never among them.
-/
import Residual.Proofs.Agreement

namespace Residual

/-! ## One more definition -/

namespace Definitions

theorem find?_replace (defs : Definitions) (d : DefId) (value : Node) (x : Name) :
    (defs.replace d value).find? x = defs.find? x := by
  have hnames : (defs.replace d value).entries.map Prod.fst = defs.entries.map Prod.fst := by
    refine List.ext_getElem? fun i => ?_
    rw [replace, List.getElem?_map, List.getElem?_map, List.getElem?_modify]
    cases defs.entries[i]? with
    | none => rfl
    | some entry =>
      by_cases hi : d = i
      · simp [hi]
      · simp [hi]
  have hfind (entries : List (Name × Node)) :
      entries.findIdx? (·.1 == x) = (entries.map Prod.fst).findIdx? (· == x) := by
    rw [List.findIdx?_map]
    rfl
  rw [find?, find?, hfind, hnames, hfind]

theorem find?_register {defs : Definitions} {x z : Name} (hx : x ≠ z) (value : Node) :
    (defs.register z value).2.find? x = defs.find? x := by
  unfold register
  split
  · exact find?_replace defs _ value x
  · have hz : (z == x) = false := beq_false_of_ne hx.symm
    simp [find?, List.findIdx?_append, hz]

theorem get?_register {defs : Definitions} {x z : Name} (hx : x ≠ z) (value : Node) {d : DefId}
    (hd : defs.find? x = some d) : (defs.register z value).2.get? d = defs.get? d := by
  obtain ⟨hlt, hname, -⟩ := List.findIdx?_eq_some_iff_getElem.1 hd
  unfold register
  split
  · rename_i d' hd'
    -- the two names are at different places
    have hne : d' ≠ d := by
      rintro rfl
      obtain ⟨_, hname', -⟩ := List.findIdx?_eq_some_iff_getElem.1 hd'
      exact hx ((eq_of_beq hname).symm.trans (eq_of_beq hname'))
    simp [get?, replace, hne]
  · rw [get?, get?, List.getElem?_append_left hlt]

/-- Registering a name leaves the definitions of all others as they are. -/
theorem lookup_register {defs : Definitions} {x z : Name} (hx : x ≠ z) (value : Node) :
    (defs.register z value).2.lookup x = defs.lookup x := by
  rw [lookup, lookup, find?_register hx]
  cases hd : defs.find? x with
  | none => rfl
  | some d =>
    rw [Option.bind_eq_bind, Option.bind_some, Option.bind_eq_bind, Option.bind_some,
      get?_register hx value hd]

end Definitions

/-- The machine once a name is registered. -/
def Machine.define (s : Machine) (name : Name) (value : Node) : Machine :=
  { s with env := { s.env with store := (s.env.store.register name value).2 } }

/-! ## Names that nobody mentions -/

/-- Neither the values of the definitions nor those of the locals mention the name, and no local bears it
in residual nodes. -/
structure Env.Lacks (env : Env) (name : Name) : Prop where
  store : ∀ entry ∈ env.store.entries, name ∉ entry.2.names
  locals : ∀ b ∈ env.locals.bindings, name ∉ b.value.names ∧ b.rename ≠ some name

theorem Node.within_ne {n : Node} {z : Name} (h : z ∉ n.names) : n.Within (· ≠ z) := by
  rintro x hx rfl
  exact h hx

/-- Names that binders get have a `#`. -/
theorem Name.isClosed_ne {z : Name} (hz : '#' ∉ z.toList) : Name.IsClosed (· ≠ z) := by
  rintro x k - rfl
  exact hz (Env.mem_suffixed x k)

/-- The environments before and after agree on all other names. -/
theorem Env.Lacks.agree {s : Machine} {z : Name} (h : s.env.Lacks z) (value : Node) :
    s.env.Agree (· ≠ z) (s.define z value).env where
  bound _ _ := rfl
  bound_within x b hx hfind := by
    rw [Locals.find?_eq] at hfind
    obtain ⟨hvalue, hrename⟩ := h.locals b (List.mem_of_find?_eq_some hfind)
    refine ⟨Node.within_ne hvalue, ?_⟩
    rintro y hy rfl
    exact hrename hy
  defined x hx := (Definitions.lookup_register hx value).symm
  defined_within x d v _ hlookup :=
    Node.within_ne (h.store _ (Definitions.mem_entries_of_lookup hlookup))
  calls := rfl
  resolve := rfl
  transparent := rfl
  links := rfl

/-- A pass to which nothing differs without the name leaves the same machine, but for the definition. -/
theorem Agrees.runOn_define {α : Type} {m : Pass α} {s : Machine} {z : Name} {value : Node}
    (h : Agrees (· ≠ z) m m) (hm : Pass.Restores m) (hs : s.env.Lacks z) :
    m.runOn (s.define z value) = Prod.map id (·.define z value) (m.runOn s) := by
  obtain ⟨hends, -, hnodes⟩ := h s (s.define z value) (hs.agree value) rfl
  have henv := (hm s).1
  have henv' := (hm (s.define z value)).1
  rcases hrun : m.runOn s with ⟨r, env, nodes⟩
  rcases hrun' : m.runOn (s.define z value) with ⟨r', env', nodes'⟩
  rw [hrun, hrun'] at hends hnodes
  rw [hrun] at henv
  rw [hrun'] at henv'
  obtain rfl : r = r' := hends.eq
  obtain rfl : nodes = nodes' := hnodes
  obtain rfl : env = s.env := henv
  obtain rfl : env' = (s.define z value).env := henv'
  rfl

/-- Adding an unrelated definition changes nothing. Let the name have no `#`, and let it occur neither in
the node nor in the values of definitions and locals. With the name registered, evaluating and checking
the node end as they did before at every depth, with the very same node or fault. -/
theorem results_ignore_definition {s : Machine} {n : Node} {z : Name} (hz : '#' ∉ z.toList)
    (hs : s.env.Lacks z) (hn : z ∉ n.names) (value : Node) (depth : Nat) :
    (eval depth n).runOn (s.define z value) =
        Prod.map id (·.define z value) ((eval depth n).runOn s) ∧
      (check depth n).runOn (s.define z value) =
        Prod.map id (·.define z value) ((check depth n).runOn s) := by
  have hclosed := Name.isClosed_ne hz
  have hwithin := Node.within_ne hn
  exact ⟨(agrees_eval hclosed depth hwithin).runOn_define (restores_eval depth n) hs,
    (agrees_check hclosed depth hwithin).runOn_define (restores_check depth n) hs⟩

/-- A machine with the definition `twice = @x(Number) x + x`. -/
def twiceMachine : Machine where
  env := .start ⟨[("twice", .func ⟨0, .builtin⟩ ⟨.builtin, "x", .ident ⟨1, .builtin⟩ "Number"⟩
    [.binOp ⟨2, .builtin⟩ .add (.ident ⟨3, .builtin⟩ "x") (.ident ⟨4, .builtin⟩ "x")])]⟩ .empty default
  nodes := ⟨10⟩

/-- `@twice(Number) twice`, a function whose parameter has to be renamed -/
def twiceFunction : Node :=
  .func ⟨5, .builtin⟩ ⟨.builtin, "twice", .ident ⟨6, .builtin⟩ "Number"⟩ [.ident ⟨7, .builtin⟩ "twice"]

def ten : Node := .lit ⟨8, .builtin⟩ (.number 10)

/-- With and without `limit = 10` the parameter is renamed in the same way. -/
theorem results_ignore_definition_limit : ∃ v t,
    (eval 4 twiceFunction).runOn twiceMachine = (.ok v, t) ∧
    (eval 4 twiceFunction).runOn (twiceMachine.define "limit" ten) = (.ok v, t.define "limit" ten) := by
  have hok : ((eval 4 twiceFunction).runOn twiceMachine).1.isOk = true := by decide +kernel
  obtain ⟨v, t, hrun⟩ := Pass.runOn_of_isOk hok
  have hs : twiceMachine.env.Lacks "limit" :=
    ⟨List.forall_mem_singleton.2 (by decide), List.forall_mem_nil _⟩
  have heval := (results_ignore_definition (by decide) hs (n := twiceFunction) (by decide) ten 4).1
  rw [hrun] at heval
  exact ⟨v, t, hrun, heval⟩

-- a definition of `twice#0` is in the way, and the parameter gets the next name
example :
    ((eval 4 twiceFunction).runOn twiceMachine).1.toOption.map Node.names =
      some ["twice#0", "twice#0"] ∧
    ((eval 4 twiceFunction).runOn (twiceMachine.define "twice#0" ten)).1.toOption.map Node.names =
      some ["twice#1", "twice#1"] := by decide +kernel

end Residual
