/-
The age of nodes. A node is older than a counter if all its identities are below it: it stays the same
under every relabeling that keeps these. The nodes of a program and of its environment are older than
the counter with which a pass over them starts; evaluation keeps this up, so that identities which it
makes later are never those of a node that it has.

Two evaluations of an old node in the same environment end with the same result up to identities,
whatever their counters and depths are.

What a pass does may hang on how far the counter is. A pass `Tracks` a property if, from an environment
and from a counter on, its results have it with the counter and the environment that are left; it
`Settles` if it leaves the environment as it was.
-/
import Residual.Proofs.Equivariance
import Residual.Proofs.Logic

namespace Residual

/-- A relabeling that keeps the identities below `c`, and all locations. -/
structure Relabeling.Keeps (c : Nat) (r : Relabeling) : Prop where
  injective : Function.Injective r.id
  id_eq : ∀ i < c, r.id i = i
  span_eq : ∀ span, r.span span = span

theorem Relabeling.Keeps.mono {r : Relabeling} {c c' : Nat} (h : r.Keeps c') (hle : c ≤ c') :
    r.Keeps c :=
  { h with id_eq := fun i hi => h.id_eq i (Nat.lt_of_lt_of_le hi hle) }

/-- Identities from `c` on are shifted by `k`. -/
def Relabeling.shift (c k : Nat) : Relabeling := ⟨fun i => if i < c then i else i + k, fun span => span⟩

theorem Relabeling.keeps_shift (c k : Nat) : (shift c k).Keeps c where
  injective := by
    intro (i : Nat) (j : Nat) h
    have h : (if i < c then i else i + k) = if j < c then j else j + k := h
    show i = j
    split at h <;> split at h <;> omega
  id_eq i hi := if_pos hi
  span_eq _ := rfl

/-- The identity is below `c`. -/
def Tag.Older (c : Nat) (t : Tag) : Prop := ∀ ⦃r : Relabeling⦄, r.Keeps c → t.relabel r = t

/-- All identities in the node are below `c`. -/
def Node.Older (c : Nat) (n : Node) : Prop := ∀ ⦃r : Relabeling⦄, r.Keeps c → n.relabel r = n

/-- All identities in the nodes of the environment are below `c`. -/
def Env.Older (c : Nat) (env : Env) : Prop := ∀ ⦃r : Relabeling⦄, r.Keeps c → env.relabel r = env

variable {c c' : Nat}

theorem Tag.older_of_lt {t : Tag} (h : t.id < c) : t.Older c := by
  intro r hr
  rw [relabel, hr.id_eq _ h, hr.span_eq]

namespace Node

theorem Older.mono {n : Node} (h : n.Older c) (hle : c ≤ c') : n.Older c' :=
  fun _ hr => h (hr.mono hle)

/-! ## Parts -/

section

variable {t : Tag}

theorem older_of_map {ns : List Node}
    (h : ∀ ⦃r : Relabeling⦄, r.Keeps c → relabelList r ns = ns) : ∀ n ∈ ns, n.Older c := by
  intro n hn r hr
  have hmap := h hr
  rw [relabelList_eq] at hmap
  exact List.map_inj_left.1 (hmap.trans (List.map_id ns).symm) n hn

theorem older_of_mapDecls {ds : List (Decl Node)}
    (h : ∀ ⦃r : Relabeling⦄, r.Keeps c → relabelDecls r ds = ds) : ∀ d ∈ ds, d.ty.Older c := by
  intro d hd r hr
  have hmap := h hr
  rw [relabelDecls_eq] at hmap
  have heq := List.map_inj_left.1 (hmap.trans (List.map_id ds).symm) d hd
  rw [relabelDecl_eq] at heq
  exact congrArg Decl.ty heq

theorem older_of_mapCases {cs : List (Case Node)}
    (h : ∀ ⦃r : Relabeling⦄, r.Keeps c → relabelCases r cs = cs) :
    ∀ e ∈ cs, e.pattern.Older c ∧ ∀ n ∈ e.body, n.Older c := by
  intro e he
  have heq {r : Relabeling} (hr : r.Keeps c) : relabelCase r e = e := by
    have hmap := h hr
    rw [relabelCases_eq] at hmap
    exact List.map_inj_left.1 (hmap.trans (List.map_id cs).symm) e he
  constructor
  · intro r hr
    have hcase := heq hr
    rw [relabelCase_eq] at hcase
    exact congrArg Case.pattern hcase
  · refine older_of_map fun r hr => ?_
    have hcase := heq hr
    rw [relabelCase_eq] at hcase
    rw [relabelList_eq]
    exact congrArg Case.body hcase

theorem older_list {items : List Node} (h : (list t items).Older c) : ∀ n ∈ items, n.Older c :=
  older_of_map fun _ hr => (list.inj (h hr)).2

theorem older_block {items : List Node} (h : (block t items).Older c) : ∀ n ∈ items, n.Older c :=
  older_of_map fun _ hr => (block.inj (h hr)).2

theorem older_record {id : TypeId} {fields : List (Decl Node)} {range : Option Range}
    (h : (record t id fields range).Older c) : ∀ d ∈ fields, d.ty.Older c :=
  older_of_mapDecls fun _ hr => (record.inj (h hr)).2.2.1

theorem older_fnType {id : TypeId} {dom cod : Node} (h : (fnType t id dom cod).Older c) :
    dom.Older c ∧ cod.Older c :=
  ⟨fun _ hr => (fnType.inj (h hr)).2.2.1, fun _ hr => (fnType.inj (h hr)).2.2.2⟩

theorem older_selfType {ty : Node} (h : (selfType t ty).Older c) : ty.Older c :=
  fun _ hr => (selfType.inj (h hr)).2

theorem older_arg {x : Name} {ty : Node} (h : (arg t x ty).Older c) : ty.Older c :=
  fun _ hr => (arg.inj (h hr)).2.2

theorem older_field {x : Name} {ty : Node} (h : (field t x ty).Older c) : ty.Older c :=
  fun _ hr => (field.inj (h hr)).2.2

theorem older_assign {target value : Node} {transparent : Bool} {link : Option DefId}
    (h : (assign t target value transparent link).Older c) : value.Older c :=
  fun _ hr => (assign.inj (h hr)).2.2.1

theorem older_func {param : Decl Node} {body : List Node} (h : (func t param body).Older c) :
    param.ty.Older c ∧ ∀ n ∈ body, n.Older c := by
  constructor
  · intro r hr
    have hparam := (func.inj (h hr)).2.1
    rw [relabelDecl_eq] at hparam
    exact congrArg Decl.ty hparam
  · exact older_of_map fun _ hr => (func.inj (h hr)).2.2

theorem older_call {f a : Node} (h : (call t f a).Older c) : f.Older c ∧ a.Older c :=
  ⟨fun _ hr => (call.inj (h hr)).2.1, fun _ hr => (call.inj (h hr)).2.2⟩

theorem older_binOp {op : Operator} {lhs rhs : Node} (h : (binOp t op lhs rhs).Older c) :
    lhs.Older c ∧ rhs.Older c :=
  ⟨fun _ hr => (binOp.inj (h hr)).2.2.1, fun _ hr => (binOp.inj (h hr)).2.2.2⟩

theorem older_matchOn {scrutinee : Node} {cases : List (Case Node)}
    (h : (matchOn t scrutinee cases).Older c) :
    scrutinee.Older c ∧ ∀ e ∈ cases, e.pattern.Older c ∧ ∀ n ∈ e.body, n.Older c :=
  ⟨fun _ hr => (matchOn.inj (h hr)).2.1, older_of_mapCases fun _ hr => (matchOn.inj (h hr)).2.2⟩

theorem older_whileDo {condition : Node} {body : List Node}
    (h : (whileDo t condition body).Older c) : condition.Older c ∧ ∀ n ∈ body, n.Older c :=
  ⟨fun _ hr => (whileDo.inj (h hr)).2.1, older_of_map fun _ hr => (whileDo.inj (h hr)).2.2⟩

theorem older_ifElse {condition : Node} {thenBody elseBody : List Node}
    (h : (ifElse t condition thenBody elseBody).Older c) :
    condition.Older c ∧ (∀ n ∈ thenBody, n.Older c) ∧ ∀ n ∈ elseBody, n.Older c :=
  ⟨fun _ hr => (ifElse.inj (h hr)).2.1, older_of_map fun _ hr => (ifElse.inj (h hr)).2.2.1,
    older_of_map fun _ hr => (ifElse.inj (h hr)).2.2.2⟩

theorem older_inst {template : Node} {body : List Node} (h : (inst t template body).Older c) :
    template.Older c ∧ ∀ n ∈ body, n.Older c :=
  ⟨fun _ hr => (inst.inj (h hr)).2.1, older_of_map fun _ hr => (inst.inj (h hr)).2.2⟩

theorem older_builtin (h : t.Older c) (b : Builtin) : (builtin t b).Older c :=
  fun _ hr => by rw [relabel, h hr]

theorem older_selfType_of {ty : Node} (h : t.Older c) (hty : ty.Older c) : (selfType t ty).Older c :=
  fun _ hr => by rw [relabel, h hr, hty hr]

theorem older_fnType_of {dom cod : Node} (h : t.Older c) (id : TypeId) (hdom : dom.Older c)
    (hcod : cod.Older c) : (fnType t id dom cod).Older c :=
  fun _ hr => by rw [relabel, h hr, hdom hr, hcod hr]

end

end Node

/-! ## Environments -/

namespace Env

variable {env : Env}

theorem Older.mono (h : env.Older c) (hle : c ≤ c') : env.Older c' := fun _ hr => h (hr.mono hle)

theorem Older.push (h : env.Older c) {b : Binding} (hb : b.value.Older c) : (env.push b).Older c := by
  intro r hr
  rw [relabel_push, h hr, Binding.relabel, hb hr]

theorem Older.enterCall (h : env.Older c) {n : Node} (hn : n.Older c) : (env.enterCall n).Older c := by
  intro r hr
  rw [relabel_enterCall, h hr, hn hr]

theorem Older.resolve (h : env.Older c) (b : Bool) : { env with resolve := b }.Older c := by
  intro r hr
  show { env.relabel r with resolve := b } = _
  rw [h hr]

theorem Older.globals (h : env.Older c) : { env with locals := .empty }.Older c := by
  intro r hr
  have hlocals : Locals.empty.relabel r = .empty := Locals.eq_of_bindings_eq rfl
  show { env.relabel r with locals := Locals.empty.relabel r } = _
  rw [h hr, hlocals]

theorem Older.lookup_relabel (h : env.Older c) {r : Relabeling} (hr : r.Keeps c) {x : Name}
    {found : Found} (hx : env.lookup x = some found) : found.relabel r = found := by
  have hlookup := env.lookup_relabel r x
  rw [h hr, hx] at hlookup
  exact (Option.some.inj hlookup).symm

theorem Older.bound (h : env.Older c) {x : Name} {b : Binding}
    (hx : env.lookup x = some (.bound b)) : b.value.Older c :=
  fun _ hr => congrArg Binding.value (Found.bound.inj (h.lookup_relabel hr hx))

theorem Older.defined (h : env.Older c) {x : Name} {d : DefId} {v : Node}
    (hx : env.lookup x = some (.defined d v)) : v.Older c :=
  fun _ hr => (Found.defined.inj (h.lookup_relabel hr hx)).2

end Env

/-! ## Evaluation -/

theorem Machine.relabel_shift {s s' : Machine} (h : s.env.Older s.nodes.next)
    (henv : s'.env = s.env) (hle : s.nodes.next ≤ s'.nodes.next) :
    s.relabel (.shift s.nodes.next (s'.nodes.next - s.nodes.next))
      (s'.nodes.next - s.nodes.next) = s' := by
  obtain ⟨env', ⟨next'⟩⟩ := s'
  simp only [relabel, h (Relabeling.keeps_shift _ _), Machine.mk.injEq, Counter.mk.injEq] at *
  exact ⟨henv.symm, by omega⟩

/-- The result of an evaluation is older than the counter that it leaves. -/
theorem eval_older {depth : Nat} {n v : Node} {s t : Machine} (henv : s.env.Older s.nodes.next)
    (hn : n.Older s.nodes.next) (hrun : (eval depth n).runOn s = (.ok v, t)) :
    v.Older t.nodes.next := by
  intro r hr
  obtain ⟨hle, hcarry⟩ := (carries_eval hr.injective (hr.span_eq _) 0 depth n).ok hrun
  have hkept := hr.mono hle
  have hrun' := hcarry fun i _ hlt => hr.id_eq i hlt
  have hs : s.relabel r 0 = s := by rw [Machine.relabel, henv hkept]; rfl
  rw [hn hkept, hs, hrun] at hrun'
  exact (Except.ok.inj (congrArg Prod.fst hrun')).symm

section

variable {p : Node → Bool} {n v v' : Node} {s s' t t' : Machine} {depth depth' : Nat}

/-- An evaluation that starts with a counter that is ahead gives the same result, but for the identities
that are made on the way. -/
theorem eval_relabel_ahead (henv : s.env.Older s.nodes.next) (hn : n.Older s.nodes.next)
    (heq : s'.env = s.env) (hle : s.nodes.next ≤ s'.nodes.next)
    (hrun : (eval depth n).runOn s = (.ok v, t)) (hrun' : (eval depth n).runOn s' = (.ok v', t')) :
    v' = v.relabel (.shift s.nodes.next (s'.nodes.next - s.nodes.next)) := by
  have hkeeps := Relabeling.keeps_shift s.nodes.next (s'.nodes.next - s.nodes.next)
  obtain ⟨-, hcarry⟩ :=
    (carries_eval hkeeps.injective rfl (s'.nodes.next - s.nodes.next) depth n).ok hrun
  have hshifted := hcarry fun i hi _ => if_neg (Nat.not_lt.2 hi)
  rw [hn hkeeps, Machine.relabel_shift henv heq hle, hrun'] at hshifted
  exact Except.ok.inj (congrArg Prod.fst hshifted)

/-- Two evaluations of a node in the same environment give the same result up to identities. -/
theorem eval_agrees (hp : ∀ r n, p (n.relabel r) = p n) (henv : s.env.Older c) (hn : n.Older c)
    (heq : s'.env = s.env) (hs : c ≤ s.nodes.next) (hs' : c ≤ s'.nodes.next)
    (hrun : (eval depth n).runOn s = (.ok v, t)) (hrun' : (eval depth' n).runOn s' = (.ok v', t')) :
    p v = p v' := by
  -- both run at a depth that is enough for both, and one of the counters is ahead
  have hrun := (approximates_eval (Nat.le_max_left depth depth') n).runOn_ok hrun
  have hrun' := (approximates_eval (Nat.le_max_right depth depth') n).runOn_ok hrun'
  rcases Nat.le_total s.nodes.next s'.nodes.next with hle | hle
  · rw [eval_relabel_ahead (henv.mono hs) (hn.mono hs) heq hle hrun hrun', hp]
  · have henv' : s'.env.Older s'.nodes.next := heq ▸ henv.mono hs'
    rw [eval_relabel_ahead henv' (hn.mono hs') heq.symm hle hrun' hrun, hp]

end

/-! ## Passes -/

namespace Pass

variable {α β : Type} {env : Env} {F F' : Fault → Prop}

/-- From a machine, the pass ends with a fault that satisfies `F`, or with a result that satisfies `P`
together with the counter and the environment that are left. The counter is not set back. -/
def TracksAt (F : Fault → Prop) (s : Machine) (m : Pass α) (P : Nat → α → Env → Prop) : Prop :=
  s.nodes.next ≤ (m.runOn s).2.nodes.next ∧
    Ends F (P (m.runOn s).2.nodes.next) (m.runOn s).1 (m.runOn s).2.env

/-- So from every machine with the environment whose counter has reached `c`. -/
def Tracks (F : Fault → Prop) (env : Env) (c : Nat) (m : Pass α) (P : Nat → α → Env → Prop) :
    Prop :=
  ∀ ⦃s : Machine⦄, s.env = env → c ≤ s.nodes.next → TracksAt F s m P

/-- The pass leaves the environment as it was. -/
def Settles (F : Fault → Prop) (env : Env) (c : Nat) (m : Pass α) (P : Nat → α → Prop) : Prop :=
  Tracks F env c m fun c a e => P c a ∧ e = env

section

variable {m : Pass α} {f : α → Pass β} {P P' : Nat → α → Env → Prop}
  {Q : Nat → β → Env → Prop}

theorem Tracks.mono (h : Tracks F env c m P) (hP : ∀ c a e, P c a e → P' c a e) :
    Tracks F env c m P' := by
  intro s hs hc
  obtain ⟨hle, hends⟩ := h hs hc
  refine ⟨hle, ?_⟩
  cases hr : (m.runOn s).1 with
  | ok a =>
    rw [hr] at hends
    exact hP _ _ _ hends
  | error f =>
    rw [hr] at hends
    exact hends

theorem Tracks.of_le (h : Tracks F env c m P) (hle : c ≤ c') : Tracks F env c' m P :=
  fun _ hs hc => h hs (Nat.le_trans hle hc)

theorem TracksAt.bind {s : Machine} (hm : TracksAt F s m P)
    (hf : ∀ t a, s.nodes.next ≤ t.nodes.next → m.runOn s = (.ok a, t) → P t.nodes.next a t.env →
      TracksAt F t (f a) Q) : TracksAt F s (m >>= f) Q := by
  obtain ⟨hle, hends⟩ := hm
  rw [TracksAt, runOn_bind]
  rcases hrun : m.runOn s with ⟨_ | a, t⟩ <;> rw [hrun] at hle hends
  · exact ⟨hle, hends⟩
  · obtain ⟨hle', hends'⟩ := hf t a hle hrun hends
    exact ⟨Nat.le_trans hle hle', hends'⟩

theorem Tracks.bind (hm : Tracks F env c m P)
    (hf : ∀ c' a e, c ≤ c' → P c' a e → Tracks F e c' (f a) Q) : Tracks F env c (m >>= f) Q := by
  intro s hs hc
  refine TracksAt.bind (hm hs hc) fun t a hle _ hP => ?_
  exact hf _ a _ (Nat.le_trans hc hle) hP rfl (Nat.le_refl _)

theorem tracks_pure {a : α} (h : ∀ c' ≥ c, P c' a env) : Tracks F env c (pure a) P := by
  rintro s rfl hc
  exact ⟨Nat.le_refl _, h s.nodes.next hc⟩

theorem tracks_push {b : Binding} : Tracks F env c (push b) fun _ _ e => e = env.push b := by
  rintro s rfl hc
  exact ⟨Nat.le_refl _, rfl⟩

end

section

variable {m : Pass α} {f : α → Pass β} {P P' : Nat → α → Prop} {Q : Nat → β → Prop}

theorem Settles.mono (h : Settles F env c m P) (hP : ∀ c a, P c a → P' c a) :
    Settles F env c m P' := Tracks.mono h fun c a _ ha => ⟨hP c a ha.1, ha.2⟩

/-- Two things that are known of the result are true of one result. -/
theorem Settles.and (h : Settles F env c m P) (h' : Settles AnyFault env c m P') :
    Settles F env c m fun c a => P c a ∧ P' c a := by
  intro s hs hc
  obtain ⟨hle, hends⟩ := h hs hc
  obtain ⟨-, hends'⟩ := h' hs hc
  refine ⟨hle, ?_⟩
  cases hr : (m.runOn s).1 with
  | ok a =>
    rw [hr] at hends hends'
    exact ⟨⟨hends.1, hends'.1⟩, hends.2⟩
  | error f =>
    rw [hr] at hends
    exact hends

theorem Settles.bind (hm : Settles F env c m P)
    (hf : ∀ c' a, c ≤ c' → P c' a → Settles F env c' (f a) Q) : Settles F env c (m >>= f) Q := by
  refine Tracks.bind hm ?_
  rintro c' a e hle ⟨ha, rfl⟩
  exact hf c' a hle ha

theorem settles_pure {a : α} (h : ∀ c' ≥ c, P c' a) : Settles F env c (pure a) P :=
  fun s hs hc => ⟨Nat.le_refl _, h s.nodes.next hc, hs⟩

theorem settles_throw {f : Fault} (h : F f) : Settles F env c (throw f : Pass α) P :=
  fun _ _ _ => ⟨Nat.le_refl _, h⟩

theorem settles_fail {e : TypeError} (h : F (.error e)) : Settles F env c (fail e : Pass α) P :=
  settles_throw h

theorem settles_env : Settles F env c Pass.env fun _ e => e = env :=
  fun _ hs _ => ⟨Nat.le_refl _, hs, hs⟩

/-- An identity that is made is one that no old node has. -/
theorem settles_newTag (span : Span) :
    Settles F env c (tagAt span) fun c' t => c ≤ t.id ∧ t.id < c' :=
  fun _ hs hc => ⟨Nat.le_succ _, ⟨hc, Nat.lt_succ_self _⟩, hs⟩

theorem settles_tagAt (span : Span) : Settles F env c (tagAt span) fun c t => t.Older c :=
  (settles_newTag span).mono fun _ _ ht => Tag.older_of_lt ht.2

/-- A node is made, with an identity of its own. -/
theorem settles_made {make : Tag → α} (span : Span) (h : ∀ c t, P c (make t)) :
    Settles F env c (do return make (← tagAt span)) P :=
  (settles_tagAt span).bind fun _ t _ _ => settles_pure fun c _ => h c t

theorem Settles.under {g : Guard} (hm : Settles F (g.enter env) c m P) (hg : g.Lawful) :
    Settles F env c (m.under g) P := by
  intro s hs hc
  obtain ⟨hle, hends⟩ := hm (s := ⟨g.enter s.env, s.nodes⟩) (congrArg g.enter hs) hc
  refine ⟨hle, ?_⟩
  rw [runOn_under]
  rcases hrun : m.runOn ⟨g.enter s.env, s.nodes⟩ with ⟨_ | a, t⟩ <;> rw [hrun] at hends
  · exact hends
  · obtain ⟨ha, he⟩ := hends
    refine ⟨ha, ?_⟩
    show g.leave s.env t.env = env
    rw [he, hs]
    exact hg env

/-- A scope is closed over whatever has been opened in it. -/
theorem Tracks.scope (hm : Tracks F env c m fun c a _ => P c a) (h : Restores (m.under .scope)) :
    Settles F env c (m.under .scope) P := by
  intro s hs hc
  obtain ⟨hle, hends⟩ := hm (s := ⟨Guard.scope.enter s.env, s.nodes⟩) hs hc
  have henv := (h s).1
  refine ⟨(h s).2, ?_⟩
  rw [runOn_under] at henv ⊢
  rcases hrun : m.runOn ⟨Guard.scope.enter s.env, s.nodes⟩ with ⟨_ | a, t⟩ <;>
    rw [hrun] at hends henv
  · exact hends
  · exact ⟨hends, henv.trans hs⟩

/-- Ordinary faults are handed on. -/
theorem Settles.attempt (hm : Settles F env c m P) (h : Restores m) :
    Settles F env c m.attempt fun c r => (∀ a, r = .ok a → P c a) ∧ ∀ f, r = .error f → F f := by
  intro s hs hc
  obtain ⟨hle, hends⟩ := hm hs hc
  have henv := (h s).1.trans hs
  rw [TracksAt, runOn_attempt]
  rcases hrun : m.runOn s with ⟨f | a, t⟩ <;> rw [hrun] at hle hends henv
  · refine ⟨hle, ?_⟩
    by_cases hf : f.isOrdinary = true
    · simp only [hf, if_true]
      refine ⟨⟨fun a ha => (by cases ha), fun f' hf' => ?_⟩, henv⟩
      cases hf'
      exact hends
    · simp only [hf, if_false, Bool.false_eq_true]
      exact hends
  · refine ⟨hle, ⟨fun a' ha => ?_, fun f hf => by cases hf⟩, henv⟩
    cases ha
    exact hends.1

/-- A pass that puts everything back settles with what is known of its runs. -/
theorem Restores.settles (h : Restores m)
    (hok : ∀ ⦃s t a⦄, s.env = env → c ≤ s.nodes.next → m.runOn s = (.ok a, t) → P t.nodes.next a)
    (hfault : ∀ ⦃s t f⦄, m.runOn s = (.error f, t) → F f) : Settles F env c m P := by
  intro s hs hc
  obtain ⟨henv, hle⟩ := h s
  refine ⟨hle, ?_⟩
  rcases hrun : m.runOn s with ⟨f | a, t⟩
  · exact hfault hrun
  · rw [hrun] at henv
    exact ⟨hok hs hc hrun, henv.trans hs⟩

/-- Of a pass that puts everything back nothing has to be known for what follows it. -/
theorem Restores.settles_bind (h : Restores m)
    (hf : ∀ c' a, c ≤ c' → Settles AnyFault env c' (f a) Q) : Settles AnyFault env c (m >>= f) Q := by
  have hm : Settles AnyFault env c m fun _ _ => True :=
    h.settles (fun _ _ _ _ _ _ => trivial) fun _ _ _ _ => trivial
  exact hm.bind fun c' a hle _ => hf c' a hle

theorem Settles.mapM {f : α → Pass β} (hmono : ∀ c c' b, c ≤ c' → Q c b → Q c' b) :
    ∀ {as : List α} {c : Nat}, (∀ a ∈ as, ∀ c' ≥ c, Settles F env c' (f a) Q) →
    Settles F env c (as.mapM f) fun c bs => ∀ b ∈ bs, Q c b
  | [], _, _ => by
    rw [List.mapM_nil]
    exact settles_pure fun _ _ => List.forall_mem_nil _
  | a :: as, c, h => by
    obtain ⟨ha, has⟩ := List.forall_mem_cons.1 h
    rw [List.mapM_cons]
    refine (ha c (Nat.le_refl c)).bind fun c₁ b hle hb => ?_
    refine (Settles.mapM hmono fun a' ha' c' hc' => has a' ha' c' (Nat.le_trans hle hc')).bind
      fun c₂ bs hle' hbs => settles_pure fun c' hc' => ?_
    refine List.forall_mem_cons.2 ⟨hmono _ _ b (Nat.le_trans hle' hc') hb, fun b' hb' => ?_⟩
    exact hmono _ _ b' hc' (hbs b' hb')

end

end Pass

/-- Every fault but that of a function against the type of its callee. -/
abbrev Pass.Benign : Fault → Prop := fun f => ∀ func ty, f ≠ .contradiction func ty

/-- Evaluation knows no types, and its results are as old as the counter. -/
theorem settles_eval {env : Env} (henv : env.Older c) {n : Node} (hn : n.Older c) (depth : Nat) :
    Pass.Settles Pass.Benign env c (eval depth n) fun c v => v.Older c := by
  refine (restores_eval depth n).settles ?_ ?_
  · rintro s t v rfl hc hrun
    exact eval_older (henv.mono hc) (hn.mono hc) hrun
  · rintro s t f hrun func ty rfl
    exact (carries_eval Function.injective_id rfl 0 depth n (r := ⟨_, fun span => span⟩)).consistent hrun

end Residual
