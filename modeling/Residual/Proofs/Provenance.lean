/-
Where the nodes come from that evaluation ends with. A marking singles out nodes so that the value of a
definition is marked if a name that stands for it is, and that a node which is made over marked ones is
marked. If the node and the values of the local names are marked, part by part, so is what the node
evaluates to: evaluation brings in nothing but the values of the names it meets and nodes that it makes.
-/
import Residual.Proofs.Age
import Residual.Proofs.Layers
import Residual.Proofs.Parts

namespace Residual

open Pass

theorem Pass.settles_error {α : Type} {env : Env} {c : Nat} {P : Nat → α → Prop} (e : TypeError) :
    Settles NotVoid env c (fail e : Pass α) P := settles_fail fun h => by cases h

/-- Nodes that are singled out once the counter has come to `c`, over a store. It must have come to
`since` for this to be kept up. -/
structure Marking (store : Definitions) where
  since : Nat
  Holds : (c : Nat) → Node → Prop
  mono : ∀ {c c' : Nat} {n : Node}, Holds c n → c ≤ c' → Holds c' n
  /-- What a marked name stands for is marked. -/
  value : ∀ {c : Nat} {t : Tag} {x : Name} {d : DefId} {v : Node}, since ≤ c →
    Holds c (.ident t x) → store.lookup x = some (d, v) → v.All (Holds c)
  /-- What is made over marked nodes is marked, unless it is a name that is defined. -/
  made : ∀ {c c' : Nat} {n : Node}, since ≤ c → c ≤ n.id → n.id < c' →
    (∀ m ∈ n.children, m.All (Holds c)) → (∀ x, n.ident? = some x → store.lookup x = none) →
    Holds c' n

namespace Marking

variable {store : Definitions} (μ : Marking store)

/-- The node is marked in all its parts. -/
def Marks (c : Nat) (n : Node) : Prop := n.All (μ.Holds c)

/-- The local names of an environment over the store stand for marked nodes, and bear no other names
that are defined. -/
structure MarksEnv (c : Nat) (env : Env) : Prop where
  since_le : μ.since ≤ c
  store_eq : env.store = store
  values : ∀ b ∈ env.locals.bindings, μ.Marks c b.value
  renames : ∀ b ∈ env.locals.bindings, ∀ x, b.rename = some x → store.lookup x = none

variable {μ} {env : Env} {c c' : Nat} {n : Node}

theorem Marks.mono (h : μ.Marks c n) (hle : c ≤ c') : μ.Marks c' n :=
  Node.All.mono h fun _ hm => μ.mono hm hle

theorem Marks.child {m : Node} (h : μ.Marks c n) (hm : m ∈ n.children) : μ.Marks c m :=
  Node.All.child h hm

namespace MarksEnv

theorem mono (h : μ.MarksEnv c env) (hle : c ≤ c') : μ.MarksEnv c' env where
  since_le := Nat.le_trans h.since_le hle
  store_eq := h.store_eq
  values b hb := (h.values b hb).mono hle
  renames := h.renames

/-- Only the store and the local names count. -/
theorem congr {e : Env} (h : μ.MarksEnv c env) (hstore : e.store = env.store)
    (hlocals : e.locals = env.locals) : μ.MarksEnv c e where
  since_le := h.since_le
  store_eq := hstore.trans h.store_eq
  values := hlocals ▸ h.values
  renames := hlocals ▸ h.renames

theorem resolve (h : μ.MarksEnv c env) (b : Bool) : μ.MarksEnv c { env with resolve := b } :=
  h.congr rfl rfl

theorem transparent (h : μ.MarksEnv c env) (b : Bool) : μ.MarksEnv c { env with transparent := b } :=
  h.congr rfl rfl

theorem enterCall (h : μ.MarksEnv c env) (f : Node) : μ.MarksEnv c (env.enterCall f) := h.congr rfl rfl

theorem push (h : μ.MarksEnv c env) {b : Binding} (hb : μ.Marks c b.value)
    (hrename : ∀ x, b.rename = some x → store.lookup x = none) : μ.MarksEnv c (env.push b) where
  since_le := h.since_le
  store_eq := h.store_eq
  values := List.forall_mem_cons.2 ⟨hb, h.values⟩
  renames := List.forall_mem_cons.2 ⟨hrename, h.renames⟩

theorem globals (h : μ.MarksEnv c env) : μ.MarksEnv c { env with locals := .empty } where
  since_le := h.since_le
  store_eq := h.store_eq
  values := List.forall_mem_nil _
  renames := List.forall_mem_nil _

/-- The other name of a binder is not defined. -/
theorem freshName (h : μ.MarksEnv c env) {x other : Name} (hx : env.freshName x = some other) :
    store.lookup other = none := by
  have hfree := Env.isTaken_freshName hx
  rw [Env.isTaken, Bool.or_eq_false_iff, Definitions.contains_eq, h.store_eq] at hfree
  simpa using hfree.2

theorem bound (h : μ.MarksEnv c env) {x : Name} {b : Binding} (hx : env.lookup x = some (.bound b)) :
    μ.Marks c b.value := h.values b (Env.mem_of_lookup_bound hx).1

theorem defined (h : μ.MarksEnv c env) {t : Tag} {x : Name} {d : DefId} {v : Node}
    (hn : μ.Marks c (.ident t x)) (hx : env.lookup x = some (.defined d v)) : μ.Marks c v :=
  μ.value h.since_le (Node.All.self hn) (h.store_eq ▸ Env.lookup_of_defined hx)

end MarksEnv

/-! ## New nodes -/

theorem marks_made (hc : μ.since ≤ c) (hid : c ≤ n.id) (hid' : n.id < c')
    (hchildren : ∀ m ∈ n.children, μ.Marks c m)
    (hident : ∀ x, n.ident? = some x → store.lookup x = none) : μ.Marks c' n := by
  refine Node.all_iff.2 ⟨μ.made hc hid hid' hchildren hident, fun m hm => ?_⟩
  exact (hchildren m hm).mono (Nat.le_of_lt (Nat.lt_of_le_of_lt hid hid'))

/-- A node is made over marked ones. -/
theorem settles_make {make : Tag → Node} (henv : μ.MarksEnv c env) (span : Span)
    (hid : ∀ t, (make t).id = t.id) (hident : ∀ t, (make t).ident? = none)
    (hchildren : ∀ t, ∀ m ∈ (make t).children, μ.Marks c m) :
    Settles NotVoid env c (do return make (← tagAt span)) μ.Marks := by
  refine (settles_newTag span).bind fun c₁ t _ ht => settles_pure fun c₂ hle => ?_
  refine (marks_made henv.since_le (hid t ▸ ht.1) (hid t ▸ ht.2) (hchildren t) ?_).mono hle
  intro x hx
  rw [hident] at hx
  cases hx

theorem settles_builtin (henv : μ.MarksEnv c env) (b : Builtin) :
    Settles NotVoid env c (Pass.builtin b) μ.Marks :=
  settles_make henv _ (fun _ => rfl) (fun _ => rfl) fun _ => List.forall_mem_nil _

theorem settles_valueOf (henv : μ.MarksEnv c env) {t : Tag} {x : Name} {found : Found}
    (hn : μ.Marks c (.ident t x)) (hx : env.lookup x = some found) :
    Settles NotVoid env c (valueOf found) μ.Marks := by
  cases found with
  | bound b => exact settles_pure fun _ hle => (henv.bound hx).mono hle
  | defined d v => exact settles_pure fun _ hle => (henv.defined hn hx).mono hle
  | builtin b => exact settles_builtin henv b

/-! ## Names -/

/-- A name becomes what it stands for, or stays, or bears a name that is not defined. -/
theorem settles_evalIdent (henv : μ.MarksEnv c env) {t : Tag} {x : Name}
    (hn : μ.Marks c (.ident t x)) : Settles NotVoid env c (Eval.evalIdent t x) μ.Marks := by
  refine settles_env.bind ?_
  rintro c₁ e hle rfl
  have henv := henv.mono hle
  have hn := hn.mono hle
  split
  · exact settles_error _
  · rename_i found hfound
    split
    · exact settles_valueOf henv hn hfound
    · split
      · rename_i other hother
        refine (settles_newTag _).bind fun c₂ t' _ ht' => settles_pure fun c₃ hle' => ?_
        refine Marks.mono ?_ hle'
        refine marks_made henv.since_le ht'.1 ht'.2 (List.forall_mem_nil _) ?_
        rintro _ ⟨⟩
        cases found with
        | bound b => exact henv.renames b (Env.mem_of_lookup_bound hfound).1 other hother
        | defined | builtin => cases hother
      · exact settles_pure fun _ hle' => hn.mono hle'

/-! ## Sequences -/

theorem tracks_bindLocal (henv : μ.MarksEnv c env) (h : μ.Marks c n) :
    Tracks NotVoid env c (Eval.bindLocal n) fun c v e => μ.Marks c v ∧ μ.MarksEnv c e := by
  unfold Eval.bindLocal
  split
  · rename_i tag nameTag x value transparent link
    have hvalue : μ.Marks c value := h.child List.mem_cons_self
    refine Tracks.bind settles_env ?_
    rintro c₁ _ e hle ⟨rfl, rfl⟩
    have henv := henv.mono hle
    refine Tracks.bind tracks_push ?_
    rintro c₂ _ _ hle' rfl
    have hpush : μ.MarksEnv c₂ (e.push ⟨x, value, transparent || e.transparent, e.freshName x⟩) :=
      (henv.mono hle').push (hvalue.mono (by omega)) fun other hother => henv.freshName hother
    split
    · refine Tracks.bind (settles_newTag _) ?_
      rintro c₃ t _ hle₃ ⟨-, rfl⟩
      refine Tracks.bind (settles_newTag _) ?_
      rintro c₄ t' _ hle₄ ⟨ht', rfl⟩
      refine tracks_pure fun c₅ hle₅ => ⟨Marks.mono ?_ hle₅, hpush.mono (by omega)⟩
      refine marks_made (hpush.mono hle₃).since_le ht'.1 ht'.2 ?_ fun _ hident => by cases hident
      exact List.forall_mem_singleton.2 (hvalue.mono (by omega))
    · exact tracks_pure fun c₃ hle₃ => ⟨h.mono (by omega), hpush.mono hle₃⟩
  · exact tracks_pure fun _ hle => ⟨h.mono hle, henv.mono hle⟩

theorem settles_seqValue (henv : μ.MarksEnv c env) {items : List Node} (h : ∀ n ∈ items, μ.Marks c n)
    (site : Span) : Settles NotVoid env c (Eval.seqValue items site) μ.Marks := by
  refine settles_env.bind fun c₁ e hle _ => ?_
  split
  · split
    · rename_i last hlast
      exact settles_pure fun _ hle' =>
        (h last (List.mem_of_getLast? hlast)).mono (Nat.le_trans hle hle')
    · exact settles_error _
  · exact settles_make (henv.mono hle) _ (fun _ => rfl) (fun _ => rfl)
      fun _ n hn => (h n hn).mono hle

/-- An evaluator that keeps the marking up. -/
def Keeps (μ : Marking store) (ev : Node → Pass Node) : Prop :=
  ∀ ⦃env : Env⦄ ⦃c : Nat⦄ ⦃n : Node⦄, μ.MarksEnv c env → μ.Marks c n →
    Settles NotVoid env c (ev n) μ.Marks

section

variable {ev : Node → Pass Node} (he : ∀ n, Restores (ev n)) (hev : μ.Keeps ev)

include hev

theorem tracks_items : ∀ {items : List Node} {env : Env} {c : Nat}, μ.MarksEnv c env →
    (∀ n ∈ items, μ.Marks c n) →
    Tracks NotVoid env c (items.mapM fun item => do Eval.bindLocal (← ev item))
      fun c vs e => (∀ v ∈ vs, μ.Marks c v) ∧ μ.MarksEnv c e
  | [], _, _, henv, _ => by
    rw [List.mapM_nil]
    exact tracks_pure fun _ hle => ⟨List.forall_mem_nil _, henv.mono hle⟩
  | n :: items, env, c, henv, h => by
    obtain ⟨hn, hitems⟩ := List.forall_mem_cons.1 h
    rw [List.mapM_cons]
    have hitem : Tracks NotVoid env c (do Eval.bindLocal (← ev n))
        fun c v e => μ.Marks c v ∧ μ.MarksEnv c e := by
      refine Tracks.bind (hev henv hn) ?_
      rintro c₁ v _ hle ⟨hv, rfl⟩
      exact tracks_bindLocal (henv.mono hle) hv
    refine Tracks.bind hitem ?_
    rintro c₁ v e hle ⟨hv, he⟩
    refine Tracks.bind (tracks_items he fun n hn => (hitems n hn).mono hle) ?_
    rintro c₂ vs e' hle' ⟨hvs, he'⟩
    refine tracks_pure fun c₃ hle₃ => ⟨List.forall_mem_cons.2 ⟨hv.mono (by omega), ?_⟩, he'.mono hle₃⟩
    exact fun v hv => (hvs v hv).mono hle₃

include he

theorem settles_evalSeq (henv : μ.MarksEnv c env) {items : List Node} (h : ∀ n ∈ items, μ.Marks c n) :
    Settles NotVoid env c (Eval.evalSeq ev items) fun c vs => ∀ v ∈ vs, μ.Marks c v :=
  Tracks.scope ((tracks_items hev henv h).mono fun _ _ _ hvs => hvs.1)
    (Eval.restores_evalSeq he items)

theorem settles_value (henv : μ.MarksEnv c env) {items : List Node} (h : ∀ n ∈ items, μ.Marks c n)
    (site : Span) :
    Settles NotVoid env c (Eval.evalSeq ev items >>= (Eval.seqValue · site)) μ.Marks :=
  (settles_evalSeq he hev henv h).bind fun _ _ hle hvs => settles_seqValue (henv.mono hle) hvs site

/-! ## Functions and calls -/

omit he in
theorem settles_evalType (henv : μ.MarksEnv c env) (hn : μ.Marks c n) :
    Settles NotVoid env c (Eval.evalType ev n) μ.Marks :=
  Settles.under (hev (henv.resolve true) hn) (Guard.lawful_resolve true)

theorem settles_evalFunc (henv : μ.MarksEnv c env) {tag : Tag} {param : Decl Node} {body : List Node}
    (hn : μ.Marks c (.func tag param body)) :
    Settles NotVoid env c (Eval.evalFunc ev tag param body) μ.Marks := by
  have hparam : μ.Marks c param.ty := hn.child List.mem_cons_self
  have hbody (n : Node) (hmem : n ∈ body) : μ.Marks c n := hn.child (List.mem_cons_of_mem _ hmem)
  refine (settles_evalType hev henv hparam).bind fun c₁ ty hle₁ hty => ?_
  have henv := henv.mono hle₁
  refine (settles_newTag _).bind fun c₂ t hle₂ ht => ?_
  -- the parameter stands for its type, or for nothing that is known
  have hvalue : μ.Marks c₂ (if ty.isType then .selfType t ty else .unknown t) := by
    split
    · exact marks_made henv.since_le ht.1 ht.2 (List.forall_mem_singleton.2 hty)
        fun _ h => by cases h
    · exact marks_made henv.since_le ht.1 ht.2 (List.forall_mem_nil _) fun _ h => by cases h
  refine settles_env.bind ?_
  rintro c₃ e hle₃ rfl
  have henv : μ.MarksEnv c₃ e := henv.mono (by omega)
  have hinner : μ.MarksEnv c₃ ((e.enterCall (.func tag param body)).push
      ⟨param.name, if ty.isType then .selfType t ty else .unknown t, false,
        e.freshName param.name⟩) :=
    (henv.enterCall _).push (hvalue.mono hle₃) fun other hother => henv.freshName hother
  have hseq := settles_evalSeq he hev hinner fun n hn => (hbody n hn).mono (by omega)
  refine (Settles.under (Settles.under hseq (Guard.lawful_binding _)) (Guard.lawful_call _)).bind
    fun c₄ vs hle₄ hvs => ?_
  refine settles_make (henv.mono hle₄) _ (fun _ => rfl) (fun _ => rfl) fun _ => ?_
  exact List.forall_mem_cons.2 ⟨hty.mono (by omega), hvs⟩

theorem settles_apply (henv : μ.MarksEnv c env) {param : Decl Node} {body : List Node} {arg : Node}
    (hbody : ∀ n ∈ body, μ.Marks c n) (harg : μ.Marks c arg) (callee : Node) (site : Span) :
    Settles NotVoid env c (Eval.apply ev callee param body arg site) μ.Marks := by
  have hinner : μ.MarksEnv c ({ env.enterCall callee with transparent := true }.push
      ⟨param.name, arg, true, none⟩) :=
    ((henv.enterCall callee).transparent true).push harg fun _ h => by cases h
  exact Settles.under (Settles.under (Settles.under (settles_value he hev hinner hbody site)
    (Guard.lawful_binding _)) (Guard.lawful_transparent true)) (Guard.lawful_call _)

/-- The result of a call is made of the function and of the argument. -/
theorem settles_unfoldCall (henv : μ.MarksEnv c env) {function value : Node}
    (hfunction : μ.Marks c function) (hvalue : μ.Marks c value) (e : Env) (site : Span) :
    Settles NotVoid env c (Eval.unfoldCall ev e function value site)
      fun c r => ∀ v, r = some v → μ.Marks c v := by
  have hnone : Settles NotVoid env c (pure none : Pass (Option Node))
      fun c r => ∀ v, r = some v → μ.Marks c v := settles_pure fun _ _ _ h => by cases h
  unfold Eval.unfoldCall
  split
  · rename_i tag param body
    split
    · rw [map_eq_pure_bind]
      have hbody (n : Node) (hn : n ∈ body) : μ.Marks c n :=
        hfunction.child (List.mem_cons_of_mem _ hn)
      refine (settles_apply he hev henv hbody hvalue _ site).bind fun c₁ v _ hv => ?_
      refine settles_pure fun _ hle => ?_
      rintro _ ⟨⟩
      exact hv.mono hle
    · exact hnone
  · exact hnone

omit hev he in
theorem settles_keptCallee (henv : μ.MarksEnv c env) {callee function : Node}
    (hcallee : μ.Marks c callee) (hfunction : μ.Marks c function) (e : Env) :
    Settles NotVoid env c (Eval.keptCallee e callee function) μ.Marks := by
  have hresidual : Settles NotVoid env c (Eval.residualCallee callee function) μ.Marks := by
    unfold Eval.residualCallee
    split
    · refine settles_env.bind fun c₁ e hle _ => ?_
      split
      · exact settles_pure fun _ hle' => hcallee.mono (Nat.le_trans hle hle')
      · exact settles_pure fun _ hle' => hcallee.mono (Nat.le_trans hle hle')
      · exact settles_pure fun _ hle' => hfunction.mono (Nat.le_trans hle hle')
    · exact settles_pure fun _ hle => hfunction.mono hle
  unfold Eval.keptCallee
  split
  · exact settles_evalIdent henv hcallee
  · exact hresidual

theorem settles_evalCall (henv : μ.MarksEnv c env) {tag : Tag} {callee arg : Node}
    (hn : μ.Marks c (.call tag callee arg)) :
    Settles NotVoid env c (Eval.evalCall ev tag callee arg) μ.Marks := by
  have hcallee : μ.Marks c callee := hn.child List.mem_cons_self
  have harg : μ.Marks c arg := hn.child (List.mem_cons_of_mem _ List.mem_cons_self)
  refine (settles_evalType hev henv hcallee).bind fun c₁ function hle₁ hfunction => ?_
  refine (hev (henv.mono hle₁) (harg.mono hle₁)).bind fun c₂ value hle₂ hvalue => ?_
  refine settles_env.bind fun c₃ e hle₃ _ => ?_
  have henv : μ.MarksEnv c₃ env := henv.mono (by omega)
  refine (settles_unfoldCall he hev henv (hfunction.mono (by omega)) (hvalue.mono hle₃) e _).bind
    fun c₄ result hle₄ hresult => ?_
  split
  · exact settles_pure fun _ hle => (hresult _ rfl).mono hle
  · refine (settles_keptCallee (henv.mono hle₄) (hcallee.mono (by omega))
      (hfunction.mono (by omega)) e).bind fun c₅ kept hle₅ hkept => ?_
    refine settles_make (henv.mono (by omega)) _ (fun _ => rfl) (fun _ => rfl) fun _ => ?_
    exact List.forall_mem_cons.2 ⟨hkept, List.forall_mem_singleton.2 (hvalue.mono (by omega))⟩

/-! ## Operators and control -/

omit he in
theorem settles_evalDot (henv : μ.MarksEnv c env) {lhs : Node} (hlhs : μ.Marks c lhs) (tag : Tag)
    (rhs : Node) : Settles NotVoid env c (Eval.evalDot ev tag lhs rhs) μ.Marks := by
  refine (hev henv hlhs).bind fun c₁ owner hle howner => ?_
  split
  · split
    · rename_i value hvalue
      exact settles_pure fun _ hle' => Marks.mono (Node.All.fieldValue? howner hvalue) hle'
    · exact settles_error _
  · exact settles_make (henv.mono hle) _ (fun _ => rfl) (fun _ => rfl)
      fun _ => List.forall_mem_singleton.2 howner

omit he in
theorem settles_evalBinOp (henv : μ.MarksEnv c env) {tag : Tag} {op : Operator} {lhs rhs : Node}
    (hn : μ.Marks c (.binOp tag op lhs rhs)) :
    Settles NotVoid env c (Eval.evalBinOp ev tag op lhs rhs) μ.Marks := by
  have hlhs : μ.Marks c lhs := hn.child Node.mem_children_binOp
  unfold Eval.evalBinOp
  split
  · exact settles_evalDot hev henv hlhs tag rhs
  · rename_i hop
    have hrhs : μ.Marks c rhs := hn.child (Node.mem_children_rhs hop)
    refine (hev henv hlhs).bind fun c₁ a hle₁ ha => ?_
    refine (hev (henv.mono hle₁) (hrhs.mono hle₁)).bind fun c₂ b hle₂ hb => ?_
    have henv : μ.MarksEnv c₂ env := henv.mono (by omega)
    dsimp only
    split
    · exact settles_make henv _ (fun _ => rfl) (fun _ => rfl) fun _ => List.forall_mem_nil _
    · refine settles_make henv _ (fun _ => rfl) (fun _ => rfl) fun _ => ?_
      rw [Node.children, if_neg hop]
      exact List.forall_mem_cons.2 ⟨ha.mono hle₂, List.forall_mem_singleton.2 hb⟩

theorem settles_evalIf (henv : μ.MarksEnv c env) {tag : Tag} {condition : Node}
    {thenBody elseBody : List Node} (hn : μ.Marks c (.ifElse tag condition thenBody elseBody)) :
    Settles NotVoid env c (Eval.evalIf ev tag condition thenBody elseBody) μ.Marks := by
  have hthen (n : Node) (hmem : n ∈ thenBody) : μ.Marks c n := hn.child (Node.mem_children_then hmem)
  have helse (n : Node) (hmem : n ∈ elseBody) : μ.Marks c n := hn.child (Node.mem_children_else hmem)
  refine (hev henv (hn.child List.mem_cons_self)).bind fun c₁ v hle₁ hv => ?_
  have henv := henv.mono hle₁
  split
  · rename_i taken _
    cases taken with
    | true => exact settles_value he hev henv (fun n hn => (hthen n hn).mono hle₁) _
    | false => exact settles_value he hev henv (fun n hn => (helse n hn).mono hle₁) _
  · refine (settles_evalSeq he hev henv fun n hn => (hthen n hn).mono hle₁).bind
      fun c₂ vs hle₂ hvs => ?_
    refine (settles_evalSeq he hev (henv.mono hle₂) fun n hn => (helse n hn).mono (by omega)).bind
      fun c₃ ws hle₃ hws => ?_
    refine settles_make (henv.mono (by omega)) _ (fun _ => rfl) (fun _ => rfl) fun _ => ?_
    refine List.forall_mem_cons.2 ⟨hv.mono (by omega), List.forall_mem_append.2 ⟨?_, hws⟩⟩
    exact fun v hv => (hvs v hv).mono hle₃

/-- The patterns and bodies of cases. -/
def MarksCases (μ : Marking store) (c : Nat) (e : Case Node) : Prop :=
  μ.Marks c e.pattern ∧ ∀ n ∈ e.body, μ.Marks c n

omit he hev in
theorem MarksCases.mono {e : Case Node} (h : μ.MarksCases c e) (hle : c ≤ c') : μ.MarksCases c' e :=
  ⟨h.1.mono hle, fun n hn => (h.2 n hn).mono hle⟩

theorem settles_evalCases (scrutinee : Node) (site : Span) :
    ∀ {cases : List (Case Node)} {c : Nat}, μ.MarksEnv c env → (∀ e ∈ cases, μ.MarksCases c e) →
    Settles NotVoid env c (Eval.evalCases ev scrutinee site cases) μ.Marks
  | [], _, _, _ => settles_error _
  | e :: cases, c, henv, h => by
    obtain ⟨⟨hpattern, hbody⟩, hcases⟩ := List.forall_mem_cons.1 h
    have hmatch : Settles NotVoid env c (Eval.isMatch ev e.pattern scrutinee) fun _ _ => True := by
      unfold Eval.isMatch
      split
      · exact settles_pure fun _ _ => trivial
      · refine settles_env.bind fun c₁ _ hle _ => ?_
        exact (hev (henv.mono hle) (hpattern.mono hle)).bind fun _ _ _ _ =>
          settles_pure fun _ _ => trivial
    refine hmatch.bind fun c₁ hit hle _ => ?_
    split
    · exact settles_value he hev (henv.mono hle) (fun n hn => (hbody n hn).mono hle) _
    · exact settles_evalCases scrutinee site (henv.mono hle) fun e he => (hcases e he).mono hle

theorem settles_evalMatch (henv : μ.MarksEnv c env) {tag : Tag} {scrutinee : Node}
    {cases : List (Case Node)} (hn : μ.Marks c (.matchOn tag scrutinee cases)) :
    Settles NotVoid env c (Eval.evalMatch ev tag scrutinee cases) μ.Marks := by
  have hcases (e : Case Node) (hmem : e ∈ cases) : μ.MarksCases c e :=
    ⟨hn.child (Node.mem_children_matchOn hmem List.mem_cons_self),
      fun n h => hn.child (Node.mem_children_matchOn hmem (List.mem_cons_of_mem _ h))⟩
  refine (hev henv (hn.child List.mem_cons_self)).bind fun c₁ v hle hv => ?_
  have henv := henv.mono hle
  split
  · exact settles_evalCases he hev v _ henv fun e he => (hcases e he).mono hle
  · have hkept : Settles NotVoid env c₁ (cases.mapM (Eval.evalCase ev))
        fun c es => ∀ e ∈ es, μ.MarksCases c e := by
      refine Settles.mapM (fun _ _ _ hle h => h.mono hle) fun e hmem c₂ hle₂ => ?_
      obtain ⟨hpattern, hbody⟩ := (hcases e hmem).mono (Nat.le_trans hle hle₂)
      have henv := henv.mono hle₂
      have hrest (c₃ : Nat) (pattern : Node) (hle₃ : c₂ ≤ c₃) (hp : μ.Marks c₃ pattern) :
          Settles NotVoid env c₃ (do return { e with pattern, body := ← Eval.evalSeq ev e.body })
            μ.MarksCases := by
        refine (settles_evalSeq he hev (henv.mono hle₃) fun n hn => (hbody n hn).mono hle₃).bind
          fun c₄ vs hle₄ hvs => settles_pure fun c₅ hle₅ => ?_
        exact ⟨hp.mono (by omega), fun v hv => (hvs v hv).mono hle₅⟩
      unfold Eval.evalCase
      split
      · exact hrest c₂ e.pattern (Nat.le_refl _) hpattern
      · exact (hev henv hpattern).bind hrest
    refine hkept.bind fun c₂ es hle₂ hes => ?_
    refine settles_make (henv.mono hle₂) _ (fun _ => rfl) (fun _ => rfl) fun _ => ?_
    refine List.forall_mem_cons.2 ⟨hv.mono hle₂, fun m hm => ?_⟩
    obtain ⟨e, hmem, hm⟩ := List.mem_flatMap.1 hm
    exact List.forall_mem_cons.2 (hes e hmem) m hm

/-! ## Nodes -/

omit he in
/-- The members of an instance name themselves. -/
theorem settles_evalField (henv : μ.MarksEnv c env) (hn : n.ident? = none → μ.Marks c n) :
    Settles NotVoid env c (Eval.evalField ev n) fun c v => v.ident? = none → μ.Marks c v := by
  unfold Eval.evalField
  split
  · exact settles_pure fun _ _ h => by cases h
  · rename_i hident
    refine (hev henv (hn ?_)).mono fun _ _ hv _ => hv
    cases n with
    | ident t x => exact absurd rfl (hident t x)
    | _ => rfl

/-- One step of evaluation. -/
theorem settles_step (henv : μ.MarksEnv c env) (hn : μ.Marks c n) :
    Settles NotVoid env c (Eval.step ev n) μ.Marks := by
  have hsame : Settles NotVoid env c (pure n) μ.Marks := settles_pure fun _ hle => hn.mono hle
  cases n with
  | lit | builtin | enum | unknown => exact hsame
  | list tag items =>
    refine (Settles.mapM (fun _ _ _ hle h => h.mono hle) fun n hmem c₁ hle => ?_).bind
      fun c₁ vs hle hvs => settles_make (henv.mono hle) _ (fun _ => rfl) (fun _ => rfl) fun _ => hvs
    exact hev (henv.mono hle) ((hn.child hmem).mono hle)
  | record tag id fields range =>
    have hfields : Settles NotVoid env c (fields.mapM (Eval.evalDecl ev))
        fun c ds => ∀ d ∈ ds, μ.Marks c d.ty := by
      refine Settles.mapM (Q := fun c (d : Decl Node) => μ.Marks c d.ty)
        (fun _ _ _ hle h => h.mono hle) fun d hmem c₁ hle => ?_
      refine (settles_evalType hev (henv.mono hle) ((hn.child (Node.mem_children_record hmem)).mono
        hle)).bind fun _ ty _ hty => settles_pure fun _ hle' => hty.mono hle'
    refine hfields.bind fun c₁ ds hle hds => ?_
    refine settles_make (henv.mono hle) _ (fun _ => rfl) (fun _ => rfl) fun _ m hm => ?_
    obtain ⟨d, hmem, rfl⟩ := List.mem_map.1 hm
    exact hds d hmem
  | fnType tag id dom cod =>
    refine (settles_evalType hev henv (hn.child List.mem_cons_self)).bind fun c₁ dom' hle₁ hdom => ?_
    have hcod : μ.Marks c cod := hn.child (List.mem_cons_of_mem _ List.mem_cons_self)
    refine (settles_evalType hev (henv.mono hle₁) (hcod.mono hle₁)).bind fun c₂ cod' hle₂ hcod => ?_
    refine settles_make (henv.mono (by omega)) _ (fun _ => rfl) (fun _ => rfl) fun _ => ?_
    exact List.forall_mem_cons.2 ⟨hdom.mono hle₂, List.forall_mem_singleton.2 hcod⟩
  | selfType | arg | field =>
    refine (settles_evalType hev henv (hn.child List.mem_cons_self)).bind fun c₁ ty hle hty => ?_
    exact settles_make (henv.mono hle) _ (fun _ => rfl) (fun _ => rfl)
      fun _ => List.forall_mem_singleton.2 hty
  | assign tag target value transparent link =>
    refine (hev henv (hn.child List.mem_cons_self)).bind fun c₁ v hle₁ hv => ?_
    refine settles_env.bind fun c₂ _ hle₂ _ => ?_
    exact settles_make (henv.mono (by omega)) _ (fun _ => rfl) (fun _ => rfl)
      fun _ => List.forall_mem_singleton.2 (hv.mono hle₂)
  | ident tag x => exact settles_evalIdent henv hn
  | func tag param body => exact settles_evalFunc he hev henv hn
  | call tag callee arg => exact settles_evalCall he hev henv hn
  | binOp tag op lhs rhs => exact settles_evalBinOp hev henv hn
  | matchOn tag scrutinee cases => exact settles_evalMatch he hev henv hn
  | whileDo tag condition body =>
    refine (hev henv (hn.child List.mem_cons_self)).bind fun c₁ v hle₁ hv => ?_
    have hbody (n : Node) (hmem : n ∈ body) : μ.Marks c₁ n :=
      (hn.child (List.mem_cons_of_mem _ hmem)).mono hle₁
    refine (settles_evalSeq he hev (henv.mono hle₁) hbody).bind fun c₂ vs hle₂ hvs => ?_
    exact settles_make (henv.mono (by omega)) _ (fun _ => rfl) (fun _ => rfl)
      fun _ => List.forall_mem_cons.2 ⟨hv.mono hle₂, hvs⟩
  | ifElse tag condition thenBody elseBody => exact settles_evalIf he hev henv hn
  | block tag items => exact settles_value he hev henv (fun n hmem => hn.child hmem) _
  | inst tag template body =>
    refine (settles_evalType hev henv (hn.child List.mem_cons_self)).bind fun c₁ ty hle₁ hty => ?_
    have hbody : Settles NotVoid env c₁ (body.mapM (Eval.evalField ev))
        fun c vs => ∀ v ∈ vs, v.ident? = none → μ.Marks c v := by
      refine Settles.mapM (Q := fun c (v : Node) => v.ident? = none → μ.Marks c v)
        (fun _ _ _ hle h hident => (h hident).mono hle) fun n hmem c₂ hle₂ => ?_
      refine settles_evalField hev (henv.mono (by omega)) fun hident => ?_
      exact (hn.child (Node.mem_children_inst hmem hident)).mono (by omega)
    refine hbody.bind fun c₂ vs hle₂ hvs => ?_
    refine settles_make (henv.mono (by omega)) _ (fun _ => rfl) (fun _ => rfl) fun _ => ?_
    refine List.forall_mem_cons.2 ⟨hty.mono hle₂, fun v hv => ?_⟩
    obtain ⟨hv, hident⟩ := List.mem_filter.1 hv
    exact hvs v hv (Option.isNone_iff_eq_none.1 hident)

end

/-- What a marked node evaluates to is marked. -/
theorem keeps_eval (μ : Marking store) : ∀ depth : Nat, μ.Keeps (eval depth)
  | 0, _, _, _, _, _ => settles_throw fun h => by cases h
  | depth + 1, _, _, _, henv, hn => settles_step (restores_eval depth) (keeps_eval μ depth) henv hn

end Marking

end Residual
