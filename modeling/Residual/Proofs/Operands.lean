/-
The operands of a node that passes the checker pass it themselves, in the same environment: items of a
list, callee and argument of a call, both sides of an operator, the condition of a branch and what a
match looks at. The one exception is the left side of a field access. If it evaluates to an instance,
the type is that of the field found there, and nothing else of the instance is looked at.

The checker comes to an operand with a counter that the operands before it have moved on. But how far
the counter is makes no difference: nodes that are older than two counters are checked alike with both.
-/
import Residual.Proofs.Accord
import Residual.Proofs.Consistency
import Residual.Proofs.Plain

namespace Residual

open Pass Node

/-! ## Counters -/

/-- Names and locations are the same, and identities from `c` on are shifted by `k`. -/
def Likeness.shift (c k : Nat) : Likeness :=
  .sameNames ⟨(Relabeling.shift c k).id, c, k, (Relabeling.keeps_shift c k).injective,
    fun _ hi => if_neg (Nat.not_lt.2 hi)⟩ .same

theorem Node.typed_shift (c k : Nat) (n : Node) : n.Typed (.shift c k) := fun _ _ _ _ => trivial

theorem Node.alike_shift (c k : Nat) (n : Node) : n.Alike (.shift c k) (n.relabel (.shift c k)) :=
  (n.typed_shift c k).alike_relabel Likeness.plain_within fun _ _ => trivial

/-- An environment is like the shifted one. -/
theorem Env.alike_shift (env : Env) (c k : Nat) :
    env.Alike (.shift c k) (env.relabel (.shift c k)) := by
  refine Env.alike_relabel (ℓ := .shift c k) Likeness.plain_within (fun x => ?_)
    fun entry _ => ⟨entry.2.typed_shift c k, fun _ _ => trivial⟩
  rw [Locals.find?_relabel]
  cases env.locals.find? x with
  | none => exact .none
  | some b => exact .some ⟨.value (b.value.alike_shift c k), rfl, rfl, fun _ _ => trivial⟩

section

variable {s s' : Machine} {n : Node}

theorem Node.Older.alike_shift {c : Nat} (hn : n.Older c) (k : Nat) : n.Alike (.shift c k) n := by
  have halike := n.alike_shift c k
  rwa [hn (Relabeling.keeps_shift c k)] at halike

/-- A pass that is like itself under a shift ends alike with a counter that is ahead. -/
theorem Parallel.isOk_ahead {α : Type} {m : Pass α} {R : α → α → Prop}
    (hm : Parallel (.shift s.nodes.next (s'.nodes.next - s.nodes.next)) R m m)
    (hs : s.env.Older s.nodes.next) (henv : s'.env = s.env) (hle : s.nodes.next ≤ s'.nodes.next) :
    (m.runOn s').1.isOk = (m.runOn s).1.isOk := by
  have henvs := s.env.alike_shift s.nodes.next (s'.nodes.next - s.nodes.next)
  rw [hs (Relabeling.keeps_shift _ _)] at henvs
  have hahead :
      (Likeness.shift s.nodes.next (s'.nodes.next - s.nodes.next)).Ahead s.nodes s'.nodes := by
    refine ⟨Nat.le_refl _, ?_⟩
    show s'.nodes.next = s.nodes.next + (s'.nodes.next - s.nodes.next)
    omega
  obtain ⟨hends, -⟩ := hm s s' (henv ▸ henvs) hahead
  generalize (m.runOn s).1 = r, (m.runOn s').1 = r' at hends
  cases hends <;> rfl

/-- With a counter that is ahead, an old node passes if and only if it did before. -/
theorem check_isOk_ahead (hs : s.env.Older s.nodes.next) (hn : n.Older s.nodes.next)
    (henv : s'.env = s.env) (hle : s.nodes.next ≤ s'.nodes.next) (depth : Nat) :
    ((check depth n).runOn s').1.isOk = ((check depth n).runOn s).1.isOk :=
  ((keeps_check _ depth).node (hn.alike_shift _)).isOk_ahead hs henv hle

/-- Two counters make no difference to whether a node that is older than both passes. -/
theorem check_isOk_agrees {c : Nat} (hs : s.env.Older c) (hn : n.Older c) (henv : s'.env = s.env)
    (hle : c ≤ s.nodes.next) (hle' : c ≤ s'.nodes.next) (depth : Nat) :
    ((check depth n).runOn s').1.isOk = ((check depth n).runOn s).1.isOk := by
  rcases Nat.le_total s.nodes.next s'.nodes.next with h | h
  · exact check_isOk_ahead (hs.mono hle) (hn.mono hle) henv h depth
  · exact (check_isOk_ahead (henv ▸ hs.mono hle') (hn.mono hle') henv.symm h depth).symm

theorem eval_isOk_ahead (hs : s.env.Older s.nodes.next) (hn : n.Older s.nodes.next)
    (henv : s'.env = s.env) (hle : s.nodes.next ≤ s'.nodes.next) (depth : Nat) :
    ((eval depth n).runOn s').1.isOk = ((eval depth n).runOn s).1.isOk :=
  ((keeps_eval _ depth).node (hn.alike_shift _)).isOk_ahead hs henv hle

end

/-! ## Operands -/

/-- The operands of a node that are evaluated where the node is. The right side of a field access is a
label. -/
def Node.operands : Node → List Node
  | list _ items => items
  | call _ callee argument => [callee, argument]
  | binOp _ op lhs rhs => if op = .dot then [lhs] else [lhs, rhs]
  | ifElse _ condition _ _ => [condition]
  | matchOn _ scrutinee _ => [scrutinee]
  | _ => []

def Node.isInstance : Node → Bool
  | inst .. => true
  | _ => false

/-- The checker accepts the node: it finds a type, at some depth. -/
def Machine.Accepts (s : Machine) (n : Node) : Prop :=
  ∃ depth ty t, (check depth n).runOn s = (.ok ty, t)

theorem Node.mem_operands_binOp {m lhs rhs : Node} {t : Tag} {op : Operator}
    (hm : m ∈ (binOp t op lhs rhs).operands) : m = lhs ∨ op ≠ .dot ∧ m = rhs := by
  rw [operands] at hm
  by_cases hop : op = .dot
  · rw [if_pos hop] at hm
    exact .inl (List.mem_singleton.1 hm)
  · rw [if_neg hop] at hm
    rcases List.mem_pair.1 hm with rfl | rfl
    · exact .inl rfl
    · exact .inr ⟨hop, rfl⟩

/-- Operands are older than the counter if the node is. -/
theorem Node.Older.operand {n m : Node} {c : Nat} (hn : n.Older c) (hm : m ∈ n.operands) :
    m.Older c := by
  cases n with
  | list t items => exact older_list hn m hm
  | call t callee arg =>
    obtain ⟨hcallee, harg⟩ := older_call hn
    rcases List.mem_pair.1 hm with rfl | rfl
    · exact hcallee
    · exact harg
  | binOp t op lhs rhs =>
    obtain ⟨hl, hr⟩ := older_binOp hn
    rcases mem_operands_binOp hm with rfl | ⟨-, rfl⟩
    · exact hl
    · exact hr
  | ifElse t condition thenBody elseBody =>
    rw [List.mem_singleton.1 hm]
    exact (older_ifElse hn).1
  | matchOn t scrutinee cases =>
    rw [List.mem_singleton.1 hm]
    exact (older_matchOn hn).1
  | _ => cases hm

/-- A machine that a pass over `s` may have come to before it checks an operand. -/
structure Machine.After (s s' : Machine) : Prop where
  env : s'.env = s.env
  next : s.nodes.next ≤ s'.nodes.next

namespace Machine.After

variable {s s' : Machine}

theorem refl (s : Machine) : s.After s := ⟨rfl, Nat.le_refl _⟩

theorem run {α : Type} {m : Pass α} {r : Except Fault α} {t : Machine} (h : s.After s')
    (hm : Restores m) (hrun : m.runOn s' = (r, t)) : s.After t :=
  ⟨(hm.env_eq hrun).trans h.env, Nat.le_trans h.next (hm.next_le hrun)⟩

/-- What is accepted later on is accepted from the start. -/
theorem accepts (h : s.After s') {n ty : Node} {t : Machine} {depth : Nat}
    (hs : s.env.Older s.nodes.next) (hn : n.Older s.nodes.next)
    (hrun : (check depth n).runOn s' = (.ok ty, t)) : s.Accepts n := by
  have hok := check_isOk_ahead hs hn h.env h.next depth
  rw [hrun] at hok
  obtain ⟨ty', t', hrun'⟩ := runOn_of_isOk hok.symm
  exact ⟨depth, ty', t', hrun'⟩

/-- The items of a list are checked one after the other. -/
theorem accepts_items {depth : Nat} {expected : Node} (hs : s.env.Older s.nodes.next) :
    ∀ {items : List Node} {s' t : Machine} {u : PUnit}, s.After s' →
      (∀ n ∈ items, n.Older s.nodes.next) →
      (Check.checkItemsAgainst (check depth) expected items).runOn s' = (.ok u, t) →
      ∀ n ∈ items, s.Accepts n
  | [], _, _, _, _, _, _ => List.forall_mem_nil _
  | item :: items, s', t, u, h, hi, hrun => by
    obtain ⟨hitem, hitems⟩ := List.forall_mem_cons.1 hi
    obtain ⟨ty, s₁, hty, hrun⟩ := runOn_bind_ok hrun
    have h₁ := h.run (restores_check depth item) hty
    obtain ⟨_, s₂, hexpect, hrun⟩ := runOn_bind_ok hrun
    have h₂ := h₁.run (Check.restores_expect _ _ _) hexpect
    exact List.forall_mem_cons.2 ⟨h.accepts hs hitem hty, accepts_items hs h₂ hitems hrun⟩

end Machine.After

section

variable {s t : Machine} {depth : Nat} {ty : Node} (hs : s.env.Older s.nodes.next)

include hs

theorem accepts_list {items : List Node} (hi : ∀ n ∈ items, n.Older s.nodes.next)
    (hrun : (Check.checkList (check depth) items).runOn s = (.ok ty, t)) :
    ∀ n ∈ items, s.Accepts n := by
  cases items with
  | nil => exact List.forall_mem_nil _
  | cons first others =>
    obtain ⟨hfirst, hothers⟩ := List.forall_mem_cons.1 hi
    obtain ⟨expected, s₁, hty, hrun⟩ := runOn_bind_ok hrun
    obtain ⟨_, s₂, hrun, -⟩ := runOn_bind_ok hrun
    have h := Machine.After.refl s
    have h₁ := h.run (restores_check depth first) hty
    exact List.forall_mem_cons.2 ⟨h.accepts hs hfirst hty, h₁.accepts_items hs hothers hrun⟩

theorem accepts_call {tag : Tag} {callee arg : Node} (hcallee : callee.Older s.nodes.next)
    (harg : arg.Older s.nodes.next)
    (hrun : (Check.checkCall (eval depth) (check depth) tag callee arg).runOn s = (.ok ty, t)) :
    s.Accepts callee ∧ s.Accepts arg := by
  obtain ⟨calleeType, s₁, hct, hrun⟩ := runOn_bind_ok hrun
  obtain ⟨declared, s₂, hd, hrun⟩ := runOn_bind_ok hrun
  obtain ⟨argType, s₃, hat, -⟩ := runOn_bind_ok hrun
  have h := Machine.After.refl s
  have h₁ := h.run (restores_check depth callee) hct
  have h₂ := h₁.run (Check.restores_signature calleeType tag.span) hd
  exact ⟨h.accepts hs hcallee hct, h₂.accepts hs harg hat⟩

theorem accepts_binOp {tag : Tag} {op : Operator} {lhs rhs : Node} (hop : op ≠ .dot)
    (hl : lhs.Older s.nodes.next) (hr : rhs.Older s.nodes.next)
    (hrun : (Check.checkBinOp (eval depth) (check depth) tag op lhs rhs).runOn s = (.ok ty, t)) :
    s.Accepts lhs ∧ s.Accepts rhs := by
  unfold Check.checkBinOp at hrun
  rw [if_neg hop] at hrun
  obtain ⟨_, s₁, hleft, hrun⟩ := runOn_bind_ok hrun
  obtain ⟨_, s₂, hright, -⟩ := runOn_bind_ok hrun
  have h := Machine.After.refl s
  have h₁ := h.run (Check.restores_checkOperand (restores_check depth) op lhs) hleft
  obtain ⟨_, _, hleft, -⟩ := runOn_bind_ok hleft
  obtain ⟨_, _, hright, -⟩ := runOn_bind_ok hright
  exact ⟨h.accepts hs hl hleft, h₁.accepts hs hr hright⟩

/-- The left side of a field access is looked at if it does not evaluate to an instance. -/
theorem accepts_dot {tag : Tag} {lhs rhs : Node} (hl : lhs.Older s.nodes.next)
    (hdot : ∀ v t', (eval depth lhs).runOn s = (.ok v, t') → v.isInstance = false)
    (hrun : (Check.checkDot (eval depth) (check depth) tag lhs rhs).runOn s = (.ok ty, t)) :
    s.Accepts lhs := by
  unfold Check.checkDot at hrun
  split at hrun
  · cases hrun
  · obtain ⟨owner, s₁, howner, hrun⟩ := runOn_bind_ok hrun
    have hno := hdot owner s₁ howner
    have h₁ := (Machine.After.refl s).run (restores_eval depth lhs) howner
    split at hrun
    · cases hno
    · obtain ⟨_, _, hty, -⟩ := runOn_bind_ok hrun
      exact h₁.accepts hs hl hty

theorem accepts_condition {tag : Tag} {condition : Node} {thenBody elseBody : List Node}
    (hc : condition.Older s.nodes.next)
    (hrun : (Check.checkIf (check depth) tag condition thenBody elseBody).runOn s = (.ok ty, t)) :
    s.Accepts condition := by
  obtain ⟨_, _, hrun, -⟩ := runOn_bind_ok hrun
  obtain ⟨_, _, hrun, -⟩ := runOn_bind_ok hrun
  exact (Machine.After.refl s).accepts hs hc hrun

theorem accepts_scrutinee {tag : Tag} {scrutinee : Node} {cases : List (Case Node)}
    (hc : scrutinee.Older s.nodes.next)
    (hrun : (Check.checkMatch (check depth) tag scrutinee cases).runOn s = (.ok ty, t)) :
    s.Accepts scrutinee := by
  obtain ⟨_, _, hrun, -⟩ := runOn_bind_ok hrun
  exact (Machine.After.refl s).accepts hs hc hrun

end

/-- In any environment whose nodes come from the counter, a node that is accepted has operands that
are accepted, unless it accesses a field of a left side that evaluates to an instance. -/
theorem operands_are_accepted {s : Machine} {n m : Node} (hs : s.env.Older s.nodes.next)
    (hn : n.Older s.nodes.next) (h : s.Accepts n) (hm : m ∈ n.operands)
    (hdot : ∀ tag rhs, n = .binOp tag .dot m rhs →
      ∀ depth v t, (eval depth m).runOn s = (.ok v, t) → v.isInstance = false) : s.Accepts m := by
  obtain ⟨depth, ty, t, hrun⟩ := h
  have hold := hn.operand hm
  cases depth with
  | zero => cases hrun
  | succ depth =>
    cases n with
    | list tag items => exact accepts_list hs (older_list hn) hrun m hm
    | call tag callee arg =>
      obtain ⟨hcallee, harg⟩ := older_call hn
      obtain ⟨hc, ha⟩ := accepts_call hs hcallee harg hrun
      rcases List.mem_pair.1 hm with rfl | rfl
      · exact hc
      · exact ha
    | binOp tag op lhs rhs =>
      obtain ⟨hl, hr⟩ := older_binOp hn
      rcases Node.mem_operands_binOp hm with rfl | ⟨hop, rfl⟩
      · by_cases hop : op = .dot
        · subst hop
          exact accepts_dot hs hl (hdot tag rhs rfl depth) hrun
        · exact (accepts_binOp hs hop hl hr hrun).1
      · exact (accepts_binOp hs hop hl hr hrun).2
    | ifElse tag condition thenBody elseBody =>
      rw [List.mem_singleton.1 hm]
      exact accepts_condition hs (older_ifElse hn).1 hrun
    | matchOn tag scrutinee cases =>
      rw [List.mem_singleton.1 hm]
      exact accepts_scrutinee hs (older_matchOn hn).1 hrun
    | _ => cases hm

/-- `struct { x: Number, y: Number }` -/
def pointType : Node :=
  .record ⟨0, .builtin⟩ "P" [⟨.builtin, "x", .ident ⟨1, .builtin⟩ "Number"⟩,
    ⟨.builtin, "y", .ident ⟨2, .builtin⟩ "Number"⟩] none

def pointDefinitions : Definitions := ⟨[("P", pointType)]⟩

/-- A fresh machine but for a name `p` that stands for any point -/
def pointMachine : Machine :=
  let s := freshMachine pointDefinitions false
  let value := Node.selfType ⟨3, .builtin⟩ pointType
  { s with env := s.env.push { name := "p", value, transparent := false, rename := none } }

/-- The field `x` of a node -/
def abscissa (n : Node) : Node := .binOp ⟨5, .builtin⟩ .dot n (.ident ⟨6, .builtin⟩ "x")

/-- `p.x` passes, and so does `p`. -/
theorem operands_are_accepted_point :
    pointMachine.Accepts (abscissa (.ident ⟨7, .builtin⟩ "p")) ∧
    pointMachine.Accepts (.ident ⟨7, .builtin⟩ "p") := by
  have hok : ((check 12 (abscissa (.ident ⟨7, .builtin⟩ "p"))).runOn pointMachine).1.isOk = true := by
    decide +kernel
  have h : pointMachine.Accepts (abscissa (.ident ⟨7, .builtin⟩ "p")) := ⟨12, runOn_of_isOk hok⟩
  have hpoint : pointType.Older 30 := fun r hr => by
    have hid (i : Nat) (hi : i < 30) : r.id i = i := hr.id_eq i hi
    simp [pointType, Node.relabel, Node.relabelDecl, Tag.relabel, hid, hr.span_eq]
  have henv : pointMachine.env.Older 30 := by
    have hfresh : (freshMachine pointDefinitions false).env.Ready 30 :=
      (isFresh_freshMachine _ _).ready (by simpa [pointDefinitions] using hpoint)
        (List.forall_mem_nil _)
    exact hfresh.older.push (older_selfType_of (Tag.older_of_lt (by decide)) hpoint)
  have hn : (abscissa (.ident ⟨7, .builtin⟩ "p")).Older 30 := fun r hr => by
    have hid (i : Nat) (hi : i < 30) : r.id i = i := hr.id_eq i hi
    simp [abscissa, Node.relabel, Tag.relabel, hid, hr.span_eq]
  refine ⟨h, operands_are_accepted henv hn h (List.mem_singleton.2 rfl) ?_⟩
  -- `p` stays, whatever the depth
  rintro tag rhs - (_ | depth) v t hrun
  · cases hrun
  · cases hrun
    rfl

/-- `P { x = 1 }` -/
def halfPoint : Node :=
  .inst ⟨7, .builtin⟩ (.ident ⟨8, .builtin⟩ "P")
    [.assign ⟨9, .builtin⟩ (.ident ⟨10, .builtin⟩ "x") (.lit ⟨11, .builtin⟩ (.number 1)) false none]

/-- The field `x` of an instance without a `y` passes, and the instance does not. -/
theorem field_of_incomplete_instance_is_accepted :
    (freshMachine pointDefinitions true).Accepts (abscissa halfPoint) ∧
    ¬ (freshMachine pointDefinitions true).Accepts halfPoint := by
  have hok : ((check 12 (abscissa halfPoint)).runOn
      (freshMachine pointDefinitions true)).1.isOk = true := by decide +kernel
  refine ⟨⟨12, runOn_of_isOk hok⟩, ?_⟩
  rintro ⟨depth, ty, t, hrun⟩
  have hfault : (match ((check 12 halfPoint).runOn (freshMachine pointDefinitions true)).1 with
      | .error f => f.isOrdinary
      | .ok _ => false) = true := by decide +kernel
  split at hfault
  · rename_i f hfails
    have hnot := check_fails hfails hfault depth
    rw [hrun] at hnot
    cases hnot
  · cases hfault

end Residual
