/-
The checker ends on programs without calls that are layered. The number of definitions that are not
being checked, the layer and the node go down in this order. Definitions may refer to each other and to
themselves in any way that the layers leave open; a type that leads back to itself through a function is
checked without end.
-/
import Residual.Proofs.Halting

namespace Residual

namespace Layers

open Pass

variable {r : Ranking} {store : Definitions} {K : Nat}

/-! ## The walk -/

mutual

/-- The checker ends on a layered node, given that it does on all lower layers, and everywhere once one
more definition is being checked. -/
theorem Layered.checks (hstore : AreLayered r store)
    (hless : ∀ K' < K, ∀ {k n}, Layered r k n → Checks r store K' n) : ∀ {k : Nat} {n : Node},
    Layered r k n → (∀ j < k, ∀ {m}, Layered r j m → Checks r store K m) → Checks r store K n
  | _, _, .lit _ l, _ => fun _ => Returns.succ (returns_builtin l.builtin)
  | _, _, .enum .., _ | _, _, .builtin .., _ => fun _ => Returns.succ (returns_builtin .type)
  | _, _, .unknown _, _ => fun _ => Returns.succ (returns_builtin .any)
  | _, _, .ident tag h, hlower => checks_ident hstore tag h
    (fun hk _ hflat => hlower 0 hk hflat.layered) hless
  | _, _, .list tag h, hlower => checks_list tag fun n hn => (h n hn).checks hstore hless hlower
  | _, _, .record tag id range h hbelow, _ => checks_record hstore tag id range
    (fun d hd => (h d hd).checks hstore hless fun j hj => absurd hj (Nat.not_lt_zero j))
    fun d hd => ⟨h d hd, hbelow d hd⟩
  | _, _, .fnType tag id hdom hcod hbelow, _ => checks_fnType hstore tag id
    (hdom.checks hstore hless fun j hj => absurd hj (Nat.not_lt_zero j))
    (hcod.checks hstore hless fun j hj => absurd hj (Nat.not_lt_zero j))
    ⟨⟨hdom, hbelow.1⟩, hcod, hbelow.2⟩
  | _, _, .selfType _ h hbelow, _ => fun _ => Returns.succ (returns_pure ⟨h, hbelow⟩)
  | _, _, .arg _ _ h hbelow, _ | _, _, .field _ _ h hbelow, _ => fun henv => Returns.succ
    (returns_typeExpr hstore (h.checks hstore hless fun j hj => absurd hj (Nat.not_lt_zero j))
      ⟨h, hbelow⟩ henv)
  | _, _, .assign tag h _ _, hlower => checks_assign tag _ _ (h.checks hstore hless hlower)
  | _, _, .func _ hty hbelow hbody, hlower => fun henv => Returns.succ
    (returns_checkFunc hstore henv (hlower 0 (Nat.succ_pos _) hty) ⟨hty, hbelow⟩
      fun _ n hn => Checks.mono ((hbody n hn).checks hstore hless hlower)
        (Nat.le_trans (Env.pending_enterCall_le ..) henv.pending_le))
  | _, _, .binOp tag hop hl hr, hlower => checks_binOp tag hop (hl.checks hstore hless hlower)
    (hr.checks hstore hless hlower)
  | _, _, .dot tag rhs h hbelow, hlower => checks_dot hstore tag rhs
    (hlower _ (Nat.lt_succ_self _) h) ⟨h, hbelow⟩ hlower
  | _, _, .matchOn tag hs hp hb, hlower => checks_matchOn tag (hs.checks hstore hless hlower)
    (fun c hc => (hp c hc).checks hstore hless hlower)
    fun c hc n hn => (hb c hc n hn).checks hstore hless hlower
  | _, _, .whileDo tag hc hb, hlower => checks_whileDo tag (hc.checks hstore hless hlower)
    fun n hn => (hb n hn).checks hstore hless hlower
  | _, _, .ifElse tag hc ht he, hlower => checks_ifElse tag (hc.checks hstore hless hlower)
    (fun n hn => (ht n hn).checks hstore hless hlower)
    fun n hn => (he n hn).checks hstore hless hlower
  | _, _, .block tag h, hlower => checks_block tag fun n hn => (h n hn).checks hstore hless hlower
  | _, _, .inst tag ht hbelow hbody, hlower => checks_inst hstore tag
    (hlower 0 (Nat.succ_pos _) ht) ⟨ht, hbelow⟩
    (fun hflat => hlower 0 (Nat.succ_pos _) hflat.layered)
    fun n hn => (hbody n hn).checks hstore hless hlower

theorem LayeredField.checks (hstore : AreLayered r store)
    (hless : ∀ K' < K, ∀ {k n}, Layered r k n → Checks r store K' n) : ∀ {k : Nat} {n : Node},
    LayeredField r k n → (∀ j < k, ∀ {m}, Layered r j m → Checks r store K m) →
    ChecksField r store K n
  | _, _, .value _ _ _ _ h, hlower => checksField_value (h.checks hstore hless hlower) h.exists_evals
  | _, _, .other _ hn, _ => checksField_other hn

end

/-- Layered nodes end, by the number of definitions that are not being checked and the layer. -/
theorem checks_of_layered (hstore : AreLayered r store) :
    ∀ (K : Nat) {k : Nat} {n : Node}, Layered r k n → Checks r store K n := by
  intro K
  induction K using Nat.strong_induction_on with
  | _ K hless =>
    intro k
    induction k using Nat.strong_induction_on with
    | _ k hlower => exact fun h => h.checks hstore (fun K' hK => hless K' hK) hlower

end Layers

open Layers Pass

/-- Checking ends without calls: with a type, void or an error. The node and the definitions are
layered, so types are written without functions, instances and field accesses, and the names in a field
access rank below what it stands in. -/
theorem check_terminates {r : Ranking} {store : Definitions} (hstore : AreLayered r store) {k : Nat}
    {n : Node} (hn : Layered r k n) {s : Machine} (hs : s.env.IsFresh store) :
    ∃ result t depth, (∀ f, result = .error f → f.isOrdinary = true) ∧
      ∀ d ≥ depth, (check d n).runOn s = (result, t) := by
  have henv : IsCheckerEnv r store (Env.pending store s.env) s.env := by
    refine ⟨hs.store_eq, Nat.le_refl _, ?_, ?_⟩ <;> rw [hs.locals] <;> exact List.forall_mem_nil _
  obtain ⟨result, t, hends, depth, hrun⟩ := checks_of_layered hstore _ hn henv s rfl
  refine ⟨result, t, depth, ?_, hrun⟩
  rintro f rfl
  exact hends

/-- `P = struct { next: P, v: Number }`, `p = P { next = p, v = 1 }`,
`f = @x(P) if x.v < 1 then g else f` and `g = @y(P) if y.next.v < 1 then f else g` -/
def cyclicDefinitions : Definitions := ⟨[
  ("P", .record ⟨0, .builtin⟩ "P" [⟨.builtin, "next", .ident ⟨1, .builtin⟩ "P"⟩,
    ⟨.builtin, "v", .ident ⟨2, .builtin⟩ "Number"⟩] none),
  ("p", .inst ⟨3, .builtin⟩ (.ident ⟨4, .builtin⟩ "P") [
    .assign ⟨5, .builtin⟩ (.ident ⟨6, .builtin⟩ "next") (.ident ⟨7, .builtin⟩ "p") false none,
    .assign ⟨8, .builtin⟩ (.ident ⟨9, .builtin⟩ "v") (.lit ⟨10, .builtin⟩ (.number 1)) false none]),
  ("f", .func ⟨11, .builtin⟩ ⟨.builtin, "x", .ident ⟨12, .builtin⟩ "P"⟩ [
    .ifElse ⟨13, .builtin⟩ (.binOp ⟨14, .builtin⟩ .lt
      (.binOp ⟨15, .builtin⟩ .dot (.ident ⟨16, .builtin⟩ "x") (.ident ⟨17, .builtin⟩ "v"))
      (.lit ⟨18, .builtin⟩ (.number 1))) [.ident ⟨19, .builtin⟩ "g"] [.ident ⟨20, .builtin⟩ "f"]]),
  ("g", .func ⟨21, .builtin⟩ ⟨.builtin, "y", .ident ⟨22, .builtin⟩ "P"⟩ [
    .ifElse ⟨23, .builtin⟩ (.binOp ⟨24, .builtin⟩ .lt
      (.binOp ⟨25, .builtin⟩ .dot (.binOp ⟨26, .builtin⟩ .dot (.ident ⟨27, .builtin⟩ "y")
        (.ident ⟨28, .builtin⟩ "next")) (.ident ⟨29, .builtin⟩ "v"))
      (.lit ⟨30, .builtin⟩ (.number 1))) [.ident ⟨31, .builtin⟩ "f"] [.ident ⟨32, .builtin⟩ "g"]])]⟩

/-- `{ q = p.next; if q.v < 1 then f else g }` -/
def cyclicProgram : Node :=
  .block ⟨33, .builtin⟩ [
    .assign ⟨34, .builtin⟩ (.ident ⟨35, .builtin⟩ "q") (.binOp ⟨36, .builtin⟩ .dot
      (.ident ⟨37, .builtin⟩ "p") (.ident ⟨38, .builtin⟩ "next")) false none,
    .ifElse ⟨39, .builtin⟩ (.binOp ⟨40, .builtin⟩ .lt
      (.binOp ⟨41, .builtin⟩ .dot (.ident ⟨42, .builtin⟩ "q") (.ident ⟨43, .builtin⟩ "v"))
      (.lit ⟨44, .builtin⟩ (.number 1))) [.ident ⟨45, .builtin⟩ "f"] [.ident ⟨46, .builtin⟩ "g"]]

def cyclicRanking : Ranking := .ofStem fun stem =>
  if stem = ['p'] then 1 else if stem ∈ [['f'], ['g'], ['q']] then 2 else 0

theorem layered_branch {r : Ranking} {k : Nat} {lhs : Node} {x y : Name} {tag t₁ t₂ t₃ t₄ : Tag}
    (h : Layered r (k + 1) lhs) : Layered r (k + 1)
      (.ifElse tag (.binOp t₁ .lt lhs (.lit t₂ (.number 1))) [.ident t₃ x] [.ident t₄ y]) := by
  refine .ifElse tag (.binOp t₁ (by decide) h (.lit t₂ _)) ?_ ?_ <;>
    exact List.forall_mem_singleton.2 (.ident _ (by simp))

theorem layered_dot_ident {r : Ranking} {k : Nat} {x : Name} {tag t : Tag} {rhs : Node}
    (h : r.rank x ≤ k) : Layered r (k + 1) (.binOp tag .dot (.ident t x) rhs) :=
  .dot tag rhs (.ident t fun hk => by omega) (Node.within_ident.2 h)

theorem areLayered_cyclicDefinitions : AreLayered cyclicRanking cyclicDefinitions := by
  intro x d v h
  have hmem := Definitions.mem_entries_of_lookup h
  simp only [cyclicDefinitions, List.mem_cons, List.not_mem_nil, or_false, Prod.mk.injEq] at hmem
  rcases hmem with ⟨rfl, rfl⟩ | ⟨rfl, rfl⟩ | ⟨rfl, rfl⟩ | ⟨rfl, rfl⟩ <;>
    refine ⟨?_, by decide +kernel⟩
  · refine .record _ _ _ ?_ ?_
    · exact List.forall_mem_cons.2 ⟨.ident _ (by decide),
        List.forall_mem_singleton.2 (.ident _ (by decide))⟩
    · decide +kernel
  · refine .inst (k := 0) _ (.ident _ (by decide)) (by decide +kernel) ?_
    exact List.forall_mem_cons.2 ⟨.value _ _ _ _ (.ident _ (by decide)),
      List.forall_mem_singleton.2 (.value _ _ _ _ (.lit _ _))⟩
  · exact .func (k := 1) _ (.ident _ (by decide)) (by decide +kernel)
      (List.forall_mem_singleton.2 (layered_branch (layered_dot_ident (by decide +kernel))))
  · exact .func (k := 1) _ (.ident _ (by decide)) (by decide +kernel)
      (List.forall_mem_singleton.2 (layered_branch (.dot _ _
        (layered_dot_ident (by decide +kernel)) (by decide +kernel))))

theorem layered_cyclicProgram : Layered cyclicRanking 3 cyclicProgram := by
  refine .block _ (List.forall_mem_cons.2 ⟨?_, List.forall_mem_singleton.2 ?_⟩)
  · have hnext {tag t₁ t₂ : Tag} : Layered cyclicRanking 2
        (.binOp tag .dot (.ident t₁ "p") (.ident t₂ "next")) := layered_dot_ident (by decide +kernel)
    refine .assign _ (hnext.mono (by decide)) ?_ ?_
    · rintro _ ⟨⟩
      exact hnext
    · rintro _ ⟨⟩
      decide +kernel
  · exact layered_branch (layered_dot_ident (by decide +kernel))

theorem check_terminates_cyclic : ∃ result t depth, (∀ f, result = .error f → f.isOrdinary = true) ∧
    ∀ d ≥ depth, (check d cyclicProgram).runOn (freshMachine cyclicDefinitions true) = (result, t) :=
  check_terminates areLayered_cyclicDefinitions layered_cyclicProgram (isFresh_freshMachine _ _)

/-- `@x(f) x` -/
def selfTyped : Node :=
  .func ⟨0, .builtin⟩ ⟨.builtin, "x", .ident ⟨1, .builtin⟩ "f"⟩ [.ident ⟨2, .builtin⟩ "x"]

def selfTypedDefinitions : Definitions := ⟨[("f", selfTyped)]⟩

theorem check_selfTyped_exhausted (tag : Tag) : ∀ depth : Nat,
    ((check depth (.ident tag "f")).runOn (freshMachine selfTypedDefinitions true)).1 =
      .error .exhausted
  | 0 => rfl
  | 1 => rfl
  | depth + 2 => by
    -- the name leads to the function, and the function to the type of its parameter, in the machine
    -- that there was at first
    have htype := check_selfTyped_exhausted ⟨1, .builtin⟩ depth
    show ((check (depth + 1) selfTyped).runOn (freshMachine selfTypedDefinitions true)).1 = _
    rw [check, selfTyped, Check.step, Check.checkFunc, runOn_bind, runOn_env]
    exact runOn_bind_of_error (runOn_bind_of_error (runOn_bind_of_error htype))

/-- `R { f = a }` -/
def selfOwner : Node :=
  .inst ⟨2, .builtin⟩ (.ident ⟨3, .builtin⟩ "R") [
    .assign ⟨4, .builtin⟩ (.ident ⟨5, .builtin⟩ "f") (.ident ⟨6, .builtin⟩ "a") false none]

/-- `R { f = a }.f` -/
def selfField : Node := .binOp ⟨7, .builtin⟩ .dot selfOwner (.ident ⟨8, .builtin⟩ "f")

/-- `R = struct { f: Number }` and `a = R { f = a }.f` -/
def selfFieldDefinitions : Definitions := ⟨[
  ("R", .record ⟨0, .builtin⟩ "R" [⟨.builtin, "f", .ident ⟨1, .builtin⟩ "Number"⟩] none),
  ("a", selfField)]⟩

/-- The environment in which the definition of `a` is checked. -/
def selfFieldEnv : Env := (freshMachine selfFieldDefinitions true).env.enterCall selfField

theorem eval_selfOwner (depth : Nat) (nodes : Counter) : ∃ tag tag' template t,
    (eval (depth + 3) selfOwner).runOn ⟨selfFieldEnv, nodes⟩ =
      (.ok (.inst tag template [.assign tag' (.ident ⟨5, .builtin⟩ "f") selfField false none]),
        ⟨selfFieldEnv, t⟩) :=
  ⟨_, _, _, _, rfl⟩

theorem check_selfField_exhausted : ∀ (depth : Nat) (nodes : Counter),
    ((check depth selfField).runOn ⟨selfFieldEnv, nodes⟩).1 = .error .exhausted
  | 0, _ | 1, _ | 2, _ | 3, _ => rfl
  | depth + 4, nodes => by
    -- evaluation has put the definition in the field, where it is checked as it comes, though it is
    -- on the stack
    obtain ⟨tag, tag', template, t, howner⟩ := eval_selfOwner depth nodes
    have hdot : (check (depth + 4) selfField).runOn ⟨selfFieldEnv, nodes⟩ =
        (check (depth + 3) selfField).runOn ⟨selfFieldEnv, t⟩ := by
      show (eval (depth + 3) selfOwner >>= _).runOn _ = _
      rw [runOn_bind, howner]
      rfl
    rw [hdot]
    exact check_selfField_exhausted (depth + 3) t

/-- No depth is enough to check the node. -/
def Diverges (store : Definitions) (n : Node) : Prop :=
  ∀ depth, ((check depth n).runOn (freshMachine store true)).1 = .error .exhausted

/-- Without layers checking may have no end: for a function whose parameter is declared with the
function itself, and for a field whose value is the field access that it is looked up by. -/
theorem check_diverges : Diverges selfTypedDefinitions (.ident ⟨3, .builtin⟩ "f") ∧
    Diverges selfFieldDefinitions (.ident ⟨9, .builtin⟩ "a") := by
  refine ⟨check_selfTyped_exhausted ⟨3, .builtin⟩, fun depth => ?_⟩
  cases depth with
  | zero => rfl
  | succ depth =>
    cases depth with
    | zero => rfl
    | succ depth => exact check_selfField_exhausted (depth + 1) _

end Residual
