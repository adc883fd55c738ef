/-
The checker finds no function where the type of a callee tells otherwise, so long as it is cautious: at
each call the callee has a function type, or it is inert and does not evaluate to a function. Callees of
three other kinds do lead to a contradiction.
-/
import Residual.Proofs.Preservation
import Residual.Proofs.Sanity

namespace Residual

open Pass

/-- The cautious checker never finds a function against the type of its callee. -/
theorem sane_cautious : ∀ depth : Nat, Sane (cautious depth)
  | 0, _, _, _, _, _ => settles_throw fun _ _ h => by cases h
  | depth + 1, env, c, n, henv, hn => by
    rintro s rfl hc
    have hev := keeps_eval_sane depth
    have hck := sane_cautious depth
    have hs := henv.mono hc
    have hn := hn.mono hc
    rcases Check.runOn_heed (eval depth) (cautious depth) n s with ⟨hrun, hsafe⟩ | hrun
    · suffices hstep : TracksAt Benign s (Check.step (eval depth) (cautious depth) n)
          fun c ty e => ty.Older c ∧ e = s.env by
        rwa [TracksAt, ← hrun] at hstep
      cases hcallee : n.callee? with
      | none =>
        exact Sane.settles_step (restores_eval depth) (restores_cautious depth) hev hck hs hn hcallee
          rfl (Nat.le_refl _)
      | some callee =>
        cases n with
        | call tag f arg =>
          -- only here could a function be found against the type of the callee
          refine Sane.tracksAt_checkCall hev hck hs hn fun ty t hty => ?_
          have hsafe : Check.isSafeCallee (cautious depth) s f = true := hsafe
          rw [Check.isSafeCallee, hty, Bool.or_eq_true] at hsafe
          exact hsafe.imp_right fun h =>
            Callees.denies_of_isInert hs (Node.older_call hn).1 h depth
        | _ => cases hcallee
    · show TracksAt Benign s (Check.heed (eval depth) (cautious depth) n) _
      rw [TracksAt, hrun]
      exact ⟨Nat.le_refl _, fun _ _ h => by cases h⟩

/-- The identities of a fresh environment are those of its definitions and links. -/
theorem Env.IsFresh.ready {store : Definitions} {env : Env} {c : Nat} (h : env.IsFresh store)
    (hstore : ∀ entry ∈ store.entries, entry.2.Older c)
    (hlinks : ∀ entry ∈ env.links.entries, entry.1 < c) : env.Ready c := by
  constructor
  · intro r hr
    have hlocals : env.locals.relabel r = env.locals := by
      rw [h.locals]
      exact Locals.eq_of_bindings_eq rfl
    have hcalls : env.calls.relabel r = env.calls := by
      rw [h.calls]
      exact Calls.eq_of_nodes_eq rfl
    have hdefs : env.store.relabel r = env.store := by
      rw [h.store_eq, Definitions.relabel]
      congr 1
      refine (List.map_inj_left.2 fun entry hentry => ?_).trans (List.map_id _)
      rw [hstore entry hentry hr]
      rfl
    have hlinked : env.links.relabel r = env.links := by
      rw [Links.relabel]
      congr 1
      refine (List.map_inj_left.2 fun entry hentry => ?_).trans (List.map_id _)
      rw [hr.id_eq _ (hlinks entry hentry)]
      rfl
    rw [Env.relabel, hlocals, hcalls, hdefs, hlinked]
  · rw [h.locals]
    exact List.forall_mem_nil _

/-- A callee that evaluates to a function has a function type. The identities of the node and of the
definitions come from the counter. At each call that is checked, the callee has a function type or is
inert: it takes its value from a local name, it is no branch, sequence or field that has not been looked
up, or it is a branch whose arms are inert. -/
theorem check_is_consistent {store : Definitions} {n : Node} {s : Machine} {depth : Nat}
    (hs : s.env.IsFresh store) (hstore : ∀ entry ∈ store.entries, entry.2.Older s.nodes.next)
    (hlinks : ∀ entry ∈ s.env.links.entries, entry.1 < s.nodes.next) (hn : n.Older s.nodes.next)
    (hcautious : ((cautious depth n).runOn s).1 ≠ .error .exhausted) (func ty : Node) :
    ((check depth n).runOn s).1 ≠ .error (.contradiction func ty) := by
  rw [approximates_cautious depth n s hcautious]
  obtain ⟨-, hends⟩ := sane_cautious depth (hs.ready hstore hlinks) hn rfl (Nat.le_refl _)
  intro hfault
  rw [hfault] at hends
  exact hends func ty rfl

/-- `R = struct { f: Function }`, `app = @x(R) x.f(1)` and
`pick = @c(Bool) @k(Function) (if c then k(1) else k)(2)` -/
def pickDefinitions : Definitions := ⟨[
  ("R", .record ⟨0, .builtin⟩ "R" [⟨.builtin, "f", .ident ⟨1, .builtin⟩ "Function"⟩] none),
  ("app", .func ⟨2, .builtin⟩ ⟨.builtin, "x", .ident ⟨3, .builtin⟩ "R"⟩ [
    .call ⟨4, .builtin⟩
      (.binOp ⟨5, .builtin⟩ .dot (.ident ⟨6, .builtin⟩ "x") (.ident ⟨7, .builtin⟩ "f"))
      (.lit ⟨8, .builtin⟩ (.number 1))]),
  ("pick", .func ⟨9, .builtin⟩ ⟨.builtin, "c", .ident ⟨10, .builtin⟩ "Bool"⟩ [
    .func ⟨11, .builtin⟩ ⟨.builtin, "k", .ident ⟨12, .builtin⟩ "Function"⟩ [
      .call ⟨13, .builtin⟩ (.ifElse ⟨14, .builtin⟩ (.ident ⟨15, .builtin⟩ "c")
          [.call ⟨16, .builtin⟩ (.ident ⟨17, .builtin⟩ "k") (.lit ⟨18, .builtin⟩ (.number 1))]
          [.ident ⟨19, .builtin⟩ "k"])
        (.lit ⟨20, .builtin⟩ (.number 2))]])]⟩

/-- `{ app; pick(false)(@y(Number) y) }` -/
def pickProgram : Node :=
  .block ⟨21, .builtin⟩ [.ident ⟨22, .builtin⟩ "app",
    .call ⟨23, .builtin⟩
      (.call ⟨24, .builtin⟩ (.ident ⟨25, .builtin⟩ "pick") (.lit ⟨26, .builtin⟩ (.bool false)))
      (.func ⟨27, .builtin⟩ ⟨.builtin, "y", .ident ⟨28, .builtin⟩ "Number"⟩
        [.ident ⟨29, .builtin⟩ "y"])]

theorem check_is_consistent_pick :
    ((cautious 20 pickProgram).runOn (freshMachine pickDefinitions true)).1.isOk = true ∧
    ∀ func ty, ((check 20 pickProgram).runOn (freshMachine pickDefinitions true)).1 ≠
      .error (.contradiction func ty) := by
  have hok : ((cautious 20 pickProgram).runOn (freshMachine pickDefinitions true)).1.isOk = true := by
    decide +kernel
  have hcautious : ((cautious 20 pickProgram).runOn (freshMachine pickDefinitions true)).1 ≠
      .error .exhausted := by
    obtain ⟨ty, t, hrun⟩ := runOn_of_isOk hok
    rw [hrun]
    intro h
    cases h
  refine ⟨hok, check_is_consistent (isFresh_freshMachine _ _) ?_ (List.forall_mem_nil _) ?_ hcautious⟩
  · simp only [pickDefinitions, List.forall_mem_cons]
    refine ⟨?_, ?_, ?_, List.forall_mem_nil _⟩ <;> intro r hr <;>
      have hid (i : Nat) (hi : i < 30) : r.id i = i := hr.id_eq i hi
    all_goals simp [Node.relabel, Node.relabelDecl, Tag.relabel, hid, hr.span_eq]
  · intro r hr
    have hid (i : Nat) (hi : i < 30) : r.id i = i := hr.id_eq i hi
    simp [pickProgram, Node.relabel, Node.relabelDecl, Tag.relabel, hid, hr.span_eq]

/-- `@k(Function) (if false then k else @y(Number) y)(1)` -/
def branchCallee : Node :=
  .func ⟨0, .builtin⟩ ⟨.builtin, "k", .ident ⟨1, .builtin⟩ "Function"⟩ [
    .call ⟨2, .builtin⟩ (.ifElse ⟨3, .builtin⟩ (.lit ⟨4, .builtin⟩ (.bool false))
        [.ident ⟨5, .builtin⟩ "k"]
        [.func ⟨6, .builtin⟩ ⟨.builtin, "y", .ident ⟨7, .builtin⟩ "Number"⟩
          [.ident ⟨8, .builtin⟩ "y"]])
      (.lit ⟨9, .builtin⟩ (.number 1))]

/-- `{ a = @x(Function) x; a(@y(Number) y) }(2)` -/
def blockCallee : Node :=
  .call ⟨0, .builtin⟩ (.block ⟨1, .builtin⟩ [
      .assign ⟨2, .builtin⟩ (.ident ⟨3, .builtin⟩ "a")
        (.func ⟨4, .builtin⟩ ⟨.builtin, "x", .ident ⟨5, .builtin⟩ "Function"⟩
          [.ident ⟨6, .builtin⟩ "x"]) false none,
      .call ⟨7, .builtin⟩ (.ident ⟨8, .builtin⟩ "a")
        (.func ⟨9, .builtin⟩ ⟨.builtin, "y", .ident ⟨10, .builtin⟩ "Number"⟩
          [.ident ⟨11, .builtin⟩ "y"])])
    (.lit ⟨12, .builtin⟩ (.number 2))

/-- `R = struct { f: Function }` and `r = R { f = @y(Number) y }` -/
def fieldDefinitions : Definitions := ⟨[
  ("R", .record ⟨0, .builtin⟩ "R" [⟨.builtin, "f", .ident ⟨1, .builtin⟩ "Function"⟩] none),
  ("r", .inst ⟨2, .builtin⟩ (.ident ⟨3, .builtin⟩ "R") [
    .assign ⟨4, .builtin⟩ (.ident ⟨5, .builtin⟩ "f")
      (.func ⟨6, .builtin⟩ ⟨.builtin, "y", .ident ⟨7, .builtin⟩ "Number"⟩
        [.ident ⟨8, .builtin⟩ "y"]) false none])]⟩

/-- `@x(Number) r.f(x)` -/
def fieldCallee : Node :=
  .func ⟨9, .builtin⟩ ⟨.builtin, "x", .ident ⟨10, .builtin⟩ "Number"⟩ [
    .call ⟨11, .builtin⟩
      (.binOp ⟨12, .builtin⟩ .dot (.ident ⟨13, .builtin⟩ "r") (.ident ⟨14, .builtin⟩ "f"))
      (.ident ⟨15, .builtin⟩ "x")]

/-- A callee may be a function against its type: as an arm of a branch that is not its first one, as the
value of a sequence that was known by its type, and as the field of a record where names are kept. -/
theorem check_is_contradictory :
    let Contradicts (store : Definitions) (n : Node) : Prop := ∃ func ty,
      ((check 12 n).runOn (freshMachine store true)).1 = .error (.contradiction func ty)
    Contradicts .empty branchCallee ∧ Contradicts .empty blockCallee ∧
      Contradicts fieldDefinitions fieldCallee := by
  intro Contradicts
  have hfault {store : Definitions} {n : Node}
      (h : (match ((check 12 n).runOn (freshMachine store true)).1 with
        | .error (.contradiction ..) => true
        | _ => false) = true) : Contradicts store n := by
    split at h
    · rename_i func ty hrun
      exact ⟨func, ty, hrun⟩
    · cases h
  exact ⟨hfault (by decide +kernel), hfault (by decide +kernel), hfault (by decide +kernel)⟩

end Residual
