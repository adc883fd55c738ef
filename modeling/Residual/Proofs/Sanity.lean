/-
Checking without contradictions, step by step. From an environment in which only the types of local
names are known, each step of the checker ends with a type that is as old as the counter, or with a
fault that is not the one of a function against the type of its callee. Only a call can have that fault,
and it does not if its callee has a function type or is no function.
-/
import Residual.Proofs.Callees
import Residual.Proofs.Conduct

namespace Residual

open Pass

namespace Env.Ready

variable {env : Env} {c c' : Nat}

theorem mono (h : env.Ready c) (hle : c ≤ c') : env.Ready c' := ⟨h.older.mono hle, h.placeholders⟩

theorem push (h : env.Ready c) (x : Name) {ty : Node} {t : Tag} (transparent : Bool)
    (hv : (Node.selfType t ty).Older c) :
    (env.push ⟨x, .selfType t ty, transparent, none⟩).Ready c :=
  ⟨h.older.push hv, List.forall_mem_cons.2 ⟨rfl, h.placeholders⟩⟩

theorem enterCall (h : env.Ready c) {n : Node} (hn : n.Older c) : (env.enterCall n).Ready c :=
  ⟨h.older.enterCall hn, h.placeholders⟩

theorem resolve (h : env.Ready c) (b : Bool) : { env with resolve := b }.Ready c :=
  ⟨h.older.resolve b, h.placeholders⟩

theorem globals (h : env.Ready c) : { env with locals := .empty }.Ready c :=
  ⟨h.older.globals, List.forall_mem_nil _⟩

end Env.Ready

theorem Node.Older.child {m n : Node} {c : Nat} (h : n.Older c) (hm : m ∈ n.children) :
    m.Older c := by
  cases n with
  | lit | enum | builtin | ident | unknown => cases hm
  | list => exact older_list h m hm
  | block => exact older_block h m hm
  | record =>
    obtain ⟨d, hd, rfl⟩ := List.mem_map.1 hm
    exact older_record h d hd
  | fnType =>
    obtain ⟨hdom, hcod⟩ := older_fnType h
    exact List.forall_mem_cons.2 ⟨hdom, List.forall_mem_singleton.2 hcod⟩ m hm
  | selfType => exact List.mem_singleton.1 hm ▸ older_selfType h
  | arg => exact List.mem_singleton.1 hm ▸ older_arg h
  | field => exact List.mem_singleton.1 hm ▸ older_field h
  | assign => exact List.mem_singleton.1 hm ▸ older_assign h
  | func => exact List.forall_mem_cons.2 (older_func h) m hm
  | call =>
    obtain ⟨hf, ha⟩ := older_call h
    exact List.forall_mem_cons.2 ⟨hf, List.forall_mem_singleton.2 ha⟩ m hm
  | binOp t op lhs rhs =>
    obtain ⟨hlhs, hrhs⟩ := older_binOp h
    rw [children] at hm
    split at hm
    · exact List.mem_singleton.1 hm ▸ hlhs
    · exact List.forall_mem_cons.2 ⟨hlhs, List.forall_mem_singleton.2 hrhs⟩ m hm
  | matchOn =>
    obtain ⟨hscrutinee, hcases⟩ := older_matchOn h
    rcases List.mem_cons.1 hm with rfl | hm
    · exact hscrutinee
    · obtain ⟨e, he, hm⟩ := List.mem_flatMap.1 hm
      exact List.forall_mem_cons.2 (hcases e he) m hm
  | whileDo => exact List.forall_mem_cons.2 (older_whileDo h) m hm
  | ifElse =>
    obtain ⟨hcondition, hthen, helse⟩ := older_ifElse h
    exact List.forall_mem_cons.2 ⟨hcondition, List.forall_mem_append.2 ⟨hthen, helse⟩⟩ m hm
  | inst =>
    obtain ⟨htemplate, hbody⟩ := older_inst h
    rcases List.mem_cons.1 hm with rfl | hm
    · exact htemplate
    · exact hbody m (List.mem_filter.1 hm).1

/-- Of local names only the types are known, nodes are as old as the counter, and no function is found
against the type of its callee. -/
def Regime.sane : Regime where
  Ready c env := env.Ready c
  Fit c n := n.Older c
  Value c n := n.Older c
  Ty c n := n.Older c
  Fine := Benign
  ready_mono h hle := h.mono hle
  fit_mono h hle := h.mono hle
  value_mono h hle := h.mono hle
  ty_mono h hle := h.mono hle
  fit_of_value h := h
  value_of_ty h := h
  ty_of_value h _ := h
  child h hm := h.child hm
  signature h := Node.older_fnType h
  content h := Node.older_selfType h
  builtin b _ _ ht := Node.older_builtin (Tag.older_of_lt ht) b
  selfType _ hle ht hty := Node.older_selfType_of (Tag.older_of_lt ht)
    (hty.mono (Nat.le_of_lt (Nat.lt_of_le_of_lt hle ht)))
  fnType id _ hle ht hdom hcod := by
    have hle := Nat.le_of_lt (Nat.lt_of_le_of_lt hle ht)
    exact Node.older_fnType_of (Tag.older_of_lt ht) id (hdom.mono hle) (hcod.mono hle)
  push x transparent h hv := h.push x transparent hv
  resolve b h := h.resolve b
  globals h := h.globals
  bound h hx := h.older.bound hx
  defined h _ hx := h.older.defined hx
  error e := fun _ _ h => by cases h

/-- A checker that ends with an old type, or with a benign fault. -/
abbrev Sane (ck : Node → Pass Node) : Prop := Regime.sane.Checks ck

theorem keeps_eval_sane (depth : Nat) : Regime.sane.Evals (eval depth) :=
  fun _ _ _ henv hn => settles_eval henv.older hn depth

namespace Sane

open Regime

variable {ev ck : Node → Pass Node} {env : Env} {c : Nat} {n : Node}

theorem benign_void : Benign .void := fun _ _ h => by cases h

/-- A call, with a callee that has a function type or is no function. -/
theorem tracksAt_checkCall (hev : Regime.sane.Evals ev) (hck : Sane ck) {s : Machine}
    (hs : s.env.Ready s.nodes.next) {tag : Tag} {callee arg : Node}
    (hn : (Node.call tag callee arg).Older s.nodes.next)
    (hsafe : ∀ ty t, (ck callee).runOn s = (.ok ty, t) → ty.isFnType = true ∨
      Settles AnyFault { s.env with resolve := true } s.nodes.next (ev callee)
        fun _ v => v.isFunc = false) :
    TracksAt Benign s (Check.checkCall ev ck tag callee arg)
      fun c ty e => ty.Older c ∧ e = s.env := by
  obtain ⟨hcallee, harg⟩ := Node.older_call hn
  refine TracksAt.bind (hck hs hcallee rfl (Nat.le_refl _)) ?_
  rintro t calleeType hle hrun ⟨hty, henv⟩
  -- from here on, only the environment counts and that the counter is past the callee
  refine Settles.bind (settles_signature (R := .sane) hty _) (fun c₁ declared hle₁ hdeclared => ?_)
    henv (Nat.le_refl _)
  obtain ⟨hdeclared, hknown⟩ := hdeclared
  have hle₁ := Nat.le_trans hle hle₁
  refine (hck (hs.mono hle₁) (harg.mono hle₁)).bind fun c₂ argType hle₂ _ => ?_
  have hle₂ := Nat.le_trans hle₁ hle₂
  have hfunction : Settles Benign s.env c₂ (under (.resolve true) (ev callee)) fun c v =>
      v.Older c ∧ (calleeType.isFnType = true ∨ v.isFunc = false) := by
    have hold := settles_evalType hev (hs.mono hle₂) (hcallee.mono hle₂)
    rcases hsafe calleeType t hrun with hfn | hdenies
    · exact hold.mono fun _ _ hv => ⟨hv, .inl hfn⟩
    · have hdenies : Settles AnyFault s.env c₂ (under (.resolve true) (ev callee))
          fun _ v => v.isFunc = false :=
        Settles.under (g := .resolve true) (Tracks.of_le hdenies hle₂) (Guard.lawful_resolve true)
      exact (hold.and hdenies).mono fun _ _ hv => ⟨hv.1, .inr hv.2⟩
  refine hfunction.bind fun c₃ function hle₃ hfunction => ?_
  obtain ⟨hfunction, hfunc⟩ := hfunction
  have hdeclared {dom cod : Node} (h : declared = some (dom, cod)) {c' : Nat} (hc' : c₃ ≤ c') :
      dom.Older c' ∧ cod.Older c' := by
    obtain ⟨hdom, hcod⟩ := hdeclared dom cod h
    exact ⟨Node.Older.mono hdom (by omega), Node.Older.mono hcod (by omega)⟩
  split
  · rename_i param _ _ _ _
    refine (settles_checkArg (R := .sane) _ _ _ _ _).bind fun c₄ _ hle₄ _ => ?_
    have hs₄ := hs.mono (show s.nodes.next ≤ c₄ by omega)
    refine (settles_evalType hev hs₄ (hn.mono (show s.nodes.next ≤ c₄ by omega))).bind
      fun c₅ result hle₅ hresult => ?_
    refine (settles_placeholder (R := .sane) (hs₄.mono hle₅) _ (hdeclared rfl (by omega)).1).bind ?_
    rintro c₆ _ hle₆ ⟨vtag, rfl, hv⟩
    have hinner := ((hs.mono (show s.nodes.next ≤ c₆ by omega)).enterCall
      (hfunction.mono (by omega))).push param.name true hv
    exact Settles.under (Settles.under (hck hinner (hresult.mono hle₆)) (Guard.lawful_binding _))
      (Guard.lawful_call _)
  · -- the callee is a function, so it has a function type, which tells its signature
    rcases hfunc with hfn | hfunc
    · cases calleeType with
      | fnType t id dom cod => exact absurd rfl (hknown t id dom cod rfl)
      | _ => cases hfn
    · cases hfunc
  · rename_i dom cod _
    refine (settles_checkArg (R := .sane) _ _ _ _ _).bind fun c₄ _ hle₄ _ =>
      settles_pure fun c₅ hle₅ => ?_
    exact (hdeclared rfl (Nat.le_trans hle₄ hle₅)).2
  · exact settles_builtin (R := .sane) (hs.mono (by omega)) .any

/-- One step at a node that is no call. -/
theorem settles_step (he : ∀ n, Restores (ev n)) (hc : ∀ n, Restores (ck n))
    (hev : Regime.sane.Evals ev) (hck : Sane ck) (henv : env.Ready c) (hn : n.Older c)
    (hcall : n.callee? = none) :
    Settles Benign env c (Check.step ev ck n) fun c ty => ty.Older c := by
  refine Regime.settles_step (R := .sane) he hc hev hck henv hn ?_ ?_ ?_
  · rintro tag param body rfl
    obtain ⟨hparam, hbody⟩ := Node.older_func hn
    exact settles_checkFunc hc hev hck henv hparam hbody (henv.enterCall hn) fun _ => benign_void
  · rintro tag callee arg rfl
    cases hcall
  · intro tag x d v c' _ hx _ hle
    have hv := (henv.older.defined hx).mono hle
    have henv := (henv.mono hle).globals
    exact settles_checkDefined hck (henv.enterCall hv) hv fun _ => benign_void

end Sane

end Residual
