/-
The name of a parameter. Checking a function does not depend on what its parameter is called, as long
as neither name is in anybody's way: a definition that binds the name of the parameter itself is put
under the binder of the caller and captures it. With names that neither the definitions nor the
declared type mention, the renamed function has the renamed type, or both fail.
-/
import Residual.Proofs.Accord
import Residual.Proofs.Names
import Residual.Proofs.Preservation

namespace Residual

/-- The name that is used in place of `x` once `q` is used in place of `p`. -/
def Name.renamed (p q x : Name) : Name := if x = p then q else x

namespace Node

/-! ## Renaming -/

section

variable (p q : Name)

mutual

/-- The node with `q` used in place of `p`. Binders, fields and members stay as they are. -/
def rename : Node → Node
  | lit t value => lit t value
  | list t items => list t (renameList items)
  | record t id fields range => record t id (renameDecls fields) range
  | enum t id members => enum t id members
  | fnType t id dom cod => fnType t id (rename dom) (rename cod)
  | selfType t ty => selfType t (rename ty)
  | builtin t b => builtin t b
  | arg t x ty => arg t x (rename ty)
  | assign t target value transparent link => assign t target (rename value) transparent link
  | ident t x => ident t (Name.renamed p q x)
  | func t param body => func t (renameDecl param) (renameList body)
  | call t f a => call t (rename f) (rename a)
  | binOp t op lhs rhs => binOp t op (rename lhs) (if op = .dot then rhs else rename rhs)
  | field t x ty => field t x (rename ty)
  | matchOn t scrutinee cases => matchOn t (rename scrutinee) (renameCases cases)
  | whileDo t condition body => whileDo t (rename condition) (renameList body)
  | ifElse t condition thenBody elseBody =>
    ifElse t (rename condition) (renameList thenBody) (renameList elseBody)
  | block t items => block t (renameList items)
  | inst t template body => inst t (rename template) (renameItems body)
  | unknown t => unknown t

def renameList : List Node → List Node
  | [] => []
  | n :: ns => rename n :: renameList ns

def renameDecl : Decl Node → Decl Node
  | ⟨span, x, ty⟩ => ⟨span, x, rename ty⟩

def renameDecls : List (Decl Node) → List (Decl Node)
  | [] => []
  | d :: ds => renameDecl d :: renameDecls ds

def renameCases : List (Case Node) → List (Case Node)
  | [] => []
  | ⟨span, pattern, body⟩ :: cs => ⟨span, rename pattern, renameList body⟩ :: renameCases cs

/-- Members name themselves. -/
def renameItems : List Node → List Node
  | [] => []
  | ident t x :: ns => ident t x :: renameItems ns
  | n :: ns => rename n :: renameItems ns

end

end

/-! ## Names that are used and names that are bound -/

section

variable (used bound : Name → Bool)

mutual

/-- The names that the node uses satisfy `used`, those that it binds satisfy `bound`, and the bodies
of its instances hold aliases and members only. -/
def respects : Node → Bool
  | lit .. | enum .. | builtin .. | unknown .. => true
  | list _ items | block _ items => respectsList items
  | record _ _ fields _ => respectsDecls fields
  | fnType _ _ dom cod => respects dom && respects cod
  | selfType _ ty | arg _ _ ty | field _ _ ty => respects ty
  | assign _ target value _ _ => target.ident?.all bound && respects value
  | ident _ x => used x
  | func _ ⟨_, x, ty⟩ body => bound x && respects ty && respectsList body
  | call _ f a => respects f && respects a
  | binOp _ op lhs rhs => respects lhs && (op == .dot || respects rhs)
  | matchOn _ scrutinee cases => respects scrutinee && respectsCases cases
  | whileDo _ condition body => respects condition && respectsList body
  | ifElse _ condition thenBody elseBody =>
    respects condition && respectsList thenBody && respectsList elseBody
  | inst _ template body => respects template && respectsItems body

def respectsList : List Node → Bool
  | [] => true
  | n :: ns => respects n && respectsList ns

def respectsDecls : List (Decl Node) → Bool
  | [] => true
  | ⟨_, _, ty⟩ :: ds => respects ty && respectsDecls ds

def respectsCases : List (Case Node) → Bool
  | [] => true
  | ⟨_, pattern, body⟩ :: cs => respects pattern && respectsList body && respectsCases cs

def respectsItems : List Node → Bool
  | [] => true
  | assign _ _ value _ _ :: ns => respects value && respectsItems ns
  | ident .. :: ns => respectsItems ns
  | _ :: _ => false

end

end

end Node

/-! ## The likeness of a renaming -/

/-- Two names that a parameter may have in each other's place: neither is made up by evaluation,
built in, or the pattern of everything. -/
structure Name.Interchange (p q : Name) : Prop where
  plain_left : '#' ∉ p.toList
  plain_right : '#' ∉ q.toList
  builtin_left : Builtin.ofName? p = none
  builtin_right : Builtin.ofName? q = none
  wildcard_left : p ≠ "_"
  wildcard_right : q ≠ "_"

/-- The second name is used in place of the first, and binders have neither. -/
def Likeness.renaming {p q : Name} (h : Name.Interchange p q) : Likeness where
  id i := i
  since := 0
  ahead := 0
  used x x' := x ≠ q ∧ x' = Name.renamed p q x
  bound x := x ≠ p ∧ x ≠ q
  toPlacement := .same
  injective _ _ heq := heq
  made _ _ := rfl
  used_iff := by
    rintro x x' y y' ⟨hx, rfl⟩ ⟨hy, rfl⟩
    unfold Name.renamed
    split <;> split <;> simp_all [eq_comm]
  bound_used := by
    rintro x ⟨hp, hq⟩
    exact ⟨hq, (if_neg hp).symm⟩
  bound_suffixed := by
    rintro x k -
    constructor
    · rintro rfl
      exact h.plain_left (Env.mem_suffixed x k)
    · rintro rfl
      exact h.plain_right (Env.mem_suffixed x k)
  used_builtin := by
    rintro x x' ⟨-, rfl⟩
    unfold Name.renamed
    split
    · rename_i hx
      rw [hx, h.builtin_left, h.builtin_right]
    · rfl
  used_wildcard := by
    rintro x x' ⟨-, rfl⟩
    unfold Name.renamed
    split
    · rename_i hx
      simp [hx, h.wildcard_left, h.wildcard_right]
    · rfl

namespace Node

section

variable {p q : Name} {used bound : Name → Bool}

mutual

theorem rename_of_respects (hu : ∀ x, used x = true → x ≠ p) :
    ∀ n : Node, n.respects used bound = true → n.rename p q = n
  | lit .., _ | enum .., _ | builtin .., _ | unknown _, _ => rfl
  | list _ l, h | block _ l, h => by rw [rename, renameList_of_respects hu l h]
  | record _ _ l _, h => by rw [rename, renameDecls_of_respects hu l h]
  | fnType _ _ a b, h => by
    obtain ⟨ha, hb⟩ := Bool.and_eq_true_iff.1 h
    rw [rename, rename_of_respects hu a ha, rename_of_respects hu b hb]
  | selfType _ a, h | arg _ _ a, h | field _ _ a, h => by rw [rename, rename_of_respects hu a h]
  | assign _ _ v _ _, h => by
    rw [rename, rename_of_respects hu v (Bool.and_eq_true_iff.1 h).2]
  | ident _ x, h => by rw [rename, Name.renamed, if_neg (hu x h)]
  | func _ ⟨_, _, ty⟩ l, h => by
    obtain ⟨hparam, hl⟩ := Bool.and_eq_true_iff.1 h
    rw [rename, renameDecl, rename_of_respects hu ty (Bool.and_eq_true_iff.1 hparam).2,
      renameList_of_respects hu l hl]
  | call _ a b, h => by
    obtain ⟨ha, hb⟩ := Bool.and_eq_true_iff.1 h
    rw [rename, rename_of_respects hu a ha, rename_of_respects hu b hb]
  | binOp _ op a b, h => by
    obtain ⟨ha, hb⟩ := Bool.and_eq_true_iff.1 h
    rw [rename, rename_of_respects hu a ha]
    split
    · rfl
    · rename_i hop
      rw [rename_of_respects hu b ((Bool.or_eq_true_iff.1 hb).resolve_left (by simpa using hop))]
  | matchOn _ a l, h => by
    obtain ⟨ha, hl⟩ := Bool.and_eq_true_iff.1 h
    rw [rename, rename_of_respects hu a ha, renameCases_of_respects hu l hl]
  | whileDo _ a l, h => by
    obtain ⟨ha, hl⟩ := Bool.and_eq_true_iff.1 h
    rw [rename, rename_of_respects hu a ha, renameList_of_respects hu l hl]
  | ifElse _ a l m, h => by
    obtain ⟨hal, hm⟩ := Bool.and_eq_true_iff.1 h
    obtain ⟨ha, hl⟩ := Bool.and_eq_true_iff.1 hal
    rw [rename, rename_of_respects hu a ha, renameList_of_respects hu l hl,
      renameList_of_respects hu m hm]
  | inst _ a l, h => by
    obtain ⟨ha, hl⟩ := Bool.and_eq_true_iff.1 h
    rw [rename, rename_of_respects hu a ha, renameItems_of_respects hu l hl]

theorem renameList_of_respects (hu : ∀ x, used x = true → x ≠ p) :
    ∀ ns : List Node, respectsList used bound ns = true → renameList p q ns = ns
  | [], _ => rfl
  | n :: ns, h => by
    obtain ⟨hn, hns⟩ := Bool.and_eq_true_iff.1 h
    rw [renameList, rename_of_respects hu n hn, renameList_of_respects hu ns hns]

theorem renameDecls_of_respects (hu : ∀ x, used x = true → x ≠ p) :
    ∀ ds : List (Decl Node), respectsDecls used bound ds = true → renameDecls p q ds = ds
  | [], _ => rfl
  | ⟨_, _, ty⟩ :: ds, h => by
    obtain ⟨hd, hds⟩ := Bool.and_eq_true_iff.1 h
    rw [renameDecls, renameDecl, rename_of_respects hu ty hd, renameDecls_of_respects hu ds hds]

theorem renameCases_of_respects (hu : ∀ x, used x = true → x ≠ p) :
    ∀ cs : List (Case Node), respectsCases used bound cs = true → renameCases p q cs = cs
  | [], _ => rfl
  | ⟨_, pattern, body⟩ :: cs, h => by
    obtain ⟨hc, hcs⟩ := Bool.and_eq_true_iff.1 h
    obtain ⟨hp, hb⟩ := Bool.and_eq_true_iff.1 hc
    rw [renameCases, rename_of_respects hu pattern hp, renameList_of_respects hu body hb,
      renameCases_of_respects hu cs hcs]

theorem renameItems_of_respects (hu : ∀ x, used x = true → x ≠ p) :
    ∀ ns : List Node, respectsItems used bound ns = true → renameItems p q ns = ns
  | [], _ => rfl
  | assign _ _ v _ _ :: ns, h => by
    obtain ⟨hv, hns⟩ := Bool.and_eq_true_iff.1 h
    rw [renameItems, rename, rename_of_respects hu v hv, renameItems_of_respects hu ns hns]
    simp
  | ident .. :: ns, h => by rw [renameItems, renameItems_of_respects hu ns h]

end

variable {h : Name.Interchange p q}

theorem relabel_renaming (n : Node) : n.relabel (Likeness.renaming h).tags = n := relabel_same n

theorem renaming_assign {v : Node} (t : Tag) (target : Node) (transparent : Bool)
    (link : Option DefId) (hx : ∀ x, target.ident? = some x → x ≠ p ∧ x ≠ q)
    (hv : v.Alike (.renaming h) (v.rename p q)) :
    (assign t target v transparent link).Alike (.renaming h)
      (assign t target (v.rename p q) transparent link) := by
  have halike := Alike.assign t target transparent link hx hv
  rwa [relabel_renaming] at halike

theorem renaming_item {v : Node} (t : Tag) (target : Node) (transparent : Bool)
    (link : Option DefId) (hv : v.Alike (.renaming h) (v.rename p q)) :
    ItemAlike (.renaming h) (Alike (.renaming h)) (assign t target v transparent link)
      (assign t target (v.rename p q) transparent link) := by
  have halike : ItemAlike (.renaming h) (Alike (.renaming h)) _ _ :=
    .bind t target transparent link hv
  rwa [relabel_renaming] at halike

theorem renaming_dot {lhs : Node} (t : Tag) (rhs : Node)
    (hl : lhs.Alike (.renaming h) (lhs.rename p q)) :
    (binOp t .dot lhs rhs).Alike (.renaming h) (binOp t .dot (lhs.rename p q) rhs) := by
  have halike := Alike.dot t rhs hl
  rwa [relabel_renaming] at halike

/-- What is used is not `q`, and what is bound is neither name. -/
structure Spares (p q : Name) (used bound : Name → Bool) : Prop where
  used : ∀ x, used x = true → x ≠ q
  bound : ∀ x, bound x = true → x ≠ p ∧ x ≠ q

mutual

/-- A node is like the renamed one. -/
theorem alike_rename (hs : Spares p q used bound) : ∀ n : Node, n.respects used bound = true →
    n.Alike (.renaming h) (n.rename p q)
  | lit t value, _ => .lit t value
  | enum t id members, _ => .enum t trivial members
  | builtin t b, _ => .builtin t b
  | unknown t, _ => .unknown t
  | list t l, hn => .list t (alike_renameList hs l hn)
  | block t l, hn => .block t (alike_renameList hs l hn)
  | record t id l range, hn => .record t trivial range (alike_renameDecls hs l hn)
  | fnType t id a b, hn =>
    have hn := Bool.and_eq_true_iff.1 hn
    .fnType t trivial (alike_rename hs a hn.1) (alike_rename hs b hn.2)
  | selfType t a, hn => .selfType t (alike_rename hs a hn)
  | arg t x a, hn => .arg t x (alike_rename hs a hn)
  | field t x a, hn => .field t x (alike_rename hs a hn)
  | assign t target v transparent link, hn => by
    obtain ⟨hx, hv⟩ := Bool.and_eq_true_iff.1 hn
    refine renaming_assign t target transparent link (fun x hident => ?_) (alike_rename hs v hv)
    rw [hident] at hx
    exact hs.bound x hx
  | ident t x, hn => .ident t ⟨hs.used x hn, rfl⟩
  | func t ⟨span, x, ty⟩ l, hn =>
    have hn := Bool.and_eq_true_iff.1 hn
    have hparam := Bool.and_eq_true_iff.1 hn.1
    .func t (hs.bound x hparam.1) (.mk span x (alike_rename hs ty hparam.2))
      (alike_renameList hs l hn.2)
  | call t a b, hn =>
    have hn := Bool.and_eq_true_iff.1 hn
    .call t (alike_rename hs a hn.1) (alike_rename hs b hn.2)
  | binOp t op a b, hn => by
    obtain ⟨ha, hb⟩ := Bool.and_eq_true_iff.1 hn
    rw [rename]
    split
    · rename_i hop
      subst hop
      exact renaming_dot t b (alike_rename hs a ha)
    · rename_i hop
      refine .binOp t hop (alike_rename hs a ha) (alike_rename hs b ?_)
      exact (Bool.or_eq_true_iff.1 hb).resolve_left (by simpa using hop)
  | matchOn t a l, hn =>
    have hn := Bool.and_eq_true_iff.1 hn
    .matchOn t (alike_rename hs a hn.1) (alike_renameCases hs l hn.2)
  | whileDo t a l, hn =>
    have hn := Bool.and_eq_true_iff.1 hn
    .whileDo t (alike_rename hs a hn.1) (alike_renameList hs l hn.2)
  | ifElse t a l m, hn =>
    have hn := Bool.and_eq_true_iff.1 hn
    have hal := Bool.and_eq_true_iff.1 hn.1
    .ifElse t (alike_rename hs a hal.1) (alike_renameList hs l hal.2) (alike_renameList hs m hn.2)
  | inst t a l, hn =>
    have hn := Bool.and_eq_true_iff.1 hn
    .inst t (alike_rename hs a hn.1) (alike_renameItems hs l hn.2)

theorem alike_renameList (hs : Spares p q used bound) : ∀ ns : List Node,
    respectsList used bound ns = true → List.Forall₂ (Alike (.renaming h)) ns (renameList p q ns)
  | [], _ => .nil
  | n :: ns, hns =>
    have hns := Bool.and_eq_true_iff.1 hns
    .cons (alike_rename hs n hns.1) (alike_renameList hs ns hns.2)

theorem alike_renameDecls (hs : Spares p q used bound) : ∀ ds : List (Decl Node),
    respectsDecls used bound ds = true →
    List.Forall₂ (Decl.Alike (.renaming h) (Alike (.renaming h))) ds (renameDecls p q ds)
  | [], _ => .nil
  | ⟨span, x, ty⟩ :: ds, hds =>
    have hds := Bool.and_eq_true_iff.1 hds
    .cons (.mk span x (alike_rename hs ty hds.1)) (alike_renameDecls hs ds hds.2)

theorem alike_renameCases (hs : Spares p q used bound) : ∀ cs : List (Case Node),
    respectsCases used bound cs = true →
    List.Forall₂ (Case.Alike (.renaming h) (Alike (.renaming h))) cs (renameCases p q cs)
  | [], _ => .nil
  | ⟨span, pattern, body⟩ :: cs, hcs =>
    have hcs := Bool.and_eq_true_iff.1 hcs
    have hc := Bool.and_eq_true_iff.1 hcs.1
    .cons (.mk span (alike_rename hs pattern hc.1) (alike_renameList hs body hc.2))
      (alike_renameCases hs cs hcs.2)

theorem alike_renameItems (hs : Spares p q used bound) : ∀ ns : List Node,
    respectsItems used bound ns = true →
    List.Forall₂ (ItemAlike (.renaming h) (Alike (.renaming h))) ns (renameItems p q ns)
  | [], _ => .nil
  | assign t target v transparent link :: ns, hns =>
    have hns := Bool.and_eq_true_iff.1 hns
    .cons (renaming_item t target transparent link (alike_rename hs v hns.1))
      (alike_renameItems hs ns hns.2)
  | ident t x :: ns, hns => .cons (.member t x) (alike_renameItems hs ns hns)

end

/-! ## Nodes that are alike are renamed -/

theorem eq_renameList {ns ns' : List Node} (hns : List.Forall₂ (Alike (.renaming h)) ns ns')
    (ih : ∀ {n n' : Node}, sizeOf n < sizeOf ns → n.Alike (.renaming h) n' → n' = n.rename p q) :
    ns' = renameList p q ns := by
  induction hns with
  | nil => rfl
  | cons hn _ ihs => rw [renameList, ih (by simp +arith) hn, ihs fun hlt => ih (by simp; omega)]

theorem eq_renameDecls {ds ds' : List (Decl Node)}
    (hds : List.Forall₂ (Decl.Alike (.renaming h) (Alike (.renaming h))) ds ds')
    (ih : ∀ {n n' : Node}, sizeOf n < sizeOf ds → n.Alike (.renaming h) n' → n' = n.rename p q) :
    ds' = renameDecls p q ds := by
  induction hds with
  | nil => rfl
  | cons hd _ ihs =>
    cases hd with
    | mk span x hty =>
      rw [renameDecls, renameDecl, ih (by simp +arith) hty, ihs fun hlt => ih (by simp; omega)]
      rfl

theorem eq_renameCases {cs cs' : List (Case Node)}
    (hcs : List.Forall₂ (Case.Alike (.renaming h) (Alike (.renaming h))) cs cs')
    (ih : ∀ {n n' : Node}, sizeOf n < sizeOf cs → n.Alike (.renaming h) n' → n' = n.rename p q) :
    cs' = renameCases p q cs := by
  induction hcs with
  | nil => rfl
  | cons hc _ ihs =>
    cases hc with
    | mk span hp hbody =>
      rw [renameCases, ih (by simp +arith) hp, eq_renameList hbody fun hlt => ih (by simp; omega),
        ihs fun hlt => ih (by simp; omega)]
      rfl

theorem eq_renameItems {ns ns' : List Node}
    (hns : List.Forall₂ (ItemAlike (.renaming h) (Alike (.renaming h))) ns ns')
    (ih : ∀ {n n' : Node}, sizeOf n < sizeOf ns → n.Alike (.renaming h) n' → n' = n.rename p q) :
    ns' = renameItems p q ns := by
  induction hns with
  | nil => rfl
  | cons hn _ ihs =>
    have ihs := ihs fun hlt => ih (by simp; omega)
    cases hn with
    | bind t target transparent link hv =>
      rw [renameItems, rename, relabel_renaming, ih (by simp +arith) hv, ihs]
      · rfl
      · simp
    | member t x =>
      rw [renameItems, ihs]
      rfl
    | other hn hplain halias hident =>
      rw [renameItems, ih (by simp +arith) hn, ihs]
      rintro t x rfl
      cases hident

/-- Nodes are alike only if one is the other renamed. -/
theorem Alike.eq_rename {n n' : Node} (hn : n.Alike (.renaming h) n') : n' = n.rename p q := by
  have ih : ∀ {m m' : Node}, sizeOf m < sizeOf n → m.Alike (.renaming h) m' → m' = m.rename p q :=
    fun hlt hm => hm.eq_rename
  cases hn with
  | lit | enum | builtin | unknown => rfl
  | ident t hx =>
    rw [rename, ← hx.2]
    rfl
  | list t hl | block t hl =>
    rw [rename, ← eq_renameList hl fun hlt => ih (by simp; omega)]
    rfl
  | record t hid range hl =>
    rw [rename, ← eq_renameDecls hl fun hlt => ih (by simp; omega)]
    rfl
  | fnType t hid ha hb | call t ha hb =>
    rw [rename, ← ih (by simp +arith) ha, ← ih (by simp +arith) hb]
    rfl
  | selfType t ha | arg t x ha | field t x ha =>
    rw [rename, ← ih (by simp +arith) ha]
    rfl
  | assign t target transparent link hx hv =>
    rw [rename, relabel_renaming, ← ih (by simp +arith) hv]
    rfl
  | func t hx hparam hl =>
    cases hparam with
    | mk span x hty =>
      rw [rename, renameDecl, ← ih (by simp +arith) hty,
        ← eq_renameList hl fun hlt => ih (by simp; omega)]
      rfl
  | binOp t hop ha hb =>
    rw [rename, if_neg hop, ← ih (by simp +arith) ha, ← ih (by simp +arith) hb]
    rfl
  | dot t rhs ha =>
    rw [rename, if_pos rfl, relabel_renaming, ← ih (by simp +arith) ha]
    rfl
  | matchOn t ha hl =>
    rw [rename, ← ih (by simp +arith) ha, ← eq_renameCases hl fun hlt => ih (by simp; omega)]
    rfl
  | whileDo t ha hl =>
    rw [rename, ← ih (by simp +arith) ha, ← eq_renameList hl fun hlt => ih (by simp; omega)]
    rfl
  | ifElse t ha hl hm =>
    rw [rename, ← ih (by simp +arith) ha, ← eq_renameList hl fun hlt => ih (by simp; omega),
      ← eq_renameList hm fun hlt => ih (by simp; omega)]
    rfl
  | inst t ha hl =>
    rw [rename, ← ih (by simp +arith) ha, ← eq_renameItems hl fun hlt => ih (by simp; omega)]
    rfl
termination_by sizeOf n

theorem TypeAlike.eq_rename {n n' : Node} (hn : n.TypeAlike (.renaming h) n') :
    n' = n.rename p q := by
  induction hn with
  | source hn => exact hn.eq_rename
  | inferred t hid _ _ ihdom ihcod =>
    obtain rfl := hid
    rw [rename, ← ihdom, ← ihcod]
    rfl

end

end Node

/-! ## Functions under another parameter -/

open Pass Node

/-- Neither of two names. -/
def Name.isOther (p q x : Name) : Bool := x != p && x != q

theorem spares_isOther (p q : Name) : Spares p q (Name.isOther p q) (Name.isOther p q) := by
  constructor
  · intro x hx
    simp only [Name.isOther, Bool.and_eq_true, bne_iff_ne] at hx
    exact hx.2
  · intro x hx
    simpa [Name.isOther] using hx

theorem spares_ne (p q : Name) : Spares p q (· != q) (Name.isOther p q) :=
  ⟨fun x hx => by simpa using hx, (spares_isOther p q).bound⟩

/-- What mentions neither name is like itself. -/
theorem Node.alike_self {p q : Name} (h : Name.Interchange p q) {n : Node}
    (hn : n.respects (Name.isOther p q) (Name.isOther p q) = true) : n.Alike (.renaming h) n := by
  have halike := alike_rename (h := h) (spares_isOther p q) n hn
  rwa [rename_of_respects (fun x hx => ((spares_isOther p q).bound x hx).1) n hn] at halike

/-- No definition has either name, or mentions it. -/
structure Definitions.Ignores (store : Definitions) (p q : Name) : Prop where
  left : store.lookup p = none
  right : store.lookup q = none
  values : ∀ entry ∈ store.entries,
    entry.2.respects (Name.isOther p q) (Name.isOther p q) = true

theorem Env.IsFresh.alike_self {store : Definitions} {env : Env} (henv : env.IsFresh store)
    {p q : Name} (h : Name.Interchange p q) (hstore : store.Ignores p q) :
    env.Alike (.renaming h) env where
  bound {x x'} _ := by
    rw [henv.find?_eq_none, henv.find?_eq_none]
    exact .none
  defined {x x'} hx := by
    obtain ⟨-, rfl⟩ := hx
    rw [henv.store_eq, Name.renamed]
    split
    · rename_i hxp
      rw [hxp, hstore.left, hstore.right]
      exact .none
    · cases hlookup : store.lookup x with
      | none => exact .none
      | some found =>
        obtain ⟨d, v⟩ := found
        obtain ⟨entry, hentry, rfl⟩ := Definitions.mem_of_lookup hlookup
        exact .some ⟨rfl, Node.alike_self h (hstore.values entry hentry)⟩
  calls := rfl
  resolve := rfl
  transparent := rfl
  links _ _ := rfl

/-- A function that is checked in a fresh environment may have another parameter. Neither name is
mentioned by the definitions or by the declared type, the new one is not used in the body, and the
body binds neither. Then the renamed function passes if and only if the function does, with the
renamed type; a type that does not use the parameter is the same. -/
theorem check_ignores_parameter_name {store : Definitions} {s : Machine} {p q : Name}
    (hs : s.env.IsFresh store) (h : Name.Interchange p q) (hstore : store.Ignores p q) (tag : Tag)
    (span : Span) (ty : Node) (body : List Node) (depth : Nat)
    (hty : ty.respects (Name.isOther p q) (Name.isOther p q) = true)
    (hbody : respectsList (· != q) (Name.isOther p q) body = true) :
    let function := Node.func tag ⟨span, p, ty⟩ body
    let renamed := Node.func tag ⟨span, q, ty⟩ (renameList p q body)
    (∀ a t, (check depth function).runOn s = (.ok a, t) →
      (check depth renamed).runOn s = (.ok (a.rename p q), t) ∧
        (a.respects (· != p) (fun _ => true) = true → a.rename p q = a)) ∧
    ∀ a' t, (check depth renamed).runOn s = (.ok a', t) →
      ∃ a, a' = a.rename p q ∧ (check depth function).runOn s = (.ok a, t) := by
  intro function renamed
  have hpar : Parallel (.renaming h) (TypeAlike (.renaming h)) (check depth function)
      (check depth renamed) := by
    cases depth with
    | zero => exact related_throw .exhausted
    | succ depth =>
      refine Check.parallel_checkFunc (restores_eval depth) (restores_check depth)
        (keeps_eval _ depth) (keeps_check _ depth) tag span ?_ (Node.alike_self h hty)
        (alike_renameList (spares_ne p q) body hbody)
      rintro x x' ⟨hx, rfl⟩
      unfold Name.renamed
      split
      · rename_i hxp
        exact ⟨fun _ => rfl, fun _ => hxp.symm⟩
      · rename_i hxp
        exact ⟨fun heq => absurd heq.symm hxp, fun heq => absurd heq.symm hx⟩
  obtain ⟨hends, -, -, hnodes⟩ := hpar s s (hs.alike_self h hstore) ⟨Nat.zero_le _, rfl⟩
  have henv := (restores_check depth function s).1
  have henv' := (restores_check depth renamed s).1
  -- the two runs end on the same machine
  have hsame : ((check depth renamed).runOn s).2 = ((check depth function).runOn s).2 := by
    generalize ((check depth function).runOn s).2 = t, ((check depth renamed).runOn s).2 = t' at *
    obtain ⟨env, ⟨next⟩⟩ := t
    obtain ⟨env', ⟨next'⟩⟩ := t'
    cases henv
    cases henv'
    cases hnodes
    rfl
  constructor
  · intro a t hrun
    rcases hrun' : (check depth renamed).runOn s with ⟨r', t'⟩
    rw [hrun, hrun'] at hends hsame
    cases hends with
    | ok ha =>
      cases hsame
      rw [ha.eq_rename]
      exact ⟨rfl, rename_of_respects (fun x hx => by simpa using hx) a⟩
  · intro a' t hrun'
    rcases hrun : (check depth function).runOn s with ⟨r, t'⟩
    rw [hrun, hrun'] at hends hsame
    cases hends with
    | ok ha =>
      cases hsame
      exact ⟨_, ha.eq_rename, rfl⟩

/-- `echo = @x(Any) x`, with any name for the parameter -/
def echoDefinitions (x : Name) : Definitions := ⟨[
  ("echo", .func ⟨0, .builtin⟩ ⟨.builtin, x, .ident ⟨1, .builtin⟩ "Any"⟩ [.ident ⟨2, .builtin⟩ x])]⟩

/-- The body `echo(x) + 1`, with any name for what is echoed -/
def echoBody (x : Name) : List Node :=
  [.binOp ⟨3, .builtin⟩ .add
    (.call ⟨4, .builtin⟩ (.ident ⟨5, .builtin⟩ "echo") (.ident ⟨6, .builtin⟩ x))
    (.lit ⟨7, .builtin⟩ (.number 1))]

/-- `@x(Number) echo(x) + 1` -/
def echoProgram (x : Name) : Node :=
  .func ⟨8, .builtin⟩ ⟨.builtin, x, .ident ⟨9, .builtin⟩ "Number"⟩ (echoBody x)

/-- Over `echo = @y(Any) y` the function passes, and so it does with `z` for `x`. -/
theorem check_ignores_parameter_name_echo :
    ∃ a t, (check 12 (echoProgram "x")).runOn (freshMachine (echoDefinitions "y") true) =
        (.ok a, t) ∧
      (check 12 (echoProgram "z")).runOn (freshMachine (echoDefinitions "y") true) =
        (.ok (a.rename "x" "z"), t) := by
  have hok : ((check 12 (echoProgram "x")).runOn
      (freshMachine (echoDefinitions "y") true)).1.isOk = true := by decide +kernel
  obtain ⟨a, t, hrun⟩ := runOn_of_isOk hok
  have hstore : (echoDefinitions "y").Ignores "x" "z" := by
    refine ⟨rfl, rfl, ?_⟩
    simp only [echoDefinitions, List.forall_mem_cons]
    exact ⟨by decide, List.forall_mem_nil _⟩
  have hnames : Name.Interchange "x" "z" := by constructor <;> decide
  obtain ⟨hrenamed, -⟩ := check_ignores_parameter_name (isFresh_freshMachine _ true) hnames hstore
    ⟨8, .builtin⟩ .builtin (.ident ⟨9, .builtin⟩ "Number") (echoBody "x") 12 (by decide) (by decide)
  exact ⟨a, t, hrun, (hrenamed a t hrun).1⟩

/-- Over `echo = @x(Any) x` the function does not pass, although it does with `z` for `x`: the
parameter of `echo` captures that of its caller. -/
theorem check_sees_parameter_name :
    (echoDefinitions "x").IsFree "x" ∧ (echoDefinitions "x").IsFree "z" ∧
    renameList "x" "z" (echoBody "x") = echoBody "z" ∧
    ((check 12 (echoProgram "x")).runOn (freshMachine (echoDefinitions "x") true)).1.isOk = false ∧
    ((check 12 (echoProgram "z")).runOn (freshMachine (echoDefinitions "x") true)).1.isOk = true :=
  ⟨⟨rfl, rfl⟩, ⟨rfl, rfl⟩, rfl, by decide +kernel, by decide +kernel⟩

end Residual
