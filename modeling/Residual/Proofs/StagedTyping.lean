/-
What the checker finds out about an expression without functions: that it can be evaluated in stages,
with the type it is given. The setting may be any, for the checker sees none of the values.

A name or an item of a list may have the type `Any`, of which nothing is known but that it goes with
every value, so types are read off one by one and compared only where the checker compares them. Of an
alias the checker finds out that its name is not in scope, and that it is that of a definition only if
the alias is linked to it.
-/
import Residual.Proofs.Staging

namespace Residual.Staging

open Pass Residual.FirstOrder Residual.Selection
open Soundness (returns_check_seq)

/-! ## Expressions -/

mutual

/-- An expression without functions: literals, names, operators other than the access to a field, `if`,
lists, and blocks. Its aliases take their names from `names`, where the name of a linked one has no
suffixed form. -/
inductive Named (links : Links) (names : Name → Prop) : Node → Prop where
  | lit (tag : Tag) (l : Literal) : Named links names (.lit tag l)
  | ident (tag : Tag) (x : Name) : Named links names (.ident tag x)
  | binOp {op : Operator} {lhs rhs : Node} (tag : Tag) (hop : op ≠ .dot) (hl : Named links names lhs)
    (hr : Named links names rhs) : Named links names (.binOp tag op lhs rhs)
  | ifElse {c : Node} {thenBody elseBody : List Node} (tag : Tag) (hc : Named links names c)
    (ht : NamedSeq links names thenBody) (he : NamedSeq links names elseBody) :
    Named links names (.ifElse tag c thenBody elseBody)
  | list {items : List Node} (tag : Tag) (h : ∀ n ∈ items, Named links names n) :
    Named links names (.list tag items)
  | block {items : List Node} (tag : Tag) (h : NamedSeq links names items) :
    Named links names (.block tag items)

/-- A sequence of expressions and aliases, of which no alias is the last node. -/
inductive NamedSeq (links : Links) (names : Name → Prop) : List Node → Prop where
  | nil : NamedSeq links names []
  | cons {n : Node} {rest : List Node} (h : Named links names n) (hrest : NamedSeq links names rest) :
    NamedSeq links names (n :: rest)
  | bind {y : Name} {value : Node} {transparent : Bool} {link : Option DefId} {rest : List Node}
    (tag ytag : Tag) (hy : names y)
    (hlink : links.current tag.id link = none ∨ ∀ k, ¬ names (Env.suffixed y k))
    (h : Named links names value) (hrest : NamedSeq links names rest) (hne : rest ≠ []) :
    NamedSeq links names (.assign tag (.ident ytag y) value transparent link :: rest)

end

variable {links : Links} {names : Name → Prop}

theorem Named.boundName? {n : Node} (h : Named links names n) : n.boundName? = none := by
  cases h <;> rfl

/-! ## Types -/

/-- A built-in type of which `Q` is true. -/
def Gives (Q : Builtin → Prop) (t : Node) : Prop := ∃ a tag, t = .builtin tag a ∧ Q a

theorem Gives.imp {Q Q' : Builtin → Prop} {t : Node} (h : Gives Q t) (hQ : ∀ a, Q a → Q' a) :
    Gives Q' t := by
  obtain ⟨a, tag, rfl, ha⟩ := h
  exact ⟨a, tag, rfl, hQ a ha⟩

/-- Of two built-in types that are compatible, the first is `Any` if it is not the second. -/
theorem eq_of_compatible {a b : Builtin} {tag tag' : Tag}
    (h : compatible (.builtin tag a) (.builtin tag' b) = true) : a = .any ∨ a = b := by
  by_cases ha : a = .any
  · exact .inl ha
  · right
    have hnames : compatible (.builtin tag a) (.builtin tag' b) = (a.name == b.name) := by
      cases a <;> first | rfl | exact absurd rfl ha
    rw [hnames, beq_iff_eq] at h
    have hnamed := a.ofName?_name
    rw [h, b.ofName?_name] at hnamed
    exact (Option.some.inj hnamed).symm

theorem Fits.of_compatible {a b : Builtin} {w : Node} (h : a = .any ∨ a = b) (hw : Fits b w) :
    Fits a w := by
  rcases h with rfl | rfl
  · exact .inl rfl
  · exact hw

/-- An environment of the checker: the names of the context stand for their types, and no definition is
being checked. -/
structure Judges (store : Definitions) (links : Links) (Γ : List (Name × Builtin)) (env : Env) :
    Prop where
  store_eq : env.store = store
  links_eq : env.links = links
  calls : ∀ {x d n}, store.lookup x = some (d, n) → env.isOnStack n = false
  vars : Binds (fun a b => ∃ t t', b.value = .selfType t (.builtin t' a)) Γ env
  others : Covers Γ env

variable {store : Definitions} {Γ : List (Name × Builtin)} {env : Env}

theorem judges_of_isFresh (h : env.IsFresh store) : Judges store env.links [] env :=
  ⟨h.store_eq, rfl, fun _ => h.isOnStack _, .nil, fun y _ => h.find?_eq_none y⟩

theorem Judges.push (h : Judges store links Γ env) {b : Binding} {a : Builtin}
    (hb : ∃ t t', b.value = .selfType t (.builtin t' a)) :
    Judges store links ((b.name, a) :: Γ) (env.push b) :=
  ⟨h.store_eq, h.links_eq, h.calls, h.vars.push hb, h.others.push a b⟩

theorem Judges.resolve (h : Judges store links Γ env) (r : Bool) :
    Judges store links Γ { env with resolve := r } :=
  ⟨h.store_eq, h.links_eq, h.calls, h.vars, h.others⟩

/-- What is entered is not taken for a definition if no definition has its identity. -/
theorem Judges.enterCall (h : Judges store links Γ env) {f : Node}
    (hids : ∀ {y d n}, store.lookup y = some (d, n) → n.id ≠ f.id) :
    Judges store links Γ (env.enterCall f) where
  store_eq := h.store_eq
  links_eq := h.links_eq
  calls hdef := by
    rw [Bool.eq_false_iff]
    intro hstack
    rcases Env.isOnStack_enterCall hstack with hid | hon
    · exact hids hdef hid
    · rw [h.calls hdef] at hon
      cases hon
  vars := h.vars
  others := h.others

/-! ## What the checker finds out -/

section

variable {n : Node} {Q Q' : Builtin → Prop} {F : Fault → Prop} {S : Setting store names}

theorem returns_type (b : Builtin) (h : Q b) :
    Returns env (fun _ => Pass.builtin b) F (Gives Q) :=
  (returns_tagAt _).bind fun tag _ => returns_pure ⟨b, tag, rfl, h⟩

theorem returns_check_ident (hstore : store.AreLiterals) {x : Name} (tag : Tag)
    (henv : Judges store links Γ env) :
    Returns env (fun d => check d (.ident tag x)) NotVoid
      (Gives (S.Stages Γ (.ident tag x))) := by
  refine Returns.succ (returns_env.bind fun _ heq => ?_)
  subst heq
  cases hΓ : Γ.lookup x with
  | some a =>
    obtain ⟨b, hfind, t, t', hvalue⟩ := henv.vars x a hΓ
    simp only [Env.lookup_bound hfind]
    refine (returns_pure (P := (· = b.value)) rfl).bind fun m hm => ?_
    subst hm
    rw [hvalue]
    exact Returns.under (Returns.succ (returns_pure ⟨a, t', rfl, Setting.stages_var tag hΓ⟩))
      Guard.lawful_globals
  | none =>
    -- the name is no local one: it is defined as a literal, built in, or not found
    have hfind := henv.others x hΓ
    cases hdef : store.lookup x with
    | some found =>
      obtain ⟨d, m⟩ := found
      have hlookup : env.lookup x = some (.defined d m) := by
        rw [Env.lookup, hfind, henv.store_eq, hdef]
      obtain ⟨ltag, l, rfl⟩ := Node.eq_lit_of_isLiteral (hstore hdef)
      simp only [hlookup]
      refine (returns_pure (P := (· = Node.lit ltag l)) rfl).bind fun m hm => ?_
      subst hm
      refine Returns.under (returns_env.bind fun _ heq => ?_) Guard.lawful_globals
      subst heq
      have hstack : (Guard.globals.enter env).isOnStack (.lit ltag l) = false := henv.calls hdef
      simp only [hstack]
      exact Returns.under
        (Returns.succ (returns_type _ (Setting.stages_unbound tag hΓ (.defined hdef))))
        (Guard.lawful_call _)
    | none =>
      cases hbuiltin : Builtin.ofName? x with
      | some b =>
        have hlookup : env.lookup x = some (.builtin b) := by
          rw [Env.lookup, hfind, henv.store_eq, hdef, hbuiltin]
          rfl
        simp only [hlookup]
        refine (returns_type (Q := fun _ => True) b trivial).bind fun m hm => ?_
        obtain ⟨c, t, rfl, -⟩ := hm
        exact Returns.under
          (Returns.succ (returns_type _ (Setting.stages_unbound tag hΓ (.builtin hdef hbuiltin))))
          Guard.lawful_globals
      | none =>
        have hlookup : env.lookup x = none := by
          rw [Env.lookup, hfind, henv.store_eq, hdef, hbuiltin]
          rfl
        simp only [hlookup]
        refine returns_throw ?_
        rintro ⟨⟩

/-- Where a type other than `Any` is asked for, it is this type that is found. -/
theorem returns_fits {b : Builtin} (hb : b ≠ .any)
    (h : Returns env (fun d => check d n) NotVoid (Gives Q)) (err : Node → TypeError) :
    Returns env (fun d => do
      let ty ← check d n
      if Check.fits b ty then pure PUnit.unit else fail (err ty)) NotVoid fun _ => Q b := by
  refine h.bind fun t ht => ?_
  obtain ⟨a, tag, rfl, hQ⟩ := ht
  split
  · rename_i hfits
    rcases eq_of_compatible hfits with hany | rfl
    · exact absurd hany hb
    · exact returns_pure hQ
  · refine returns_throw ?_
    rintro ⟨⟩

theorem returns_check_binOp {op : Operator} {lhs rhs : Node} (tag : Tag) (hop : op ≠ .dot)
    (hl : Returns env (fun d => check d lhs) NotVoid (Gives (S.Stages Γ lhs)))
    (hr : Returns env (fun d => check d rhs) NotVoid (Gives (S.Stages Γ rhs))) :
    Returns env (fun d => Check.checkBinOp (eval d) (check d) tag op lhs rhs) NotVoid
      (Gives (S.Stages Γ (.binOp tag op lhs rhs))) := by
  simp only [Check.checkBinOp, hop, if_false]
  refine (returns_fits (by decide) hl _).bind fun _ hl => ?_
  refine (returns_fits (by decide) hr _).bind fun _ hr => ?_
  exact returns_type _ (Setting.stages_binOp tag hop hl hr)

/-- Each item of a list has a type. -/
theorem returns_check_items (t : Node) : ∀ {items : List Node},
    (∀ n ∈ items, Returns env (fun d => check d n) NotVoid (Gives (S.Stages Γ n))) →
    Returns env (fun d => Check.checkItemsAgainst (check d) t items) NotVoid
      fun _ => ∀ n ∈ items, ∃ a, S.Stages Γ n a
  | [], _ => returns_pure (List.forall_mem_nil _)
  | n :: items, h => by
    obtain ⟨hn, hitems⟩ := List.forall_mem_cons.1 h
    refine hn.bind fun u hu => ?_
    obtain ⟨a, tag, rfl, ha⟩ := hu
    have hexpect : Returns env (fun _ => Check.expect t (.builtin tag a) n.span) NotVoid
        fun _ => True := by
      unfold Check.expect
      split
      · exact returns_pure trivial
      · refine returns_throw ?_
        rintro ⟨⟩
    refine hexpect.bind fun _ _ => (returns_check_items t hitems).mono fun _ hall => ?_
    exact List.forall_mem_cons.2 ⟨⟨a, ha⟩, hall⟩

theorem returns_check_list {items : List Node} (tag : Tag)
    (h : ∀ n ∈ items, Returns env (fun d => check d n) NotVoid (Gives (S.Stages Γ n))) :
    Returns env (fun d => Check.checkList (check d) items) NotVoid
      (Gives (S.Stages Γ (.list tag items))) := by
  cases items with
  | nil => exact returns_type _ (Setting.stages_list tag (List.forall_mem_nil _))
  | cons first others =>
    obtain ⟨hfirst, hothers⟩ := List.forall_mem_cons.1 h
    refine hfirst.bind fun t ht => ?_
    obtain ⟨a, t', rfl, ha⟩ := ht
    refine (returns_check_items _ hothers).bind fun _ hall => ?_
    exact returns_type _ (Setting.stages_list tag (List.forall_mem_cons.2 ⟨⟨a, ha⟩, hall⟩))

/-- An arm of a branch: a type, or a fault other than void. -/
def Arm (Q : Builtin → Prop) : Except Fault Node → Prop
  | .ok t => Gives Q t
  | .error f => NotVoid f

theorem returns_arm {items : List Node} (h : Check.ChecksSeq check env items NotVoid (Gives Q))
    (site : Span) :
    Returns env (fun d => attempt (Check.checkSeq (check d) items site)) NotVoid (Arm Q) := by
  have hrestores d := Check.restores_checkSeq (restores_check d) items site
  refine ((returns_check_seq h site).attempt hrestores).mono fun r hr => ?_
  cases r <;> exact hr

theorem knownTypes_error {f : Fault} (hf : NotVoid f) (site : Span)
    (arms : List (Except Fault Node × Span)) :
    Check.knownTypes ((.error f, site) :: arms) = .error f := by
  cases f with
  | void => exact absurd rfl hf
  | _ => rfl

/-- The type of a branch is that of its first arm, and goes with that of the second one. -/
theorem returns_join_pair {r r' : Except Fault Node} (site s s' : Span) (hr : Arm Q r)
    (hr' : Arm Q' r') :
    Returns env (fun _ => Check.join site [(r, s), (r', s')]) NotVoid
      (Gives fun a => Q a ∧ ∃ b, Q' b ∧ (a = .any ∨ a = b)) := by
  have hthrow {f : Fault} (hf : NotVoid f)
      (hknown : Check.knownTypes [(r, s), (r', s')] = .error f) :
      Returns env (fun _ => Check.join site [(r, s), (r', s')]) NotVoid
        (Gives fun a => Q a ∧ ∃ b, Q' b ∧ (a = .any ∨ a = b)) := by
    unfold Check.join
    rw [hknown]
    exact Returns.bind (returns_throw (P := fun _ => False) hf) fun _ hfalse => hfalse.elim
  cases r with
  | error f => exact hthrow hr (knownTypes_error hr s _)
  | ok t =>
    cases r' with
    | error f =>
      refine hthrow hr' ?_
      rw [Check.knownTypes, knownTypes_error hr' s']
      rfl
    | ok t' =>
      -- both arms have types, and the first one is kept
      obtain ⟨a, tag, rfl, hQ⟩ := hr
      obtain ⟨b, tag', rfl, hQ'⟩ := hr'
      have hjoin : Check.join site [(.ok (.builtin tag a), s), (.ok (.builtin tag' b), s')] =
          if compatible (.builtin tag a) (.builtin tag' b) then pure (.builtin tag a)
          else fail (.branchMismatch (.builtin tag a) (.builtin tag' b) s s') := by
        cases hc : compatible (.builtin tag a) (.builtin tag' b) <;>
          simp [Check.join, Check.knownTypes, hc]
      rw [hjoin]
      split
      · rename_i hc
        exact returns_pure ⟨a, tag, rfl, hQ, b, hQ', eq_of_compatible hc⟩
      · refine returns_throw ?_
        rintro ⟨⟩

theorem returns_check_ifElse {c : Node} {thenBody elseBody : List Node} (tag : Tag)
    (hc : Returns env (fun d => check d c) NotVoid (Gives (S.Stages Γ c)))
    (ht : Check.ChecksSeq check env thenBody NotVoid (Gives (S.StagesSeq Γ thenBody)))
    (he : Check.ChecksSeq check env elseBody NotVoid (Gives (S.StagesSeq Γ elseBody))) :
    Returns env (fun d => Check.checkIf (check d) tag c thenBody elseBody) NotVoid
      (Gives (S.Stages Γ (.ifElse tag c thenBody elseBody))) := by
  refine (returns_fits (by decide) hc _).bind fun _ hc => ?_
  refine (returns_arm ht tag.span).bind fun r hr => ?_
  refine (returns_arm he tag.span).bind fun r' hr' => ?_
  refine (returns_join_pair _ _ _ hr hr').mono fun t ht => ht.imp ?_
  rintro a ⟨ht, b, he, hab⟩
  exact Setting.stages_ifElse tag hc ht (he.mono fun _ => Fits.of_compatible hab)

/-- An alias passes if it can take its name, as far as links go. -/
theorem returns_check_alias {y : Name} {value : Node} (tag ytag : Tag) (transparent : Bool)
    (link : Option DefId) (henv : Judges store links Γ env) (hname : names y)
    (hlink : links.current tag.id link = none ∨ ∀ k, ¬ names (Env.suffixed y k))
    (hvalue : Returns env (fun d => check d value) NotVoid (Gives Q)) :
    Returns env (fun d => check d (.assign tag (.ident ytag y) value transparent link)) NotVoid
      (Gives fun b => CanBind store names Γ y ∧ Q b) := by
  have hboth (hy : CanBind store names Γ y) : Returns env (fun d => check d value) NotVoid
      (Gives fun b => CanBind store names Γ y ∧ Q b) :=
    hvalue.mono fun _ ht => ht.imp fun _ hb => ⟨hy, hb⟩
  have hthrow (err : TypeError) : Returns env (fun _ => Pass.fail err) NotVoid
      (Gives fun b => CanBind store names Γ y ∧ Q b) := by
    refine returns_throw ?_
    rintro ⟨⟩
  refine Returns.succ (returns_env.bind fun _ heq => ?_)
  subst heq
  cases hΓ : Γ.lookup y with
  | some a =>
    -- a name in scope is taken, whatever the alias is linked to
    obtain ⟨b, hfind, -⟩ := henv.vars y a hΓ
    simp only [Env.lookup_bound hfind, Found.isLinked, Bool.false_eq_true, if_false]
    exact hthrow _
  | none =>
    cases hdef : store.lookup y with
    | some found =>
      obtain ⟨d, m⟩ := found
      have hlookup : env.lookup y = some (.defined d m) := by
        rw [Env.lookup, henv.others y hΓ, henv.store_eq, hdef]
      simp only [hlookup, Found.isLinked, henv.links_eq]
      split
      · rename_i hlinked
        have hsuffix := hlink.resolve_left (by rw [eq_of_beq hlinked]; rintro ⟨⟩)
        exact hboth ⟨hname, hΓ, .inr ⟨by rw [hdef]; rfl, hsuffix⟩⟩
      · exact hthrow _
    | none =>
      cases hbuiltin : Builtin.ofName? y with
      | some b =>
        have hlookup : env.lookup y = some (.builtin b) := by
          rw [Env.lookup, henv.others y hΓ, henv.store_eq, hdef, hbuiltin]
          rfl
        simp only [hlookup, Found.isLinked, Bool.false_eq_true, if_false]
        exact hthrow _
      | none =>
        have hlookup : env.lookup y = none := by
          rw [Env.lookup, henv.others y hΓ, henv.store_eq, hdef, hbuiltin]
          rfl
        simp only [hlookup]
        exact hboth ⟨hname, hΓ, .inl ⟨hdef, hbuiltin⟩⟩

/-- After an alias its name stands for its type. -/
theorem leads_check_bind {y : Name} {value : Node} (tag ytag : Tag) (transparent : Bool)
    (link : Option DefId) (henv : Judges store links Γ env) (hname : names y)
    (hlink : links.current tag.id link = none ∨ ∀ k, ¬ names (Env.suffixed y k))
    (hvalue : Returns env (fun d => check d value) NotVoid (Gives Q)) :
    Leads env
      (fun d => Check.checkItem (check d) (.assign tag (.ident ytag y) value transparent link))
      NotVoid fun _ e => Opened env e ∧ ∃ b, CanBind store names Γ y ∧ Q b ∧
        Judges store links ((y, b) :: Γ) e := by
  have halias := returns_check_alias tag ytag transparent link henv hname hlink hvalue
  refine (Check.leads_checkItem_alias halias).mono ?_
  rintro _ _ ⟨ty, t, ⟨b, t', rfl, hy, hQ⟩, rfl⟩
  have henv' := henv.push (b := ⟨y, .selfType t (.builtin t' b), false, none⟩) ⟨t, t', rfl⟩
  exact ⟨.push _ .same, b, hy, hQ, henv'⟩

end

variable {S : Setting store names}

mutual

/-- An expression that passes the checker can be evaluated in stages. -/
theorem Named.checked (hstore : store.AreLiterals) : ∀ {n : Node}, Named links names n →
    ∀ {Γ : List (Name × Builtin)} {env : Env}, Judges store links Γ env →
    Returns env (fun d => check d n) NotVoid (Gives (S.Stages Γ n))
  | _, .lit tag l, _, _, _ => Returns.succ (returns_type _ (Setting.stages_lit tag l))
  | _, .ident tag _, _, _, henv => returns_check_ident hstore tag henv
  | _, .binOp tag hop hl hr, _, _, henv => Returns.succ
    (returns_check_binOp tag hop (hl.checked hstore henv) (hr.checked hstore henv))
  | _, .ifElse tag hc ht he, _, _, henv => Returns.succ (returns_check_ifElse tag
    (hc.checked hstore henv) (ht.checked hstore henv) (he.checked hstore henv))
  | _, .list tag h, _, _, henv => Returns.succ (returns_check_list tag
    fun n hn => (h n hn).checked hstore henv)
  | _, .block tag h, _, _, henv => Returns.succ ((returns_check_seq (h.checked hstore henv)
    tag.span).mono fun _ ht => ht.imp fun _ hseq => Setting.stages_block tag hseq)

theorem NamedSeq.checked (hstore : store.AreLiterals) : ∀ {items : List Node},
    NamedSeq links names items →
    ∀ {Γ : List (Name × Builtin)} {env : Env}, Judges store links Γ env →
    Check.ChecksSeq check env items NotVoid (Gives (S.StagesSeq Γ items))
  | _, .nil, _, _, _ => by
    intro last hlast
    cases hlast
  | [_], .cons h _, _, _, henv => (Check.checksSeq_single (h.checked hstore henv) h.boundName?).mono
    fun _ ht => ht.imp fun _ hn => Setting.stagesSeq_last hn
  | _ :: _ :: _, .cons h hrest, _, _, henv => by
    refine .cons (List.cons_ne_nil _ _)
      (Leads.mono (Check.returns_checkItem (h.checked hstore henv) h.boundName?) ?_)
    rintro _ e ⟨⟨b, -, -, hn⟩, rfl⟩
    exact ⟨.same, (hrest.checked hstore henv).mono
      fun _ ht => ht.imp fun _ hseq => Setting.stagesSeq_next hn hseq⟩
  | _, .bind tag ytag hname hlink h hrest hne, _, _, henv => by
    refine .cons hne
      ((leads_check_bind tag ytag _ _ henv hname hlink (h.checked hstore henv)).mono ?_)
    rintro _ e ⟨hopen, b, hy, hvalue, henv'⟩
    exact ⟨hopen, (hrest.checked hstore henv').mono
      fun _ ht => ht.imp fun _ hseq => Setting.stagesSeq_bind tag ytag hy hvalue hseq⟩

end

end Residual.Staging
