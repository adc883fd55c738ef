/-
Selection among the cases of a match, by what is known of one name. A match on a known value takes the
first case whose pattern is equal to the value. If all that is known of the name is its type, a pattern
may still hang on the name; it then differs from every value, so it is passed over, though it may well be
equal to the value once the name is known. A match on a value that is not known yet stays, with all of
its cases.

Where no pattern that is compared hangs on the name, nothing is decided too early: evaluating in two
stages, first without and then with the name, gives what evaluating in one stage gives.
-/
import Residual.Proofs.Known
import Residual.Proofs.Names
import Residual.Proofs.Relabeling

namespace Residual.Selection

open Pass

/-! ## Terms -/

/-- A node built from literals, one name, and operators other than the access to a field. -/
inductive Term (x : Name) : Node → Prop where
  | lit (tag : Tag) (l : Literal) : Term x (.lit tag l)
  | var (tag : Tag) : Term x (.ident tag x)
  | binOp {op : Operator} {lhs rhs : Node} (tag : Tag) (hop : op ≠ .dot) (hl : Term x lhs)
    (hr : Term x rhs) : Term x (.binOp tag op lhs rhs)

/-- The tag of a bare node. -/
def noTag : Tag := ⟨0, .builtin⟩

/-- An operator on two reduced terms. -/
def fold (op : Operator) (a b : Node) : Node :=
  match (do op.fold (← a.number?) (← b.number?)) with
  | some value => .lit noTag value
  | none => .binOp noTag op a b

/-- What a term reduces to, bare, by what is known of its name. -/
def reduce (known : Option Literal) : Node → Node
  | .ident _ x => (known.map (Node.lit noTag)).getD (.ident noTag x)
  | .binOp _ op lhs rhs => fold op (reduce known lhs) (reduce known rhs)
  | n => n.bare

variable {x : Name} {known : Option Literal} {e : Node}

theorem number?_reduce (known : Option Literal) {a : Float} (h : e.number? = some a) :
    (reduce known e).number? = some a := by
  cases e with
  | lit tag l => cases l <;> cases h; rfl
  | _ => cases h

theorem fold_of_number {op : Operator} (hop : op ≠ .dot) {a b : Node} {y z : Float}
    (ha : a.number? = some y) (hb : b.number? = some z) :
    ∃ l, op.fold y z = some l ∧ fold op a b = .lit noTag l := by
  obtain ⟨l, hl⟩ := Operator.exists_fold hop y z
  exact ⟨l, hl, by simp [fold, ha, hb, hl]⟩

theorem fold_cases (op : Operator) (a b : Node) :
    (∃ l y z, a.number? = some y ∧ b.number? = some z ∧ op.fold y z = some l ∧
      fold op a b = .lit noTag l) ∨ fold op a b = .binOp noTag op a b := by
  unfold fold
  split
  · rename_i l h
    simp only [Option.bind_eq_bind, Option.bind_eq_some_iff] at h
    obtain ⟨y, hy, z, hz, hl⟩ := h
    exact .inl ⟨l, y, z, hy, hz, hl, rfl⟩
  · exact .inr rfl

theorem term_reduce (h : Term x e) : Term x (reduce known e) := by
  induction h with
  | lit tag l => exact .lit _ _
  | var tag =>
    cases known with
    | none => exact .var _
    | some v => exact .lit _ _
  | binOp tag hop _ _ ihl ihr =>
    rcases fold_cases _ (reduce known _) (reduce known _) with ⟨l, -, -, -, -, -, hfold⟩ | hfold
    · exact (congrArg (Term x) hfold).mpr (.lit _ _)
    · exact (congrArg (Term x) hfold).mpr (.binOp _ hop ihl ihr)

/-- Learning the name later makes no difference to a term. -/
theorem reduce_reduce (h : Term x e) (v : Literal) :
    reduce (some v) (reduce none e) = reduce (some v) e := by
  induction h with
  | lit | var => rfl
  | @binOp op lhs rhs tag hop _ _ ihl ihr =>
    show reduce (some v) (fold op (reduce none lhs) (reduce none rhs)) =
      fold op (reduce (some v) lhs) (reduce (some v) rhs)
    rcases fold_cases op (reduce none lhs) (reduce none rhs) with
      ⟨l, y, z, hy, hz, hl, hfold⟩ | hfold
    · -- What is a number without the name is the same number with it.
      rw [hfold, ← ihl, ← ihr]
      obtain ⟨l', hl', heq⟩ := fold_of_number hop (number?_reduce (some v) hy)
        (number?_reduce (some v) hz)
      rw [hl] at hl'
      cases hl'
      exact heq.symm
    · rw [hfold, ← ihl, ← ihr]
      rfl

theorem reduce_bare (h : Term x e) : reduce known e.bare = reduce known e := by
  induction h with
  | lit | var => rfl
  | @binOp op lhs rhs _ _ _ _ ihl ihr =>
    show fold op (reduce known lhs.bare) (reduce known rhs.bare) = _
    rw [ihl, ihr]
    rfl

theorem term_of_bare : ∀ {e : Node}, Term x e.bare → Term x e
  | .lit .., _ => .lit _ _
  | .ident .., h => by
    cases h
    exact .var _
  | .binOp .., h => by
    cases h with
    | binOp _ hop hl hr => exact .binOp _ hop (term_of_bare hl) (term_of_bare hr)

/-- Equality of terms does not depend on tags, nor on links. -/
theorem equal_bare {a b : Node} (ha : Term x a) (hb : Term x b) (links : Links) :
    Node.equal links a b = Node.equal .empty a.bare b.bare := by
  induction ha generalizing b with
  | lit => cases hb <;> simp only [Node.bare, Node.relabel, Node.equal]
  | var => cases hb <;> simp only [Node.bare, Node.relabel, Node.equal]
  | binOp _ _ _ _ ihl ihr =>
    cases hb with
    | lit | var => simp only [Node.bare, Node.relabel, Node.equal]
    | binOp _ _ hl hr => simp only [Node.bare, Node.relabel, Node.equal, ihl hl, ihr hr]

theorem isAlias_of_term (h : Term x e) : e.isAlias = false := by cases h <;> rfl

theorem bare_reduce (h : Term x e) : (reduce known e).bare = reduce known e := by
  induction h with
  | lit => rfl
  | var => cases known <;> rfl
  | @binOp op lhs rhs _ _ _ _ ihl ihr =>
    show (fold op (reduce known lhs) (reduce known rhs)).bare = fold op (reduce known lhs) _
    rcases fold_cases op (reduce known lhs) (reduce known rhs) with ⟨l, -, -, -, -, -, hfold⟩ | hfold
    · rw [hfold]
      rfl
    · rw [hfold]
      show Node.binOp noTag op (reduce known lhs).bare (reduce known rhs).bare = _
      rw [ihl, ihr]

/-- A term that is fully known is what it is, whatever the name. -/
theorem reduce_of_isStatic (h : Term x e) (hs : e.isStatic = true) : reduce known e = e.bare := by
  cases h with
  | lit => rfl
  | var | binOp => cases hs

theorem reduce_of_not_mem (h : Term x e) (hx : x ∉ e.names) (v : Literal) :
    reduce (some v) e = reduce none e := by
  induction h with
  | lit => rfl
  | var => exact absurd (List.mem_singleton_self x) hx
  | @binOp op lhs rhs _ _ _ _ ihl ihr =>
    have hx : x ∉ lhs.names ∧ x ∉ rhs.names := by
      simpa only [Node.names, List.mem_append, not_or] using hx
    show fold op _ _ = fold op _ _
    rw [ihl hx.1, ihr hx.2]

theorem isWildcard_reduce (h : Term x e) (hw : e.isWildcard = false) :
    (reduce known e).isWildcard = false := by
  cases h with
  | lit => rfl
  | var =>
    cases known with
    | none => exact hw
    | some v => rfl
  | binOp =>
    rcases fold_cases _ (reduce known _) (reduce known _) with ⟨l, -, -, -, -, -, hfold⟩ | hfold
    · exact (congrArg (fun n => Node.isWildcard n = false) hfold).mpr rfl
    · exact (congrArg (fun n => Node.isWildcard n = false) hfold).mpr rfl

theorem bare_of_isWildcard {n : Node} (h : n.isWildcard = true) : n.bare = .ident noTag "_" := by
  cases n with
  | ident tag name =>
    obtain rfl : name = "_" := by simpa [Node.isWildcard, Node.ident?] using h
    rfl
  | _ => cases h

/-! ## Environments -/

/-- Names are resolved, and this is what is known of the name: that it is bound to a literal, or only
that it is bound, under the same name in residual code. -/
structure Knows (x : Name) (known : Option Literal) (env : Env) : Prop where
  resolve : env.resolve = true
  binding : ∃ b, env.locals.find? x = some b ∧ match known with
    | some v => ∃ tag, b.value = .lit tag v
    | none => b.value.isPlaceholder = true ∧ b.rename = none

variable {env : Env} {F : Fault → Prop}

theorem Knows.returns_var (h : Knows x known env) (tag : Tag) :
    Returns env (fun d => eval d (.ident tag x)) F (·.bare = reduce known (.ident tag x)) := by
  obtain ⟨b, hfind, hb⟩ := h.binding
  refine Returns.succ (returns_env.bind fun _ henv => ?_)
  subst henv
  simp only [Env.lookup_bound hfind, h.resolve, Found.isPlaceholder, Found.rename?]
  cases known with
  | some v =>
    obtain ⟨tag', hvalue⟩ := hb
    simp only [hvalue, Node.isPlaceholder, Bool.not_false, Bool.true_or, Bool.and_self, if_true,
      Pass.valueOf]
    exact returns_pure rfl
  | none =>
    obtain ⟨hvalue, hrename⟩ := hb
    simp only [hvalue, hrename, Bool.not_true, Bool.false_and, Bool.false_eq_true, if_false]
    exact returns_pure rfl

/-- A term evaluates to what it reduces to. -/
theorem Term.returns (h : Term x e) (hk : Knows x known env) :
    Returns env (fun d => eval d e) F (·.bare = reduce known e) := by
  induction h with
  | lit tag l => exact Returns.succ (returns_pure rfl)
  | var tag => exact hk.returns_var tag
  | @binOp op lhs rhs tag hop _ _ ihl ihr =>
    suffices hstep : Returns env (fun d => Eval.evalBinOp (eval d) tag op lhs rhs) F
        (·.bare = reduce known (.binOp tag op lhs rhs)) from Returns.succ hstep
    simp only [Eval.evalBinOp, hop, if_false]
    refine ihl.bind fun a ha => ihr.bind fun b hb => ?_
    have hfold : reduce known (.binOp tag op lhs rhs) = fold op a.bare b.bare := by
      rw [ha, hb]
      rfl
    rw [hfold, fold, Node.number?_relabel, Node.number?_relabel]
    generalize (do op.fold (← a.number?) (← b.number?) : Option Literal) = folded
    cases folded with
    | some l => exact (returns_tagAt _).bind fun t _ => returns_pure rfl
    | none => exact (returns_tagAt _).bind fun t _ => returns_pure rfl

/-! ## Cases -/

/-- From some depth on, the runs end in this way, up to tags. -/
def EndsAs (env : Env) (m : Nat → Pass Node) (o : Except Fault Node) : Prop :=
  Returns env m (fun f => o = .error f) fun n => o = .ok n.bare

/-- The pattern and the body of a case are terms, unless its pattern is `_`. -/
structure TermCase (x : Name) (c : Case Node) : Prop where
  pattern : c.pattern.isWildcard = false → Term x c.pattern
  body : ∀ e ∈ c.body, Term x e

/-- A case without the tags of its nodes. -/
def stripCase (c : Case Node) : Case Node := ⟨c.span, c.pattern.bare, c.body.map Node.bare⟩

/-- What a case reduces to, bare, by what is known of the name. -/
def reduceCase (known : Option Literal) (c : Case Node) : Case Node where
  span := c.span
  pattern := if c.pattern.isWildcard then .ident noTag "_" else reduce known c.pattern
  body := c.body.map (reduce known)

/-- Whether a reduced case takes a known value. -/
def hits (value : Node) (c : Case Node) : Bool :=
  c.pattern.isWildcard || Node.equal .empty c.pattern value

/-- The value of a reduced case: that of the last node of its body. -/
def caseValue (c : Case Node) : Except Fault Node :=
  match c.body.getLast? with
  | some e => .ok e
  | none => .error (.error (.emptySequence c.span))

/-- The value of the first of the reduced cases that takes a known value. -/
def choose (value : Node) (cases : List (Case Node)) : Option (Except Fault Node) :=
  (cases.find? (hits value)).map caseValue

theorem map_eq_of_forall₂ {α β γ : Type} {g : α → γ} {φ : β → γ} {as : List α} {bs : List β}
    (h : List.Forall₂ (fun a b => φ b = g a) as bs) : bs.map φ = as.map g := by
  induction h with
  | nil => rfl
  | cons h _ ih => rw [List.map_cons, List.map_cons, h, ih]

section

variable {c : Case Node} {v : Node}

theorem hits_of_isWildcard (hw : c.pattern.isWildcard = true) :
    hits v (reduceCase known c) = true := by
  rw [hits, reduceCase, if_pos hw]
  rfl

theorem hits_of_term (hc : TermCase x c) (hw : c.pattern.isWildcard = false) :
    hits v (reduceCase known c) = Node.equal .empty (reduce known c.pattern) v := by
  rw [hits, reduceCase, if_neg (by simp [hw]), isWildcard_reduce (hc.pattern hw) hw, Bool.false_or]

theorem returns_evalSeq {body : List Node} (h : ∀ e ∈ body, Term x e) (hk : Knows x known env) :
    Returns env (fun d => Eval.evalSeq (eval d) body) F
      fun ns => ns.map Node.bare = body.map (reduce known) := by
  refine Returns.under ((Returns.forall₂ fun e he => ?_).mono fun _ => map_eq_of_forall₂)
    Guard.lawful_scope
  refine FirstOrder.returns_item ((h e he).returns hk) fun n hn => ?_
  have halias : (reduce known e).isAlias = false := isAlias_of_term (term_reduce (h e he))
  rwa [← hn, Node.isAlias_relabel] at halias

theorem endsAs_body (hc : TermCase x c) (hk : Knows x known env) :
    EndsAs env (fun d => Eval.evalSeq (eval d) c.body >>= (Eval.seqValue · c.span))
      (caseValue (reduceCase known c)) := by
  refine (returns_evalSeq hc.body hk).bind fun ns hns => ?_
  refine returns_env.bind fun _ henv => ?_
  subst henv
  have hlast : ns.getLast?.map Node.bare = (c.body.map (reduce known)).getLast? := by
    rw [← List.getLast?_map, hns]
  simp only [hk.resolve, Bool.true_or, if_true, caseValue, reduceCase, ← hlast]
  cases hlast' : ns.getLast? with
  | none => exact returns_throw rfl
  | some n => exact returns_pure rfl

theorem returns_isMatch (hc : TermCase x c) (hk : Knows x known env) (hv : Term x v) :
    Returns env (fun d => Eval.isMatch (eval d) c.pattern v) F
      (· = hits v.bare (reduceCase known c)) := by
  refine (Eval.returns_isMatch v fun hw => (hc.pattern hw).returns hk).mono fun hit hhit => ?_
  cases hw : c.pattern.isWildcard with
  | true =>
    rw [if_pos hw] at hhit
    rw [hhit, hits_of_isWildcard hw]
  | false =>
    rw [if_neg (by simp [hw])] at hhit
    obtain ⟨p, hp, rfl⟩ := hhit
    have hterm : Term x p := term_of_bare (hp ▸ term_reduce (hc.pattern hw))
    rw [equal_bare hterm hv, hp, hits_of_term hc hw]

/-- The search for a case ends with the value of the case that is chosen. -/
theorem endsAs_cases (hv : Term x v) (hk : Knows x known env) (site : Span)
    {o : Except Fault Node} : ∀ {cases : List (Case Node)}, (∀ c ∈ cases, TermCase x c) →
    choose v.bare (cases.map (reduceCase known)) = some o →
    EndsAs env (fun d => Eval.evalCases (eval d) v site cases) o
  | [], _, ho => by cases ho
  | c :: cs, hcases, ho => by
    obtain ⟨hc, hcs⟩ := List.forall_mem_cons.1 hcases
    refine (returns_isMatch hc hk hv).bind fun hit hhit => ?_
    rw [choose, List.map_cons, List.find?_cons, ← hhit] at ho
    cases hit with
    | true =>
      cases ho
      exact endsAs_body hc hk
    | false => exact endsAs_cases hv hk site hcs ho

theorem returns_evalCase (hc : TermCase x c) (hk : Knows x known env) :
    Returns env (fun d => Eval.evalCase (eval d) c) F (stripCase · = reduceCase known c) := by
  unfold Eval.evalCase reduceCase
  cases hw : c.pattern.isWildcard with
  | true =>
    refine (returns_pure (P := (· = c.pattern)) rfl).bind fun p hp => ?_
    subst hp
    refine (returns_evalSeq hc.body hk).bind fun ns hns => returns_pure ?_
    simp [stripCase, hns, bare_of_isWildcard hw]
  | false =>
    refine ((hc.pattern hw).returns hk).bind fun p hp => ?_
    refine (returns_evalSeq hc.body hk).bind fun ns hns => returns_pure ?_
    simp [stripCase, hp, hns]

end

/-! ## Matches -/

/-- How evaluating a match ends, up to tags. There is no answer if no case takes the value. -/
def outcome (known : Option Literal) (scrutinee : Node) (cases : List (Case Node)) :
    Option (Except Fault Node) :=
  let value := reduce known scrutinee
  let cases := cases.map (reduceCase known)
  if value.isStatic then choose value cases
  else some (.ok (.matchOn noTag value (cases.map fun c => { c with span := .builtin })))

variable {scrutinee : Node} {cases : List (Case Node)}

/-- A match that is not decided stays, with what its parts reduce to. -/
theorem returns_stays (hs : Term x scrutinee) (hcases : ∀ c ∈ cases, TermCase x c)
    (hk : Knows x known env) (hstatic : (reduce known scrutinee).isStatic = false) (tag : Tag) :
    Returns env (fun d => eval d (.matchOn tag scrutinee cases)) F fun n => ∃ t s cs,
      n = .matchOn t s cs ∧ s.bare = reduce known scrutinee ∧
        cs.map stripCase = cases.map (reduceCase known) := by
  refine Returns.succ ((hs.returns hk).bind fun s hsbare => ?_)
  have hstatic : s.isStatic = false := by rwa [← hsbare, Node.isStatic_relabel] at hstatic
  simp only [hstatic, Bool.false_eq_true, if_false]
  refine (Returns.forall₂ fun c hc => returns_evalCase (hcases c hc) hk).bind fun cs hcs => ?_
  exact (returns_tagAt _).bind fun t _ => returns_pure ⟨t, s, cs, rfl, hsbare, map_eq_of_forall₂ hcs⟩

theorem endsAs_match (hs : Term x scrutinee) (hcases : ∀ c ∈ cases, TermCase x c)
    (hk : Knows x known env) {o : Except Fault Node} (ho : outcome known scrutinee cases = some o)
    (tag : Tag) : EndsAs env (fun d => eval d (.matchOn tag scrutinee cases)) o := by
  unfold outcome at ho
  cases hstatic : (reduce known scrutinee).isStatic with
  | true =>
    -- the scrutinee is known, and a case is taken
    simp only [hstatic, if_true] at ho
    refine Returns.succ ((hs.returns hk).bind fun v hv => ?_)
    rw [← hv, Node.isStatic_relabel] at hstatic
    simp only [hstatic, if_true]
    rw [← hv] at ho
    exact endsAs_cases (term_of_bare (hv ▸ term_reduce hs)) hk tag.span hcases ho
  | false =>
    -- the match stays, with all its cases
    simp only [hstatic, Bool.false_eq_true, if_false, Option.some.injEq] at ho
    subst ho
    refine (returns_stays hs hcases hk hstatic tag).mono ?_
    rintro _ ⟨t, s, cs, rfl, hsbare, hcs⟩
    have hbare : cs.map (Node.relabelCase .bare) =
        (cs.map stripCase).map fun c => { c with span := .builtin } := by
      rw [List.map_map]
      exact List.map_congr_left fun c _ => Node.relabelCase_eq .bare c
    simp only [Node.bare, Node.relabel, Node.relabelCases_eq, hbare, hcs]
    rw [← hsbare]
    rfl

/-! ## Two stages -/

theorem reduceCase_stripCase {c : Case Node} (hc : TermCase x c) :
    reduceCase known (stripCase c) = reduceCase known c := by
  have hbody : (c.body.map Node.bare).map (reduce known) = c.body.map (reduce known) := by
    rw [List.map_map]
    exact List.map_congr_left fun e he => reduce_bare (hc.body e he)
  unfold reduceCase stripCase
  rw [hbody]
  cases hw : c.pattern.isWildcard with
  | true => simp [hw]
  | false => simp [hw, reduce_bare (hc.pattern hw)]

theorem reduceCase_reduceCase {c : Case Node} (hc : TermCase x c) (v : Literal) :
    reduceCase (some v) (reduceCase none c) = reduceCase (some v) c := by
  have hbody : (c.body.map (reduce none)).map (reduce (some v)) = c.body.map (reduce (some v)) := by
    rw [List.map_map]
    exact List.map_congr_left fun e he => reduce_reduce (hc.body e he) v
  unfold reduceCase
  simp only [hbody]
  cases hw : c.pattern.isWildcard with
  | true => simp [Node.isWildcard, Node.ident?]
  | false => simp [isWildcard_reduce (hc.pattern hw) hw, reduce_reduce (hc.pattern hw)]

theorem termCase_of_stripCase {cs : List (Case Node)} (hcases : ∀ c ∈ cases, TermCase x c)
    (hstrip : cs.map stripCase = cases.map (reduceCase known)) : ∀ c ∈ cs, TermCase x c := by
  intro c hc
  have hmem : stripCase c ∈ cases.map (reduceCase known) := hstrip ▸ List.mem_map_of_mem hc
  obtain ⟨d, hd, hcase⟩ := List.mem_map.1 hmem
  rw [reduceCase, stripCase, Case.mk.injEq] at hcase
  obtain ⟨-, hpattern, hbody⟩ := hcase
  constructor
  · intro hw
    cases hdw : d.pattern.isWildcard with
    | true =>
      rw [if_pos hdw] at hpattern
      have hwild : c.pattern.bare.isWildcard = true := hpattern ▸ rfl
      rw [Node.isWildcard_relabel, hw] at hwild
      cases hwild
    | false =>
      rw [if_neg (by simp [hdw])] at hpattern
      exact term_of_bare (hpattern ▸ term_reduce ((hcases d hd).pattern hdw))
  · intro e he
    have hmem : e.bare ∈ d.body.map (reduce known) := hbody ▸ List.mem_map_of_mem he
    obtain ⟨e', he', hreduce⟩ := List.mem_map.1 hmem
    exact term_of_bare (hreduce ▸ term_reduce ((hcases d hd).body e' he'))

/-- A match that stayed ends, once the name is known, as it would have ended at once. -/
theorem outcome_of_stripCase {s : Node} {cs : List (Case Node)} (hs : Term x scrutinee)
    (hcases : ∀ c ∈ cases, TermCase x c) (hs' : Term x s) (hcs' : ∀ c ∈ cs, TermCase x c)
    (hbare : s.bare = reduce none scrutinee)
    (hstrip : cs.map stripCase = cases.map (reduceCase none)) (v : Literal) :
    outcome (some v) s cs = outcome (some v) scrutinee cases := by
  have hvalue : reduce (some v) s = reduce (some v) scrutinee := by
    rw [← reduce_bare hs', hbare, reduce_reduce hs]
  have hreduce : cs.map (reduceCase (some v)) = cases.map (reduceCase (some v)) := by
    calc cs.map (reduceCase (some v))
        = (cs.map stripCase).map (reduceCase (some v)) := by
          rw [List.map_map]
          exact List.map_congr_left fun c hc => (reduceCase_stripCase (hcs' c hc)).symm
      _ = (cases.map (reduceCase none)).map (reduceCase (some v)) := by rw [hstrip]
      _ = cases.map (reduceCase (some v)) := by
          rw [List.map_map]
          exact List.map_congr_left fun c hc => reduceCase_reduceCase (hcases c hc) v
  rw [outcome, outcome, hvalue, hreduce]

/-- Up to the case that takes the known value, no pattern hangs on the name. -/
def isSettled (x : Name) (value : Node) : List (Case Node) → Bool
  | [] => true
  | c :: cs =>
    c.pattern.isWildcard || (!c.pattern.names.contains x &&
      (Node.equal .empty (reduce none c.pattern) value || isSettled x value cs))

theorem caseValue_reduceCase {c : Case Node} (hc : TermCase x c) (v : Literal) :
    caseValue (reduceCase (some v) c) = (caseValue (reduceCase none c)).map (reduce (some v)) := by
  unfold caseValue reduceCase
  rw [List.getLast?_map, List.getLast?_map]
  cases hlast : c.body.getLast? with
  | none => rfl
  | some e => exact congrArg Except.ok (reduce_reduce (hc.body e (List.mem_of_getLast? hlast)) v).symm

theorem term_of_choose {value : Node} (hcases : ∀ c ∈ cases, TermCase x c)
    (h : choose value (cases.map (reduceCase known)) = some (.ok e)) : Term x e := by
  obtain ⟨d, hd, hvalue⟩ := Option.map_eq_some_iff.1 h
  obtain ⟨c, hc, rfl⟩ := List.mem_map.1 (List.mem_of_find?_eq_some hd)
  unfold caseValue at hvalue
  split at hvalue
  · rename_i e' hlast
    cases hvalue
    obtain ⟨e', he', rfl⟩ := List.mem_map.1 (List.mem_of_getLast? hlast)
    exact term_reduce ((hcases c hc).body e' he')
  · cases hvalue

/-- Where no pattern that is compared hangs on the name, the same case is taken once it is known. -/
theorem choose_of_isSettled {value : Node} {o : Except Fault Node} (v : Literal) :
    ∀ {cases : List (Case Node)}, (∀ c ∈ cases, TermCase x c) → isSettled x value cases = true →
    choose value (cases.map (reduceCase none)) = some o →
    choose value (cases.map (reduceCase (some v))) = some (o.map (reduce (some v)))
  | [], _, _, ho => by cases ho
  | c :: cs, hcases, hsettled, ho => by
    obtain ⟨hc, hcs⟩ := List.forall_mem_cons.1 hcases
    rw [choose, List.map_cons, List.find?_cons] at ho ⊢
    cases hw : c.pattern.isWildcard with
    | true =>
      simp only [hits_of_isWildcard hw, Option.map_some, Option.some.injEq] at ho ⊢
      rw [← ho, caseValue_reduceCase hc v]
    | false =>
      simp only [isSettled, hw, Bool.false_or, Bool.and_eq_true, Bool.not_eq_true',
        List.contains_eq_mem, decide_eq_false_iff_not, Bool.or_eq_true] at hsettled
      obtain ⟨hx, hsettled⟩ := hsettled
      -- the pattern does not hang on the name, so it is compared in the same way in both stages
      simp only [hits_of_term hc hw, reduce_of_not_mem (hc.pattern hw) hx v] at ho ⊢
      cases hhit : Node.equal .empty (reduce none c.pattern) value with
      | true =>
        simp only [hhit, Option.map_some, Option.some.injEq] at ho ⊢
        rw [← ho, caseValue_reduceCase hc v]
      | false =>
        simp only [hhit, Bool.false_eq_true, false_or] at ho hsettled ⊢
        exact choose_of_isSettled v hcs hsettled ho

/-- A case for everything takes every value. -/
theorem exists_outcome (known : Option Literal) (scrutinee : Node)
    (h : ∃ c ∈ cases, c.pattern.isWildcard = true) :
    ∃ o, outcome known scrutinee cases = some o := by
  unfold outcome
  cases hstatic : (reduce known scrutinee).isStatic with
  | false => exact ⟨_, by simp only [hstatic, Bool.false_eq_true, if_false]; rfl⟩
  | true =>
    obtain ⟨c, hc, hw⟩ := h
    have hfound : ((cases.map (reduceCase known)).find?
        (hits (reduce known scrutinee))).isSome = true := by
      rw [List.find?_isSome]
      exact ⟨reduceCase known c, List.mem_map_of_mem hc, hits_of_isWildcard hw⟩
    obtain ⟨d, hd⟩ := Option.isSome_iff_exists.1 hfound
    exact ⟨caseValue d, by simp [hstatic, choose, hd]⟩

/-- A match over terms of one name, with a last case for everything. -/
structure IsTermMatch (x : Name) (scrutinee : Node) (cases : List (Case Node)) : Prop where
  term : Term x scrutinee
  terms : ∀ c ∈ cases, TermCase x c
  last : ∃ c, cases.getLast? = some c ∧ c.pattern.isWildcard = true

/-- Match selection is stable under more knowledge. Let a match be evaluated where all that is known of
a name is its type, and let no pattern that is compared with a known value hang on the name. Then the
residual node, evaluated where the name stands for a literal, ends as the match itself does there, up
to tags; and so does the first stage if it ends with a fault. -/
theorem match_selection_is_stable {m : Node} {tag : Tag} (hm : m = .matchOn tag scrutinee cases)
    (h : IsTermMatch x scrutinee cases) {s s' : Machine} {v : Literal} (hs : Knows x none s.env)
    (hs' : Knows x (some v) s'.env)
    (hsettled : (reduce none scrutinee).isStatic = true →
      isSettled x (reduce none scrutinee) cases = true) :
    ∃ r t o, (∃ depth, ∀ d ≥ depth, (eval d m).runOn s = (r, t)) ∧
      EndsAs s'.env (fun d => eval d m) o ∧
      match r with
      | .ok residual => EndsAs s'.env (fun d => eval d residual) o
      | .error f => o = .error f := by
  subst hm
  have hwild : ∃ c ∈ cases, c.pattern.isWildcard = true := by
    obtain ⟨c, hc, hw⟩ := h.last
    exact ⟨c, List.mem_of_getLast? hc, hw⟩
  cases hstatic : (reduce none scrutinee).isStatic with
  | true =>
    -- The first stage takes a case, and the second one is left with the value of its body.
    obtain ⟨o, ho⟩ := exists_outcome none scrutinee hwild
    have hvalue : reduce (some v) scrutinee = reduce none scrutinee := by
      rw [← reduce_reduce h.term v, reduce_of_isStatic (term_reduce h.term) hstatic,
        bare_reduce h.term]
    have hchoose : choose (reduce none scrutinee) (cases.map (reduceCase none)) = some o := by
      simpa only [outcome, hstatic, if_true] using ho
    have ho' : outcome (some v) scrutinee cases = some (o.map (reduce (some v))) := by
      simp only [outcome, hvalue, hstatic, if_true]
      exact choose_of_isSettled v h.terms (hsettled hstatic) hchoose
    obtain ⟨r, t, hends, hrun⟩ := endsAs_match h.term h.terms hs ho tag s rfl
    refine ⟨r, t, _, hrun, endsAs_match h.term h.terms hs' ho' tag, ?_⟩
    cases r with
    | error f =>
      obtain rfl : o = .error f := hends
      rfl
    | ok n =>
      obtain rfl : o = .ok n.bare := hends.1
      have hn : Term x n := term_of_bare (term_of_choose h.terms hchoose)
      refine (hn.returns hs').mono fun n' hn' => ?_
      rw [hn', ← reduce_bare hn]
      rfl
  | false =>
    -- The first stage keeps the match, and the second one evaluates it again.
    obtain ⟨o, ho⟩ := exists_outcome (some v) scrutinee hwild
    obtain ⟨r, t, hends, hrun⟩ := returns_stays (F := NoFault) h.term h.terms hs hstatic tag s rfl
    refine ⟨r, t, o, hrun, endsAs_match h.term h.terms hs' ho tag, ?_⟩
    cases r with
    | error f => exact hends.elim
    | ok n =>
      obtain ⟨⟨t', scrutinee', cases', rfl, hbare, hstrip⟩, -⟩ := hends
      have hterm : Term x scrutinee' := term_of_bare (hbare ▸ term_reduce h.term)
      have hterms := termCase_of_stripCase h.terms hstrip
      rw [← outcome_of_stripCase h.term h.terms hterm hterms hbare hstrip v] at ho
      exact endsAs_match hterm hterms hs' ho t'

/-- A machine with no definitions on which `x` is bound. -/
def machineWith (value : Node) : Machine :=
  ⟨(Env.start .empty .empty default).push ⟨"x", value, false, none⟩, ⟨20⟩⟩

theorem knows_type (b : Builtin) :
    Knows "x" none (machineWith (.selfType ⟨18, .builtin⟩ (.builtin ⟨19, .builtin⟩ b))).env :=
  ⟨rfl, _, rfl, rfl, rfl⟩

theorem knows_value (v : Literal) : Knows "x" (some v) (machineWith (.lit ⟨18, .builtin⟩ v)).env :=
  ⟨rfl, _, rfl, _, rfl⟩

/-- `match true { false => x, true => x, _ => false }` -/
def takenCases : List (Case Node) :=
  [⟨.builtin, .lit ⟨2, .builtin⟩ (.bool false), [.ident ⟨3, .builtin⟩ "x"]⟩,
    ⟨.builtin, .lit ⟨4, .builtin⟩ (.bool true), [.ident ⟨5, .builtin⟩ "x"]⟩,
    ⟨.builtin, .ident ⟨6, .builtin⟩ "_", [.lit ⟨7, .builtin⟩ (.bool false)]⟩]

/-- `match x { x + 1 => "next", true => x, _ => "other" }` -/
def keptCases : List (Case Node) :=
  [⟨.builtin, .binOp ⟨2, .builtin⟩ .add (.ident ⟨3, .builtin⟩ "x") (.lit ⟨4, .builtin⟩ (.number 1)),
      [.lit ⟨5, .builtin⟩ (.string "next")]⟩,
    ⟨.builtin, .lit ⟨6, .builtin⟩ (.bool true), [.ident ⟨7, .builtin⟩ "x"]⟩,
    ⟨.builtin, .ident ⟨8, .builtin⟩ "_", [.lit ⟨9, .builtin⟩ (.string "other")]⟩]

theorem isTermMatch_takenCases :
    IsTermMatch "x" (.lit ⟨1, .builtin⟩ (.bool true)) takenCases := by
  refine ⟨.lit _ _, ?_, _, rfl, rfl⟩
  simp only [takenCases, List.forall_mem_cons, List.not_mem_nil, false_implies, implies_true, and_true]
  refine ⟨⟨fun _ => .lit _ _, ?_⟩, ⟨fun _ => .lit _ _, ?_⟩, ⟨fun h => absurd h (by decide), ?_⟩⟩
  · exact List.forall_mem_singleton.2 (.var _)
  · exact List.forall_mem_singleton.2 (.var _)
  · exact List.forall_mem_singleton.2 (.lit _ _)

theorem isTermMatch_keptCases : IsTermMatch "x" (.ident ⟨1, .builtin⟩ "x") keptCases := by
  refine ⟨.var _, ?_, _, rfl, rfl⟩
  simp only [keptCases, List.forall_mem_cons, List.not_mem_nil, false_implies, implies_true, and_true]
  refine ⟨⟨fun _ => .binOp _ (by decide) (.var _) (.lit _ _), ?_⟩, ⟨fun _ => .lit _ _, ?_⟩,
    ⟨fun h => absurd h (by decide), ?_⟩⟩
  · exact List.forall_mem_singleton.2 (.lit _ _)
  · exact List.forall_mem_singleton.2 (.var _)
  · exact List.forall_mem_singleton.2 (.lit _ _)

/-- The first match is decided in the first stage, the second one only in the second stage. -/
theorem match_selection_is_stable_flag :
    let unknown := machineWith (.selfType ⟨18, .builtin⟩ (.builtin ⟨19, .builtin⟩ .bool))
    let known := machineWith (.lit ⟨18, .builtin⟩ (.bool true))
    let IsStable (m : Node) : Prop := ∃ r t o, (∃ depth, ∀ d ≥ depth, (eval d m).runOn unknown = (r, t)) ∧
      EndsAs known.env (fun d => eval d m) o ∧
      match r with
      | .ok residual => EndsAs known.env (fun d => eval d residual) o
      | .error f => o = .error f
    isSettled "x" (.lit noTag (.bool true)) takenCases = true ∧
      IsStable (.matchOn ⟨0, .builtin⟩ (.lit ⟨1, .builtin⟩ (.bool true)) takenCases) ∧
      IsStable (.matchOn ⟨0, .builtin⟩ (.ident ⟨1, .builtin⟩ "x") keptCases) := by
  intro unknown known IsStable
  have hsettled : isSettled "x" (.lit noTag (.bool true)) takenCases = true := by decide
  refine ⟨hsettled, ?_, ?_⟩
  · exact match_selection_is_stable rfl isTermMatch_takenCases (knows_type .bool)
      (knows_value (.bool true)) fun _ => hsettled
  · refine match_selection_is_stable rfl isTermMatch_keptCases (knows_type .bool)
      (knows_value (.bool true)) fun h => ?_
    cases h

/-- `match true { x => false, _ => true }` -/
def hastyCases : List (Case Node) :=
  [⟨.builtin, .ident ⟨2, .builtin⟩ "x", [.lit ⟨3, .builtin⟩ (.bool false)]⟩,
    ⟨.builtin, .ident ⟨4, .builtin⟩ "_", [.lit ⟨5, .builtin⟩ (.bool true)]⟩]

/-- A pattern that hangs on the name is passed over while the name is not known. Once `x` is `true`, the
first case takes the value, but the first stage has taken the second one. -/
theorem match_selection_is_hasty :
    let m := Node.matchOn ⟨0, .builtin⟩ (.lit ⟨1, .builtin⟩ (.bool true)) hastyCases
    let unknown := machineWith (.selfType ⟨18, .builtin⟩ (.builtin ⟨19, .builtin⟩ .bool))
    let known := machineWith (.lit ⟨18, .builtin⟩ (.bool true))
    IsTermMatch "x" (.lit ⟨1, .builtin⟩ (.bool true)) hastyCases ∧
      ∃ residual t, (∃ depth, ∀ d ≥ depth, (eval d m).runOn unknown = (.ok residual, t)) ∧
        EndsAs known.env (fun d => eval d residual) (.ok (.lit noTag (.bool true))) ∧
        EndsAs known.env (fun d => eval d m) (.ok (.lit noTag (.bool false))) := by
  intro m unknown known
  have hm : IsTermMatch "x" (.lit ⟨1, .builtin⟩ (.bool true)) hastyCases := by
    refine ⟨.lit _ _, ?_, _, rfl, rfl⟩
    simp only [hastyCases, List.forall_mem_cons, List.not_mem_nil, false_implies, implies_true,
      and_true]
    refine ⟨⟨fun _ => .var _, ?_⟩, ⟨fun h => absurd h (by decide), ?_⟩⟩
    · exact List.forall_mem_singleton.2 (.lit _ _)
    · exact List.forall_mem_singleton.2 (.lit _ _)
  refine ⟨hm, .lit ⟨5, .builtin⟩ (.bool true), unknown, ⟨3, fun d hd => ?_⟩, ?_, ?_⟩
  · obtain ⟨k, rfl⟩ : ∃ k, d = k + 2 := ⟨d - 2, by omega⟩
    rfl
  · exact Returns.succ (returns_pure rfl)
  · exact endsAs_match hm.term hm.terms (knows_value (.bool true)) rfl _

end Residual.Selection
