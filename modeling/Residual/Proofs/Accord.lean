/-
Alike programs are checked alike: from environments that are alike, alike nodes have alike types, or
both fail in the same way. The types are those of the program and those that the checker made for
functions; a name of the latter is only seen where a type is held against one of the program, and there
it makes no difference. The rules follow the checker as those of `Parallel` follow the evaluator, and
`keeps_check` ties the knot.
-/
import Residual.Proofs.Parallel

namespace Residual

open Pass Node

theorem Fault.Alike.isOrdinary_eq {ℓ : Likeness} (f f' : Fault) (h : f.Alike ℓ f') :
    f'.isOrdinary = f.isOrdinary := by
  cases h <;> rfl

namespace Check

variable {ℓ : Likeness}

theorem parallel_type (b : Builtin) :
    Parallel ℓ (TypeAlike ℓ) (Pass.builtin b) (Pass.builtin b) :=
  (parallel_builtin b).mono fun _ _ h => .source h

theorem parallel_placeholder (span : Span) {ty ty' : Node} (hty : ty.TypeAlike ℓ ty') :
    Parallel ℓ (Held ℓ) (placeholder span ty) (placeholder (ℓ.span span) ty') :=
  parallel_tagAt _ fun t => related_pure (.placeholder t hty)

theorem parallel_expect {expected expected' found found' : Node} (he : expected.TypeAlike ℓ expected')
    (hf : found.TypeAlike ℓ found') (site : Span) :
    Parallel ℓ Eq (expect expected found site) (expect expected' found' (ℓ.span site)) := by
  unfold expect
  rw [he.compatible_eq hf]
  split
  · exact related_pure rfl
  · exact parallel_fail (.typeMismatch he.looks hf.looks _)

theorem parallel_checkArg {expected expected' found found' : Node}
    (he : expected.TypeAlike ℓ expected') (hf : found.TypeAlike ℓ found')
    (call arg definition : Span) :
    Parallel ℓ Eq (checkArg expected found call arg definition)
      (checkArg expected' found' (ℓ.span call) (ℓ.span arg) (ℓ.span definition)) := by
  unfold checkArg
  rw [he.compatible_eq hf]
  split
  · exact related_pure rfl
  · exact parallel_fail (.argumentMismatch he.looks hf.looks _ _ _)

theorem fits_eq (b : Builtin) {found found' : Node} (hf : found.TypeAlike ℓ found') :
    fits b found' = fits b found := by
  have htag (t : Tag) (n : Node) : fits b n = compatible (.builtin t b) n := by
    cases b <;> cases n <;> rfl
  rw [htag (Tag.relabel ℓ.tags ⟨0, .builtin⟩), htag ⟨0, .builtin⟩]
  exact TypeAlike.compatible_source (.builtin _ b) hf

/-! ## Branches -/

/-- The arms of two branches end alike, at locations that correspond. -/
def ArmAlike (ℓ : Likeness) (arm arm' : Except Fault Node × Span) : Prop :=
  Outcomes (Fault.Alike ℓ) (TypeAlike ℓ) arm.1 arm'.1 ∧ arm'.2 = ℓ.span arm.2

/-- The types of two arms are alike, at locations that correspond. -/
def KnownAlike (ℓ : Likeness) (known known' : Node × Span) : Prop :=
  known.1.TypeAlike ℓ known'.1 ∧ known'.2 = ℓ.span known.2

theorem knownTypes_alike {arms arms' : List (Except Fault Node × Span)}
    (h : List.Forall₂ (ArmAlike ℓ) arms arms') :
    Outcomes (Fault.Alike ℓ) (List.Forall₂ (KnownAlike ℓ)) (knownTypes arms) (knownTypes arms') := by
  induction h with
  | nil => exact .ok .nil
  | @cons arm arm' arms arms' harm _ ih =>
    obtain ⟨r, site⟩ := arm
    obtain ⟨r', site'⟩ := arm'
    obtain ⟨harm, hsite⟩ := harm
    have harm : Outcomes (Fault.Alike ℓ) (TypeAlike ℓ) r r' := harm
    cases harm with
    | ok hty =>
      simp only [knownTypes]
      generalize knownTypes arms = known, knownTypes arms' = known' at ih
      cases ih with
      | ok hknown => exact .ok (.cons ⟨hty, hsite⟩ hknown)
      | error hf => exact .error hf
    | error hf =>
      cases hf with
      | void => exact ih
      | error h => exact .error (.error h)
      | contradiction hfunc hty => exact .error (.contradiction hfunc hty)
      | exhausted => exact .error .exhausted

theorem find?_incompatible {first first' : Node} (hfirst : first.TypeAlike ℓ first')
    {others others' : List (Node × Span)} (h : List.Forall₂ (KnownAlike ℓ) others others') :
    Option.Rel (KnownAlike ℓ)
      (others.find? fun known => !compatible first known.1)
      (others'.find? fun known => !compatible first' known.1) := by
  induction h with
  | nil => exact .none
  | cons hknown _ ih =>
    rw [List.find?_cons, List.find?_cons, hfirst.compatible_eq hknown.1]
    split
    · exact .some hknown
    · exact ih

theorem parallel_join {arms arms' : List (Except Fault Node × Span)} (site : Span)
    (h : List.Forall₂ (ArmAlike ℓ) arms arms') :
    Parallel ℓ (TypeAlike ℓ) (join site arms) (join (ℓ.span site) arms') := by
  refine (related_liftExcept (knownTypes_alike h)).bind fun known known' hknown => ?_
  cases hknown with
  | nil => exact parallel_fail (.cannotInfer _)
  | @cons first first' others others' hfirst hothers =>
    have hfound := find?_incompatible hfirst.1 hothers
    dsimp only
    generalize (others.find? fun known => !compatible first.1 known.1) = found,
      (others'.find? fun known => !compatible first'.1 known.1) = found' at hfound
    cases hfound with
    | none => exact related_pure hfirst.1
    | some hty =>
      dsimp only
      rw [hfirst.2, hty.2]
      exact parallel_fail (.branchMismatch hfirst.1.looks hty.1.looks _ _)

/-- The values of alike bodies are at locations that correspond. -/
theorem bodySite_eq {body body' : List Node} (h : List.Forall₂ (Alike ℓ) body body') (site : Span) :
    bodySite body' (ℓ.span site) = ℓ.span (bodySite body site) := by
  have hlast := forall₂_getLast? h
  rw [bodySite, bodySite]
  generalize body.getLast? = last, body'.getLast? = last' at hlast
  cases hlast with
  | none => rfl
  | some hlast => exact hlast.span_eq

/-- Alike nodes have alike types, and a placeholder has the type that it stands for. -/
structure Keeps (ℓ : Likeness) (check : Node → Pass Node) : Prop where
  node : ∀ {n n' : Node}, n.Alike ℓ n' → Parallel ℓ (TypeAlike ℓ) (check n) (check n')
  placeholder : ∀ {ty ty' : Node} (t : Tag), ty.TypeAlike ℓ ty' →
    Parallel ℓ (TypeAlike ℓ) (check (.selfType t ty)) (check (.selfType (t.relabel ℓ.tags) ty'))

theorem Keeps.held {check : Node → Pass Node} (h : Keeps ℓ check) {n n' : Node} (hn : n.Held ℓ n') :
    Parallel ℓ (TypeAlike ℓ) (check n) (check n') := by
  cases hn with
  | value hn => exact h.node hn
  | placeholder t hty => exact h.placeholder t hty

section

variable {eval check : Node → Pass Node} (hre : ∀ n, Restores (eval n)) (hrc : ∀ n, Restores (check n))
  (hev : Eval.Keeps ℓ eval)
  (hck : Keeps ℓ check)

/-! ## Sequences -/

include hck in
theorem parallel_checkItem {item item' : Node} (hi : item.Alike ℓ item') :
    Parallel ℓ (TypeAlike ℓ) (checkItem check item) (checkItem check item') := by
  refine (hck.node hi).bind fun ty ty' hty => ?_
  rw [hi.boundName?_eq, hi.span_eq]
  split
  · rename_i name hname
    refine (parallel_placeholder _ hty).bind fun value value' hvalue => ?_
    refine (related_push fun _ _ he => ?_).bind fun _ _ _ => related_pure hty
    exact he.push ⟨hvalue, rfl, rfl, fun _ h => by cases h⟩ rfl (hi.bound_of_boundName? hname)
  · exact related_pure hty

include hck in
theorem parallel_checkItems {items items' : List Node} (hi : List.Forall₂ (Alike ℓ) items items') :
    Parallel ℓ Eq (checkItems check items) (checkItems check items') := by
  induction hi with
  | nil => exact related_pure rfl
  | cons hi _ ih => exact (parallel_checkItem hck hi).bind fun _ _ _ => ih

include hrc hck in
theorem parallel_checkSeq {items items' : List Node} (hi : List.Forall₂ (Alike ℓ) items items')
    (site : Span) :
    Parallel ℓ (TypeAlike ℓ) (checkSeq check items site) (checkSeq check items' (ℓ.span site)) := by
  have hr := restores_checkSeq hrc items site
  have hr' := restores_checkSeq hrc items' (ℓ.span site)
  unfold checkSeq at hr hr' ⊢
  have hlast := forall₂_getLast? hi
  generalize items.getLast? = last, items'.getLast? = last' at hlast hr hr'
  cases hlast with
  | none => exact parallel_fail (.emptySequence _)
  | some hlast =>
    refine Related.under ?_ (fun _ _ he => he) hr hr'
    exact (parallel_checkItems hck (forall₂_dropLast hi)).bind fun _ _ _ => parallel_checkItem hck hlast

/-! ## Type expressions -/

include hre hev hck

theorem parallel_denoted {ty ty' : Node} (hty : ty.Alike ℓ ty') :
    Parallel ℓ (Alike ℓ) (denoted eval check ty) (denoted eval check ty') :=
  (hck.node hty).bind fun _ _ _ => Eval.parallel_evalType hre hev hty

theorem parallel_typeExpr {ty ty' : Node} (hty : ty.Alike ℓ ty') :
    Parallel ℓ (Alike ℓ) (typeExpr eval check ty) (typeExpr eval check ty') := by
  refine (parallel_denoted hre hev hck hty).bind fun value value' hvalue => ?_
  rw [hvalue.isType_eq]
  split
  · exact related_pure hvalue
  · rw [hty.span_eq]
    exact parallel_fail (.notAType hvalue.looks _)

theorem parallel_declaredType {ty ty' : Node} (hty : ty.Alike ℓ ty') :
    Parallel ℓ (Alike ℓ) (declaredType eval check ty) (declaredType eval check ty') := by
  refine (parallel_denoted hre hev hck hty).bind fun value value' hvalue => ?_
  rw [hvalue.isType_eq]
  split
  · exact related_pure hvalue
  · exact parallel_builtin _

theorem parallel_checkFieldType {d d' : Decl Node} (hd : Decl.Alike ℓ (Alike ℓ) d d') :
    Parallel ℓ Eq (checkFieldType eval check d) (checkFieldType eval check d') := by
  cases hd with
  | mk span name hty =>
    refine ((parallel_typeExpr hre hev hck hty).attempt Fault.Alike.isOrdinary_eq).bind
      fun r r' hr => ?_
    cases hr with
    | ok => exact related_pure rfl
    | error hf =>
      cases hf with
      | void => exact related_pure rfl
      | error h => exact parallel_fail h
      | contradiction hfunc hty => exact related_throw (.contradiction hfunc hty)
      | exhausted => exact related_throw .exhausted

theorem parallel_checkFieldTypes {fields fields' : List (Decl Node)}
    (h : List.Forall₂ (Decl.Alike ℓ (Alike ℓ)) fields fields') :
    Parallel ℓ Eq (fields.forM (checkFieldType eval check))
      (fields'.forM (checkFieldType eval check)) := by
  induction h with
  | nil => exact related_pure rfl
  | cons hd _ ih => exact (parallel_checkFieldType hre hev hck hd).bind fun _ _ _ => ih

/-! ## Lists and names -/

omit hre hev

theorem parallel_checkItemsAgainst {expected expected' : Node}
    (he : expected.TypeAlike ℓ expected') {items items' : List Node}
    (hi : List.Forall₂ (Alike ℓ) items items') :
    Parallel ℓ Eq (checkItemsAgainst check expected items)
      (checkItemsAgainst check expected' items') := by
  induction hi with
  | nil => exact related_pure rfl
  | cons hi _ ih =>
    refine (hck.node hi).bind fun _ _ hty => ?_
    rw [hi.span_eq]
    exact (parallel_expect he hty _).bind fun _ _ _ => ih

theorem parallel_checkList {items items' : List Node} (hi : List.Forall₂ (Alike ℓ) items items') :
    Parallel ℓ (TypeAlike ℓ) (checkList check items) (checkList check items') := by
  cases hi with
  | nil => exact parallel_type _
  | cons hfirst hothers =>
    exact (hck.node hfirst).bind fun _ _ hty => (parallel_checkItemsAgainst hck hty hothers).bind
      fun _ _ _ => parallel_type _

theorem parallel_checkAlias (t : Tag) (target : Node) (link : Option DefId) {value value' : Node}
    (hx : ∀ x, target.ident? = some x → ℓ.bound x) (hv : value.Alike ℓ value') :
    Parallel ℓ (TypeAlike ℓ) (checkAlias check t target value link)
      (checkAlias check (t.relabel ℓ.tags) (target.relabel ℓ.tags) value' link) := by
  unfold checkAlias
  rw [ident?_relabel]
  split
  · rw [span_relabel]
    exact parallel_fail (.invalidTarget (looks_relabel target) _)
  · rename_i name hname
    refine related_env.bind fun e e' he => ?_
    have hlookup := he.lookup_alike (ℓ.bound_used (hx name hname))
    generalize e.lookup name = found, e'.lookup name = found' at hlookup
    cases hlookup with
    | none => exact hck.node hv
    | some hfound =>
      simp only [hfound.isLinked_eq]
      rw [show (t.relabel ℓ.tags).id = ℓ.tags.id t.id from rfl, he.links]
      split
      · exact hck.node hv
      · rw [hfound.span_eq]
        exact parallel_fail (.alreadyDefined name _ _)

include hrc

theorem parallel_checkDefined {value value' : Node} (hv : value.Alike ℓ value') :
    Parallel ℓ (TypeAlike ℓ) (checkDefined check value) (checkDefined check value') := by
  refine related_env.bind fun e e' he => ?_
  rw [he.isOnStack_eq hv.id_eq]
  split
  · exact related_throw .void
  · exact (hck.node hv).under (fun _ _ he => he.enterCall hv.id_eq)
      ((hrc value).under (Guard.lawful_call value)) ((hrc value').under (Guard.lawful_call value'))

theorem parallel_checkIdent (t : Tag) {x x' : Name} (hx : ℓ.used x x') :
    Parallel ℓ (TypeAlike ℓ) (checkIdent check t x) (checkIdent check (t.relabel ℓ.tags) x') := by
  refine related_env.bind fun e e' he => ?_
  have hlookup := he.lookup_alike hx
  generalize e.lookup x = found, e'.lookup x' = found' at hlookup
  have hglobals {v v' : Node} (hv : v.Held ℓ v') :
      Parallel ℓ (TypeAlike ℓ) (under .globals (check v)) (under .globals (check v')) :=
    (hck.held hv).under (fun _ _ he => he.globals) ((hrc v).under Guard.lawful_globals)
      ((hrc v').under Guard.lawful_globals)
  cases hlookup with
  | none => exact parallel_fail (.unknownName hx _)
  | some hfound =>
    cases hfound with
    | bound | builtin =>
      exact (parallel_valueOf (by constructor <;> assumption)).bind fun _ _ hv => hglobals hv
    | @defined value value' d hv =>
      refine (related_pure (R := Alike ℓ) hv).bind fun value value' hv => ?_
      have hdefined := restores_checkDefined hrc
      simp only [hv.isFunc_eq]
      split
      · exact hglobals (.value hv)
      · exact (parallel_checkDefined hrc hck hv).under (fun _ _ he => he.globals)
          ((hdefined value).under Guard.lawful_globals) ((hdefined value').under Guard.lawful_globals)

/-! ## Functions -/

/-- The body of a function, below its binder. -/
theorem parallel_checkBody {function function' : Node} {b b' : Binding} {body body' : List Node}
    (hid : function'.id = ℓ.id function.id)
    (hpush : ∀ e e' : Env, e.Alike ℓ e' → (e.push b).Alike ℓ (e'.push b'))
    (hbody : List.Forall₂ (Alike ℓ) body body') (site : Span) :
    Parallel ℓ (TypeAlike ℓ)
      (under (.call function) <| under (.binding b) <|
        under (.resolve false) (checkSeq check body site))
      (under (.call function') <| under (.binding b') <|
        under (.resolve false) (checkSeq check body' (ℓ.span site))) := by
  have inner (body : List Node) (site : Span) :=
    (restores_checkSeq hrc body site).under (Guard.lawful_resolve false)
  have middle (b : Binding) (body : List Node) (site : Span) :=
    (inner body site).under (Guard.lawful_binding b)
  have outer (n : Node) (b : Binding) (body : List Node) (site : Span) :=
    (middle b body site).under (Guard.lawful_call n)
  refine Related.under (Related.under (Related.under ?_ (fun _ _ he => { he with resolve := rfl })
    (inner _ _) (inner _ _)) hpush (middle _ _ _) (middle _ _ _)) (fun _ _ he => he.enterCall hid)
    (outer _ _ _ _) (outer _ _ _ _)
  exact parallel_checkSeq hrc hck hbody site

include hre hev

/-- The parameters may have different names, as long as each is used in the place of the other. -/
theorem parallel_checkFunc (t : Tag) (span : Span) {x x' : Name} {ty ty' : Node}
    {body body' : List Node} (hx : ∀ {y y' : Name}, ℓ.used y y' → (x = y ↔ x' = y'))
    (hty : ty.Alike ℓ ty') (hbody : List.Forall₂ (Alike ℓ) body body') :
    Parallel ℓ (TypeAlike ℓ) (checkFunc eval check t ⟨span, x, ty⟩ body)
      (checkFunc eval check (t.relabel ℓ.tags) ⟨ℓ.span span, x', ty'⟩ body') := by
  refine related_env.bind fun e e' he => ?_
  have hid : (func (t.relabel ℓ.tags) ⟨ℓ.span span, x', ty'⟩ body').id =
      ℓ.id (func t ⟨span, x, ty⟩ body).id := rfl
  rw [he.isOnStack_eq hid]
  split
  · exact related_throw .void
  · refine (parallel_declaredType hre hev hck hty).bind fun ty ty' hty =>
      (parallel_placeholder span (.source hty)).bind fun value value' hvalue => ?_
    refine (parallel_checkBody hrc hck rfl (fun _ _ he => ?_) hbody t.span).bind
      fun result result' hresult => parallel_tagAt _ fun t' =>
        related_pure (.inferred t' (ℓ.inferred_span t.span) (.source hty) hresult)
    exact he.push_pair ⟨hvalue, rfl, rfl, fun _ h => by cases h⟩ hx

/-- The declared argument and result types are alike. -/
def SignatureAlike (ℓ : Likeness) (sig sig' : Node × Node) : Prop :=
  sig.1.TypeAlike ℓ sig'.1 ∧ sig.2.TypeAlike ℓ sig'.2

omit hre hev hrc hck in
theorem parallel_signature {calleeType calleeType' : Node} (h : calleeType.TypeAlike ℓ calleeType')
    (site : Span) :
    Parallel ℓ (Option.Rel (SignatureAlike ℓ)) (signature calleeType site)
      (signature calleeType' (ℓ.span site)) := by
  have hfail := TypeError.Alike.notCallable h.looks site
  cases h with
  | inferred t hid hdom hcod => exact related_pure (.some ⟨hdom, hcod⟩)
  | source h =>
    cases h with
    | fnType t hid hdom hcod => exact related_pure (.some ⟨.source hdom, .source hcod⟩)
    | builtin t b =>
      cases b with
      | function | any => exact related_pure .none
      | _ => exact parallel_fail hfail
    | _ => exact parallel_fail hfail

theorem parallel_checkCall (t : Tag) {callee callee' arg arg' : Node} (hc : callee.Alike ℓ callee')
    (ha : arg.Alike ℓ arg') :
    Parallel ℓ (TypeAlike ℓ) (checkCall eval check t callee arg)
      (checkCall eval check (t.relabel ℓ.tags) callee' arg') := by
  refine (hck.node hc).bind fun calleeType calleeType' hct => (parallel_signature hct t.span).bind
    fun declared declared' hd => (hck.node ha).bind fun argType argType' hat =>
      (Eval.parallel_evalType hre hev hc).bind fun function function' hf => ?_
  have hfunction := hf
  cases hf with
  | @func param param' body body' t' hx hparam hbody =>
    cases hd with
    | none => exact related_throw (.contradiction hfunction.looks hct.looks)
    | @some declared declared' hd =>
      obtain ⟨dom, cod⟩ := declared
      obtain ⟨dom', cod'⟩ := declared'
      obtain ⟨hdom, hcod⟩ := hd
      cases hparam with
      | mk span name hty =>
        refine Related.bind (R := Eq) ?_ fun _ _ _ =>
          (Eval.parallel_evalType hre hev (.call t hc ha)).bind fun result result' hr =>
            (parallel_placeholder span hdom).bind fun value value' hvalue => ?_
        · rw [ha.span_eq, hfunction.span_eq]
          exact parallel_checkArg hdom hat _ _ _
        have inner (b : Binding) (n : Node) := (hrc n).under (Guard.lawful_binding b)
        have outer (n : Node) (b : Binding) (m : Node) := (inner b m).under (Guard.lawful_call n)
        refine Related.under (Related.under (hck.node hr) (fun _ _ he => ?_) (inner _ _) (inner _ _))
          (fun _ _ he => he.enterCall hfunction.id_eq) (outer _ _ _) (outer _ _ _)
        exact he.push ⟨hvalue, rfl, rfl, fun _ h => by cases h⟩ rfl hx
  | _ =>
    cases hd with
    | none => exact parallel_type _
    | @some declared declared' hd =>
      dsimp only
      rw [ha.span_eq, hc.span_eq]
      exact (parallel_checkArg hd.1 hat _ _ _).bind fun _ _ _ => related_pure hd.2

/-! ## Operators -/

omit hre hrc hev

theorem parallel_checkOperand (op : Operator) {operand operand' : Node}
    (ho : operand.Alike ℓ operand') :
    Parallel ℓ Eq (checkOperand check op operand) (checkOperand check op operand') := by
  refine (hck.node ho).bind fun ty ty' hty => ?_
  rw [fits_eq _ hty]
  split
  · exact related_pure rfl
  · rw [ho.span_eq]
    exact parallel_fail (.operandNotNumber op hty.looks _)

theorem parallel_checkBinOp (t : Tag) {op : Operator} (hop : op ≠ .dot) {lhs lhs' rhs rhs' : Node}
    (hl : lhs.Alike ℓ lhs') (hr : rhs.Alike ℓ rhs') :
    Parallel ℓ (TypeAlike ℓ) (checkBinOp eval check t op lhs rhs)
      (checkBinOp eval check (t.relabel ℓ.tags) op lhs' rhs') := by
  unfold checkBinOp
  rw [if_neg hop, if_neg hop]
  exact (parallel_checkOperand hck op hl).bind fun _ _ _ => (parallel_checkOperand hck op hr).bind
    fun _ _ _ => parallel_type _

include hre hev in
theorem parallel_checkDot (t : Tag) {lhs lhs' : Node} (rhs : Node) (hl : lhs.Alike ℓ lhs') :
    Parallel ℓ (TypeAlike ℓ) (checkDot eval check t lhs rhs)
      (checkDot eval check (t.relabel ℓ.tags) lhs' (rhs.relabel ℓ.tags)) := by
  unfold checkDot
  rw [ident?_relabel]
  split
  · exact parallel_fail (.noSuchField (looks_relabel rhs) hl.looks _)
  · rename_i name _
    refine (hev.node hl).bind fun owner owner' howner => ?_
    cases howner with
    | @inst template template' body body' t' htemplate hbody =>
      have hvalue := fieldValue?_alike hbody name
      dsimp only
      generalize fieldValue? body name = value, fieldValue? body' name = value' at hvalue
      cases hvalue with
      | none => exact parallel_fail (.noSuchField (looks_relabel rhs) htemplate.looks _)
      | some hvalue => exact hck.node hvalue
    | _ =>
      -- on anything but an instance the declared type decides
      refine (hck.node hl).bind fun ty ty' hty => ?_
      have hfail := TypeError.Alike.noSuchField (looks_relabel rhs) hty.looks t.span
      cases hty with
      | inferred => exact parallel_fail hfail
      | source hty =>
        cases hty with
        | @record fields fields' t' id hid range hfields =>
          have hdecl := fieldDecl?_alike hfields name
          dsimp only
          generalize fieldDecl? fields name = decl, fieldDecl? fields' name = decl' at hdecl
          cases hdecl with
          | none => exact parallel_fail hfail
          | some hdecl =>
            cases hdecl with
            | mk span x hty =>
              exact (parallel_typeExpr hre hev hck hty).mono fun _ _ h => .source h
        | _ => exact parallel_fail hfail

/-! ## Control -/

theorem parallel_expectBool {condition condition' : Node} (hc : condition.Alike ℓ condition') :
    Parallel ℓ Eq (expectBool check condition) (expectBool check condition') := by
  refine (hck.node hc).bind fun ty ty' hty => ?_
  rw [fits_eq _ hty]
  split
  · exact related_pure rfl
  · rw [hc.span_eq]
    exact parallel_fail (.conditionNotBool hty.looks _)

include hrc

theorem parallel_checkIf (t : Tag) {condition condition' : Node}
    {thenBody thenBody' elseBody elseBody' : List Node} (hc : condition.Alike ℓ condition')
    (hthen : List.Forall₂ (Alike ℓ) thenBody thenBody')
    (helse : List.Forall₂ (Alike ℓ) elseBody elseBody') :
    Parallel ℓ (TypeAlike ℓ) (checkIf check t condition thenBody elseBody)
      (checkIf check (t.relabel ℓ.tags) condition' thenBody' elseBody') := by
  have harm {body body' : List Node} (hbody : List.Forall₂ (Alike ℓ) body body') :=
    (parallel_checkSeq hrc hck hbody t.span).attempt Fault.Alike.isOrdinary_eq
  refine (parallel_expectBool hck hc).bind fun _ _ _ => (harm hthen).bind fun _ _ hr =>
    (harm helse).bind fun _ _ hr' => parallel_join t.span (.cons ⟨hr, ?_⟩ (.cons ⟨hr', ?_⟩ .nil))
  · exact bodySite_eq hthen t.span
  · exact bodySite_eq helse t.span

theorem parallel_checkCase {scrutineeType scrutineeType' : Node}
    (hs : scrutineeType.TypeAlike ℓ scrutineeType') {c c' : Case Node}
    (hc : Case.Alike ℓ (Alike ℓ) c c') :
    Parallel ℓ (ArmAlike ℓ) (checkCase check scrutineeType c) (checkCase check scrutineeType' c') := by
  cases hc with
  | mk span hp hbody =>
    have harm := (parallel_checkSeq hrc hck hbody span).attempt Fault.Alike.isOrdinary_eq
    have hsite := bodySite_eq hbody span
    unfold checkCase
    simp only [hp.isWildcard_eq, hp.span_eq]
    split
    · exact (hck.node hp).bind fun _ _ hty => (parallel_expect hs hty _).bind fun _ _ _ =>
        harm.bind fun _ _ hr => related_pure ⟨hr, hsite⟩
    · exact harm.bind fun _ _ hr => related_pure ⟨hr, hsite⟩

theorem parallel_checkMatch (t : Tag) {scrutinee scrutinee' : Node} {cases cases' : List (Case Node)}
    (hs : scrutinee.Alike ℓ scrutinee')
    (hcases : List.Forall₂ (Case.Alike ℓ (Alike ℓ)) cases cases') :
    Parallel ℓ (TypeAlike ℓ) (checkMatch check t scrutinee cases)
      (checkMatch check (t.relabel ℓ.tags) scrutinee' cases') :=
  (hck.node hs).bind fun _ _ hty =>
    (Parallel.mapM hcases fun _ _ hc => parallel_checkCase hrc hck hty hc).bind fun _ _ harms =>
      parallel_join t.span harms

/-! ## Instances -/

omit hrc hck

include hre hev

theorem parallel_checkRange (range : Option Range) {value value' : Node} (hv : value.Alike ℓ value') :
    Parallel ℓ Eq (checkRange eval range value) (checkRange eval range value') := by
  cases range with
  | none => exact related_pure rfl
  | some r =>
    refine (Eval.parallel_evalType hre hev hv).bind fun v v' hr => ?_
    rw [hr.number?_eq, hv.span_eq]
    split
    · split
      · exact parallel_fail (.outOfRange _ r _)
      · exact related_pure rfl
    · exact related_pure rfl

include hck

theorem parallel_checkField {template template' : Node} (htemplate : template.Looks ℓ template')
    {fields fields' : List (Decl Node)}
    (hfields : List.Forall₂ (Decl.Alike ℓ (Alike ℓ)) fields fields') (range : Option Range)
    {item item' : Node} (hi : ItemAlike ℓ (Alike ℓ) item item') :
    Parallel ℓ Eq (checkField eval check template fields range item)
      (checkField eval check template' fields' range item') := by
  cases hi with
  | bind t target transparent link hv =>
    unfold checkField
    simp only [ident?_relabel]
    split
    · rw [span_relabel]
      exact parallel_fail (.invalidTarget (looks_relabel target) _)
    · rename_i name _
      have hdecl := fieldDecl?_alike hfields name
      generalize fieldDecl? fields name = decl, fieldDecl? fields' name = decl' at hdecl
      cases hdecl with
      | none => exact parallel_fail (.noSuchField (looks_relabel target) htemplate _)
      | some hdecl =>
        cases hdecl with
        | mk span x hty =>
          rw [hv.span_eq]
          exact (parallel_typeExpr hre hev hck hty).bind fun _ _ hexpected => (hck.node hv).bind
            fun _ _ hfound => (parallel_expect (.source hexpected) hfound _).bind fun _ _ _ =>
              parallel_checkRange hre hev range hv
  | member t x => exact parallel_fail (.invalidTarget (looks_relabel (ident t x)) _)
  | other hn hplain halias hident =>
    have hfail := TypeError.Alike.invalidTarget hn.looks item.span
    cases hn with
    | assign => cases halias
    | _ => exact parallel_fail hfail

theorem parallel_checkFields {template template' : Node} (htemplate : template.Looks ℓ template')
    {fields fields' : List (Decl Node)}
    (hfields : List.Forall₂ (Decl.Alike ℓ (Alike ℓ)) fields fields') (range : Option Range)
    {items items' : List Node} (hi : List.Forall₂ (ItemAlike ℓ (Alike ℓ)) items items') :
    Parallel ℓ Eq (checkFields eval check template fields range items)
      (checkFields eval check template' fields' range items') := by
  induction hi with
  | nil => exact related_pure rfl
  | cons hi _ ih =>
    exact (parallel_checkField hre hev hck htemplate hfields range hi).bind fun _ _ _ => ih

omit hre hev hck in
/-- The same field is missing on both sides, or none is. -/
theorem missing_alike {fields fields' : List (Decl Node)} {body body' : List Node}
    (hfields : List.Forall₂ (Decl.Alike ℓ (Alike ℓ)) fields fields')
    (hbody : List.Forall₂ (ItemAlike ℓ (Alike ℓ)) body body') :
    Option.Rel (Decl.Alike ℓ (Alike ℓ)) (fields.find? fun d => (fieldValue? body d.name).isNone)
      (fields'.find? fun d => (fieldValue? body' d.name).isNone) := by
  induction hfields with
  | nil => exact .none
  | cons hd _ ih =>
    cases hd with
    | mk span name hty =>
      have hsome := isSome_of_rel (fieldValue?_alike hbody name)
      have hnone : (fieldValue? body' name).isNone = (fieldValue? body name).isNone := by
        rw [← Option.not_isSome, ← Option.not_isSome, hsome]
      rw [List.find?_cons, List.find?_cons]
      simp only [hnone]
      split
      · exact .some (.mk span name hty)
      · exact ih

theorem parallel_checkInst (t : Tag) {template template' : Node} {body body' : List Node}
    (htemplate : template.Alike ℓ template')
    (hbody : List.Forall₂ (ItemAlike ℓ (Alike ℓ)) body body') :
    Parallel ℓ (TypeAlike ℓ) (checkInst eval check t template body)
      (checkInst eval check (t.relabel ℓ.tags) template' body') := by
  refine (parallel_typeExpr hre hev hck htemplate).bind fun ty ty' hty => ?_
  have halike := hty
  have hfail := TypeError.Alike.notInstantiable hty.looks
  cases hty with
  | @record fields fields' t' id hid range hfields =>
    refine (parallel_checkFields hre hev hck halike.looks hfields range hbody).bind fun _ _ _ => ?_
    have hmissing := missing_alike hfields hbody
    generalize (fields.find? fun d => (fieldValue? body d.name).isNone) = missing,
      (fields'.find? fun d => (fieldValue? body' d.name).isNone) = missing' at hmissing
    cases hmissing with
    | none => exact related_pure (.source halike)
    | some hd =>
      cases hd with
      | mk span name hty => exact parallel_fail (.missingField name halike.looks _)
  | enum t' hid members =>
    cases hbody with
    | nil => exact parallel_fail (hfail _)
    | cons hmember hrest =>
      cases hrest with
      | nil =>
        dsimp only
        rw [hmember.ident?_eq]
        split
        · exact related_pure (.source halike)
        · rw [hmember.span_eq]
          exact parallel_fail (.notAMember hmember.looks halike.looks _)
      | cons => exact parallel_fail (hfail _)
  | _ =>
    dsimp only
    rw [htemplate.span_eq]
    exact parallel_fail (hfail _)

/-! ## Nodes -/

include hrc

/-- A step of checking goes in parallel if evaluating and checking the parts does. -/
theorem parallel_step {n n' : Node} (hn : n.Alike ℓ n') :
    Parallel ℓ (TypeAlike ℓ) (step eval check n) (step eval check n') := by
  cases hn with
  | lit | enum | builtin | unknown => exact parallel_type _
  | list t hitems => exact parallel_checkList hck hitems
  | record t hid range hfields =>
    exact (parallel_checkFieldTypes hre hev hck hfields).bind fun _ _ _ => parallel_type _
  | fnType t hid hdom hcod =>
    exact (parallel_typeExpr hre hev hck hdom).bind fun _ _ _ =>
      (parallel_typeExpr hre hev hck hcod).bind fun _ _ _ => parallel_type _
  | selfType t hty => exact related_pure (.source hty)
  | arg t x hty | field t x hty =>
    exact (parallel_typeExpr hre hev hck hty).mono fun _ _ h => .source h
  | assign t target transparent link hx hv => exact parallel_checkAlias hck t target link hx hv
  | ident t hx => exact parallel_checkIdent hrc hck t hx
  | func t hx hparam hbody =>
    cases hparam with
    | mk span name hty =>
      exact parallel_checkFunc hre hrc hev hck t span (ℓ.used_iff (ℓ.bound_used hx)) hty hbody
  | call t hc ha => exact parallel_checkCall hre hrc hev hck t hc ha
  | binOp t hop hl hr => exact parallel_checkBinOp hck t hop hl hr
  | dot t rhs hl => exact parallel_checkDot hre hev hck t rhs hl
  | matchOn t hs hcases => exact parallel_checkMatch hrc hck t hs hcases
  | whileDo t hc hbody =>
    exact (parallel_expectBool hck hc).bind fun _ _ _ =>
      parallel_checkSeq hrc hck hbody t.span
  | ifElse t hc hthen helse => exact parallel_checkIf hrc hck t hc hthen helse
  | block t hitems => exact parallel_checkSeq hrc hck hitems t.span
  | inst t htemplate hbody => exact parallel_checkInst hre hev hck t htemplate hbody

end

end Check

/-- Alike nodes are checked alike, at every depth. -/
theorem keeps_check (ℓ : Likeness) : ∀ depth : Nat, Check.Keeps ℓ (check depth)
  | 0 => ⟨fun _ => related_throw .exhausted, fun _ _ => related_throw .exhausted⟩
  | depth + 1 =>
    ⟨fun hn => Check.parallel_step (restores_eval depth) (restores_check depth) (keeps_eval ℓ depth)
        (keeps_check ℓ depth) hn,
      fun _ hty => related_pure hty⟩

end Residual
