/-
Void is recursion, in a program whose definitions are not recursive. A definition or function is void
if it is met while it is being looked into. If each definition mentions only names before its own, what
is being looked into is not met again inside itself: parts of a function have other identities than the
function, and a chain of definitions that comes back to it would come down to a name below itself.

There is one way to meet a function again. The checker looks into a callee while it checks the result of
a call, and a call can have a result that leads back to its callee, as `f(f)` does with
`f = @k(Function) k`. `wary` is the checker that gives up there: at a result that leads back to its
callee, and where a local name has a type that leads back to what is entered.
-/
import Residual.Proofs.Conduct
import Residual.Proofs.Preservation
import Residual.Proofs.Provenance

namespace Residual

open Pass

/-! ## Where a node leads -/

/-- Looking into the node may come to a function with the identity, or to a definition whose value has
it. -/
inductive Node.Reaches (store : Definitions) (i : NodeId) : Node → Prop where
  | here {n : Node} (hfunc : n.isFunc = true) (hid : n.id = i) : Reaches store i n
  | child {m n : Node} (hm : m ∈ n.children) (h : Reaches store i m) : Reaches store i n
  | value {t : Tag} {x : Name} {d : DefId} {v : Node} (hx : store.lookup x = some (d, v))
    (hid : v.id = i) : Reaches store i (.ident t x)
  | through {t : Tag} {x : Name} {d : DefId} {v : Node} (hx : store.lookup x = some (d, v))
    (h : Reaches store i v) : Reaches store i (.ident t x)

theorem Node.Part.reaches {store : Definitions} {i : NodeId} {m n : Node} (hm : m.Part n)
    (h : m.Reaches store i) : n.Reaches store i := by
  induction hm with
  | refl => exact h
  | child hk _ ih => exact .child hk ih

/-- Whether the node may lead to the identity, as far as `fuel` lets one see. -/
def Definitions.mayReach (store : Definitions) (i : NodeId) : (fuel : Nat) → Node → Bool
  | 0, _ => true
  | fuel + 1, n => (n.isFunc && n.id == i) || n.children.any (store.mayReach i fuel) ||
    (n.ident?.bind store.lookup).any fun entry => entry.2.id == i || store.mayReach i fuel entry.2

theorem Node.Reaches.mayReach {store : Definitions} {i : NodeId} {n : Node}
    (h : n.Reaches store i) : ∀ fuel, store.mayReach i fuel n = true := by
  induction h with
  | here hfunc hid =>
    rintro (_ | fuel)
    · rfl
    · simp [Definitions.mayReach, hfunc, hid]
  | child hm _ ih =>
    rintro (_ | fuel)
    · rfl
    · have hany := List.any_eq_true.2 ⟨_, hm, ih fuel⟩
      simp [Definitions.mayReach, hany]
  | value hx hid =>
    rintro (_ | fuel)
    · rfl
    · simp [Definitions.mayReach, Node.ident?, hx, hid]
  | through hx _ ih =>
    rintro (_ | fuel)
    · rfl
    · simp [Definitions.mayReach, Node.ident?, hx, ih fuel]

/-! ## Definitions without recursion -/

/-- An order of the names in which each definition mentions only names before its own. -/
def Definitions.RankedBy (store : Definitions) (rank : Name → Nat) : Prop :=
  ∀ {x d v}, store.lookup x = some (d, v) →
    ∀ {t y}, (Node.ident t y).Part v → (store.lookup y).isSome = true → rank y < rank x

/-- The parts of a node and of the definitions. -/
def Definitions.Holds (store : Definitions) (n m : Node) : Prop :=
  m.Part n ∨ ∃ x d v, store.lookup x = some (d, v) ∧ m.Part v

/-- The nodes that a run starts from: the values of definitions without recursion are among them, and
no two of them have one identity. Identities from `start` on are made in the run. -/
structure Sources (store : Definitions) where
  start : Nat
  rank : Name → Nat
  Has : Node → Prop
  value : ∀ {x d v}, store.lookup x = some (d, v) → Has v
  part : ∀ {m n}, Has n → m.Part n → Has m
  lt_start : ∀ {n}, Has n → n.id < start
  eq_of_id : ∀ {m n}, Has m → Has n → m.id = n.id → m = n
  ranked : store.RankedBy rank

namespace Sources

/-- A run over a node starts from the parts of the node and of the definitions. -/
def ofProgram {store : Definitions} {n : Node} {start : Nat} {rank : Name → Nat}
    (hrank : store.RankedBy rank) (hold : ∀ {m}, store.Holds n m → m.id < start)
    (hsame : ∀ {m m'}, store.Holds n m → store.Holds n m' → m.id = m'.id → m = m') :
    Sources store where
  start := start
  rank := rank
  Has := store.Holds n
  value hx := .inr ⟨_, _, _, hx, .refl⟩
  part := by
    rintro m k (hk | ⟨x, d, v, hx, hk⟩) hm
    · exact .inl (hk.trans hm)
    · exact .inr ⟨x, d, v, hx, hk.trans hm⟩
  lt_start := hold
  eq_of_id := hsame
  ranked := hrank

variable {store : Definitions} (σ : Sources store)

/-- A node leads to parts of itself, and down the order to parts of the definitions it mentions. -/
theorem exists_part_of_reaches {i : NodeId} {n : Node} (h : n.Reaches store i) :
    (∃ m : Node, m.Part n ∧ m.isFunc = true ∧ m.id = i) ∨
      ∃ t y, (Node.ident t y).Part n ∧ (store.lookup y).isSome = true ∧
        ∃ (z : Name) (d : DefId) (w m : Node), store.lookup z = some (d, w) ∧
          σ.rank z ≤ σ.rank y ∧ m.Part w ∧ m.id = i := by
  induction h with
  | here hfunc hid => exact .inl ⟨_, .refl, hfunc, hid⟩
  | child hk _ ih =>
    rcases ih with ⟨m, hm, hfunc, hid⟩ | ⟨t, y, hy, hsome, hrest⟩
    · exact .inl ⟨m, .child hk hm, hfunc, hid⟩
    · exact .inr ⟨t, y, .child hk hy, hsome, hrest⟩
  | @value t x d v hx hid =>
    exact .inr ⟨t, x, .refl, by rw [hx]; rfl, x, d, v, v, hx, Nat.le_refl _, .refl, hid⟩
  | @through t x d v hx _ ih =>
    refine .inr ⟨t, x, .refl, by rw [hx]; rfl, ?_⟩
    rcases ih with ⟨m, hm, -, hid⟩ | ⟨t', y, hy, hsome, z, d', w, m, hz, hrank, hm, hid⟩
    · exact ⟨x, d, v, m, hx, Nat.le_refl _, hm, hid⟩
    · have hless := σ.ranked hx hy hsome
      exact ⟨z, d', w, m, hz, by omega, hm, hid⟩

/-- A source leads back to itself only as a function, from within which it is not met. -/
theorem part_of_reaches {m n : Node} (hn : σ.Has n) (hm : m.Part n) (h : m.Reaches store n.id) :
    n.Part m ∧ n.isFunc = true := by
  rcases σ.exists_part_of_reaches h with ⟨p, hp, hfunc, hid⟩ |
    ⟨t, y, hy, hsome, z, d, w, p, hz, hrank, hp, hid⟩
  · cases σ.eq_of_id (σ.part hn (hm.trans hp)) hn hid
    exact ⟨hp, hfunc⟩
  · -- the definition holds the node, and with it the name that has led down to the definition
    cases σ.eq_of_id (σ.part (σ.value hz) hp) hn hid
    have hless := σ.ranked hz ((hp.trans hm).trans hy) hsome
    omega

/-- A source, or a node that was made over nodes with other identities. -/
def Origin (n : Node) : Prop :=
  σ.Has n ∨ σ.start ≤ n.id ∧ ∀ m ∈ n.children, m.All (·.id ≠ n.id)

/-- What is inside of a node does not lead back to it. -/
theorem not_reaches_of_child {m n : Node} (hn : σ.Origin n) (hm : m ∈ n.children) :
    ¬ m.Reaches store n.id := by
  intro h
  rcases hn with hn | ⟨hstart, hothers⟩
  · exact Node.Part.not_child hm (σ.part_of_reaches hn (.child hm .refl) h).1
  · rcases σ.exists_part_of_reaches h with ⟨p, hp, -, hid⟩ | ⟨_, _, -, -, z, d, w, p, hz, -, hp, hid⟩
    · exact hothers m hm p hp hid
    · have hlt := σ.lt_start (σ.part (σ.value hz) hp)
      rw [hid] at hlt
      exact Nat.not_lt.2 hstart hlt

/-! ## What must not be met -/

/-- Identities that must not be met, all of them made before the counter came to `since`. -/
structure Watch where
  ids : List NodeId
  since : Nat
  start_le : σ.start ≤ since
  lt_since : ∀ i ∈ ids, i < since

namespace Watch

variable {σ} (w : σ.Watch)

/-- Nodes that do not lead to what is watched. -/
def marking : Marking store where
  since := w.since
  Holds c n := n.id < c ∧ σ.Origin n ∧ ∀ i ∈ w.ids, ¬ n.Reaches store i
  mono := by
    rintro c c' n ⟨hid, horigin, hclear⟩ hle
    exact ⟨Nat.lt_of_lt_of_le hid hle, horigin, hclear⟩
  value := by
    rintro c t x d v hc ⟨-, -, hclear⟩ hx m hm
    have hm' := σ.part (σ.value hx) hm
    have hstart := Nat.le_trans w.start_le hc
    refine ⟨Nat.lt_of_lt_of_le (σ.lt_start hm') hstart, .inl hm', fun i hi h => ?_⟩
    exact hclear i hi (.through hx (hm.reaches h))
  made := by
    intro c c' n hc hid hid' hchildren hident
    refine ⟨hid', .inr ⟨?_, fun m hm p hp heq => ?_⟩, fun i hi h => ?_⟩
    · exact Nat.le_trans w.start_le (Nat.le_trans hc hid)
    · have hlt := (hchildren m hm p hp).1
      rw [heq] at hlt
      exact Nat.not_lt.2 hid hlt
    · cases h with
      | here _ heq =>
        have hlt := Nat.lt_of_lt_of_le (w.lt_since i hi) hc
        rw [← heq] at hlt
        exact Nat.not_lt.2 hid hlt
      | child hm h => exact (hchildren _ hm).self.2.2 i hi h
      | value hx => cases (hident _ rfl).symm.trans hx
      | through hx => cases (hident _ rfl).symm.trans hx

/-- Checking with nothing on the stack but what is watched. -/
def regime : Regime where
  Ready c env := w.marking.MarksEnv c env ∧ ∀ n ∈ env.calls.nodes, n.id ∈ w.ids
  Fit := w.marking.Marks
  Value := w.marking.Marks
  Ty := w.marking.Marks
  Fine := NotVoid
  ready_mono h hle := ⟨h.1.mono hle, h.2⟩
  fit_mono h hle := h.mono hle
  value_mono h hle := h.mono hle
  ty_mono h hle := h.mono hle
  fit_of_value h := h
  value_of_ty h := h
  ty_of_value h _ := h
  child h hm := h.child hm
  signature h := ⟨h.child List.mem_cons_self, h.child (List.mem_cons_of_mem _ List.mem_cons_self)⟩
  content h := h.child List.mem_cons_self
  builtin b h hle hlt := Marking.marks_made h.1.since_le hle hlt (List.forall_mem_nil _)
    fun _ hident => by cases hident
  selfType h hle hlt hty := Marking.marks_made h.1.since_le hle hlt (List.forall_mem_singleton.2 hty)
    fun _ hident => by cases hident
  fnType id h hle hlt hdom hcod := Marking.marks_made h.1.since_le hle hlt
    (List.forall_mem_cons.2 ⟨hdom, List.forall_mem_singleton.2 hcod⟩)
    fun _ hident => by cases hident
  push x transparent h hv := ⟨h.1.push hv fun _ hrename => (by cases hrename), h.2⟩
  resolve b h := ⟨h.1.resolve b, h.2⟩
  globals h := ⟨h.1.globals, h.2⟩
  bound h hx := h.1.bound hx
  defined h hn hx := h.1.defined hn hx
  error e := fun h => by cases h

/-- One more identity is watched. -/
def enter (i : NodeId) (c : Nat) (hc : w.since ≤ c) (hi : i < c) : σ.Watch where
  ids := i :: w.ids
  since := c
  start_le := Nat.le_trans w.start_le hc
  lt_since := List.forall_mem_cons.2 ⟨hi, fun j hj => Nat.lt_of_lt_of_le (w.lt_since j hj) hc⟩

variable {w} {i : NodeId} {c c' : Nat} {hc : w.since ≤ c} {hi : i < c} {n : Node} {env : Env}

theorem marks_enter (h : w.marking.Marks c' n) (hn : ¬ n.Reaches store i) :
    (w.enter i c hc hi).marking.Marks c' n := by
  intro m hm
  obtain ⟨hid, horigin, hclear⟩ := h m hm
  exact ⟨hid, horigin, List.forall_mem_cons.2 ⟨fun h => hn (hm.reaches h), hclear⟩⟩

theorem marks_of_enter (h : (w.enter i c hc hi).marking.Marks c' n) : w.marking.Marks c' n := by
  intro m hm
  obtain ⟨hid, horigin, hclear⟩ := h m hm
  exact ⟨hid, horigin, fun j hj => hclear j (List.mem_cons_of_mem _ hj)⟩

/-- Local names must not lead to what is watched. -/
theorem ready_enter (h : w.regime.Ready c env)
    (hlocals : ∀ b ∈ env.locals.bindings, ¬ b.value.Reaches store i) :
    (w.enter i c hc hi).regime.Ready c env := by
  obtain ⟨hsees, hcalls⟩ := h
  refine ⟨⟨Nat.le_refl c, hsees.store_eq, fun b hb => ?_, hsees.renames⟩, fun n hn => ?_⟩
  · exact marks_enter (hsees.values b hb) (hlocals b hb)
  · exact List.mem_cons_of_mem _ (hcalls n hn)

theorem ready_enterCall {hi : n.id < c} (h : (w.enter n.id c hc hi).regime.Ready c env) :
    (w.enter n.id c hc hi).regime.Ready c (env.enterCall n) :=
  ⟨h.1.enterCall n, List.forall_mem_cons.2 ⟨List.mem_cons_self, h.2⟩⟩

/-- What does not lead to anything watched is not on the stack. -/
theorem mem_ids_of_isOnStack (h : w.regime.Ready c env) (hn : env.isOnStack n = true) :
    n.id ∈ w.ids := by
  rw [Env.isOnStack, Calls.contains_eq] at hn
  obtain ⟨f, hf, hsame⟩ := List.any_eq_true.1 hn
  rw [← beq_iff_eq.1 hsame]
  exact h.2 f hf

end Watch

end Sources

/-! ## Checking warily -/

namespace Check

/-- Whether no local name may lead to the identity. -/
def isClear (fuel : Nat) (i : NodeId) (s : Machine) : Bool :=
  s.env.locals.bindings.all fun b => !s.env.store.mayReach i fuel b.value

/-- A call, with another way to check its result. -/
def checkCallVia (eval check : Node → Pass Node) (visit : (function result : Node) → Pass Node)
    (tag : Tag) (callee arg : Node) : Pass Node := do
  let calleeType ← check callee
  let declared ← signature calleeType tag.span
  let argType ← check arg
  let function ← under (.resolve true) (eval callee)
  match function, declared with
  | .func _ param _, some (dom, _) =>
    checkArg dom argType tag.span arg.span function.span
    let result ← under (.resolve true) (eval (.call tag callee arg))
    let value ← placeholder param.span dom
    let binding := { name := param.name, value, transparent := true, rename := none }
    under (.call function) (under (.binding binding) (visit function result))
  | .func .., none => throw (.contradiction function calleeType)
  | _, some (dom, cod) =>
    checkArg dom argType tag.span arg.span callee.span
    return cod
  | _, none => Pass.builtin .any

theorem checkCall_eq (eval check : Node → Pass Node) (tag : Tag) (callee arg : Node) :
    checkCall eval check tag callee arg =
      checkCallVia eval check (fun _ result => check result) tag callee arg := rfl

/-- Gives up at a result that may lead back to the function, or if a local name may. -/
def checkResult (fuel : Nat) (check : Node → Pass Node) (function result : Node) : Pass Node :=
  (check result).provided fun s =>
    !s.env.store.mayReach function.id fuel result && isClear fuel function.id s

/-- A step of checking that gives up where what is entered may be met again through a local name or
through the result of a call. -/
def watch (fuel : Nat) (eval check : Node → Pass Node) : Node → Pass Node
  | .func tag param body => (checkFunc eval check tag param body).provided (isClear fuel tag.id)
  | .call tag callee arg => checkCallVia eval check (checkResult fuel check) tag callee arg
  | n => step eval check n

end Check

/-- The checker that gives up where a function may be met again without recursion. -/
def wary (fuel : Nat) : (depth : Nat) → Node → Pass Node
  | 0, _ => throw .exhausted
  | depth + 1, n => Check.watch fuel (eval depth) (wary fuel depth) n

theorem restores_wary (fuel : Nat) : ∀ (depth : Nat) (n : Node), Restores (wary fuel depth n)
  | 0, _ => restores_throw _
  | depth + 1, n => by
    have he := restores_eval depth
    have hc := restores_wary fuel depth
    cases n with
    | func tag param body => exact (Check.restores_checkFunc he hc tag param body).provided _
    | call tag callee arg =>
      refine (hc callee).bind fun calleeType => (Check.restores_signature calleeType _).bind
        fun declared => (hc arg).bind fun argType =>
          ((he callee).under (Guard.lawful_resolve true)).bind fun function => ?_
      split
      · exact (Check.restores_checkArg _ _ _ _ _).bind fun _ =>
          ((he _).under (Guard.lawful_resolve true)).bind fun result =>
            (Check.restores_placeholder _ _).bind fun value =>
              (((hc result).provided _).under (Guard.lawful_binding _)).under (Guard.lawful_call _)
      · exact restores_throw _
      · exact (Check.restores_checkArg _ _ _ _ _).bind fun _ => restores_pure _
      · exact restores_builtin _
    | _ => exact Check.restores_step he hc _

/-- Where it does not give up, the wary checker does what the checker does. -/
theorem approximates_wary (fuel : Nat) : ∀ (depth : Nat) (n : Node),
    Approximates (wary fuel depth n) (check depth n)
  | 0, _ => approximates_exhausted _
  | depth + 1, n => by
    have he (n : Node) := approximates_refl (eval depth n)
    have hc := approximates_wary fuel depth
    cases n with
    | func tag param body =>
      exact (approximates_provided _ _).trans (Check.approximates_checkFunc he hc tag param body)
    | call tag callee arg =>
      show Approximates (Check.checkCallVia _ _ _ tag callee arg)
        (Check.checkCall (eval depth) (check depth) tag callee arg)
      rw [Check.checkCall_eq]
      refine (hc callee).bind fun calleeType => (approximates_refl _).bind fun declared =>
        (hc arg).bind fun argType => (approximates_refl _).bind fun function => ?_
      split
      · refine (approximates_refl _).bind fun _ => (approximates_refl _).bind fun result =>
          (approximates_refl _).bind fun _ => Approximates.under (Approximates.under ?_)
        exact (approximates_provided _ _).trans (hc result)
      · exact approximates_refl _
      · exact approximates_refl _
      · exact approximates_refl _
    | _ => exact Check.approximates_step he hc _

namespace Sources

variable {store : Definitions} {σ : Sources store} {w : σ.Watch} {env : Env} {c : Nat} {n : Node}

theorem settles_provided {α : Type} {F : Fault → Prop} {m : Pass α} {p : Machine → Bool}
    {P : Nat → α → Prop} (hF : F .exhausted)
    (h : ∀ s : Machine, s.env = env → c ≤ s.nodes.next → p s = true →
      Settles F env s.nodes.next m P) : Settles F env c (m.provided p) P := by
  intro s hs hc
  rcases runOn_provided p m s with ⟨hrun, hp⟩ | hrun
  · rw [TracksAt, hrun]
    exact h s hs hc hp hs (Nat.le_refl _)
  · rw [TracksAt, hrun]
    exact ⟨Nat.le_refl _, hF⟩

theorem exhausted_ne_void : NotVoid .exhausted := fun h => by cases h

/-- What may not be reached is not. -/
theorem not_reaches_of_isClear {fuel : Nat} {i : NodeId} {s : Machine} (hs : s.env.store = store)
    (h : Check.isClear fuel i s = true) : ∀ b ∈ s.env.locals.bindings, ¬ b.value.Reaches store i := by
  intro b hb hreach
  have hb := List.all_eq_true.1 h b hb
  rw [hs, hreach.mayReach fuel] at hb
  cases hb

theorem keeps_eval (w : σ.Watch) (depth : Nat) : w.regime.Evals (eval depth) :=
  fun _ _ _ henv hn => w.marking.keeps_eval depth henv.1 hn

section

variable {ev ck : Node → Pass Node} {fuel : Nat} (hc : ∀ n, Restores (ck n))
variable (hev : ∀ w : σ.Watch, w.regime.Evals ev) (hck : ∀ w : σ.Watch, w.regime.Checks ck)

include hc hev hck in
/-- A function is watched from where it is entered on. -/
theorem settles_func {tag : Tag} {param : Decl Node} {body : List Node} (henv : w.regime.Ready c env)
    (hn : w.regime.Fit c (.func tag param body)) :
    Settles NotVoid env c
      ((Check.checkFunc ev ck tag param body).provided (Check.isClear fuel tag.id)) w.regime.Fit := by
  refine settles_provided exhausted_ne_void ?_
  rintro s rfl hle hclear
  have henv := w.regime.ready_mono henv hle
  have hn := w.regime.fit_mono hn hle
  obtain ⟨hid, horigin, hwatched⟩ := hn.self
  have henter : (w.enter tag.id s.nodes.next henv.1.since_le hid).regime.Ready s.nodes.next s.env :=
    Watch.ready_enter henv (not_reaches_of_isClear henv.1.store_eq hclear)
  have hinside (m : Node) (hm : m ∈ param.ty :: body) :
      (w.enter tag.id s.nodes.next henv.1.since_le hid).regime.Fit s.nodes.next m :=
    Watch.marks_enter (hn.child hm) (σ.not_reaches_of_child horigin hm)
  obtain ⟨hparam, hbody⟩ := List.forall_mem_cons.1 hinside
  refine (Regime.settles_checkFunc hc (hev _) (hck _) henter hparam hbody
    (Watch.ready_enterCall (n := .func tag param body) henter) fun hon => ?_).mono
    fun _ _ hty => Watch.marks_of_enter hty
  exact absurd (.here rfl rfl) (hwatched _ (Watch.mem_ids_of_isOnStack henv hon))

include hck in
/-- The value of a definition is watched while it is looked into. -/
theorem settles_defined {t : Tag} {x : Name} {d : DefId} {v : Node} (henv : w.regime.Ready c env)
    (hn : w.regime.Fit c (.ident t x)) (hx : store.lookup x = some (d, v))
    (hfunc : v.isFunc = false) :
    Settles NotVoid { env with locals := .empty } c (Check.checkDefined ck v) w.regime.Fit := by
  have hglobals := w.regime.globals henv
  have hv : w.regime.Fit c v := w.marking.value henv.1.since_le hn.self hx
  have hclear : ¬ v.Reaches store v.id := by
    intro h
    rw [(σ.part_of_reaches (σ.value hx) .refl h).2] at hfunc
    cases hfunc
  have henter : (w.enter v.id c henv.1.since_le hv.self.1).regime.Ready c
      { env with locals := .empty } := Watch.ready_enter hglobals (List.forall_mem_nil _)
  refine (Regime.settles_checkDefined (hck _) (Watch.ready_enterCall henter)
    (Watch.marks_enter hv hclear) fun hon => ?_).mono fun _ _ hty => Watch.marks_of_enter hty
  exact absurd (.value hx rfl) (hn.self.2.2 _ (Watch.mem_ids_of_isOnStack hglobals hon))

include hev hck in
/-- The callee is watched while the result of the call is checked. -/
theorem settles_call {tag : Tag} {callee arg : Node} (henv : w.regime.Ready c env)
    (hn : w.regime.Fit c (.call tag callee arg)) :
    Settles NotVoid env c
      (Check.checkCallVia ev ck (Check.checkResult fuel ck) tag callee arg) w.regime.Fit := by
  have hcallee : w.regime.Fit c callee := hn.child List.mem_cons_self
  have harg : w.regime.Fit c arg := hn.child (List.mem_cons_of_mem _ List.mem_cons_self)
  have hready {c' : Nat} (hle : c ≤ c') := w.regime.ready_mono henv hle
  refine (hck w henv hcallee).bind fun c₁ calleeType hle₁ hty => ?_
  refine (Regime.settles_signature hty _).bind fun c₂ declared hle₂ hdeclared => ?_
  obtain ⟨hdeclared, -⟩ := hdeclared
  have hle₂ := Nat.le_trans hle₁ hle₂
  refine (hck w (hready hle₂) (harg.mono hle₂)).bind fun c₃ argType hle₃ _ => ?_
  have hle₃' := Nat.le_trans hle₂ hle₃
  refine (Regime.settles_evalType (hev w) (hready hle₃') (hcallee.mono hle₃')).bind
    fun c₄ function hle₄ hfunction => ?_
  split
  · rename_i ftag param body dom cod
    refine (Regime.settles_checkArg (R := w.regime) _ _ _ _ _).bind fun c₅ _ hle₅ _ => ?_
    have hle₅' : c ≤ c₅ := by omega
    refine (Regime.settles_evalType (hev w) (hready hle₅') (hn.mono hle₅')).bind
      fun c₆ result hle₆ hresult => ?_
    have hdom : w.regime.Fit c₆ dom := (hdeclared dom cod rfl).1.mono (by omega)
    refine (Regime.settles_placeholder (hready (by omega)) _ hdom).bind ?_
    rintro c₇ _ hle₇ ⟨vtag, rfl, hv⟩
    refine Settles.under (Settles.under ?_ (Guard.lawful_binding _)) (Guard.lawful_call _)
    refine settles_provided exhausted_ne_void fun s hs hle hsafe => ?_
    have henv₇ := w.regime.ready_mono (w.regime.push param.name true (hready (by omega)) hv) hle
    have hstore : s.env.store = store := hs ▸ henv₇.1.store_eq
    rw [Bool.and_eq_true, hstore] at hsafe
    obtain ⟨hresult', hclear⟩ := hsafe
    have hlocals := not_reaches_of_isClear hstore hclear
    rw [hs] at hlocals
    have hback : ¬ result.Reaches store (Node.func ftag param body).id := by
      intro h
      rw [h.mayReach fuel] at hresult'
      cases hresult'
    have hid : ftag.id < s.nodes.next := Nat.lt_of_lt_of_le hfunction.self.1 (by omega)
    let w' := w.enter (Node.func ftag param body).id s.nodes.next henv₇.1.since_le hid
    have henter : w'.regime.Ready s.nodes.next _ := Watch.ready_enter henv₇ hlocals
    have hfit : w'.regime.Fit s.nodes.next result :=
      Watch.marks_enter (hresult.mono (by omega)) hback
    exact (hck w' (Watch.ready_enterCall henter) hfit).mono fun _ _ hty => Watch.marks_of_enter hty
  · exact settles_throw fun h => by cases h
  · refine (Regime.settles_checkArg (R := w.regime) _ _ _ _ _).bind fun c₅ _ hle₅ _ => ?_
    exact settles_pure fun c₆ hle₆ => (hdeclared _ _ rfl).2.mono (by omega)
  · exact Regime.settles_builtin (hready (by omega)) .any

end

/-- The wary checker does not meet what is watched. -/
theorem keeps_wary (fuel : Nat) : ∀ (depth : Nat) (w : σ.Watch), w.regime.Checks (wary fuel depth)
  | 0, _, _, _, _, _, _ => settles_throw exhausted_ne_void
  | depth + 1, w, env, c, n, henv, hn => by
    have hc := restores_wary fuel depth
    have hev (w : σ.Watch) := keeps_eval w depth
    have hck := keeps_wary fuel depth
    have hstep (hfunc : ∀ {tag param body}, n ≠ .func tag param body)
        (hcall : ∀ {tag callee arg}, n ≠ .call tag callee arg) :
        Settles NotVoid env c (Check.step (eval depth) (wary fuel depth) n) w.regime.Fit := by
      refine Regime.settles_step (restores_eval depth) hc (hev w) (hck w) henv hn
        (fun h => absurd h hfunc) (fun h => absurd h hcall) ?_
      rintro tag x d v c' rfl hx hvfunc hle
      exact settles_defined hck (w.regime.ready_mono henv hle) (hn.mono hle)
        (henv.1.store_eq ▸ Env.lookup_of_defined hx) hvfunc
    cases n with
    | func tag param body => exact settles_func hc hev hck henv hn
    | call tag callee arg => exact settles_call hev hck henv hn
    | _ => exact hstep (fun h => by cases h) fun h => by cases h

end Sources

/-- Over definitions without recursion, a node is not void. The node and the definitions come from the
counter, each part with an identity of its own. No result of a call leads back to its callee, and no
function is entered to which the type of a local name leads back. -/
theorem check_is_not_void {store : Definitions} {n : Node} {s : Machine} {fuel depth : Nat}
    {rank : Name → Nat} (hs : s.env.IsFresh store) (hrank : store.RankedBy rank)
    (hold : ∀ {m}, store.Holds n m → m.id < s.nodes.next)
    (hsame : ∀ {m m'}, store.Holds n m → store.Holds n m' → m.id = m'.id → m = m')
    (hwary : ((wary fuel depth n).runOn s).1 ≠ .error .exhausted) :
    ((check depth n).runOn s).1 ≠ .error .void := by
  let w : (Sources.ofProgram hrank hold hsame).Watch :=
    ⟨[], s.nodes.next, Nat.le_refl _, List.forall_mem_nil _⟩
  have hready : w.regime.Ready s.nodes.next s.env := by
    refine ⟨⟨Nat.le_refl _, hs.store_eq, ?_, ?_⟩, ?_⟩
    · rw [hs.locals]
      exact List.forall_mem_nil _
    · rw [hs.locals]
      exact List.forall_mem_nil _
    · rw [hs.calls]
      exact List.forall_mem_nil _
  have hfit : w.regime.Fit s.nodes.next n := fun m hm =>
    ⟨hold (.inl hm), .inl (.inl hm), List.forall_mem_nil _⟩
  obtain ⟨-, hends⟩ := Sources.keeps_wary fuel depth w hready hfit rfl (Nat.le_refl _)
  rw [approximates_wary fuel depth n s hwary]
  intro hvoid
  rw [hvoid] at hends
  exact hends rfl

/-! ## Definitions that are listed -/

section

variable {store : Definitions}

/-- Whether each definition mentions only names before its own, of what lies less than `depth` levels
down. -/
def Definitions.isRankedBy (store : Definitions) (rank : Name → Nat) (depth : Nat) : Bool :=
  store.entries.all fun entry => entry.2.isWithin depth && (entry.2.partsWithin depth).all fun m =>
    m.ident?.all fun y => (store.lookup y).isNone || rank y < rank entry.1

theorem Definitions.rankedBy_of_isRankedBy {rank : Name → Nat} (depth : Nat)
    (h : store.isRankedBy rank depth = true) : store.RankedBy rank := by
  intro x d v hx t y hy hsome
  have hentry := List.all_eq_true.1 h _ (mem_entries_of_lookup hx)
  obtain ⟨hwithin, hmentions⟩ := Bool.and_eq_true _ _ ▸ hentry
  have hmention := List.all_eq_true.1 hmentions _ (hy.mem_partsWithin hwithin)
  simp only [Node.ident?, Option.all_some, Bool.or_eq_true, decide_eq_true_eq] at hmention
  rcases hmention with hnone | hless
  · rw [Option.isNone_iff_eq_none.1 hnone] at hsome
    cases hsome
  · exact hless

/-- The nodes less than `depth` levels down in a node and in the definitions. -/
def Definitions.partsWithin (store : Definitions) (n : Node) (depth : Nat) : List Node :=
  (n :: store.entries.map (·.2)).flatMap (·.partsWithin depth)

theorem Definitions.mem_partsWithin {m n : Node} {depth : Nat} (hm : store.Holds n m)
    (h : (n :: store.entries.map (·.2)).all (·.isWithin depth) = true) :
    m ∈ store.partsWithin n depth := by
  have hwithin := List.all_eq_true.1 h
  rcases hm with hm | ⟨x, d, v, hx, hm⟩
  · have hn := List.mem_cons_self (a := n) (l := store.entries.map (·.2))
    exact List.mem_flatMap_of_mem hn (hm.mem_partsWithin (hwithin n hn))
  · have hv : v ∈ n :: store.entries.map (·.2) :=
      List.mem_cons_of_mem _ (List.mem_map_of_mem (mem_entries_of_lookup hx))
    exact List.mem_flatMap_of_mem hv (hm.mem_partsWithin (hwithin v hv))

end

/-- `inc = @x(Number) x + 1`, `twice = @f(Function) @x(Number) f(f(x))` and
`next = @n(Number) twice(inc)(n)` -/
def twiceDefinitions : Definitions := ⟨[
  ("inc", .func ⟨0, .builtin⟩ ⟨.builtin, "x", .ident ⟨1, .builtin⟩ "Number"⟩
    [.binOp ⟨2, .builtin⟩ .add (.ident ⟨3, .builtin⟩ "x") (.lit ⟨4, .builtin⟩ (.number 1))]),
  ("twice", .func ⟨5, .builtin⟩ ⟨.builtin, "f", .ident ⟨6, .builtin⟩ "Function"⟩
    [.func ⟨7, .builtin⟩ ⟨.builtin, "x", .ident ⟨8, .builtin⟩ "Number"⟩
      [.call ⟨9, .builtin⟩ (.ident ⟨10, .builtin⟩ "f")
        (.call ⟨11, .builtin⟩ (.ident ⟨12, .builtin⟩ "f") (.ident ⟨13, .builtin⟩ "x"))]]),
  ("next", .func ⟨14, .builtin⟩ ⟨.builtin, "n", .ident ⟨15, .builtin⟩ "Number"⟩
    [.call ⟨16, .builtin⟩
      (.call ⟨17, .builtin⟩ (.ident ⟨18, .builtin⟩ "twice") (.ident ⟨19, .builtin⟩ "inc"))
      (.ident ⟨20, .builtin⟩ "n")])]⟩

/-- `next(3)` -/
def nextProgram : Node :=
  .call ⟨21, .builtin⟩ (.ident ⟨22, .builtin⟩ "next") (.lit ⟨23, .builtin⟩ (.number 3))

/-- A function is passed on and called again; nothing is void. -/
theorem check_is_not_void_twice :
    ((check 12 nextProgram).runOn (freshMachine twiceDefinitions true)).1.isOk = true ∧
    ((check 12 nextProgram).runOn (freshMachine twiceDefinitions true)).1 ≠ .error .void := by
  have hok : ((wary 8 12 nextProgram).runOn (freshMachine twiceDefinitions true)).1.isOk = true := by
    decide +kernel
  have hwary : ((wary 8 12 nextProgram).runOn (freshMachine twiceDefinitions true)).1 ≠
      .error .exhausted := by
    obtain ⟨ty, t, hrun⟩ := runOn_of_isOk hok
    rw [hrun]
    intro h
    cases h
  have hranked : twiceDefinitions.RankedBy fun x => if x = "next" then 1 else 0 :=
    Definitions.rankedBy_of_isRankedBy 6 (by decide +kernel)
  have hmem {m : Node} (hm : twiceDefinitions.Holds nextProgram m) :
      m ∈ twiceDefinitions.partsWithin nextProgram 6 := Definitions.mem_partsWithin hm (by decide +kernel)
  have hnodup : ((twiceDefinitions.partsWithin nextProgram 6).map (·.id)).Nodup := by decide +kernel
  have hold : ∀ i ∈ (twiceDefinitions.partsWithin nextProgram 6).map (·.id), i < 30 := by
    decide +kernel
  refine ⟨?_, check_is_not_void (isFresh_freshMachine _ _) hranked ?_ ?_ hwary⟩
  · rw [approximates_wary 8 12 nextProgram _ hwary]
    exact hok
  · exact fun hm => hold _ (List.mem_map_of_mem (hmem hm))
  · exact fun hm hm' => List.inj_on_of_nodup_map hnodup (hmem hm) (hmem hm')

/-- Whether a run was given up as void. -/
def isVoid : Except Fault Node → Bool
  | .error .void => true
  | _ => false

theorem eq_void_of_isVoid {r : Except Fault Node} (h : isVoid r = true) : r = .error .void := by
  cases r with
  | ok n => cases h
  | error f =>
    cases f with
    | void => rfl
    | _ => cases h

/-- `f = @k(Function) k` -/
def selfDefinitions : Definitions := ⟨[
  ("f", .func ⟨0, .builtin⟩ ⟨.builtin, "k", .ident ⟨1, .builtin⟩ "Function"⟩
    [.ident ⟨2, .builtin⟩ "k"])]⟩

/-- `f(f)` -/
def selfProgram : Node :=
  .call ⟨3, .builtin⟩ (.ident ⟨4, .builtin⟩ "f") (.ident ⟨5, .builtin⟩ "f")

/-- A function that is passed to itself is void, without any recursion. -/
theorem check_is_void_of_self :
    selfDefinitions.RankedBy (fun _ => 0) ∧
    (∀ m, selfDefinitions.Holds selfProgram m → m.id < 30) ∧
    (∀ m m', selfDefinitions.Holds selfProgram m → selfDefinitions.Holds selfProgram m' →
      m.id = m'.id → m = m') ∧
    ((check 12 selfProgram).runOn (freshMachine selfDefinitions true)).1 = .error .void := by
  have hmem {m : Node} (hm : selfDefinitions.Holds selfProgram m) :
      m ∈ selfDefinitions.partsWithin selfProgram 3 := Definitions.mem_partsWithin hm (by decide +kernel)
  have hnodup : ((selfDefinitions.partsWithin selfProgram 3).map (·.id)).Nodup := by decide +kernel
  have hold : ∀ i ∈ (selfDefinitions.partsWithin selfProgram 3).map (·.id), i < 30 := by
    decide +kernel
  refine ⟨Definitions.rankedBy_of_isRankedBy 3 (by decide +kernel), ?_, ?_, ?_⟩
  · exact fun m hm => hold _ (List.mem_map_of_mem (hmem hm))
  · exact fun m m' hm hm' => List.inj_on_of_nodup_map hnodup (hmem hm) (hmem hm')
  · exact eq_void_of_isVoid (by decide +kernel)

end Residual
