/-
Definitions of a program are only ever appended, and each is made once. Adding a node appends at most
one definition, for an alias whose name is free, and leaves the others as they are; what a node that
fails has appended keeps the value that was written.

The step that could spoil this is the storing of an evaluated value, which goes where the link of the
alias leads, and an alias may come with a link made for another program. But the checker has looked up
the name before, and passes the alias only if its link leads to the definition of that name, which is
the one just appended (`current_of_check`).
-/
import Residual.Program
import Residual.Proofs.FirstOrder
import Residual.Proofs.FreshName
import Residual.Proofs.Restoration

namespace Residual

/-- The name and the value of the definition that an alias asks for. -/
def Node.definition? : Node → Option (Name × Node)
  | .assign _ (.ident _ name) value _ _ => some (name, value)
  | _ => none

/-- The value that an alias binds. -/
def Node.aliasValue? : Node → Option Node
  | .assign _ _ value _ _ => some value
  | _ => none

theorem Node.definition?_eq_some {n : Node} {name : Name} {value : Node}
    (h : n.definition? = some (name, value)) : ∃ tag nameTag transparent link,
      n = .assign tag (.ident nameTag name) value transparent link := by
  unfold definition? at h
  split at h
  · cases h
    exact ⟨_, _, _, _, rfl⟩
  · cases h

/-! ## One more definition -/

namespace Definitions

variable {defs : Definitions} {name : Name}

/-- The definitions with one more behind them. -/
def append (defs : Definitions) (name : Name) (value : Node) : Definitions :=
  ⟨defs.entries ++ [(name, value)]⟩

theorem find?_eq_none_iff : defs.find? name = none ↔ defs.lookup name = none := by
  rw [← Option.not_isSome_iff_eq_none, ← Option.not_isSome_iff_eq_none, ← contains_eq, find?,
    List.findIdx?_isSome, contains]

theorem find?_append (h : defs.lookup name = none) (value : Node) :
    (defs.append name value).find? name = some defs.size := by
  have hnone : defs.entries.findIdx? (·.1 == name) = none := find?_eq_none_iff.2 h
  simp [find?, append, List.findIdx?_append, hnone, size]

theorem lookup_append (h : defs.lookup name = none) (value : Node) :
    (defs.append name value).lookup name = some (defs.size, value) := by
  rw [lookup, find?_append h]
  simp [get?, append, size]

theorem get?_append {d : DefId} {entry : Name × Node} (h : defs.get? d = some entry) (value : Node) :
    (defs.append name value).get? d = some entry := by
  have hlt : d < defs.entries.length := (List.getElem?_eq_some_iff.1 h).1
  rw [get?, append, List.getElem?_append_left hlt]
  exact h

theorem register_eq (h : defs.lookup name = none) (value : Node) :
    defs.register name value = (defs.size, defs.append name value) := by
  rw [register, find?_eq_none_iff.2 h]
  rfl

theorem replace_append (value result : Node) :
    (defs.append name value).replace defs.size result = defs.append name result := by
  rw [replace, append, append, size]
  congr 1
  induction defs.entries with
  | nil => rfl
  | cons entry entries ih => simpa using ih

end Definitions

namespace Program

/-! ## What adding a node does -/

/-- An alias that asks for a free name is registered; nothing else is. -/
theorem define_cases (p : Program) (node : Node) :
    (p.define node = (none, p) ∧
      ∀ name value, node.definition? = some (name, value) → ¬ p.definitions.IsFree name) ∨
    ∃ name value links, node.definition? = some (name, value) ∧ p.definitions.IsFree name ∧
      p.define node = (links.of? node,
        { p with definitions := p.definitions.append name value, links }) := by
  cases hdef : node.definition? with
  | none =>
    refine .inl ⟨?_, fun _ _ h => by cases h⟩
    unfold define
    split
    · cases hdef
    · rfl
  | some entry =>
    obtain ⟨name, value⟩ := entry
    obtain ⟨tag, nameTag, transparent, link, rfl⟩ := Node.definition?_eq_some hdef
    by_cases hfree : p.definitions.IsFree name
    · refine .inr ⟨name, value,
        p.links.insert (.assign tag (.ident nameTag name) value transparent link) p.definitions.size,
        rfl, hfree, ?_⟩
      rw [define, if_neg (by simp [Definitions.contains_eq, hfree.1, hfree.2]),
        Definitions.register_eq hfree.1]
      rfl
    · refine .inl ⟨?_, fun _ _ h => by cases h; exact hfree⟩
      rw [define, if_pos]
      rw [Bool.or_eq_true, Definitions.contains_eq]
      by_contra hno
      rw [not_or, Option.not_isSome_iff_eq_none, Option.not_isSome_iff_eq_none] at hno
      exact hfree hno

/-- A pass runs over the definitions of the program, and nothing but its counters goes on. -/
theorem run_eq {α : Type} {p q : Program} {resolve : Bool} {m : Pass α} {r : Except Fault α}
    (h : p.run resolve m = (r, q)) : (∃ builder, q = { p with builder }) ∧
      ∃ s t, s.env = { p.env with resolve } ∧ m.runOn s = (r, t) := by
  cases h
  exact ⟨⟨_, rfl⟩, ⟨{ p.env with resolve }, p.builder.nodes⟩, _, rfl, rfl⟩

theorem outcomes_store (p : Program) (d : Option DefId) (node value : Node) :
    (p.store d node value).outcomes = p.outcomes := by
  unfold store
  split <;> rfl

theorem definitions_store (p : Program) (d : Option DefId) (node value : Node) :
    (p.store d node value).definitions =
      match d, storedValue? node value with
      | some d, some result => p.definitions.replace d result
      | _, _ => p.definitions := by
  cases d <;> cases h : storedValue? node value <;> simp [store, h]

/-- What can come of adding a node: it fails, and what was registered stays; or it passes the checker
and is evaluated, both over the definitions as registered, and its value may be stored. -/
theorem add_cases (p : Program) (depth : Nat) (node : Node) :
    (∃ f, (p.add depth node).1 = .error f ∧
      (p.add depth node).2.definitions = (p.define node).2.definitions ∧
      (p.add depth node).2.outcomes = (p.define node).2.outcomes) ∨
    ∃ o s t s' t', (p.add depth node).1 = .ok o ∧ o.node = node ∧
      s.env = { (p.define node).2.env with resolve := true } ∧
      (check depth node).runOn s = (.ok o.ty, t) ∧
      s'.env = { (p.define node).2.env with resolve := (p.define node).2.settings.resolve } ∧
      (eval depth node).runOn s' = (.ok o.value, t') ∧
      (p.add depth node).2.definitions =
        ((p.define node).2.store (p.define node).1 node o.value).definitions ∧
      (p.add depth node).2.outcomes = (p.define node).2.outcomes ++ [o] := by
  unfold add
  generalize p.define node = defined
  obtain ⟨d, q⟩ := defined
  dsimp only
  rcases hcheck : q.run true (check depth node) with ⟨f | ty, q₁⟩ <;>
    obtain ⟨⟨_, rfl⟩, s, t, hs, hcheck⟩ := run_eq hcheck <;> dsimp only
  · exact .inl ⟨_, rfl, rfl, rfl⟩
  · rcases heval : Program.run _ q.settings.resolve (eval depth node) with ⟨f | value, q₂⟩ <;>
      obtain ⟨⟨_, rfl⟩, s', t', hs', heval⟩ := run_eq heval <;> dsimp only
    · exact .inl ⟨_, rfl, rfl, rfl⟩
    · refine .inr ⟨⟨node, ty, value⟩, s, t, s', t', rfl, rfl, hs, hcheck, hs', heval, ?_, ?_⟩
      · rw [definitions_store, definitions_store]
      · rw [outcomes_store]

/-- An alias that passes the checker at top level is linked to the definition of its name. -/
theorem current_of_check {depth : Nat} {tag nameTag : Tag} {name : Name} {value ty : Node}
    {transparent : Bool} {link : Option DefId} {s t : Machine} {found : Found}
    (hfound : s.env.lookup name = some found)
    (h : (check depth (.assign tag (.ident nameTag name) value transparent link)).runOn s =
      (.ok ty, t)) : found.isLinked (s.env.links.current tag.id link) = true := by
  cases depth with
  | zero => cases h
  | succ depth =>
    have h : (Check.checkAlias (check depth) tag (.ident nameTag name) value link).runOn s =
      (.ok ty, t) := h
    obtain ⟨env, s', henv, h⟩ := Pass.runOn_bind_ok h
    cases henv
    rw [hfound] at h
    by_contra hlink
    simp [hlink] at h

/-! ## Definitions are made once -/

/-- What adding a node does to the definitions and the outcomes of `p`; the answer is `r`, and the
program afterwards is `q`. -/
structure Registers (p : Program) (depth : Nat) (node : Node) (r : Except Failure Outcome)
    (q : Program) : Prop where
  /-- Every definition keeps its place, its name and its value. -/
  keeps : ∀ d entry, p.definitions.get? d = some entry → q.definitions.get? d = some entry
  /-- An alias of a free name appends one definition. It has the value that was written, or the value
  of the evaluated alias. -/
  appends : ∀ name value, node.definition? = some (name, value) → p.definitions.IsFree name →
    ∃ stored, q.definitions = p.definitions.append name stored ∧
      q.definitions.find? name = some p.definitions.size ∧
      (stored = value ∨ ∃ o, r = .ok o ∧ o.value.aliasValue? = some stored)
  /-- Nothing else does. -/
  ignores : (∀ name value, node.definition? = some (name, value) → ¬ p.definitions.IsFree name) →
    q.definitions = p.definitions
  fails : ∀ f, r = .error f → q.outcomes = p.outcomes
  /-- The outcome is that of the node, evaluated over the definitions as registered. -/
  succeeds : ∀ o, r = .ok o → q.outcomes = p.outcomes ++ [o] ∧ o.node = node ∧
    ∃ s t, s.env = { (p.define node).2.env with resolve := p.settings.resolve } ∧
      (eval depth node).runOn s = (.ok o.value, t)
  /-- An alias without a link that asks for a name that is taken fails. -/
  refuses : ∀ name value, node.definition? = some (name, value) → p.links.of? node = none →
    ¬ p.definitions.IsFree name →
      (∃ f, r = .error f) ∧ q.definitions = p.definitions ∧ q.outcomes = p.outcomes

theorem aliasValue?_of_storedValue? {node value result : Node}
    (h : storedValue? node value = some result) : value.aliasValue? = some result := by
  unfold storedValue? at h
  split at h
  · split at h
    · cases h
      rfl
    · cases h
  · cases h

/-- Where a value is stored at all, it is stored for the definition that the alias has just made. -/
theorem definitions_store_append {p : Program} {links : Links} {name : Name} {node value : Node}
    (hlink : links.of? node = some p.definitions.size) (result : Node) :
    ∃ stored, (store { p with definitions := p.definitions.append name value, links }
        (links.of? node) node result).definitions = p.definitions.append name stored ∧
      (stored = value ∨ result.aliasValue? = some stored) := by
  rw [definitions_store, hlink]
  cases hstored : storedValue? node result with
  | none => exact ⟨value, rfl, .inl rfl⟩
  | some stored =>
    exact ⟨stored, Definitions.replace_append .., .inr (aliasValue?_of_storedValue? hstored)⟩

theorem lookup_defined {p : Program} {name : Name} {value : Node} {d : DefId} {env : Env}
    {resolve : Bool} (henv : env = { p.env with resolve })
    (h : p.definitions.lookup name = some (d, value)) :
    env.lookup name = some (.defined d value) := by
  have hlookup : p.env.store.lookup name = some (d, value) := h
  rw [henv, Env.lookup]
  simp only [hlookup]
  rfl

/-- A name that is taken is found at top level, but not by way of no link. -/
theorem lookup_of_not_isFree {p : Program} {name : Name} {env : Env} {resolve : Bool}
    (henv : env = { p.env with resolve }) (h : ¬ p.definitions.IsFree name) :
    ∃ found, env.lookup name = some found ∧ found.isLinked none = false := by
  cases hdef : p.definitions.lookup name with
  | some entry => exact ⟨.defined entry.1 entry.2, lookup_defined henv hdef, rfl⟩
  | none =>
    cases hb : Builtin.ofName? name with
    | some b =>
      have hlookup : p.env.store.lookup name = none := hdef
      refine ⟨.builtin b, ?_, rfl⟩
      rw [henv, Env.lookup]
      simp only [hlookup, hb]
      rfl
    | none => exact absurd ⟨hdef, hb⟩ h

/-- Without a definition to make, none is made. -/
theorem definitions_add_ignored {p : Program} {node : Node} (depth : Nat)
    (hdefine : p.define node = (none, p)) :
    (p.add depth node).2.definitions = p.definitions := by
  have hadd := add_cases p depth node
  rw [hdefine] at hadd
  rcases hadd with ⟨_, -, h, -⟩ | ⟨_, _, _, _, _, -, -, -, -, -, -, h, -⟩
  · exact h
  · rw [h, definitions_store]

theorem definitions_add_appended {p : Program} {node value : Node} {name : Name} {links : Links}
    (depth : Nat) (hdef : node.definition? = some (name, value)) (hfree : p.definitions.IsFree name)
    (hdefine : p.define node = (links.of? node,
      { p with definitions := p.definitions.append name value, links })) :
    ∃ stored, (p.add depth node).2.definitions = p.definitions.append name stored ∧
      (stored = value ∨ ∃ o, (p.add depth node).1 = .ok o ∧ o.value.aliasValue? = some stored) := by
  have hadd := add_cases p depth node
  rw [hdefine] at hadd
  rcases hadd with ⟨_, -, h, -⟩ | ⟨o, s, _, _, _, hok, -, hs, hcheck, -, -, h, -⟩
  · exact ⟨value, h, .inl rfl⟩
  · obtain ⟨tag, nameTag, transparent, link, rfl⟩ := Node.definition?_eq_some hdef
    have hfound := lookup_defined hs (Definitions.lookup_append hfree.1 value)
    have hlinked := current_of_check hfound hcheck
    have hlinks : s.env.links = links := by rw [hs]; rfl
    rw [hlinks] at hlinked
    have hsize : links.of? (.assign tag (.ident nameTag name) value transparent link) =
        some p.definitions.size := eq_of_beq hlinked
    obtain ⟨stored, hstore, hvalue⟩ := definitions_store_append hsize o.value
    exact ⟨stored, h.trans hstore, hvalue.imp_right fun h => ⟨o, hok, h⟩⟩

/-- The checker finds the name, and no link leads there. -/
theorem add_refused {p : Program} {node value : Node} {name : Name} (depth : Nat)
    (hdefine : p.define node = (none, p)) (hdef : node.definition? = some (name, value))
    (hlink : p.links.of? node = none) (htaken : ¬ p.definitions.IsFree name) :
    ∃ f, (p.add depth node).1 = .error f := by
  have hadd := add_cases p depth node
  rw [hdefine] at hadd
  rcases hadd with ⟨f, herr, -⟩ | ⟨_, s, _, _, _, -, -, hs, hcheck, -⟩
  · exact ⟨f, herr⟩
  · obtain ⟨tag, nameTag, transparent, link, rfl⟩ := Node.definition?_eq_some hdef
    obtain ⟨found, hfound, hno⟩ := lookup_of_not_isFree hs htaken
    have hlinked := current_of_check hfound hcheck
    have hlinks : s.env.links = p.links := by rw [hs]; rfl
    rw [hlinks, show p.links.current tag.id link = none from hlink, hno] at hlinked
    cases hlinked

/-- Registering touches neither the outcomes nor the settings. -/
theorem define_frame (p : Program) (node : Node) :
    (p.define node).2.outcomes = p.outcomes ∧ (p.define node).2.settings = p.settings := by
  rcases define_cases p node with ⟨h, -⟩ | ⟨_, _, _, -, -, h⟩ <;> rw [h] <;> exact ⟨rfl, rfl⟩

/-- The step: what adding a node does to any program at all. -/
theorem registers_add (p : Program) (depth : Nat) (node : Node) :
    Registers p depth node (p.add depth node).1 (p.add depth node).2 := by
  obtain ⟨houtcomes, hsettings⟩ := define_frame p node
  have hadd := add_cases p depth node
  rw [houtcomes, hsettings] at hadd
  have hfails : ∀ f, (p.add depth node).1 = .error f →
      (p.add depth node).2.outcomes = p.outcomes := by
    intro f hf
    rcases hadd with ⟨_, -, -, h⟩ | ⟨_, _, _, _, _, hok, -⟩
    · exact h
    · rw [hok] at hf
      cases hf
  have hsucceeds : ∀ o, (p.add depth node).1 = .ok o →
      (p.add depth node).2.outcomes = p.outcomes ++ [o] ∧ o.node = node ∧
        ∃ s t, s.env = { (p.define node).2.env with resolve := p.settings.resolve } ∧
          (eval depth node).runOn s = (.ok o.value, t) := by
    intro o ho
    rcases hadd with ⟨_, herr, -⟩ | ⟨o', _, _, s', t', hok, hnode, -, -, hs', heval, -, hout⟩
    · rw [herr] at ho
      cases ho
    · rw [hok] at ho
      cases ho
      exact ⟨hout, hnode, s', t', hs', heval⟩
  rcases define_cases p node with ⟨hdefine, htaken⟩ | ⟨name, value, links, hdef, hfree, hdefine⟩
  · have hq := definitions_add_ignored depth hdefine
    exact {
      keeps := fun d entry h => by rwa [hq]
      appends := fun name value h hfree => absurd hfree (htaken name value h)
      ignores := fun _ => hq
      fails := hfails
      succeeds := hsucceeds
      refuses := by
        intro name value hdef hlink htaken
        obtain ⟨f, hf⟩ := add_refused depth hdefine hdef hlink htaken
        exact ⟨⟨f, hf⟩, hq, hfails f hf⟩ }
  · obtain ⟨stored, hq, hvalue⟩ := definitions_add_appended depth hdef hfree hdefine
    have hsame : ∀ name' value', node.definition? = some (name', value') →
        name' = name ∧ value' = value := by
      intro name' value' h
      rw [hdef] at h
      cases h
      exact ⟨rfl, rfl⟩
    exact {
      keeps := fun d entry h => hq ▸ Definitions.get?_append h stored
      appends := by
        intro name' value' h' _
        obtain ⟨rfl, rfl⟩ := hsame name' value' h'
        exact ⟨stored, hq, hq ▸ Definitions.find?_append hfree.1 stored, hvalue⟩
      ignores := fun htaken => absurd hfree (htaken name value hdef)
      fails := hfails
      succeeds := hsucceeds
      refuses := by
        intro name' value' h' _ htaken
        obtain ⟨rfl, rfl⟩ := hsame name' value' h'
        exact absurd hfree htaken }

/-! ## Along every run -/

/-- The programs that come about when nodes are built and added, in any order and whatever comes of
it. Nodes may be shared with other programs, so that their links may change in between. -/
inductive Reachable : Program → Prop where
  | start (settings : Settings) : Reachable (start settings)
  | build {p : Program} (h : Reachable p) {α : Type} (b : Build α) : Reachable (p.build b).2
  | link {p : Program} (h : Reachable p) (links : Links) : Reachable { p with links }
  | add {p : Program} (h : Reachable p) (depth : Nat) (node : Node) : Reachable (p.add depth node).2

end Program

/-- Every name has one definition, and none of them is built in. -/
structure Definitions.Distinct (defs : Definitions) : Prop where
  nodup : (defs.entries.map (·.1)).Nodup
  builtin : ∀ entry ∈ defs.entries, Builtin.ofName? entry.1 = none

theorem Definitions.Distinct.append {defs : Definitions} {name : Name} (h : defs.Distinct)
    (hfree : defs.IsFree name) (value : Node) : (defs.append name value).Distinct := by
  constructor
  · have hnot : name ∉ defs.entries.map (·.1) := by
      intro hmem
      obtain ⟨entry, hentry, rfl⟩ := List.mem_map.1 hmem
      have hcontains : defs.contains entry.1 = true := List.any_eq_true.2 ⟨entry, hentry, by simp⟩
      rw [Definitions.contains_eq, hfree.1] at hcontains
      cases hcontains
    simpa [Definitions.append, List.nodup_append, h.nodup] using fun n v hv heq => hnot
      (List.mem_map.2 ⟨(n, v), hv, heq⟩)
  · intro entry hentry
    rcases List.mem_append.1 hentry with hentry | hentry
    · exact h.builtin entry hentry
    · rw [List.mem_singleton.1 hentry]
      exact hfree.2

namespace Program

/-- The run: names stay distinct whatever is added. -/
theorem Reachable.distinct {p : Program} (h : p.Reachable) : p.definitions.Distinct := by
  induction h with
  | start settings => exact ⟨List.nodup_nil, fun entry hentry => by cases hentry⟩
  | build _ _ ih => exact ih
  | link _ _ ih => exact ih
  | @add p _ depth node ih =>
    have hadd := registers_add p depth node
    by_cases hdef : ∃ name value, node.definition? = some (name, value) ∧ p.definitions.IsFree name
    · obtain ⟨name, value, hdef, hfree⟩ := hdef
      obtain ⟨stored, hq, -⟩ := hadd.appends name value hdef hfree
      rw [hq]
      exact ih.append hfree stored
    · rw [hadd.ignores fun name value h hfree => hdef ⟨name, value, h, hfree⟩]
      exact ih

/-- In every program that comes about, names have one definition each, none of them built in, and
adding one more node appends at most one definition and otherwise leaves them as they are. -/
theorem definitions_are_made_once {p : Program} (h : p.Reachable) (depth : Nat) (node : Node) :
    p.definitions.Distinct ∧ Registers p depth node (p.add depth node).1 (p.add depth node).2 :=
  ⟨h.distinct, registers_add p depth node⟩

/-- `answer = { true }`, and `answer = false` -/
def answers : Node × Node :=
  (.assign ⟨3, .bare 4 5⟩ (.ident ⟨2, .bare 3 4⟩ "answer")
    (.block ⟨1, .bare 2 3⟩ [.lit ⟨0, .bare 1 2⟩ (.bool true)]) false none,
  .assign ⟨6, .bare 7 8⟩ (.ident ⟨5, .bare 6 7⟩ "answer") (.lit ⟨4, .bare 5 6⟩ (.bool false)) false
    none)

/-- The value of the first alias is stored for its definition, and the second one is refused. -/
theorem answer_is_defined_once :
    let p := ((start default).add 8 answers.1).2
    p.definitions.entries.map (fun entry => (entry.1, entry.2.bool?)) = [("answer", some true)] ∧
      p.definitions.Distinct ∧ (∃ f, (p.add 8 answers.2).1 = .error f) ∧
      (p.add 8 answers.2).2.definitions = p.definitions := by
  have htaken : ¬ ((start default).add 8 answers.1).2.definitions.IsFree "answer" := by
    intro hfree
    have hcontains : ((start default).add 8 answers.1).2.definitions.contains "answer" = true := rfl
    rw [Definitions.contains_eq, hfree.1] at hcontains
    cases hcontains
  obtain ⟨hdistinct, hadd⟩ :=
    definitions_are_made_once (.add (.start default) 8 answers.1) 8 answers.2
  obtain ⟨hfails, hsame, -⟩ := hadd.refuses "answer" _ rfl rfl htaken
  exact ⟨rfl, hdistinct, hfails, hsame⟩

end Program

end Residual
