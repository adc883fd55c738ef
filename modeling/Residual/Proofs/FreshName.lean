/-
The search for another name of a binder. The names `x#0`, `x#1`, … are all different, so among one
more of them than there are bindings and definitions one is not taken, and the search, which goes
through that many, ends with the first of these. Which name it ends with hangs on nothing but which
names are taken; the number of tries does not matter, and a search without a bound ends with the same
name.
-/
import Std.Data.String.ToNat
import Mathlib.Data.List.Nodup
import Mathlib.Data.List.Perm.Subperm
import Mathlib.Data.Nat.Find
import Mathlib.Order.Bounds.Defs
import Residual.Env

namespace Residual

theorem Definitions.contains_eq (defs : Definitions) (name : Name) :
    defs.contains name = (defs.lookup name).isSome := by
  rw [contains, ← List.findIdx?_isSome, lookup, find?]
  cases h : defs.entries.findIdx? (·.1 == name) with
  | none => rfl
  | some d =>
    obtain ⟨hd, -⟩ := List.findIdx?_eq_some_iff_getElem.1 h
    simp [get?, List.getElem?_eq_getElem hd]

theorem Definitions.mem_entries_of_lookup {defs : Definitions} {name : Name} {d : DefId} {value : Node}
    (h : defs.lookup name = some (d, value)) : (name, value) ∈ defs.entries := by
  obtain ⟨d', hd, h⟩ := Option.bind_eq_some_iff.1 h
  obtain ⟨⟨name', value'⟩, hentry, h⟩ := Option.bind_eq_some_iff.1 h
  cases h
  obtain ⟨hlt, hname, -⟩ := List.findIdx?_eq_some_iff_getElem.1 hd
  obtain ⟨_, hget⟩ := List.getElem?_eq_some_iff.1 hentry
  rw [hget] at hname
  rw [← eq_of_beq hname]
  exact List.mem_of_getElem? hentry

theorem Definitions.mem_of_lookup {defs : Definitions} {name : Name} {d : DefId} {value : Node}
    (h : defs.lookup name = some (d, value)) : ∃ entry ∈ defs.entries, entry.2 = value :=
  ⟨_, mem_entries_of_lookup h, rfl⟩

def Found.isBuiltin : Found → Bool
  | builtin _ => true
  | _ => false

namespace Env

/-! ## Suffixes -/

theorem suffixed_injective {name : Name} {j k : Nat} (h : suffixed name j = suffixed name k) :
    j = k := by
  have hlist := congrArg String.toList h
  simp only [suffixed, String.toList_append, List.append_cancel_left_eq] at hlist
  exact Nat.repr_injective (String.toList_inj.1 hlist)

theorem not_mem_toString (k : Nat) : '#' ∉ (toString k).toList := by
  intro h
  have hdigits : (toString k).toList = Nat.toDigits 10 k := by simp
  rw [hdigits] at h
  exact absurd (Nat.isDigit_of_mem_toDigits (by decide) (by decide) h) (by decide)

theorem mem_suffixed (name : Name) (k : Nat) : '#' ∈ (suffixed name k).toList := by
  simp [suffixed]

/-- No built-in type has a suffix. -/
theorem ofName?_suffixed (name : Name) (k : Nat) : Builtin.ofName? (suffixed name k) = none := by
  have hnames : ∀ b ∈ Builtin.all, '#' ∉ b.name.toList := by decide
  refine List.find?_eq_none.2 fun b hb heq => hnames b hb ?_
  rw [eq_of_beq heq]
  exact mem_suffixed name k

/-- Digits hold no `#`, so a suffix tells where the name ends. -/
theorem suffixed_left_injective {a b : Name} {j k : Nat} (h : suffixed a j = suffixed b k) :
    a = b := by
  have hlist : a.toList ++ '#' :: (toString j).toList = b.toList ++ '#' :: (toString k).toList := by
    simpa [suffixed] using congrArg String.toList h
  apply String.toList_inj.1
  rcases List.append_eq_append_iff.1 hlist with ⟨cs, hb, hj⟩ | ⟨cs, ha, hk⟩
  · cases cs with
    | nil => rw [hb, List.append_nil]
    | cons c cs =>
      obtain ⟨-, hj⟩ := List.cons.inj hj
      exact absurd (hj ▸ by simp) (not_mem_toString j)
  · cases cs with
    | nil => rw [ha, List.append_nil]
    | cons c cs =>
      obtain ⟨-, hk⟩ := List.cons.inj hk
      exact absurd (hk ▸ by simp) (not_mem_toString k)

/-- Every name that is taken. -/
def takenNames (env : Env) : List Name :=
  env.locals.bindings.map (·.name) ++ env.store.entries.map (·.1)

theorem isTaken_iff {env : Env} {name : Name} : env.isTaken name = true ↔ name ∈ env.takenNames := by
  simp only [isTaken, Locals.contains_eq, Definitions.contains, Bool.or_eq_true, List.any_eq_true,
    beq_iff_eq, takenNames, List.mem_append, List.mem_map]

theorem length_takenNames (env : Env) :
    env.takenNames.length = env.locals.size + env.store.size := by
  simp [takenNames, env.locals.size_eq, Definitions.size]

/-- Some suffix below one more than there are names taken is free. -/
theorem exists_free_suffix (env : Env) (name : Name) :
    ∃ k ≤ env.locals.size + env.store.size, env.isTaken (suffixed name k) = false := by
  by_contra hall
  push Not at hall
  have hsub : (List.range (env.locals.size + env.store.size + 1)).map (suffixed name) ⊆
      env.takenNames := by
    intro x hx
    obtain ⟨k, hk, rfl⟩ := List.mem_map.1 hx
    have := hall k (by have := List.mem_range.1 hk; omega)
    exact isTaken_iff.1 (by simpa using this)
  have hnodup : ((List.range (env.locals.size + env.store.size + 1)).map (suffixed name)).Nodup :=
    List.Nodup.map (fun _ _ => suffixed_injective) List.nodup_range
  have := (List.subperm_of_subset hnodup hsub).length_le
  rw [List.length_map, List.length_range, length_takenNames] at this
  omega

/-- There is a first suffix that is free, and below it there are no more than there are names
taken. -/
theorem exists_first_free_suffix (env : Env) (name : Name) :
    ∃ k ≤ env.locals.size + env.store.size, env.isTaken (suffixed name k) = false ∧
      ∀ j < k, env.isTaken (suffixed name j) = true := by
  obtain ⟨n, hn, hfree⟩ := env.exists_free_suffix name
  have hex : ∃ k, env.isTaken (suffixed name k) = false := ⟨n, hfree⟩
  refine ⟨Nat.find hex, Nat.le_trans (Nat.find_min' hex hfree) hn, Nat.find_spec hex, fun j hj => ?_⟩
  simpa using Nat.find_min hex hj

/-! ## The search -/

/-- A successful search ends with the first free suffix. -/
theorem freeSuffix_eq_some {env : Env} {name : Name} :
    ∀ {tries k m : Nat}, env.isTaken (suffixed name (k + m)) = false →
      (∀ j < m, env.isTaken (suffixed name (k + j)) = true) → m < tries →
      env.freeSuffix name k tries = some (suffixed name (k + m))
  | tries + 1, k, 0, hfree, _, _ => by
    rw [Nat.add_zero] at hfree
    rw [freeSuffix, if_neg (by simp [hfree]), Nat.add_zero]
  | tries + 1, k, m + 1, hfree, htaken, hlt => by
    have hk : env.isTaken (suffixed name k) = true := htaken 0 (by omega)
    have hshift : ∀ j, k + 1 + j = k + (j + 1) := fun j => by omega
    rw [freeSuffix, if_pos hk, ← hshift m]
    refine freeSuffix_eq_some ?_ (fun j hj => ?_) (Nat.lt_of_succ_lt_succ hlt)
    · rw [hshift]
      exact hfree
    · rw [hshift]
      exact htaken (j + 1) (Nat.succ_lt_succ hj)

/-- A binder whose name is free keeps it. -/
theorem freshName_of_free {env : Env} {name : Name} (h : env.isTaken name = false) :
    env.freshName name = none := by
  rw [freshName, if_neg (by simp [h])]

/-- A binder whose name is taken gets the first free suffix. -/
theorem freshName_of_taken {env : Env} {name : Name} (h : env.isTaken name = true) :
    ∃ k, env.freshName name = some (suffixed name k) ∧ env.isTaken (suffixed name k) = false ∧
      ∀ j < k, env.isTaken (suffixed name j) = true := by
  obtain ⟨k, hle, hfree, hbelow⟩ := env.exists_first_free_suffix name
  refine ⟨k, ?_, hfree, hbelow⟩
  have hzero : ∀ j, 0 + j = j := Nat.zero_add
  rw [freshName, if_pos h, ← hzero k]
  refine freeSuffix_eq_some ?_ (fun j hj => ?_) (by omega)
  · rw [hzero]
    exact hfree
  · rw [hzero]
    exact hbelow j hj

/-- The other name of a binder is not taken. -/
theorem isTaken_freshName {env : Env} {name other : Name} (h : env.freshName name = some other) :
    env.isTaken other = false := by
  cases ht : env.isTaken name with
  | false =>
    rw [freshName_of_free ht] at h
    cases h
  | true =>
    obtain ⟨k, hk, hfree, -⟩ := freshName_of_taken ht
    rw [hk] at h
    cases h
    exact hfree

/-- Environments in which the same names are taken, of those that are asked for, give a binder the
same other name. -/
theorem freshName_congr {env env' : Env} {name : Name}
    (h : env.isTaken name = env'.isTaken name)
    (hs : ∀ k, env.isTaken (suffixed name k) = env'.isTaken (suffixed name k)) :
    env.freshName name = env'.freshName name := by
  cases ht : env.isTaken name with
  | false => rw [freshName_of_free ht, freshName_of_free (h ▸ ht)]
  | true =>
    obtain ⟨j, hj, hfj, hlj⟩ := freshName_of_taken ht
    obtain ⟨k, hk, hfk, hlk⟩ := freshName_of_taken (h ▸ ht : env'.isTaken name = true)
    have hjk : j = k := by
      rcases Nat.lt_trichotomy j k with hlt | heq | hlt
      · have := hlk j hlt
        rw [← hs, hfj] at this
        cases this
      · exact heq
      · have := hlj k hlt
        rw [hs, hfk] at this
        cases this
    rw [hj, hk, hjk]

/-! ## The search without a bound -/

/-- Whether a lookup finds the name, and not as a built-in type. -/
def finds (env : Env) (name : Name) : Bool := (env.lookup name).any (!·.isBuiltin)

theorem isTaken_eq_finds (env : Env) (name : Name) : env.isTaken name = env.finds name := by
  rw [isTaken, Locals.contains, Definitions.contains_eq, finds, lookup]
  cases env.locals.find? name with
  | some b => rfl
  | none =>
    cases env.store.lookup name with
    | some entry => rfl
    | none => cases Builtin.ofName? name <;> rfl

/-- The search through `name#k`, `name#(k + 1)`, …, which ends at the first of these that no lookup
finds, ends with `other`. Nothing bounds the number of tries. -/
inductive SearchEnds (env : Env) (name : Name) : Nat → Name → Prop
  | here {k : Nat} (free : env.finds (suffixed name k) = false) :
    SearchEnds env name k (suffixed name k)
  | later {k : Nat} {other : Name} (taken : env.finds (suffixed name k) = true)
    (rest : SearchEnds env name (k + 1) other) : SearchEnds env name k other

namespace SearchEnds

variable {env : Env} {name : Name}

/-- A search ends in one way. -/
theorem unique {k : Nat} {other other' : Name} (h : env.SearchEnds name k other)
    (h' : env.SearchEnds name k other') : other = other' := by
  induction h with
  | here free =>
    cases h' with
    | here => rfl
    | later taken => exact absurd (free.symm.trans taken) (by decide)
  | later taken _ ih =>
    cases h' with
    | here free => exact absurd (free.symm.trans taken) (by decide)
    | later _ rest => exact ih rest

/-- A search passes over the names that are taken. -/
theorem of_taken {k : Nat} {other : Name} (h : env.SearchEnds name k other)
    (htaken : ∀ j < k, env.isTaken (suffixed name j) = true) : env.SearchEnds name 0 other := by
  induction k with
  | zero => exact h
  | succ k ih =>
    have hk : env.finds (suffixed name k) = true :=
      env.isTaken_eq_finds _ ▸ htaken k (Nat.lt_succ_self k)
    exact ih (.later hk h) fun j hj => htaken j (Nat.lt_succ_of_lt hj)

/-- A search ends at the first suffix that is free. -/
theorem of_first {k : Nat} (hfree : env.isTaken (suffixed name k) = false)
    (hbelow : ∀ j < k, env.isTaken (suffixed name j) = true) :
    env.SearchEnds name 0 (suffixed name k) :=
  of_taken (.here (env.isTaken_eq_finds _ ▸ hfree)) hbelow

end SearchEnds

/-- Another name is what the search ends with, so the bound on the tries is never what ends it. -/
theorem freshName_eq_some_iff {env : Env} {name other : Name} :
    env.freshName name = some other ↔ env.isTaken name = true ∧ env.SearchEnds name 0 other := by
  cases ht : env.isTaken name with
  | false => simp [freshName_of_free ht]
  | true =>
    obtain ⟨k, hk, hfree, hbelow⟩ := freshName_of_taken ht
    have hends : env.SearchEnds name 0 (suffixed name k) := .of_first hfree hbelow
    rw [hk, Option.some.injEq]
    exact ⟨fun h => ⟨rfl, h ▸ hends⟩, fun h => hends.unique h.2⟩

theorem freshName_eq_none_iff {env : Env} {name : Name} :
    env.freshName name = none ↔ env.isTaken name = false := by
  refine ⟨fun h => ?_, freshName_of_free⟩
  rw [← Bool.not_eq_true]
  intro ht
  obtain ⟨k, hk, -⟩ := freshName_of_taken ht
  rw [hk] at h
  cases h

theorem isTaken_eq_false_iff {env : Env} {name : Name} :
    env.isTaken name = false ↔ name ∉ env.takenNames := by
  rw [← isTaken_iff, Bool.not_eq_true]

/-- The search for another name of a binder always ends, and it is carried out just if a lookup
finds the name. A binder keeps a name that no local binding and no definition has; else it gets
`name#k`, with the least `k` for which no local binding and no definition has this name. There are at
least `k` bindings and definitions. -/
theorem freshName_is_least_suffix (env : Env) (name : Name) :
    (∃ other, env.SearchEnds name 0 other) ∧
    (∀ other, env.freshName name = some other ↔
      env.finds name = true ∧ env.SearchEnds name 0 other) ∧
    (env.freshName name = none ↔ name ∉ env.takenNames) ∧
    (name ∈ env.takenNames → ∃ k ≤ env.locals.size + env.store.size,
      env.freshName name = some (name ++ "#" ++ toString k) ∧
        IsLeast {k | name ++ "#" ++ toString k ∉ env.takenNames} k) := by
  obtain ⟨k, hle, hfree, hbelow⟩ := env.exists_first_free_suffix name
  have hends : env.SearchEnds name 0 (suffixed name k) := .of_first hfree hbelow
  refine ⟨⟨_, hends⟩, fun other => ?_, ?_, fun h => ⟨k, hle, ?_, ?_, fun j hj => ?_⟩⟩
  · rw [← isTaken_eq_finds]
    exact freshName_eq_some_iff
  · rw [freshName_eq_none_iff, isTaken_eq_false_iff]
  · exact freshName_eq_some_iff.2 ⟨isTaken_iff.2 h, hends⟩
  · exact isTaken_eq_false_iff.1 hfree
  · by_contra hlt
    exact hj (isTaken_iff.1 (hbelow j (Nat.lt_of_not_le hlt)))

/-- `x` is bound and so are `x#0` and `x#3`; `x#1` is defined. -/
def crowded : Env :=
  let env := start ⟨[("x#1", .unknown default)]⟩ .empty .standard
  ["x", "x#0", "x#3"].foldl (fun env name => env.push ⟨name, .unknown default, false, none⟩) env

theorem freshName_is_least_suffix_crowded :
    "x" ∈ crowded.takenNames ∧ crowded.freshName "x" = some "x#2" ∧ ∃ k ≤ 4,
      crowded.freshName "x" = some ("x" ++ "#" ++ toString k) ∧
        IsLeast {k | "x" ++ "#" ++ toString k ∉ crowded.takenNames} k :=
  ⟨by decide, by decide, (freshName_is_least_suffix crowded "x").2.2.2 (by decide)⟩

end Env

end Residual
