/-
# What a history of registrations leaves in a registry

A registry is an ordered list that is searched from the front, and registering a module
removes the one that had its name before it adds the new one at the back. This module
says what is in such a list without following it through its changes: of the standard
module and all modules registered after it, those survive that none registered later
replaces, in their order, and the search for a name finds the last module that came
under it.

The removal is what makes the search from the front right. A registry that only added
modules would hold all of them, and the search would go on finding the first.
-/

import Mathlib.Data.List.Induction
import Offside.Proofs.Run.Registry

namespace Offside

namespace Registry

/-- The module that came last under a name in a history of registrations. -/
def LastUnder (history : List Module) (name : List Char) (module : Module) : Prop :=
  ∃ earlier later, history = earlier ++ module :: later ∧ module.name = name ∧
    name ∉ later.map Module.name

/-- The modules of a history that no later one replaces, in their order. -/
def survivors : List Module → List Module
  | [] => []
  | module :: later =>
    if module.name ∈ later.map Module.name then survivors later else module :: survivors later

variable {history : List Module} {module : Module} {name : List Char}

theorem survivors_cons_of_mem (hreplaced : module.name ∈ history.map Module.name) :
    survivors (module :: history) = survivors history := if_pos hreplaced

theorem survivors_cons_of_notMem (hlast : module.name ∉ history.map Module.name) :
    survivors (module :: history) = module :: survivors history := if_neg hlast

/-- One more registration takes the name from whichever module had it. -/
theorem survivors_concat (history : List Module) (module : Module) :
    survivors (history ++ [module]) =
      (survivors history).filter (·.name ≠ module.name) ++ [module] := by
  induction history with
  | nil => rfl
  | cons first history ih =>
      have hnames : first.name ∈ (history ++ [module]).map Module.name ↔
          first.name ∈ history.map Module.name ∨ first.name = module.name := by
        rw [List.map_append, List.mem_append, List.map_singleton, List.mem_singleton]
      rw [List.cons_append]
      by_cases hreplaced : first.name ∈ history.map Module.name
      · rw [survivors_cons_of_mem (hnames.mpr (.inl hreplaced)), survivors_cons_of_mem hreplaced, ih]
      · rw [survivors_cons_of_notMem hreplaced]
        by_cases hsame : first.name = module.name
        · rw [survivors_cons_of_mem (hnames.mpr (.inr hsame)), ih,
            List.filter_cons_of_neg (by simpa using hsame)]
        · rw [survivors_cons_of_notMem (by simp [hreplaced, hsame]), ih,
            List.filter_cons_of_pos (by simpa using hsame), List.cons_append]

/-- The survivors are the modules that came last under their names. -/
theorem mem_survivors_iff : module ∈ survivors history ↔ LastUnder history module.name module := by
  induction history with
  | nil => simp [survivors, LastUnder]
  | cons first history ih =>
      have hlater : LastUnder history module.name module →
          LastUnder (first :: history) module.name module := by
        rintro ⟨earlier, later, rfl, hlast⟩
        exact ⟨first :: earlier, later, rfl, hlast⟩
      by_cases hreplaced : first.name ∈ history.map Module.name
      · rw [survivors_cons_of_mem hreplaced, ih]
        refine ⟨hlater, ?_⟩
        rintro ⟨_ | ⟨_, earlier⟩, later, heq, -, hnew⟩
        · obtain ⟨rfl, rfl⟩ := List.cons.inj heq
          exact absurd hreplaced hnew
        · exact ⟨earlier, later, (List.cons.inj heq).2, rfl, hnew⟩
      · rw [survivors_cons_of_notMem hreplaced, List.mem_cons, ih]
        constructor
        · rintro (rfl | hlast)
          · exact ⟨[], history, rfl, rfl, hreplaced⟩
          · exact hlater hlast
        · rintro ⟨_ | ⟨_, earlier⟩, later, heq, -, hnew⟩
          · exact .inl (List.cons.inj heq).1.symm
          · exact .inr ⟨earlier, later, (List.cons.inj heq).2, rfl, hnew⟩

/-- No name is lost, whatever is replaced. -/
theorem mem_map_name_survivors_iff :
    name ∈ (survivors history).map Module.name ↔ name ∈ history.map Module.name := by
  induction history with
  | nil => rfl
  | cons first history ih =>
      by_cases hreplaced : first.name ∈ history.map Module.name
      · rw [survivors_cons_of_mem hreplaced, ih, List.map_cons, List.mem_cons]
        refine ⟨.inr, ?_⟩
        rintro (rfl | hlater)
        · exact hreplaced
        · exact hlater
      · rw [survivors_cons_of_notMem hreplaced, List.map_cons, List.mem_cons, ih, List.map_cons,
          List.mem_cons]

/-- Where a registry holds the survivors of a history, it holds them after every further
registration. -/
theorem modules_foldl_register (registered : List Module) {registry : Registry}
    (hmodules : registry.modules = survivors history) :
    (registered.foldl register registry).modules = survivors (history ++ registered) := by
  induction registered generalizing registry history with
  | nil => rw [List.foldl_nil, List.append_nil, hmodules]
  | cons module registered ih =>
      have hstep : (registry.register module).modules = survivors (history ++ [module]) := by
        rw [register, hmodules, survivors_concat]
      rw [List.foldl_cons, ih hstep, List.append_assoc, List.singleton_append]

theorem modules_ofModules (registered : List Module) :
    (ofModules registered).modules = survivors (Module.standard :: registered) :=
  have hstandard : ({} : Registry).modules = survivors [Module.standard] := rfl
  modules_foldl_register registered hstandard

/-- Registering a module makes no difference to the other names. -/
theorem resolve?_register_of_ne (registry : Registry) (hname : name ≠ module.name) :
    (registry.register module).resolve? name = registry.resolve? name := by
  have hkept : (registry.modules.filter (·.name ≠ module.name)).find? (·.name = name) =
      registry.modules.find? (·.name = name) := by
    rw [List.find?_filter]
    congr 1
    funext other
    by_cases hfound : other.name = name
    · simp [hfound, hname]
    · simp [hfound]
  rw [resolve?, register, List.find?_append, hkept,
    List.find?_cons_of_neg (by simpa using hname.symm), List.find?_nil, Option.or_none, resolve?]

/-- What every history of registrations on top of the standard module leaves. No two
modules share a name; a name is resolved to the module that came last under it, and to
none exactly if none ever came under it; the modules are the survivors of the history in
their order; and one more registration changes what is found under no other name. -/
theorem ofModules_lastRegistered (registered : List Module) :
    let registry := ofModules registered
    let history := Module.standard :: registered
    (registry.modules.map Module.name).Nodup ∧
      (∀ name module, registry.resolve? name = some module ↔ LastUnder history name module) ∧
      (∀ name, registry.resolve? name = none ↔ name ∉ history.map Module.name) ∧
      registry.modules = survivors history ∧
      ∀ module name, name ≠ module.name →
        (registry.register module).resolve? name = registry.resolve? name := by
  intro registry history
  have hnodup := nodup_ofModules registered
  have hmodules : registry.modules = survivors history := modules_ofModules registered
  refine ⟨hnodup, fun name module => ?_, fun name => ?_, hmodules,
    fun module name => resolve?_register_of_ne registry⟩
  · rw [resolve?, find?_eq_some_iff_of_nodup hnodup, hmodules, mem_survivors_iff]
    constructor
    · rintro ⟨hlast, rfl⟩
      exact hlast
    · intro hlast
      obtain ⟨_, _, -, rfl, -⟩ := id hlast
      exact ⟨hlast, rfl⟩
  · rw [← mem_map_name_survivors_iff, ← hmodules, resolve?, List.find?_eq_none]
    simp [List.mem_map]

/-- The standard module and one called `m` are registered anew, and a third comes behind
them: the name `m` goes on meaning the second of its modules. -/
theorem ofModules_lastRegistered_replaced :
    let first : Module := ⟨['m'], [(['a'], .int)]⟩
    let standard : Module := ⟨Module.standard.name, []⟩
    let second : Module := ⟨['m'], [(['a'], .float)]⟩
    let third : Module := ⟨['n'], []⟩
    let registry := ofModules [first, standard, second]
    registry.resolve? ['m'] = some second ∧ ['m'] ≠ third.name ∧
      (registry.register third).resolve? ['m'] = registry.resolve? ['m'] := by
  intro first standard second third registry
  have hlast := ofModules_lastRegistered [first, standard, second]
  have hsecond : LastUnder (Module.standard :: [first, standard, second]) ['m'] second :=
    ⟨[Module.standard, first, standard], [], rfl, rfl, by simp⟩
  exact ⟨(hlast.2.1 _ _).mpr hsecond, by decide, hlast.2.2.2.2 third ['m'] (by decide)⟩

end Registry

end Offside
