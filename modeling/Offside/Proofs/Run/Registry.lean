/-
# Names in a registry

Registering a module removes the one that had its name, so no two modules of a registry
share a name, and whichever end the search for a name begins at, it finds the same
module. The exports of a module are not kept apart in this way: an export is added
behind the others whatever its name, and a search from the front and one from the back
may then find different ones.
-/

import Mathlib.Data.List.Nodup
import Offside.Run.Module

namespace Offside

/-- Where no two elements share a key, a search for a key finds the element that has it. -/
theorem find?_eq_some_iff_of_nodup {α β : Type} [DecidableEq β] {key : α → β} {list : List α}
    (hnodup : (list.map key).Nodup) (k : β) (a : α) :
    list.find? (fun b => key b = k) = some a ↔ a ∈ list ∧ key a = k := by
  constructor
  · intro hfound
    exact ⟨List.mem_of_find?_eq_some hfound, by simpa using List.find?_some hfound⟩
  · rintro ⟨ha, rfl⟩
    cases hfound : list.find? (fun b => key b = key a) with
    | none => exact absurd (decide_eq_true rfl) (List.find?_eq_none.mp hfound a ha)
    | some b =>
        have hkey : key b = key a := by simpa using List.find?_some hfound
        have hb := List.mem_of_find?_eq_some hfound
        rw [List.inj_on_of_nodup_map hnodup hb ha hkey]

/-- So it finds the same element from either end. -/
theorem find?_reverse_of_nodup {α β : Type} [DecidableEq β] {key : α → β} {list : List α}
    (hnodup : (list.map key).Nodup) (k : β) :
    list.reverse.find? (fun a => key a = k) = list.find? fun a => key a = k := by
  have hreverse : (list.reverse.map key).Nodup := by
    rw [List.map_reverse]
    exact List.nodup_reverse.mpr hnodup
  refine Option.ext fun a => ?_
  rw [find?_eq_some_iff_of_nodup hreverse, find?_eq_some_iff_of_nodup hnodup, List.mem_reverse]

/-- The last export of this name. -/
def Module.last? (module : Module) (name : List Char) : Option Builtin :=
  (module.exports.reverse.find? fun e => e.1 = name).map Prod.snd

theorem Module.last?_eq_get? {module : Module} (hnodup : (module.exports.map Prod.fst).Nodup)
    (name : List Char) : module.last? name = module.get? name := by
  rw [last?, get?, find?_reverse_of_nodup hnodup]

/-- A module has a last export of a name exactly if it has a first one. -/
theorem Module.last?_eq_none_iff {module : Module} {name : List Char} :
    module.last? name = none ↔ module.get? name = none := by
  simp [last?, get?]

namespace Registry

theorem nodup_register {registry : Registry} (hnodup : (registry.modules.map Module.name).Nodup)
    (module : Module) : ((registry.register module).modules.map Module.name).Nodup := by
  rw [register, List.map_append, List.nodup_append]
  refine ⟨?_, List.nodup_singleton _, ?_⟩
  · exact hnodup.sublist (List.filter_sublist.map Module.name)
  · intro name hname other hother
    obtain ⟨kept, hkept, rfl⟩ := List.mem_map.mp hname
    rw [List.map_singleton, List.mem_singleton] at hother
    rw [hother]
    simpa using (List.mem_filter.mp hkept).2

/-- Registering modules one after another keeps the names apart. -/
theorem nodup_foldl_register (modules : List Module) {registry : Registry}
    (hnodup : (registry.modules.map Module.name).Nodup) :
    ((modules.foldl register registry).modules.map Module.name).Nodup := by
  induction modules generalizing registry with
  | nil => exact hnodup
  | cons module modules ih => exact ih (nodup_register hnodup module)

/-- No two modules of a registry share a name. -/
theorem nodup_ofModules (modules : List Module) :
    ((ofModules modules).modules.map Module.name).Nodup :=
  nodup_foldl_register modules (by decide)

theorem mem_foldl_register {module : Module} {modules : List Module} {registry : Registry}
    (hmodule : module ∈ (modules.foldl register registry).modules) :
    module ∈ registry.modules ∨ module ∈ modules := by
  induction modules generalizing registry with
  | nil => exact .inl hmodule
  | cons first modules ih =>
      rcases ih hmodule with hregistered | hlater
      · rw [register, List.mem_append, List.mem_singleton] at hregistered
        rcases hregistered with hkept | rfl
        · exact .inl (List.mem_of_mem_filter hkept)
        · exact .inr List.mem_cons_self
      · exact .inr (List.mem_cons_of_mem _ hlater)

/-- A registry holds the standard module and registered ones only. -/
theorem mem_ofModules {modules : List Module} {module : Module}
    (hmodule : module ∈ (ofModules modules).modules) :
    module = Module.standard ∨ module ∈ modules :=
  (mem_foldl_register hmodule).imp_left List.mem_singleton.mp

end Registry

end Offside
