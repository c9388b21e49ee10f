/-
# Modules that running code can load

A module is a named list of exports, and each export is one of six built-in
functions. The registry holds the modules in the order of their last
registration: registering a name anew removes the module that had it. It begins
with the one module `standard`.
-/

namespace Offside

/-- The functions that a module can export. -/
inductive Builtin
  /-- Conversion to a number. -/
  | float
  /-- Conversion to a number. -/
  | number
  /-- Conversion to a number, rounded down. -/
  | int
  /-- Conversion to a string. -/
  | string
  /-- The name of a value's type. -/
  | type
  /-- Printing to the log. -/
  | print
  deriving DecidableEq, Repr

/-- The function in target syntax. -/
def Builtin.source : Builtin → List Char
  | float | number => "(v) => +v".toList
  | int => "(v) => Math.floor(+v)".toList
  | string => "(v) => v + \"\"".toList
  | type => "(v) => typeof v".toList
  | print => "__unv_print".toList

/-- A named table of exports. -/
structure Module where
  /-- The name that code asks for. -/
  name : List Char
  /-- The exports in order; a name may come more than once. -/
  exports : List (List Char × Builtin)
  deriving DecidableEq, Repr

/-- The first export of this name. -/
def Module.get? (module : Module) (name : List Char) : Option Builtin :=
  (module.exports.find? fun e => e.1 = name).map Prod.snd

/-- The module that every registry begins with. -/
def Module.standard : Module :=
  ⟨"standard".toList,
    [("float".toList, .float), ("number".toList, .number), ("int".toList, .int),
      ("string".toList, .string), ("type".toList, .type), ("print".toList, .print)]⟩

/-- The registered modules, in the order of their last registration. -/
structure Registry where
  /-- The modules. -/
  modules : List Module := [Module.standard]
  deriving DecidableEq, Repr

namespace Registry

/-- Register a module; one of the same name makes way. -/
def register (registry : Registry) (module : Module) : Registry :=
  ⟨registry.modules.filter (·.name ≠ module.name) ++ [module]⟩

/-- Register modules one after another on top of the standard one. -/
def ofModules (modules : List Module) : Registry := modules.foldl register {}

/-- The module of this name. -/
def resolve? (registry : Registry) (name : List Char) : Option Module :=
  registry.modules.find? (·.name = name)

end Registry

end Offside
