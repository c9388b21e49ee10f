/-
# Stand-ins for the stages of a session

Two stages with a fixed script take the place of the real ones where a session is
to be observed: a compiler that rejects code by a word in it, and an executor that
logs what it was given.
-/

import Offside.Session

namespace Offside

/-- The text holds `part` somewhere. -/
def holds (part : List Char) : List Char → Bool
  | [] => part.isEmpty
  | c :: rest => part.isPrefixOf (c :: rest) || holds part rest

/-- Rejects code with the word `reject` in it, and marks any other with a comment. -/
def Compiler.picky : Compiler where
  compile options code :=
    if holds "reject".toList code then .error (.unexpected 7 '!')
    else .ok ⟨"/* picky */\n".toList ++ code, options.extensions⟩

namespace Executor

/-- The entry that names the registered modules, each with its number of exports. -/
def modulesEntry (registry : Registry) : List Char :=
  "modules=".toList ++ List.intercalate [','] (registry.modules.map fun module =>
    module.name ++ ':' :: (toString module.exports.length).toList)

/-- Logs the helper, the modules and the lines of the code that are not blank. It
fails as `failure` says where the code holds the given text. -/
def scripted (failure : Option (List Char × RunError)) : Executor where
  run unit context :=
    let lines := ((Text.lines unit.code).map Text.trim).filter (!·.isEmpty)
    let error := match failure with
      | some (trigger, error) => if holds trigger unit.code then some error else none
      | none => none
    ⟨("helper=".toList ++ context.helper) :: modulesEntry context.registry :: lines, error⟩

end Executor

end Offside
