/-
# Sample programs

Four whole programs for demonstrations and checks, each of which exercises a known
set of features.
-/

namespace Offside

/-- A named program. -/
structure Sample where
  /-- The name under which it is found. -/
  name : String
  /-- The lines of the program, each ended by a line feed. -/
  lines : List String

namespace Sample

/-- The text of the program. -/
def source (sample : Sample) : List Char :=
  sample.lines.flatMap fun line => line.toList ++ ['\n']

/-- The starter document: an import, a string condition and a comment. -/
def hello : Sample :=
  ⟨"hello",
    ["import print from 'standard'",
    "",
    "if 'Unv is awesome!'",
    "    print('Hello World!')",
    "# keep editing for live results"]⟩

/-- A block comment, a function, a `local` with several targets, and nested blocks. -/
def nested : Sample :=
  ⟨"nested",
    ["import print, int from 'standard'",
    "",
    "### integer division",
    "with remainder ###",
    "function divmod(a, b)",
    "    return [int(a / b), a % b]",
    "",
    "local q, r = divmod(17, 5)",
    "print(q, r)",
    "",
    "total = 0",
    "for let i = 0; i < 3; i++",
    "    if i % 2 == 0",
    "        total = total + i",
    "    else",
    "        print('odd', i)",
    "print(total)"]⟩

/-- A bare `try` and `finally`, and a `catch` with a binding. -/
def guarded : Sample :=
  ⟨"try",
    ["import print from 'standard'",
    "",
    "try",
    "    throw new Error('nope')",
    "catch error",
    "    print(error.message)",
    "finally",
    "    print('done')"]⟩

/-- Prints, then fails on a name that is not defined. -/
def errors : Sample :=
  ⟨"errors",
    ["import print from 'standard'",
    "",
    "print('before')",
    "missing()",
    "print('after')"]⟩

/-- All the samples, in order. -/
def all : List Sample := [hello, nested, guarded, errors]

/-- The sample of this name. -/
def find? (name : String) : Option Sample := all.find? (·.name = name)

end Sample

end Offside
