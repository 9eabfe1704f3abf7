import DidYouMean.Path

/-!
# Admissible candidates

What may be suggested where. No candidate is empty or the query itself; private names are not
suggested outside, nor tests and hidden files as modules.
-/

namespace DidYouMean

namespace Admissible

/-- Members: not internal. -/
def asMember (query name : Text) : Bool :=
  name != [] && name != query && !(['_', '_'].isPrefixOf name)

/-- Names in scope: as members. -/
def asName (query name : Text) : Bool := asMember query name

/-- Imports: not private. -/
def asImport (query name : Text) : Bool := name != [] && name != query && name.head? != some '_'

/-- Exports: not private, and not the default. -/
def asExport (query name : Text) : Bool := asImport query name && name != "default".toList

/-- Packages. -/
def asPackage (query name : Text) : Bool := name != [] && name != query

/-- Local files: neither hidden nor tests. -/
def asLocalFile (path : Text) : Bool :=
  let name := Path.fileName path
  name.head? != some '.' && !Path.isTestFile name

end Admissible

end DidYouMean
