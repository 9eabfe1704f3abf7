import DidYouMean.Text

/-!
# Module specifiers

A specifier is what stands in quotes behind `from`. Its kind is read off its first characters; that
of a package, for instance, is whatever has no mark of another kind. A package specifier is a
package name and perhaps a path inside the package; a name in a scope has one slash of its own.
-/

namespace DidYouMean

/-- What a specifier names. -/
inductive SpecifierKind where
  | relative
  | builtin
  | protocol
  | subpath
  | package
  deriving DecidableEq, Repr

namespace SpecifierKind

/-- The word for a kind. -/
def label : SpecifierKind → Text
  | relative => "relative".toList
  | builtin => "builtin".toList
  | protocol => "protocol".toList
  | subpath => "subpath".toList
  | package => "package".toList

/-- Kinds of which every specifier is accepted unseen. -/
def isAlwaysValid : SpecifierKind → Bool
  | builtin | protocol | subpath => true
  | relative | package => false

end SpecifierKind

namespace Specifier

/-- The core modules of Node.js that may be imported without the `node:` scheme. -/
def coreModules : List Text :=
  ["assert".toList, "assert/strict".toList, "async_hooks".toList, "buffer".toList,
    "child_process".toList, "cluster".toList, "console".toList, "constants".toList,
    "crypto".toList, "dgram".toList, "diagnostics_channel".toList, "dns".toList,
    "dns/promises".toList, "domain".toList, "events".toList, "fs".toList, "fs/promises".toList,
    "http".toList, "http2".toList, "https".toList, "inspector".toList,
    "inspector/promises".toList, "module".toList, "net".toList, "os".toList, "path".toList,
    "path/posix".toList, "path/win32".toList, "perf_hooks".toList, "process".toList,
    "punycode".toList, "querystring".toList, "readline".toList, "readline/promises".toList,
    "repl".toList, "stream".toList, "stream/consumers".toList, "stream/promises".toList,
    "stream/web".toList, "string_decoder".toList, "sys".toList, "timers".toList,
    "timers/promises".toList, "tls".toList, "trace_events".toList, "tty".toList, "url".toList,
    "util".toList, "util/types".toList, "v8".toList, "vm".toList, "wasi".toList,
    "worker_threads".toList, "zlib".toList]

/-- Whether a specifier is a path: `.`, `..`, or one that begins with these or with the root. -/
def isRelative (s : Text) : Bool :=
  s == ['.'] || s == ['.', '.'] || ['.', '/'].isPrefixOf s || ['.', '.', '/'].isPrefixOf s
    || s.head? == some '/'

/-- A text cut at its first slash. -/
def cutSlash (s : Text) : Text × Option Text :=
  match s.dropWhile (· != '/') with
  | [] => (s, none)
  | _ :: rest => (s.takeWhile (· != '/'), some rest)

/-- A package specifier as the name of the package and the path inside it. -/
def split : Text → Text × Option Text
  | '@' :: tail =>
    match cutSlash tail with
    | (_, none) => ('@' :: tail, none)
    | (scope, some rest) =>
      let (name, path) := cutSlash rest
      ('@' :: scope ++ '/' :: name, path)
  | s => cutSlash s

/-- The package of a package specifier. -/
def packageName (s : Text) : Text := (split s).1

/-- Whether a specifier names a core module or a path inside one, with or without the scheme. -/
def isBuiltin (s : Text) : Bool :=
  let name := (Text.stripStart? "node:".toList s).getD s
  name != [] && (coreModules.contains name || coreModules.contains (packageName name))

/-- Whether a character may stand in a scheme. -/
def isSchemeChar (c : Char) : Bool :=
  c.isAlphanum || c == '+' || c == '-' || c == '.'

/-- Whether a specifier begins with a scheme and a colon. A single letter is a drive, no scheme. -/
def hasScheme (s : Text) : Bool :=
  let scheme := s.takeWhile (· != ':')
  s.any (· == ':') && scheme.length ≥ 2 && scheme.head?.any Char.isAlpha && scheme.all isSchemeChar

/-- The kind of a specifier; a blank one has none. -/
def classify (s : Text) : Option SpecifierKind :=
  if Text.trim s = [] then none
  else if isRelative s then some .relative
  else if isBuiltin s then some .builtin
  else if hasScheme s then some .protocol
  else if s.head? = some '#' then some .subpath
  else some .package

/-- The scope of packages that only declare types. -/
def typesScope : Text := "@types/".toList

/-- The package that a types package declares the types of. A scope is written before two
underscores there. -/
def typesTarget? (package : Text) : Option Text := do
  let rest ← Text.stripStart? typesScope package
  if rest = [] then none
  else match Text.cutAt? ['_', '_'] rest with
    | some (scope, name) =>
      if scope ≠ [] ∧ name ≠ [] then some ('@' :: scope ++ '/' :: name) else some rest
    | none => some rest

/-- The types package that declares the types of a package. -/
def typesPackage : Text → Text
  | '@' :: tail =>
    match cutSlash tail with
    | (scope, some name) => typesScope ++ scope ++ '_' :: '_' :: name
    | (_, none) => typesScope ++ '@' :: tail
  | package => typesScope ++ package

end Specifier

end DidYouMean
