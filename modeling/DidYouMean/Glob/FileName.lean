import DidYouMean.Glob

/-!
# Globs that go by the file name

Some globs ask for the file name of a path before all else: those of one name below any
directories, and those that end in an extension. A path that ends in `..` has no file name and is
matched by none of them. Text that is compared with a whole path, or with all its end behind one
wildcard, does not go by the name.
-/

namespace DidYouMean

namespace Glob

/-- The dot as a byte. -/
def dot : UInt8 := 46

/-- Whether parts are plain text, and which bytes it must not have. -/
def isPlain (without : List UInt8) (ps : List Part) : Bool :=
  ps.all fun
    | .byte b => !without.contains b
    | _ => false

/-- Whether parts are a dot and plain text without another dot and without a separator. -/
def isExtension : List Part → Bool
  | .byte b :: ps => b == dot && isPlain [dot, separator] ps
  | _ => false

/-- Whether parts end in an extension. -/
def endsInExtension : List Part → Bool
  | [] => false
  | p :: ps => isExtension (p :: ps) || endsInExtension ps

/-- Whether a glob goes by the file name. -/
def goesByFileName (g : Glob) : Bool :=
  match g.parts with
  | .leading :: ps => ofRest true ps
  | ps => ofRest false ps
where
  /-- The same for the parts behind a leading `**`, if there is one. -/
  ofRest (anyDirectory : Bool) (ps : List Part) : Bool :=
    match ps with
    | .anyRun :: rest =>
      if !g.stopsAtSeparator && isPlain [] rest then isExtension rest else endsInExtension ps
    | ps =>
      if isPlain [] ps then anyDirectory && !ps.isEmpty && isPlain [separator] ps
      else endsInExtension ps

end Glob

end DidYouMean
