import DataBinding.Json.Basic

/-!
# References

A reference is a string that names a place: `~` and `~.rest` in the local tree, `~~` and `~~.rest` in
the global tree, `~>key` and `~~>key` at the nearest or outermost segment `key` of the current
path, each with an optional `.rest` below it. All other strings are literals.

Resolving turns a reference into an absolute path. It needs the paths of the two scopes and the
current path, never the trees. Only an ancestor search can fail.

* `Reference.parse?`: reads a string; the forms are disjoint.
* `Reference.text`: writes it again.
* `Reference.resolve`: the absolute path of a reference.
* `Reference.resolveText`: the same for a string, literals standing for themselves.
-/

namespace DataBinding

/-! ## Forms -/

/-- Which occurrence of a key on the current path an ancestor reference means. -/
inductive AncestorSearch where
  /-- The one closest to the leaf. -/
  | nearest
  /-- The one closest to the root. -/
  | outermost
  deriving DecidableEq

inductive Reference where
  | localRoot
  | globalRoot
  /-- A dotted path, possibly empty, in the local tree. -/
  | localPath (rest : String)
  /-- A dotted path, possibly empty, in the global tree. -/
  | globalPath (rest : String)
  | ancestor (search : AncestorSearch) (key : String) (rest : Option String)
  deriving DecidableEq

namespace Reference

/-- An ancestor reference from what follows its sign: the key ends at the first dot. -/
def ancestorOf (search : AncestorSearch) (tail : List Char) : Reference :=
  let key := String.ofList (tail.takeWhile (· ≠ '.'))
  match tail.dropWhile (· ≠ '.') with
  | [] => .ancestor search key none
  | _ :: rest => .ancestor search key (some (String.ofList rest))

def ofChars? : List Char → Option Reference
  | ['~'] => some .localRoot
  | ['~', '~'] => some .globalRoot
  | '~' :: '~' :: '.' :: rest => some (.globalPath (String.ofList rest))
  | '~' :: '.' :: rest => some (.localPath (String.ofList rest))
  | '~' :: '~' :: '>' :: tail => some (ancestorOf .outermost tail)
  | '~' :: '>' :: tail => some (ancestorOf .nearest tail)
  | _ => none

/-- The reference that a string is, if it is not a literal. -/
def parse? (text : String) : Option Reference := ofChars? text.toList

def sign : AncestorSearch → String
  | .nearest => "~>"
  | .outermost => "~~>"

def text : Reference → String
  | .localRoot => "~"
  | .globalRoot => "~~"
  | .localPath rest => "~." ++ rest
  | .globalPath rest => "~~." ++ rest
  | .ancestor search key none => sign search ++ key
  | .ancestor search key (some rest) => sign search ++ key ++ "." ++ rest

/-- Whether the place is looked up in the global tree. -/
def startsFromGlobal : Reference → Bool
  | .localRoot | .localPath _ => false
  | _ => true

/-- Only strings can be references. -/
def ofJson? : Json → Option Reference
  | .string value => parse? value
  | _ => none

end Reference

/-! ## Resolving -/

inductive ReferenceError where
  /-- An ancestor search for a key that is no segment of the path. -/
  | ancestorNotFound (key path : String)
  deriving DecidableEq

def ReferenceError.message : ReferenceError → String
  | .ancestorNotFound key path =>
    key ++ " not found in the current template path: " ++ path

namespace Reference

/-- The byte at which the segment that an ancestor search means ends. The segments from byte `start` on
are given; in front of them the key was `found` to end at a byte, or not at all. -/
def scanBytes (search : AncestorSearch) (key : String) (found : Option String.Pos.Raw)
    (start : Nat) : List String → Option String.Pos.Raw
  | [] => found
  | segment :: segments =>
    let stop := start + segment.utf8ByteSize
    if segment = key then
      if search = .outermost then some ⟨stop⟩
      else scanBytes search key (some ⟨stop⟩) (stop + 1) segments
    else scanBytes search key found (stop + 1) segments

/-- The byte of `path` at which the segment `key` ends. -/
def anchorByte? (search : AncestorSearch) (key path : String) : Option String.Pos.Raw :=
  scanBytes search key none 0 (Dotted.split path)

/-- The part of `path` up to the end of the segment `key`. -/
def ancestorAnchor (search : AncestorSearch) (key path : String) : Except ReferenceError String :=
  match anchorByte? search key path with
  | some stop => .ok (String.Pos.Raw.extract path 0 stop)
  | none => .error (.ancestorNotFound key path)

/-- The absolute path of a reference. Ancestors are searched on `current`. -/
def resolve (current localPath globalPath : String) : Reference → Except ReferenceError String
  | .localRoot => .ok localPath
  | .globalRoot => .ok globalPath
  | .localPath rest => .ok (localPath ++ "." ++ rest)
  | .globalPath rest => .ok (globalPath ++ "." ++ rest)
  | .ancestor search key none => ancestorAnchor search key current
  | .ancestor search key (some rest) =>
    (ancestorAnchor search key current).map (· ++ "." ++ rest)

/-- The absolute path of a string: a literal is taken for a path as it stands. -/
def resolveText (current localPath globalPath text : String) : Except ReferenceError String :=
  match parse? text with
  | some reference => reference.resolve current localPath globalPath
  | none => .ok text

end Reference

end DataBinding
