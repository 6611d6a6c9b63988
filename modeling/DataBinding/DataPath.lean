import DataBinding.Json.Basic
import DataBinding.Text

/-!
# Data paths

A path is a list of segments. What a segment addresses is decided by the value it is applied to: a
member of an object, or the element of an array whose index it denotes.

* `Json.get?`: the value at a path; a path in two parts is read in two steps (`get?_append`).
-/

namespace DataBinding

/-- A path relative to the root of a tree. -/
structure DataPath where
  segments : List String
  deriving DecidableEq

namespace DataPath

def root : DataPath := ⟨[]⟩

def push (p : DataPath) (segment : String) : DataPath := ⟨p.segments ++ [segment]⟩

/-- A dotted path. The empty text is the path of a single empty segment, not the root. -/
def ofText (text : String) : DataPath := ⟨Dotted.split text⟩

def text (p : DataPath) : String := Dotted.join p.segments

def isRoot (p : DataPath) : Bool := p.segments.isEmpty

/-- Whether `q` is `p` or lies below it. -/
def covers (p q : DataPath) : Bool := p.segments.isPrefixOf q.segments

/-- The rest of `q` below `p`, if `p` covers `q`. -/
def below? (q p : DataPath) : Option DataPath :=
  (p.segments.isPrefixOf? q.segments).map DataPath.mk

theorem text_ofText (text : String) : (ofText text).text = text :=
  Dotted.join_split text

theorem ofText_ne_root (text : String) : ofText text ≠ root := fun h =>
  Dotted.split_ne_nil text (congrArg segments h)

end DataPath

namespace Json

/-- The member or element that a segment addresses. -/
def child? : Json → String → Option Json
  | .object members, segment => members.lookup segment
  | .array items, segment => (Text.arrayIndex? segment).bind (items[·]?)
  | _, _ => none

def get? (value : Json) : List String → Option Json
  | [] => some value
  | segment :: segments => (value.child? segment).bind (get? · segments)

theorem get?_append (value : Json) (front back : List String) :
    value.get? (front ++ back) = (value.get? front).bind (get? · back) := by
  induction front generalizing value with
  | nil => rfl
  | cons segment rest ih =>
    rw [List.cons_append, get?, get?, Option.bind_assoc]
    exact congrArg _ (funext ih)

def at? (value : Json) (path : DataPath) : Option Json := value.get? path.segments

end Json

end DataBinding
