import Rush.Foundation.Text

/-!
# Actor paths

`ActorPath` of `actor/src/path.rs`: a path is its list of segments.  Text is
split at `/`, and blank segments are dropped, both by `From` and by `Div`.
-/

namespace Rush
namespace Actor

open Foundation

/-- Actor path. This is a path to an actor in the actor system. -/
structure ActorPath where
  segments : List Str
deriving DecidableEq

namespace ActorPath

/-- The segments of a text: split at `/`, blank ones dropped. -/
def tokens (text : Str) : List Str :=
  (text.splitOn '/').filter fun segment => !isBlank segment

/-- `impl From<&str> for ActorPath`. -/
def ofText (text : Str) : ActorPath := ⟨tokens text⟩

/-- `impl Div<&str> for ActorPath`. -/
def div (path : ActorPath) (text : Str) : ActorPath :=
  ⟨path.segments ++ tokens text⟩

/-- `impl Display for ActorPath`, with its three cases on the level. -/
def display (path : ActorPath) : Str :=
  match path.segments with
  | [] => ['/']
  | [segment] => '/' :: segment
  | segments => '/' :: List.intercalate ['/'] segments

/-- Returns the root of the path. -/
def root (path : ActorPath) : ActorPath :=
  if path.segments.length = 1 then path
  else if path.segments ≠ [] then ⟨path.segments.take 1⟩
  else ⟨[]⟩

/-- Returns the parent of the path. -/
def parent (path : ActorPath) : ActorPath :=
  if 1 < path.segments.length then
    ⟨path.segments.take (path.segments.length - 1)⟩
  else ⟨[]⟩

/-- Returns the key of the path: its last segment. -/
def key (path : ActorPath) : Str := path.segments.getLast?.getD []

/-- Returns the levels size of the path. -/
def level (path : ActorPath) : Nat := path.segments.length

/-- Returns if the path is top level. -/
def isTopLevel (path : ActorPath) : Bool := path.segments.length == 1

/-- Returns the path at a specific level. -/
def atLevel (path : ActorPath) (level : Nat) : ActorPath :=
  if level < 1 ∨ path.level ≤ level then path
  else if path.isTopLevel then path.root
  else if level = path.level - 1 then path.parent
  else ⟨path.segments.take level⟩

/-- Returns if the path is an ancestor of another path, by text. -/
def isAncestorOf (path other : ActorPath) : Bool :=
  (path.display ++ ['/']).isPrefixOf other.display

/-- Returns if the path is a descendant of another path, by text. -/
def isDescendantOf (path other : ActorPath) : Bool :=
  (other.display ++ ['/']).isPrefixOf path.display

/-- Returns if the path is a parent of another path. -/
def isParentOf (path other : ActorPath) : Bool := path = other.parent

/-- Returns if the path is a child of another path. -/
def isChildOf (path other : ActorPath) : Bool := path.parent = other

end ActorPath

end Actor
end Rush
