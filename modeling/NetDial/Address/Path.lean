import NetDial.Text.Basic

/-!
# Socket paths

Local sockets are named by a path. Two paths are the same when their components
are: repeated and trailing slashes and inner `.` components do not count, a
leading `.` does, and `..` is not resolved.
-/
namespace NetDial.SocketPath

/-- The components of a path. The root is `/`, a leading dot `.`; no other
component has either form. -/
def components (path : Text) : List Text :=
  let parts := Text.split '/' path
  let names := parts.filter fun t => t != [] && t != ['.']
  match path, parts with
  | '/' :: _, _ => ['/'] :: names
  | _, ['.'] :: _ => ['.'] :: names
  | _, _ => names

/-- Two paths with the same components. -/
def same (p q : Text) : Bool :=
  components p == components q

end NetDial.SocketPath
