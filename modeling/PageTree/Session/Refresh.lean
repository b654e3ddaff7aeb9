import PageTree.Json.Coercion
import PageTree.Markup.Control
import PageTree.Session.Moving

/-!
# Writing the state

After every write, also one that could not be done, the elements in the document are refreshed in
order: those that show a value of the state, and those that a value shows or hides. Then motion on
state plays where its key has become true since the last refresh. A page is mounted once: its
motion on mount plays, and what moves when it comes into view is awaited.

## Main definitions

* `Session.refresh`, `Session.write`, `Session.mount`
-/

namespace PageTree

namespace Session

/-- Puts the value under the key that an element shows into it. -/
def refreshValue (s : Session) (i : Nat) : Session :=
  match (s.forest.attribute? i bindAttribute).bind s.get? with
  | none => s
  | some value =>
    s.mapForest fun f =>
      if f.isControl i then f.setValue i value.shown else f.setText i value.shown

/-- Shows or hides an element by the value under its key. -/
def refreshDisplay (s : Session) (i : Nat) : Session :=
  match s.forest.attribute? i showAttribute with
  | none => s
  | some key =>
    s.mapForest fun f =>
      f.setStyleProperty i "display" (if Json.truthy (s.get? key) then "" else "none")

/-- Plays motion on state where its key has become true, and rearms it where the key is not. -/
def refreshMotion (s : Session) (i : Nat) : Session :=
  match s.motion? i with
  | none => s
  | some motion =>
    if motion.trigger = .onState then
      if Json.truthy (motion.timing.stateKey.bind s.get?) then
        if s.spent.contains i then s else Session.move { s with spent := i :: s.spent } i motion
      else { s with spent := s.spent.filter (· != i) }
    else s

/-- Brings the elements in line with the state. -/
def refresh (s : Session) : Session :=
  let order := s.forest.preorder
  let s := order.foldl (fun s i => (s.refreshValue i).refreshDisplay i) s
  order.foldl refreshMotion s

/-- Writes a value into the state. -/
def write (key : String) (value : Json) (s : Session) : Session :=
  Session.refresh { s with state := (s.state.withValueAt? key value).getD s.state }

/-- Starts the motion of an element at mounting. -/
def mountMotion (s : Session) (i : Nat) : Session :=
  match s.motion? i with
  | none => s
  | some motion =>
    match motion.trigger with
    | .onMount => s.move i motion
    | .onVisible => { s with awaited := s.awaited ++ [i] }
    | _ => s

/-- Mounts the page, the first time. -/
def mount (s : Session) : Session :=
  if s.mounted then s
  else (s.forest.preorder.foldl mountMotion { s with mounted := true }).refresh

end Session

end PageTree
