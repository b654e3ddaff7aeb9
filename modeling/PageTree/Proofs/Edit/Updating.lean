import PageTree.Proofs.Edit.Deleting
import PageTree.Proofs.Edit.FirstMatch
import PageTree.Proofs.Style.Overlay

/-!
# Edits in place

Six kinds of edits change a node where it stands, each one part of it. They are updates of the first
match, so they leave the places of all nodes and their ids as they are. Two of them see each other
only when they address the same id and change the same part. Of these, two merges of properties or
of styles are one merge of what they merge.

## Main definitions

* `Node.Part`, `Node.without`: the parts of a node that are changed in place
* `Edit.part?`, `Edit.change`: the part that an edit changes, and what becomes of the node

## Main results

* `Edit.applyTo_of_part?`: an edit in place is an update of the first match
* `Edit.applyTo_comm`: independent edits in place commute
* `Document.updates_in_place`: what an edit in place changes, and which others it does not mind
* `Document.merges_fuse`: two merges are one
-/

namespace PageTree

theorem map_changeFirst {α β : Type} {test : α → Bool} {change : α → α} {view : α → β}
    (h : ∀ a, view (change a) = view a) (list : List α) :
    (changeFirst test change list).map view = list.map view := by
  induction list with
  | nil => rfl
  | cons a list ih =>
    cases ha : test a with
    | true => rw [changeFirst_cons_of_pos ha, List.map_cons, List.map_cons, h]
    | false => rw [changeFirst_cons_of_neg ha, List.map_cons, List.map_cons, ih]

/-! ## Parts of a node -/

/-- The parts of a node that are changed in place. -/
inductive Node.Part where
  | props | style | events | motion | text
  deriving DecidableEq, Repr

/-- What a node has beside a part: the node with the part left empty. -/
def Node.without (part : Part) (node : Node) : Node :=
  match part with
  | .props => { node with props := [] }
  | .style => { node with style := {} }
  | .events => { node with events := [] }
  | .motion => { node with motion := none }
  | .text => { node with text := none }

namespace Edit

/-- The part of a node that an edit changes in place. -/
def part? : Edit → Option Node.Part
  | .updateProps .. => some .props
  | .updateStyle .. => some .style
  | .updateText .. => some .text
  | .addEvent .. | .removeEvent .. => some .events
  | .updateAnimation .. => some .motion
  | .replace .. | .delete _ | .insert .. => none

/-- What an edit in place makes of the node that it finds. -/
def change (edit : Edit) (node : Node) : Node :=
  match edit with
  | .updateProps _ props => { node with props := OrderedMap.overlay node.props props }
  | .updateStyle _ style => { node with style := node.style.overlay style }
  | .updateText _ text => { node with text := some text }
  | .addEvent _ binding => node.withBinding binding
  | .removeEvent _ index => { node with events := node.events.eraseIdx index }
  | .updateAnimation _ motion => { node with motion := some motion }
  | .replace .. | .delete _ | .insert .. => node

variable {edit other : Edit} {part otherPart : Node.Part}

theorem isInPlace_change (edit : Edit) : Node.IsInPlace edit.change := by
  cases edit with
  | _ => exact ⟨fun _ => rfl, fun _ _ => rfl⟩

/-- **An edit in place is an update** of the first match. -/
theorem applyTo_of_part? (h : edit.part? = some part) (root : Node) :
    edit.applyTo root = root.updateFirst edit.target edit.change := by
  cases edit with
  | replace | delete | insert => cases h
  | _ => rfl

/-- An edit in place changes its own part of a node and nothing else. -/
theorem without_change (h : edit.part? = some part) (node : Node) :
    (edit.change node).without part = node.without part := by
  cases edit with
  | replace | delete | insert => cases h
  | _ =>
    obtain rfl := Option.some.inj h
    rfl

/-- Changes of different parts of a node commute. -/
theorem change_comm (h : edit.part? = some part) (hother : other.part? = some otherPart)
    (hne : part ≠ otherPart) (node : Node) :
    edit.change (other.change node) = other.change (edit.change node) := by
  -- for each two kinds the parts are equal or the changes set different fields
  cases edit <;> cases other <;>
    first
    | rfl
    | exact absurd (Option.some.inj (h.symm.trans hother)) hne

/-- **Edits in place commute** when they address different ids or change different parts. -/
theorem applyTo_comm (h : edit.part? = some part) (hother : other.part? = some otherPart)
    (hapart : edit.target ≠ other.target ∨ part ≠ otherPart) (root : Node) :
    other.applyTo (edit.applyTo root) = edit.applyTo (other.applyTo root) := by
  rw [applyTo_of_part? h, applyTo_of_part? hother, applyTo_of_part? hother, applyTo_of_part? h]
  by_cases htarget : edit.target = other.target
  · have hne : part ≠ otherPart := hapart.resolve_left (not_not_intro htarget)
    rw [htarget, Node.updateFirst_updateFirst edit.isInPlace_change other.isInPlace_change,
      Node.updateFirst_updateFirst other.isInPlace_change edit.isInPlace_change]
    exact congrArg (root.updateFirst other.target)
      (funext fun node => (change_comm h hother hne node).symm)
  · exact Node.updateFirst_comm other.isInPlace_change edit.isInPlace_change
      (Ne.symm htarget) root

end Edit

namespace Document

/-- **Edits in place** touch one part of the first match and commute when they are independent,
whatever ids a document has. Of the nodes in pre-order the first one with the id is changed, if
there is one; how deep each node stands stays as it is, and so do all ids. The node that is changed
is the one that is found by its id, and only the part of the edit changes in it. Another edit in
place that addresses another id or changes another part may come first as well, with the same
result. -/
theorem updates_in_place (document : Document) {edit : Edit} {part : Node.Part}
    (h : edit.part? = some part) :
    ∃ app, document.apply [edit] = { document with app } ∧
      app.contents 0 = changeFirst (Node.entryNamed edit.target) (Node.changeEntry edit.change)
        (document.app.contents 0) ∧
      (app.contents 0).map (fun entry => (entry.1, entry.2.id)) =
        (document.app.contents 0).map (fun entry => (entry.1, entry.2.id)) ∧
      app.find? edit.target = (document.find? edit.target).map edit.change ∧
      (∀ node, (edit.change node).without part = node.without part) ∧
      ∀ (other : Edit) (otherPart : Node.Part), other.part? = some otherPart →
        edit.target ≠ other.target ∨ part ≠ otherPart →
          document.apply [edit, other] = document.apply [other, edit] := by
  have hplace := edit.isInPlace_change
  have hcontents := Node.contents_updateFirst hplace edit.target document.app 0
  refine ⟨_, congrArg (fun app => { document with app }) (Edit.applyTo_of_part? h document.app),
    hcontents, ?_, Node.find?_updateFirst hplace _ _, Edit.without_change h,
    fun other otherPart hother hapart =>
      congrArg (fun app => { document with app })
        (Edit.applyTo_comm h hother hapart document.app)⟩
  rw [hcontents]
  exact map_changeFirst (fun entry => congrArg (Prod.mk entry.1) (hplace.id entry.2)) _

theorem updates_in_place_thicket :
    let words := Edit.updateText "note" "Look out!"
    let spin := Edit.updateAnimation "note" (.ofPreset .spin)
    (words.part? = some .text ∧ spin.part? = some .motion) ∧
      (thicket.apply [words]).find? "note" = (thicket.find? "note").map words.change ∧
      thicket.apply [words, spin] = thicket.apply [spin, words] ∧
      (thicket.apply [words, spin]).app.preorder.map (·.text) =
        [none, none, some "Look out!", none, none, none, none, none] := by
  intro words spin
  have hwords : words.part? = some .text := rfl
  have hspin : spin.part? = some .motion := rfl
  obtain ⟨app, happ, -, -, hfind, -, hcomm⟩ := updates_in_place thicket hwords
  refine ⟨⟨hwords, hspin⟩, ?_, hcomm spin .motion hspin (.inr (by decide)), by decide +kernel⟩
  rw [happ]
  exact hfind

/-! ## Merges -/

/-- Two edits of one part of the first match are the edit that changes it as both do. -/
theorem apply_fused (document : Document) {first second both : Edit} {part : Node.Part}
    (hfirst : first.part? = some part) (hsecond : second.part? = some part)
    (hboth : both.part? = some part) (htargets : first.target = both.target ∧
      second.target = both.target)
    (hchange : ∀ node, second.change (first.change node) = both.change node) :
    document.apply [first, second] = document.apply [both] := by
  refine congrArg (fun app => { document with app }) ?_
  change second.applyTo (first.applyTo document.app) = both.applyTo document.app
  rw [Edit.applyTo_of_part? hfirst, Edit.applyTo_of_part? hsecond, Edit.applyTo_of_part? hboth,
    htargets.1, htargets.2,
    Node.updateFirst_updateFirst first.isInPlace_change second.isInPlace_change]
  exact congrArg (document.app.updateFirst both.target) (funext hchange)

/-- **Two merges are one.** Laying styles over each other is associative, the empty style makes no
difference on either side, and neither does a style over itself; an overlay is the style in which
each member is that of the patch if the patch has one under the name, and that of the base
otherwise. So in every document, whether or not the id is there and however often, two updates of
the style under an id are one update with the overlay of their styles, and two updates of the
properties are one update with the overlay of their maps, the order of the properties included. -/
theorem merges_fuse (document : Document) (id : String) (base patch other : Style) :
    ((base.overlay patch).overlay other = base.overlay (patch.overlay other) ∧
      base.overlay {} = base ∧ Style.overlay {} base = base ∧ base.overlay base = base ∧
      ∀ merged : Style, merged = base.overlay patch ↔
        ∀ name, merged.json.member? name =
          (patch.json.member? name).or (base.json.member? name)) ∧
    document.apply [.updateStyle id patch, .updateStyle id other] =
      document.apply [.updateStyle id (patch.overlay other)] ∧
    ∀ props others : OrderedMap Json, (OrderedMap.names props).Nodup →
      document.apply [.updateProps id props, .updateProps id others] =
        document.apply [.updateProps id (OrderedMap.overlay props others)] := by
  refine ⟨⟨Style.overlay_assoc .., base.overlay_empty, base.empty_overlay, base.overlay_self,
    fun _ => Style.eq_overlay_iff⟩, ?_, fun props others hprops => ?_⟩
  · refine document.apply_fused rfl rfl rfl ⟨rfl, rfl⟩ fun node => ?_
    simp only [Edit.change, Style.overlay_assoc]
  · refine document.apply_fused rfl rfl rfl ⟨rfl, rfl⟩ fun node => ?_
    simp only [Edit.change, OrderedMap.overlay_overlay _ _ hprops]

theorem merges_fuse_thicket :
    let props : OrderedMap Json := [("size", .str "sm"), ("wide", .bool true)]
    let others : OrderedMap Json := [("title", .str "Note"), ("size", .str "lg")]
    (OrderedMap.names props).Nodup ∧
      thicket.apply [.updateProps "note" props, .updateProps "note" others] =
        thicket.apply [.updateProps "note" (OrderedMap.overlay props others)] ∧
      ((thicket.apply [.updateProps "note" props, .updateProps "note" others]).find? "note").map
        (fun node => OrderedMap.names node.props) = some ["size", "wide", "title"] := by
  intro props others
  have hprops : (OrderedMap.names props).Nodup := by decide
  exact ⟨hprops, (merges_fuse thicket "note" {} {} {}).2.2 props others hprops, by decide +kernel⟩

end Document

end PageTree
