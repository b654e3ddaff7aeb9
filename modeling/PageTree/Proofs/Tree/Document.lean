import PageTree.Proofs.Tree.Node

/-!
# Documents survive printing

A document that was read is read back from its pretty and from its compact text. What is written
of it is nested no deeper than the text that it was read from: a node takes two containers, and a
binding, the one thing that may be written with more containers than it was read from, always finds
room for one more below it, because the greatest depth is odd.

## Main results

* `Document.survives_of_read`: what was read is read back from what is written of it
* `Document.survives_json`: a document made of nodes whose fields are read back is read back itself
* `Document.reads_back`: a document is read back from either of its texts
-/

namespace PageTree

open Record

theorem Links.survives (links : Links) : Survives read json 2 links := by
  have htext (text : String) : Survives string .str 0 text := ⟨rfl, trivial, Nat.le_refl 0⟩
  refine Keeps.record (d := 1) ?_ (by decide) (fun _ => rfl) rfl
  exact .cons (Stores.list (fun text _ => htext text) _)
    (.cons (Stores.list (fun text _ => htext text) _) .done)

theorem Module.survives (m : Module) : Survives read json 1 m := by
  have htext (text : String) : Survives string .str 0 text := ⟨rfl, trivial, Nat.le_refl 0⟩
  refine Keeps.record (d := 0) ?_ (by decide) (fun _ => rfl) rfl
  exact .cons ((htext m.id).required _) (.cons ((htext m.source).required _) .done)

theorem Links.codec : Codec 2 read read json where
  survives {_ links _} _ _ hbound := links.survives.mono hbound
  solid _ _ := nofun

theorem Module.codec : Codec 0 read read json where
  survives {_ m _} h hd _ := by
    obtain ⟨_, hfields, -⟩ := Option.bind_eq_some_iff.1 h
    exact m.survives.mono (Nat.le_trans (depth_pos_of_fields? hfields) hd)
  solid _ _ := nofun

namespace Document

/-- **A document that was read is read back** from what is written of it, and that is nested no
deeper than a text may be. -/
theorem survives_of_read {literal : Literal} {document : Document}
    (h : read literal = some document) (hdepth : literal.depth ≤ maxDepth) :
    Survives read json maxDepth document := by
  obtain ⟨field, hfields, h⟩ := Option.bind_eq_some_iff.1 h
  obtain ⟨version, hversion, h⟩ := Option.bind_eq_some_iff.1 h
  obtain ⟨app, happ, h⟩ := Option.bind_eq_some_iff.1 h
  obtain ⟨links, hlinks, h⟩ := Option.bind_eq_some_iff.1 h
  obtain ⟨modules, hmodules, h⟩ := Option.bind_eq_some_iff.1 h
  obtain rfl := Option.some.inj h
  have hwithin : Within 126 field := within_of_fields? hfields hdepth
  have sapp : Survives (Node.read false) Node.json 126 app := by
    obtain ⟨l, hl, hread⟩ := Option.bind_eq_some_iff.1 happ
    have hdeep : l.depth ≤ 2 * 63 := hwithin _ l hl
    exact Node.survives_of_read hread hdeep
  refine Keeps.record (d := 126) ?_ (by decide) (fun _ => rfl) rfl
  exact .cons (Codec.string.required hversion (hwithin _) (Nat.zero_le _) _)
    (.cons (sapp.required _)
      (.cons (Links.codec.nullable hlinks (hwithin _) (by decide) _)
        (.cons (Module.codec.list (d := 125) hmodules (hwithin _) (Nat.zero_le _) _) .done)))

/-- **A document is read back** when the fields of its nodes are, however deep they are nested. -/
theorem survives_json {document : Document} {d : Nat}
    (h : ∀ n ∈ document.app.preorder, n.OwnFits false d) :
    Survives read json document.json.depth document := by
  obtain ⟨e, hpos, happ⟩ : ∃ e, 1 ≤ e ∧ document.app.json.depth ≤ e + 1 :=
    ⟨max 1 document.app.json.depth, by omega, by omega⟩
  have hversion : Survives string .str (e + 1) document.version := ⟨rfl, trivial, Nat.zero_le _⟩
  have hlinks (links : Links) (_ : document.links = some links) :
      Survives Links.read Links.json (e + 1) links ∧ links.json.literal ≠ .null :=
    ⟨links.survives.mono (by omega), nofun⟩
  have hmodules (m : Module) (_ : m ∈ document.modules) : Survives Module.read Module.json e m :=
    m.survives.mono hpos
  have hs : Survives read json (e + 2) document := by
    refine Keeps.record (d := e + 1) ?_ (by decide) (fun _ => rfl) rfl
    exact .cons (hversion.required _) (.cons (((Node.survives_json h).mono happ).required _)
      (.cons (Stores.nullable hlinks _) (.cons (Stores.list hmodules _) .done)))
  exact ⟨hs.back, hs.keyed, Nat.le_refl _⟩

theorem read?_of_survives {document : Document} (h : Survives read json maxDepth document)
    (hsteady : document.json.Steady) :
    read? document.pretty = some document ∧ read? document.compact = some document := by
  have hreread := Json.reread_eq_literal hsteady h.depth
  refine ⟨?_, ?_⟩
  · rw [read?, pretty, Literal.read?_pretty, hreread, Option.bind_some, h.back]
  · rw [read?, compact, Literal.read?_compact, hreread, Option.bind_some, h.back]

/-- **A document is read back from its pretty and from its compact text**, whatever text it was
read from: the same document, with the members of its free values in their order, so that it is
printed as before. -/
theorem reads_back {text : String} {document : Document} (h : read? text = some document)
    (hsteady : document.json.Steady) :
    (read? document.pretty = some document ∧ read? document.compact = some document) ∧
      (read? document.pretty).map pretty = some document.pretty ∧
      (read? document.compact).map compact = some document.compact := by
  obtain ⟨literal, hliteral, hread⟩ := Option.bind_eq_some_iff.1 h
  have hsurvives := survives_of_read hread (JsonReader.depth_of_readText hliteral)
  obtain ⟨hpretty, hcompact⟩ := read?_of_survives hsurvives hsteady
  exact ⟨⟨hpretty, hcompact⟩, by rw [hpretty, Option.map_some], by rw [hcompact, Option.map_some]⟩

/-- A document as it may be spelled by hand: records as arrays, a word as an object, padding edge by
edge, an option that is `null`, a repeated key, a binding without effects, an unknown kind. -/
def handwritten : Json :=
  .arr [.str "1.0", .obj [
    ("type", .str "Carousel"), ("id", .str "a"),
    ("style", .obj [("radius", .obj [("md", .null)]), ("width", .null),
      ("space", .obj [("x", .str "lg")]), ("opacity", .num (.int 1))]),
    ("props", .obj [("b", .num (.int 1)), ("a", .arr [.obj []]), ("b", .num (.int (-2)))]),
    ("events", .arr [.obj []]), ("motion", .arr [.str "preset", .str "spin"])]]

/-- The document that it stands for. -/
def carousel : Document where
  version := "1.0"
  app := {
    id := "a"
    kind := ⟨"Carousel"⟩
    props := [("b", .num (.int (-2))), ("a", .arr [.obj []])]
    style := {
      space := some (.byEdge { x := some .lg })
      radius := some .md
      opacity := some (Number.int 1).toBinary64 }
    events := [{}]
    motion := some (.ofPreset .spin) }

theorem read?_handwritten : read? handwritten.compact = some carousel := by
  have hliteral := Json.reread_eq_literal (by decide +kernel : handwritten.Steady)
    (by decide +kernel : handwritten.depth ≤ maxDepth)
  rw [read?, Literal.read?_compact, hliteral]
  rfl

theorem reads_back_handwritten :
    read? handwritten.compact = some carousel ∧ carousel.json.Steady ∧
      read? carousel.pretty = some carousel ∧ read? carousel.compact = some carousel := by
  have hsteady : carousel.json.Steady := by decide +kernel
  exact ⟨read?_handwritten, hsteady, (reads_back read?_handwritten hsteady).1⟩

end Document

end PageTree
