import PageTree.Tree.Document

/-!
# Style sheets of a page

The style sheet blocks that a page carries itself: one rule for each preset that can play on it,
and the look of toasts.

## Main definitions

* `Preset.sheet`: keyframes of a preset and the classes that play them
* `Node.presets`: the presets that can play, by first use
* `toastSheet`
-/

namespace PageTree

/-- A block of declarations in a style sheet. -/
def sheetBlock (head declarations : String) : String :=
  head ++ "\x7b" ++ declarations ++ "\x7d"

/-- The class of an element on which an effect plays an animation of this name. -/
def animateClass (name : String) : String := "ir-animate-" ++ name

namespace Preset

/-- The keyframes of a preset: what they are for and what they declare. -/
def frames : Preset → List (String × String)
  | .fadeIn => [("from", "opacity:0"), ("to", "opacity:1")]
  | .fadeOut => [("from", "opacity:1"), ("to", "opacity:0")]
  | .slideUp =>
    [("from", "transform:translateY(20px);opacity:0"),
      ("to", "transform:translateY(0);opacity:1")]
  | .slideDown =>
    [("from", "transform:translateY(-20px);opacity:0"),
      ("to", "transform:translateY(0);opacity:1")]
  | .slideLeft =>
    [("from", "transform:translateX(20px);opacity:0"),
      ("to", "transform:translateX(0);opacity:1")]
  | .slideRight =>
    [("from", "transform:translateX(-20px);opacity:0"),
      ("to", "transform:translateX(0);opacity:1")]
  | .scaleIn => [("from", "transform:scale(0.9);opacity:0"), ("to", "transform:scale(1);opacity:1")]
  | .scaleOut =>
    [("from", "transform:scale(1);opacity:1"),
      ("to", "transform:scale(0.9);opacity:0")]
  | .bounce => [("0%,100%", "transform:translateY(0)"), ("50%", "transform:translateY(-10px)")]
  | .shake =>
    [("0%,100%", "transform:translateX(0)"),
      ("25%", "transform:translateX(-5px)"),
      ("75%", "transform:translateX(5px)")]
  | .pulse => [("0%,100%", "opacity:1"), ("50%", "opacity:0.5")]
  | .spin => [("from", "transform:rotate(0deg)"), ("to", "transform:rotate(360deg)")]

/-- How a preset plays: how long, how fast and what stays. -/
def timing : Preset → String
  | .bounce => "0.5s ease"
  | .shake => "0.4s ease"
  | .pulse => "1s ease infinite"
  | .spin => "1s linear infinite"
  | _ => "0.3s ease forwards"

/-- The class of an element that moves by a preset. -/
def motionClass (preset : Preset) : String := "ir-motion-" ++ Vocabulary.name preset

/-- The keyframes of a preset, and the rule for the classes that play them. -/
def sheet (preset : Preset) : String :=
  let frames := preset.frames.map fun (head, declarations) => sheetBlock head declarations
  sheetBlock ("@keyframes " ++ preset.motionClass) (String.join frames) ++ " " ++
    sheetBlock
      ("." ++ preset.motionClass ++ ",." ++ animateClass (Vocabulary.name preset))
      ("animation:" ++ preset.motionClass ++ " " ++ preset.timing)

end Preset

/-- The preset that an effect plays, if it names one. -/
def Effect.preset? : Effect → Option Preset
  | .animate _ (some name) => Vocabulary.ofName? name
  | _ => none

namespace Node

/-- The presets that a node plays: that of its motion, then those of its effects. -/
def ownPresets (node : Node) : List Preset :=
  (node.motion.bind Motion.preset?).toList ++
    node.events.flatMap fun binding => binding.effects.filterMap Effect.preset?

/-- The presets that can play in a tree, each once, by first use. -/
def presets (node : Node) : List Preset :=
  (node.preorder.flatMap ownPresets).eraseDups

end Node

/-- The look of toasts. -/
def toastSheet : String := "\n".intercalate [
  sheetBlock "[data-ir-toast-region]"
    ("position:fixed;bottom:1rem;right:1rem;z-index:10000;display:flex;" ++
      "flex-direction:column;gap:0.5rem"),
  sheetBlock ".ir-toast"
    ("padding:0.75rem 1rem;border-radius:6px;color:#fff;opacity:0;transition:opacity 0.3s;" ++
      "font-size:0.9rem;max-width:360px;box-shadow:0 4px 12px rgba(0,0,0,0.15)"),
  sheetBlock ".ir-toast--show" "opacity:1",
  sheetBlock ".ir-toast--info" "background:#0078d4",
  sheetBlock ".ir-toast--success" "background:#28a745",
  sheetBlock ".ir-toast--warning" "background:#ffc107;color:#212529",
  sheetBlock ".ir-toast--danger" "background:#dc3545"]

end PageTree
