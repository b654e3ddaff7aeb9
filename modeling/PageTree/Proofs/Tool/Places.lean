import Mathlib.Tactic.Common
import PageTree.Proofs.Text.Splitting
import PageTree.Tool.Workspace

/-!
# Places and paths

Where a path leads is up to the directories and the links alone. A text is written to an entry or to
a new file in a directory that is there already, so that writing makes no directory and moves no
path: before and after it all paths lead to the same places. This is what lets a run be told by
places, whatever paths the arguments name them by.

A path from the working directory and the same path from the root lead to one place, provided that
the names of the working directory lead to it. The output of a command may be named in one way and
what it reads in another.

## Main definitions

* `Workspace.HasAbove`: the directories above a place are there
* `Workspace.Wrote`: what writing a text comes to
* `Workspace.Leads`: names that lead from a directory to another one

## Main results

* `Workspace.Wrote.isDirectory_eq`, `Workspace.Wrote.locate?_eq`: writing moves no path
* `Workspace.Wrote.lookup_eq`, `Workspace.Wrote.read_self`: what is written where
* `Workspace.locate?_fullPath`: paths from the root
-/

namespace PageTree

theorem textOfBytes?_bytesOfText (text : String) : textOfBytes? (bytesOfText text) = some text := by
  have hbytes : (⟨bytesOfText text⟩ : ByteArray) = text.toByteArray := rfl
  rw [textOfBytes?, hbytes]
  exact dif_pos text.isValidUTF8

namespace Workspace

variable {w other written : Workspace}

@[simp] theorem read_files (w : Workspace) : w.files.read = w.read := rfl

@[simp] theorem isFile_files (w : Workspace) : w.files.isFile = w.isFile := rfl

/-! ## Entries -/

section

variable {place : List String} {entry : Entry} {entries : List (List String × Entry)}

theorem lookup_put : (put place entry entries).lookup place = some entry := by
  induction entries with
  | nil => exact List.lookup_cons_self
  | cons first entries ih =>
    rw [put]
    split_ifs with hplace
    · rw [hplace]
      exact List.lookup_cons_self
    · rw [List.lookup_cons, beq_eq_false_iff_ne.2 fun heq => hplace heq.symm]
      exact ih

theorem lookup_put_of_ne {apart : List String} (h : apart ≠ place) :
    (put place entry entries).lookup apart = entries.lookup apart := by
  induction entries with
  | nil => rw [put, List.lookup_cons, beq_eq_false_iff_ne.2 h]
  | cons first entries ih =>
    rw [put]
    split_ifs with hplace
    · rw [List.lookup_cons, List.lookup_cons, beq_eq_false_iff_ne.2 fun heq => h (heq.trans hplace)]
    · rw [List.lookup_cons, List.lookup_cons, ih]

theorem mem_places_put {held : List String} :
    held ∈ (put place entry entries).map Prod.fst ↔ held = place ∨ held ∈ entries.map Prod.fst := by
  induction entries with
  | nil => simp [put]
  | cons first entries ih =>
    rw [put]
    split_ifs with hplace
    · simp [hplace]
    · rw [List.map_cons, List.mem_cons, ih, List.map_cons, List.mem_cons, or_left_comm]

end

/-! ## Directories -/

theorem isDirectory_iff {place : List String} : w.isDirectory place = true ↔
    (∃ folder ∈ w.home :: w.folders, place <+: folder) ∨
      ∃ held ∈ w.entries.map Prod.fst ++ w.links.map Prod.fst, place <+: held ∧ held ≠ place := by
  simp only [isDirectory, Bool.or_eq_true, List.any_eq_true, List.isPrefixOf_iff_prefix,
    Bool.and_eq_true, bne_iff_ne]

/-- All directories above this place are there. -/
def HasAbove (w : Workspace) (place : List String) : Prop :=
  ∀ above, above <+: place → above ≠ place → w.isDirectory above = true

theorem HasAbove.append {place : List String} (h : w.HasAbove place)
    (hplace : w.isDirectory place = true) (part : String) : w.HasAbove (place ++ [part]) := by
  intro above habove hne
  rcases List.prefix_concat_iff.1 habove with heq | hinner
  · exact absurd heq hne
  · by_cases heq : above = place
    · rw [heq]
      exact hplace
    · exact h above hinner heq

theorem HasAbove.dropLast {place : List String} (h : w.HasAbove place) :
    w.HasAbove place.dropLast := by
  intro above habove hne
  refine h above (habove.trans (List.dropLast_prefix place)) ?_
  rintro rfl
  exact hne (habove.eq_of_length_le (by simp))

theorem HasAbove.start {place : List String} (h : w.HasAbove place) (path : String) :
    w.HasAbove (start place path) := by
  rw [Workspace.start]
  split_ifs
  · exact fun above habove hne => absurd (List.prefix_nil.1 habove) hne
  · exact h

theorem hasAbove_home (w : Workspace) : w.HasAbove w.home := fun _ habove _ =>
  isDirectory_iff.2 (.inl ⟨w.home, List.mem_cons_self, habove⟩)

/-- Above a place that parts lead to, all directories are there. -/
theorem hasAbove_of_walk? {jump : List String → List String → Option (List String)}
    (hjump : ∀ start parts place, w.HasAbove start → jump start parts = some place →
      w.HasAbove place)
    {parts start place : List String} (hstart : w.HasAbove start)
    (h : w.walk? jump start parts = some place) : w.HasAbove place := by
  induction parts generalizing start with
  | nil =>
    obtain rfl := Option.some.inj h
    exact hstart
  | cons part rest ih =>
    rw [walk?] at h
    split_ifs at h with hpass hsame hback hname
    · exact ih hstart h
    · exact ih hstart.dropLast h
    · have hdirectory : w.isDirectory start = true := by
        simp only [isPassable, Bool.not_eq_true', Bool.not_eq_false, Bool.and_eq_true] at hpass
        exact hpass.1
      split at h
      · next path _ => exact hjump _ _ _ (hstart.start path) h
      · exact ih (hstart.append hdirectory part) h

theorem hasAbove_of_follow? {links : Nat} {parts start place : List String}
    (hstart : w.HasAbove start) (h : w.follow? links start parts = some place) :
    w.HasAbove place := by
  induction links generalizing parts start place with
  | zero => exact hasAbove_of_walk? (fun _ _ _ _ h => by cases h) hstart h
  | succ links ih => exact hasAbove_of_walk? (fun _ _ _ hstart h => ih hstart h) hstart h

theorem hasAbove_of_locate? {path : String} {place : List String}
    (h : w.locate? path = some place) : w.HasAbove place := by
  rw [locate?] at h
  split_ifs at h
  exact hasAbove_of_follow? (w.hasAbove_home.start path) h

/-! ## Where paths lead -/

/-- Paths lead where they lead in another workspace. -/
structure SameWays (w other : Workspace) : Prop where
  home : other.home = w.home
  links : other.links = w.links
  isPassable : ∀ place, other.isPassable place = w.isPassable place

namespace SameWays

theorem walk?_eq (h : w.SameWays other)
    {jump jump' : List String → List String → Option (List String)}
    (hjump : ∀ start parts, jump' start parts = jump start parts) (parts start : List String) :
    other.walk? jump' start parts = w.walk? jump start parts := by
  induction parts generalizing start with
  | nil => rfl
  | cons part rest ih => simp only [walk?, h.isPassable, h.links, hjump, ih]

theorem follow?_eq (h : w.SameWays other) (links : Nat) (start parts : List String) :
    other.follow? links start parts = w.follow? links start parts := by
  induction links generalizing start parts with
  | zero => exact h.walk?_eq (fun _ _ => rfl) parts start
  | succ links ih => exact h.walk?_eq ih parts start

theorem locate?_eq (h : w.SameWays other) (path : String) :
    other.locate? path = w.locate? path := by
  rw [locate?, locate?, h.home, h.follow?_eq]

end SameWays

/-! ## Reading -/

theorem read_of_entry {path text : String} {place : List String}
    (hplace : w.locate? path = some place) (hopen : w.unreadable.contains place = false)
    (hentry : w.entries.lookup place = some (.file (bytesOfText text))) :
    w.read path = some text := by
  rw [read, hplace, Option.bind_some, if_neg (Bool.eq_false_iff.1 hopen), hentry]
  exact textOfBytes?_bytesOfText text

theorem exists_of_read {path text : String} (h : w.read path = some text) :
    ∃ place, w.locate? path = some place ∧ w.unreadable.contains place = false := by
  obtain ⟨place, hplace, h⟩ := Option.bind_eq_some_iff.1 h
  split_ifs at h with hclosed
  exact ⟨place, hplace, Bool.eq_false_iff.2 hclosed⟩

/-! ## Writing -/

/-- What is written under this path can be read there: it goes to no device, and the place is not
closed to reading. -/
def Keeps (w : Workspace) (path : String) : Prop :=
  ∃ place, w.locate? path = some place ∧ w.unreadable.contains place = false ∧
    ∀ content, w.entries.lookup place ≠ some (.device content)

/-- What writing a text under a path comes to. -/
inductive Wrote (w : Workspace) (path text : String) : Workspace → Prop where
  /-- A device keeps nothing. -/
  | device {place : List String} {content : Array UInt8} (hplace : w.locate? path = some place)
      (hwritable : w.isWritable place = true)
      (hdevice : w.entries.lookup place = some (.device content)) : Wrote w path text w
  /-- A file holds the text and nothing else, in its old place or as a new entry. -/
  | file {place : List String} (hplace : w.locate? path = some place)
      (hwritable : w.isWritable place = true)
      (hfile : ∀ content, w.entries.lookup place ≠ some (.device content)) :
      Wrote w path text { w with entries := put place (.file (bytesOfText text)) w.entries }

theorem write?_eq_some_iff {writing : Writing} :
    w.write? writing = some written ↔ w.Wrote writing.path writing.text written := by
  constructor
  · intro h
    obtain ⟨place, hplace, h⟩ := Option.bind_eq_some_iff.1 h
    split_ifs at h with hwritable
    have hwritable : w.isWritable place = true := by simpa using hwritable
    split at h
    · next content hdevice =>
      obtain rfl := Option.some.inj h
      exact .device hplace hwritable hdevice
    · next hfile =>
      obtain rfl := Option.some.inj h
      exact .file hplace hwritable hfile
  · rintro (⟨hplace, hwritable, hdevice⟩ | ⟨hplace, hwritable, hfile⟩)
    · simp only [write?, hplace, Option.bind_some, hwritable, hdevice]
      rfl
    · rw [write?, hplace, Option.bind_some, hwritable]
      split
      · cases ‹_›
      · split
        · next content hdevice => exact absurd hdevice (hfile content)
        · rfl

namespace Wrote

variable {path text : String}

theorem exists_locate? (h : w.Wrote path text written) :
    ∃ place, w.locate? path = some place ∧ w.isWritable place = true := by
  cases h with
  | device hplace hwritable => exact ⟨_, hplace, hwritable⟩
  | file hplace hwritable => exact ⟨_, hplace, hwritable⟩

/-- Writing makes no directory and takes none away. -/
theorem isDirectory_eq (h : w.Wrote path text written) (above : List String) :
    written.isDirectory above = w.isDirectory above := by
  cases h with
  | device => rfl
  | @file place hplace _ _ =>
    rw [Bool.eq_iff_iff, isDirectory_iff, isDirectory_iff]
    constructor
    · rintro (hfolder | ⟨held, hheld, habove, hne⟩)
      · exact .inl hfolder
      · rcases List.mem_append.1 hheld with hentry | hlink
        · rcases mem_places_put.1 hentry with rfl | hold
          · exact isDirectory_iff.1 (hasAbove_of_locate? hplace above habove hne.symm)
          · exact .inr ⟨held, List.mem_append_left _ hold, habove, hne⟩
        · exact .inr ⟨held, List.mem_append_right _ hlink, habove, hne⟩
    · rintro (hfolder | ⟨held, hheld, habove, hne⟩)
      · exact .inl hfolder
      · refine .inr ⟨held, ?_, habove, hne⟩
        exact List.mem_append.2 ((List.mem_append.1 hheld).imp_left fun hold =>
          mem_places_put.2 (.inr hold))

theorem sameWays (h : w.Wrote path text written) : w.SameWays written where
  home := by cases h <;> rfl
  links := by cases h <;> rfl
  isPassable place := by
    rw [isPassable, isPassable, h.isDirectory_eq]
    cases h <;> rfl

/-- **Writing moves no path**: all lead where they led before. -/
theorem locate?_eq (h : w.Wrote path text written) (apart : String) :
    written.locate? apart = w.locate? apart :=
  h.sameWays.locate?_eq apart

/-- Writing changes nothing but entries. -/
theorem eq_of_entries (h : w.Wrote path text written) :
    written = { w with entries := written.entries } := by
  cases h <;> rfl

theorem lookup_eq (h : w.Wrote path text written) {place : List String}
    (hne : w.locate? path ≠ some place) :
    written.entries.lookup place = w.entries.lookup place := by
  cases h with
  | device => rfl
  | file hplace =>
    refine lookup_put_of_ne ?_
    rintro rfl
    exact hne hplace

theorem read_eq (h : w.Wrote path text written) {apart : String}
    (hne : ∀ place, w.locate? apart = some place → w.locate? path ≠ some place) :
    written.read apart = w.read apart := by
  have hunreadable : written.unreadable = w.unreadable := by cases h <;> rfl
  rw [read, read, h.locate?_eq, hunreadable]
  cases hplace : w.locate? apart with
  | none => rfl
  | some place => rw [Option.bind_some, Option.bind_some, h.lookup_eq (hne place hplace)]

/-- What was written is read where it is kept. -/
theorem read_self (h : w.Wrote path text written) (hkeeps : w.Keeps path) :
    written.read path = some text := by
  obtain ⟨place, hplace, hopen, hfile⟩ := hkeeps
  have hlocate := (h.locate?_eq path).trans hplace
  cases h with
  | device hplace' _ hdevice =>
    obtain rfl := Option.some.inj (hplace.symm.trans hplace')
    exact absurd hdevice (hfile _)
  | file hplace' =>
    obtain rfl := Option.some.inj (hplace.symm.trans hplace')
    exact read_of_entry hlocate hopen lookup_put

/-- What is written over what could be read is read, unless it was a device, which is as it was. -/
theorem eq_or_read (h : w.Wrote path text written) {old : String} (hold : w.read path = some old) :
    written = w ∨ written.read path = some text := by
  obtain ⟨place, hplace, hopen⟩ := exists_of_read hold
  cases h with
  | device => exact .inl rfl
  | file hplace' hwritable hfile =>
    have hwrote : w.Wrote path text _ := .file hplace' hwritable hfile
    obtain rfl := Option.some.inj (hplace.symm.trans hplace')
    exact .inr (hwrote.read_self ⟨place, hplace, hopen, hfile⟩)

end Wrote

/-! ## Paths from the root -/

/-- A name that stands for what is called so. -/
structure IsName (name : String) : Prop where
  isFileName : isFileName name = true
  slash : '/' ∉ name.toList
  empty : name ≠ ""
  dot : name ≠ "."
  dots : name ≠ ".."

/-- The names lead from a place through directories, and none of them is a link. -/
def Leads (w : Workspace) : List String → List String → Prop
  | _, [] => True
  | place, name :: names => w.isPassable place = true ∧ IsName name ∧
    w.links.lookup (place ++ [name]) = none ∧ w.Leads (place ++ [name]) names

/-- One name leads to what is called so. -/
theorem walk?_name {jump : List String → List String → Option (List String)}
    {place : List String} (hpass : w.isPassable place = true) {name : String} (hname : IsName name)
    (hlink : w.links.lookup (place ++ [name]) = none) (rest : List String) :
    w.walk? jump place (name :: rest) = w.walk? jump (place ++ [name]) rest := by
  have hsame : ¬(name = "" ∨ name = ".") := not_or.2 ⟨hname.empty, hname.dot⟩
  rw [walk?, hpass, if_neg (by decide), if_neg hsame, if_neg hname.dots, hname.isFileName,
    if_neg (by decide), hlink]

/-- Names lead to the place that they tell. -/
theorem walk?_names {jump : List String → List String → Option (List String)}
    {place names : List String} (h : w.Leads place names) (rest : List String) :
    w.walk? jump place (names ++ rest) = w.walk? jump (place ++ names) rest := by
  induction names generalizing place with
  | nil => rw [List.append_nil, List.nil_append]
  | cons name names ih =>
    obtain ⟨hpass, hname, hlink, hrest⟩ := h
    rw [List.cons_append, walk?_name hpass hname hlink, ih hrest, List.append_assoc,
      List.singleton_append]

theorem follow?_eq_walk? (w : Workspace) (links : Nat) :
    ∃ jump, w.follow? links = w.walk? jump := by
  cases links with
  | zero => exact ⟨_, rfl⟩
  | succ links => exact ⟨_, rfl⟩

theorem parts_ne_nil (path : String) : parts path ≠ [] :=
  mt List.map_eq_nil_iff.1 (Text.splitWhere_ne_nil _)

theorem parts_of_slash {name : String} (h : '/' ∉ name.toList) : parts name = [name] := by
  have hslash : ∀ c ∈ name.toList, (c == '/') = false :=
    fun c hc => beq_eq_false_iff_ne.2 fun heq => h (heq ▸ hc)
  rw [parts, Text.split, Text.splitWhere_eq_singleton hslash, List.map_singleton,
    String.ofList_toList]

theorem parts_append (name path : String) :
    parts (name ++ "/" ++ path) = parts name ++ parts path := by
  have hchars : (name ++ "/" ++ path).toList = name.toList ++ '/' :: path.toList := by
    rw [String.toList_append, String.toList_append, List.append_assoc]
    rfl
  rw [parts, hchars, Text.split_append, List.map_append]
  rfl

theorem Leads.slash {place names : List String} (h : w.Leads place names) :
    ∀ name ∈ names, '/' ∉ name.toList := by
  induction names generalizing place with
  | nil => exact List.forall_mem_nil _
  | cons name names ih => exact List.forall_mem_cons.2 ⟨h.2.1.slash, ih h.2.2.2⟩

theorem parts_intercalate {names : List String} (h : ∀ name ∈ names, '/' ∉ name.toList)
    (path : String) : parts ("/".intercalate (names ++ [path])) = names ++ parts path := by
  induction names with
  | nil => rw [List.nil_append, List.nil_append, String.intercalate_singleton]
  | cons name names ih =>
    obtain ⟨hname, hnames⟩ := List.forall_mem_cons.1 h
    rw [List.cons_append, String.intercalate_cons_of_ne_nil (List.append_ne_nil_of_right_ne_nil _
      (List.cons_ne_nil _ _)), parts_append, parts_of_slash hname, ih hnames, List.cons_append]
    rfl

theorem utf8ByteSize_le_intercalate (names : List String) (path : String) :
    path.utf8ByteSize ≤ ("/".intercalate (names ++ [path])).utf8ByteSize := by
  induction names with
  | nil => rw [List.nil_append, String.intercalate_singleton]
  | cons name names ih =>
    rw [List.cons_append, String.intercalate_cons_of_ne_nil (List.append_ne_nil_of_right_ne_nil _
      (List.cons_ne_nil _ _)), String.utf8ByteSize_append]
    omega

/-- An empty part stays where it is. -/
theorem walk?_empty {jump : List String → List String → Option (List String)}
    {place : List String} (hpass : w.isPassable place = true) (rest : List String) :
    w.walk? jump place ("" :: rest) = w.walk? jump place rest := by
  rw [walk?, hpass, if_neg (by decide), if_pos (.inl rfl)]

/-- The name of what is in the working directory leads to it. -/
theorem locate?_name (hpass : w.isPassable w.home = true) {name : String} (hname : IsName name)
    (hlink : w.links.lookup (w.home ++ [name]) = none) :
    w.locate? name = some (w.home ++ [name]) := by
  have hsize : ¬pathLimit < name.utf8ByteSize := by
    have hlt : name.utf8ByteSize < 256 := by
      simpa using (Bool.and_eq_true_iff.1 hname.isFileName).1
    rw [pathLimit]
    omega
  have hstart : ¬name.toList.head? = some '/' :=
    fun hhead => hname.slash (List.mem_of_mem_head? hhead)
  obtain ⟨jump, hjump⟩ := w.follow?_eq_walk? linkLimit
  rw [locate?, if_neg hsize, start, if_neg hstart, parts_of_slash hname.slash, hjump,
    walk?_name hpass hname hlink]
  rfl

/-- Nothing leads on from where no path may go on. -/
theorem walk?_of_not_passable {jump : List String → List String → Option (List String)}
    {place : List String} (hpass : w.isPassable place = false) {rest : List String}
    (hrest : rest ≠ []) : w.walk? jump place rest = none := by
  cases rest with
  | nil => exact absurd rfl hrest
  | cons part rest =>
    rw [walk?, hpass]
    rfl

/-- From the root, names lead to where the rest of the path is walked. -/
theorem walk?_root {jump : List String → List String → Option (List String)} {names : List String}
    (h : w.Leads [] names) {rest : List String} (hrest : rest ≠ []) :
    w.walk? jump [] ("" :: (names ++ rest)) = w.walk? jump names rest := by
  cases hpass : w.isPassable [] with
  | true => rw [walk?_empty hpass, walk?_names h, List.nil_append]
  | false =>
    cases names with
    | nil =>
      rw [walk?_of_not_passable hpass (List.cons_ne_nil _ _), walk?_of_not_passable hpass hrest]
    | cons name names => cases hpass.symm.trans h.1

/-- **A path from the working directory and the same path from the root** lead to one place. -/
theorem locate?_fullPath (h : w.Leads [] w.home) {path : String}
    (hpath : path.toList.head? ≠ some '/') (hlength : (w.fullPath path).utf8ByteSize ≤ pathLimit) :
    w.locate? (w.fullPath path) = w.locate? path := by
  have hsize : path.utf8ByteSize ≤ pathLimit := by
    refine le_trans (utf8ByteSize_le_intercalate w.home path) (le_trans ?_ hlength)
    rw [fullPath, String.utf8ByteSize_append]
    exact Nat.le_add_left _ _
  have hparts : parts (w.fullPath path) = "" :: (w.home ++ parts path) := by
    have hsplit : w.fullPath path = "" ++ "/" ++ "/".intercalate (w.home ++ [path]) := by
      rw [String.empty_append, fullPath]
    rw [hsplit, parts_append, parts_intercalate h.slash]
    rfl
  have hstart : start w.home (w.fullPath path) = [] := by
    rw [start, fullPath, String.toList_append]
    rfl
  obtain ⟨jump, hjump⟩ := w.follow?_eq_walk? linkLimit
  rw [locate?, locate?, if_neg (Nat.not_lt.2 hlength), if_neg (Nat.not_lt.2 hsize), hparts, hstart,
    start, if_neg hpath, hjump, walk?_root h (parts_ne_nil path)]

example :
    let w := { ofFiles [] with
      links := [(["tmp", "pages", "here"], "."), (["tmp", "pages", "up"], "/tmp")] }
    ["a", "/tmp/pages/a", "../pages/./a", "/tmp//../../tmp/pages/a", "here/a", "up/pages/a"].map
      w.locate? = List.replicate 6 (some ["tmp", "pages", "a"]) := by
  decide +kernel

end Workspace

end PageTree
