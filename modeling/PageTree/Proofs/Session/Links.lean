import PageTree.Proofs.Session.Clock
import PageTree.Proofs.Session.ToastRows

/-!
# Pages stay forests

Parent links and contents are kept apart, and so are the indices that a session remembers. Whatever
is done with a page, they agree: the table is a forest at every step of every call, all that a
session remembers is in the table, and a step changes nothing but elements of the table.

## Main definitions

* `Session.Step`: what calls are made of
* `Session.Linked`: the table of a session is a forest, and what it remembers is in the table

## Main results

* `Session.Inside.step`: a step keeps what a session remembers inside its table
* `Session.Follows.linked`: whatever is done with a page, it stays linked
-/

namespace PageTree

namespace Session

variable {s₀ s s' : Session}

/-- One step of a call on a page: a stage, the next change of a toast, or the clock that moves
on. -/
inductive Step (s₀ : Session) : Session → Session → Prop where
  | stage {s s' : Session} {a : List Raised} (h : Stage s₀ s a s') : Step s₀ s s'
  | tick {s s' : Session} {moment : Nat} (h : s.tick? moment = some s') : Step s₀ s s'
  | wait {s : Session} (moment : Nat) : Step s₀ s { s with clock := moment }

/-- The table is a forest, and all indices that the session remembers are in it. -/
structure Linked (s₀ s : Session) : Prop where
  /-- The links of the table agree, and walks along them end inside the table. -/
  forest : s.forest.Consistent
  /-- The table is as large as the one that the page was loaded with, or larger. -/
  size_le : s₀.forest.size ≤ s.forest.size
  /-- The elements of nodes are in the table. -/
  nodes : ∀ id i, s.node? id = some i → i < s.forest.size
  /-- Toasts are in the table, those included that were taken out of the document. -/
  toasts : ∀ toast ∈ s.toasts, toast.1 < s.forest.size
  /-- So are those that something is still to happen to. -/
  schedule : ∀ timer ∈ s.schedule, timer.toast < s.forest.size
  /-- So are the elements with the focus, with classes that go when their animation ends, with
  motion that is awaited, and with motion that is spent. -/
  held : ∀ i ∈ s.held, i < s.forest.size

/-- What a session remembers of toasts and elements is in its table. -/
structure Inside (s₀ s : Session) : Prop where
  descends : Descends s₀ s
  toasts : ∀ toast ∈ s.toasts, toast.1 < s.forest.size
  schedule : ∀ timer ∈ s.schedule, timer.toast < s.forest.size
  held : ∀ i ∈ s.held, i < s.forest.size

namespace Inside

/-- A session with as large a table remembers what is inside if that is nothing new. -/
theorem of_same (h : Inside s₀ s) (hdescends : Descends s₀ s')
    (hsize : s'.forest.size = s.forest.size) (htoasts : s'.toasts = s.toasts)
    (hschedule : s'.schedule = s.schedule) (hheld : ∀ i ∈ s'.held, i ∈ s.held ∨ i < s.forest.size) :
    Inside s₀ s' where
  descends := hdescends
  toasts := by
    rw [htoasts, hsize]
    exact h.toasts
  schedule := by
    rw [hschedule, hsize]
    exact h.schedule
  held i hi := by
    rw [hsize]
    exact (hheld i hi).elim (h.held i) id

theorem addToast (h : Inside s₀ s) (message : String) (variant : ToastVariant) :
    Inside s₀ (s.addToast message variant) := by
  have hdescends := h.descends.addToast message variant
  rw [Session.addToast] at hdescends ⊢
  split
  · exact h
  · next region hregion =>
    rw [hregion] at hdescends
    have hsize (look : String) :
        ((s.forest.append region "div" [("class", look)]).setText s.forest.size message).size =
          s.forest.size + 1 :=
      (Forest.size_setText _ _).trans (Forest.size_append _ _ _)
    refine ⟨hdescends, fun toast htoast => ?_, fun timer htimer => ?_, fun i hi => ?_⟩
    · rw [hsize]
      rcases List.mem_append.1 htoast with htoast | htoast
      · exact Nat.lt_succ_of_lt (h.toasts toast htoast)
      · rw [List.mem_singleton.1 htoast]
        exact Nat.lt_succ_self _
    · rw [hsize]
      rcases Schedule.mem_add.1 htimer with htimer | htimer
      · rcases List.mem_pair.1 htimer with rfl | rfl
        · exact Nat.lt_succ_self _
        · exact Nat.lt_succ_self _
      · exact Nat.lt_succ_of_lt (h.schedule timer htimer)
    · rw [hsize]
      exact Nat.lt_succ_of_lt (h.held i hi)

theorem stage (h : Inside s₀ s) {a : List Raised} (hstage : Stage s₀ s a s') : Inside s₀ s' := by
  have hdescends := hstage.descends h.descends
  cases hstage with
  | setAttribute | removeAttribute | setValue =>
    exact h.of_same hdescends (Forest.size_modify _ _) rfl rfl fun _ hi => .inl hi
  | setText =>
    exact h.of_same hdescends (Forest.size_setText _ _) rfl rfl fun _ hi => .inl hi
  | addToast hregion message variant => exact h.addToast message variant
  | note hnotes =>
    exact h.of_same hdescends (congrArg Forest.size hnotes.forest) hnotes.toasts hnotes.schedule
      hnotes.held

theorem tick? (h : Inside s₀ s) {moment : Nat} (htick : s.tick? moment = some s') :
    Inside s₀ s' := by
  have hdescends := h.descends.tick? htick
  obtain ⟨timer, rest, hschedule, -, rfl⟩ := tick?_eq_some.1 htick
  have hscheduled := h.schedule
  rw [hschedule] at hscheduled
  refine ⟨hdescends, ?_, fun other hother => ?_, ?_⟩
  · rw [happen, size_changeToast]
    exact h.toasts
  · rw [happen, size_changeToast]
    rcases Schedule.mem_followUp hother with rfl | hother
    · exact hscheduled timer (List.mem_cons_self ..)
    · exact hscheduled other (List.mem_cons_of_mem _ hother)
  · rw [happen, size_changeToast]
    exact h.held

theorem step (h : Inside s₀ s) (hstep : Step s₀ s s') : Inside s₀ s' := by
  cases hstep with
  | stage hstage => exact h.stage hstage
  | tick htick => exact h.tick? htick
  | wait moment =>
    exact h.of_same (h.descends.of_forest h.descends.forest rfl) rfl rfl rfl fun _ hi => .inl hi

theorem toLinked (h : Inside s₀ s) (hfresh : s₀.IsFresh) : Linked s₀ s where
  forest := h.descends.forest.wellFormed.consistent
  size_le := h.descends.forest.size
  nodes id i hnode := Nat.lt_of_lt_of_le
    (hfresh.lt_size_of_node? id i ((node?_eq h.descends id).symm.trans hnode))
    h.descends.forest.size
  toasts := h.toasts
  schedule := h.schedule
  held := h.held

end Inside

theorem IsFresh.inside (h : s₀.IsFresh) : Inside s₀ s₀ where
  descends := ⟨.refl h.wellFormed, rfl⟩
  toasts := by
    rw [h.toasts]
    intro toast htoast
    cases htoast
  schedule := by
    rw [h.schedule]
    intro timer htimer
    cases htimer
  held := by
    rw [held, h.animationClasses, h.focused, h.awaited, h.spent]
    intro i hi
    cases hi

/-- A page in use comes to another state in steps, after each of which it is linked. -/
def Passes (s₀ : Session) : Session → Session → Prop :=
  Relation.ReflTransGen fun s s' => Step s₀ s s' ∧ Linked s₀ s'

namespace Inside

theorem passes_stages (h : Inside s₀ s) (hfresh : s₀.IsFresh) {a : List Raised}
    (hstages : Stages s₀ s a s') : Passes s₀ s s' ∧ Inside s₀ s' := by
  induction hstages with
  | refl => exact ⟨.refl, h⟩
  | snoc _ hstage ih =>
    have hnext := ih.2.stage hstage
    exact ⟨ih.1.tail ⟨.stage hstage, hnext.toLinked hfresh⟩, hnext⟩

theorem passes_ticks (h : Inside s₀ s) (hfresh : s₀.IsFresh) {moment : Nat}
    (hticks : Ticks moment s s') : Passes s₀ s s' ∧ Inside s₀ s' := by
  induction hticks with
  | refl => exact ⟨.refl, h⟩
  | tail _ htick ih =>
    have hnext := ih.2.tick? htick
    exact ⟨ih.1.tail ⟨.tick htick, hnext.toLinked hfresh⟩, hnext⟩

/-- **A call is made of steps**, each of which leaves the page linked. -/
theorem passes_perform (h : Inside s₀ s) (hfresh : s₀.IsFresh) {network : Network}
    {interaction : Interaction} {report : Report} {v : Visit}
    (hperform : perform { session := s, network } interaction = .ok (report, v)) :
    Passes s₀ s v.session ∧ Inside s₀ v.session := by
  rcases h.descends.advance_or_stages hfresh.lt_size_of_node? hperform with
    ⟨milliseconds, -, hv⟩ | ⟨-, hstages⟩
  · have helapsed := h.passes_ticks hfresh (ticks_elapse (Schedule.after s.clock milliseconds) s)
    have hnext := helapsed.2.step (.wait (Schedule.after s.clock milliseconds))
    rw [hv]
    exact ⟨helapsed.1.tail ⟨.wait _, hnext.toLinked hfresh⟩, hnext⟩
  · exact h.passes_stages hfresh hstages

end Inside

theorem Follows.inside (h : Follows s₀ s) (hfresh : s₀.IsFresh) : Inside s₀ s := by
  induction h with
  | start => exact hfresh.inside
  | call _ hperform ih => exact (ih.passes_perform hfresh hperform).2

/-- **Whatever is done with a page, it stays a forest**: between calls, and after every step of
every call, its links agree and lead nowhere outside of the table. -/
theorem Follows.linked {html : String} (hload : load html = .ok s₀) (h : Follows s₀ s) :
    Linked s₀ s ∧ ∀ (network : Network) (interaction : Interaction) (report : Report) (v : Visit),
      perform { session := s, network } interaction = .ok (report, v) → Passes s₀ s v.session := by
  have hfresh := isFresh_of_load hload
  have hinside := h.inside hfresh
  exact ⟨hinside.toLinked hfresh, fun _ _ _ _ hperform =>
    (hinside.passes_perform hfresh hperform).1⟩

/-- A page in use whose links agree. -/
theorem Follows.linked_notice : ∃ s₀ s, load notice = .ok s₀ ∧ Follows s₀ s ∧ Linked s₀ s ∧
    ∀ (network : Network) (interaction : Interaction) (report : Report) (v : Visit),
      perform { session := s, network } interaction = .ok (report, v) → Passes s₀ s v.session := by
  obtain ⟨s₀, calls, s, hload, hreaches, -⟩ := reaches_notice
  exact ⟨s₀, s, hload, hreaches.follows, Follows.linked hload hreaches.follows⟩

end Session

end PageTree
