import Mathlib.Tactic.Common
import PageTree.Proofs.OrderedMap
import PageTree.State.Path

/-!
# Laws of writing into the state

Writing under a key and reading under a key are a lens: what was written is read, the last write
under a key counts, and a write does not show under keys that lead elsewhere. Two keys lead to
different places once they have, at one position, segments that name different members and are not
two spellings of one index.

A write is also atomic, though it makes containers on its way and may be refused. That is a law
about writing in place, where a container that was made stays: `Json.writeInPlace` goes down slot
by slot and reports whether it got to the end. It gets past every container that it made itself,
since an empty object takes any segment. So a refusal finds nothing made, and writing in place
leaves the state that `Json.withValueAt?` gives, or the old one.

## Main definitions

* `Json.withChild?`: a container with a value in one of its slots
* `Json.writeInPlace`: writing that keeps what it made on the way
* `SegmentsApart`, `KeysApart`: segments and keys that lead to different places

## Main results

* `Json.put?_cons`: a write is a write into the child, put back into the container
* `Json.writeInPlace_eq`: writing in place is all or nothing
* `Json.at?_put?`, `Json.put?_put?`, `Json.at?_put?_of_apart`: the laws along paths
* `Json.withValueAt?_lawful`: writes under keys are atomic and behave like a lens
-/

namespace PageTree

/-- Two segments lead to different places in every container: they differ and do not spell the
same index. -/
def SegmentsApart (segment other : String) : Prop :=
  segment ≠ other ∧ ∀ i ∈ index? segment, index? other ≠ some i

/-- Two paths have segments apart at some position. -/
def PathsApart (path other : List String) : Prop :=
  ∃ position ∈ path.zip other, SegmentsApart position.1 position.2

/-- Two keys have segments apart at some position. -/
def KeysApart (key other : String) : Prop := PathsApart (keySegments key) (keySegments other)

instance (segment other : String) : Decidable (SegmentsApart segment other) :=
  inferInstanceAs (Decidable (segment ≠ other ∧ ∀ i ∈ index? segment, index? other ≠ some i))

instance (path other : List String) : Decidable (PathsApart path other) :=
  inferInstanceAs (Decidable (∃ position ∈ path.zip other, SegmentsApart position.1 position.2))

instance (key other : String) : Decidable (KeysApart key other) :=
  inferInstanceAs (Decidable (PathsApart (keySegments key) (keySegments other)))

namespace Json

variable {segment other : String} {value container changed : Json}

/-! ## Slots -/

/-- The container with a value in the slot that a segment names: a member, an item, or a new item
behind the last. -/
def withChild? (segment : String) : Json → Json → Option Json
  | .obj members, value => some (.obj (OrderedMap.set segment value members))
  | .arr items, value =>
    (index? segment).bind fun i =>
      if i < items.length then some (.arr (items.set i value))
      else if i = items.length then some (.arr (items ++ [value])) else none
  | _, _ => none

theorem withChild?_obj_eq_some_iff {members : OrderedMap Json} :
    (Json.obj members).withChild? segment value = some changed ↔
      .obj (OrderedMap.set segment value members) = changed := by
  rw [withChild?, Option.some_inj]

theorem withChild?_arr_eq_some_iff {items : List Json} :
    (Json.arr items).withChild? segment value = some changed ↔
      ∃ i, index? segment = some i ∧
        (i < items.length ∧ .arr (items.set i value) = changed ∨
          i = items.length ∧ .arr (items ++ [value]) = changed) := by
  rw [withChild?, Option.bind_eq_some_iff]
  refine exists_congr fun i => and_congr_right fun _ => ?_
  split_ifs with hlt heq
  · simp [hlt, Nat.ne_of_lt hlt]
  · simp [heq]
  · simp [hlt, heq]

/-- Segments that spell one index name one item. -/
theorem child?_arr_congr (items : List Json) (h : index? segment = index? other) :
    (Json.arr items).child? segment = (Json.arr items).child? other := by
  rw [child?, child?, h]

/-- A slot holds what was put there. -/
theorem child?_withChild? (h : container.withChild? segment value = some changed) :
    changed.child? segment = some value := by
  cases container with
  | obj members =>
    obtain rfl := withChild?_obj_eq_some_iff.1 h
    rw [child?, OrderedMap.lookup_set, if_pos rfl]
  | arr items =>
    obtain ⟨i, hi, ⟨hlt, rfl⟩ | ⟨rfl, rfl⟩⟩ := withChild?_arr_eq_some_iff.1 h
    · simp [child?, hi, hlt]
    · simp [child?, hi]
  | _ => cases h

/-- Other slots keep what they hold. -/
theorem child?_withChild?_of_apart (h : container.withChild? segment value = some changed)
    (hapart : SegmentsApart segment other) : changed.child? other = container.child? other := by
  cases container with
  | obj members =>
    obtain rfl := withChild?_obj_eq_some_iff.1 h
    rw [child?, OrderedMap.lookup_set, if_neg (Ne.symm hapart.1), child?]
  | arr items =>
    obtain ⟨i, hi, hchanged⟩ := withChild?_arr_eq_some_iff.1 h
    cases hother : index? other with
    | none => rcases hchanged with ⟨-, rfl⟩ | ⟨-, rfl⟩ <;> simp [child?, hother]
    | some j =>
      have hne : i ≠ j := by
        rintro rfl
        exact hapart.2 i hi hother
      rcases hchanged with ⟨-, rfl⟩ | ⟨rfl, rfl⟩
      · simp [child?, hother, List.getElem?_set_ne hne]
      · have hend : [value][j - items.length]? = none ∨ j < items.length := by
          rw [List.getElem?_eq_none_iff, List.length_singleton]
          omega
        simp only [child?, hother, Option.bind_some, List.getElem?_append]
        split_ifs with hlt
        · rfl
        · rw [hend.resolve_right hlt, List.getElem?_eq_none (Nat.le_of_not_lt hlt)]
  | _ => cases h

/-- A segment that is not apart names the same slot or, in an object, another member. -/
theorem child?_withChild?_or (h : container.withChild? segment value = some changed)
    (hapart : ¬SegmentsApart segment other) :
    changed.child? other = container.child? other ∨
      changed.child? other = some value ∧ container.child? other = container.child? segment := by
  by_cases hsame : segment = other
  · subst hsame
    exact .inr ⟨child?_withChild? h, rfl⟩
  · obtain ⟨i, hi, hother⟩ : ∃ i, index? segment = some i ∧ index? other = some i :=
      not_not.1 fun hnone => hapart ⟨hsame, fun i hi hother => hnone ⟨i, hi, hother⟩⟩
    have hindex : index? other = index? segment := hother.trans hi.symm
    cases container with
    | obj members =>
      obtain rfl := withChild?_obj_eq_some_iff.1 h
      rw [child?, OrderedMap.lookup_set, if_neg (Ne.symm hsame)]
      exact .inl rfl
    | arr items =>
      refine .inr ⟨?_, child?_arr_congr items hindex⟩
      rw [← child?_withChild? h]
      obtain ⟨-, -, ⟨-, rfl⟩ | ⟨-, rfl⟩⟩ := withChild?_arr_eq_some_iff.1 h <;>
        exact child?_arr_congr _ hindex
    | _ => cases h

/-- Of two values that are put into one slot the last one stays. -/
theorem withChild?_withChild? (h : container.withChild? segment value = some changed)
    (last : Json) : changed.withChild? segment last = container.withChild? segment last := by
  cases container with
  | obj members =>
    obtain rfl := withChild?_obj_eq_some_iff.1 h
    rw [withChild?, withChild?, OrderedMap.set_set]
  | arr items =>
    obtain ⟨i, hi, ⟨hlt, rfl⟩ | ⟨rfl, rfl⟩⟩ := withChild?_arr_eq_some_iff.1 h
    · simp [withChild?, hi, hlt]
    · simp [withChild?, hi]
  | _ => cases h

/-- Putting back what a slot holds changes nothing. -/
theorem withChild?_of_child? (h : container.child? segment = some value) :
    container.withChild? segment value = some container := by
  cases container with
  | obj members => rw [withChild?, OrderedMap.set_of_lookup h]
  | arr items =>
    obtain ⟨i, hi, hvalue⟩ := Option.bind_eq_some_iff.1 h
    obtain ⟨hlt, rfl⟩ := List.getElem?_eq_some_iff.1 hvalue
    rw [withChild?, hi, Option.bind_some, if_pos hlt, List.set_getElem_self]
  | _ => cases h

/-- Whether a container has room for a value does not depend on the value. -/
theorem withChild?_eq_none_iff (other : Json) :
    container.withChild? segment value = none ↔ container.withChild? segment other = none := by
  cases container with
  | obj members => simp [withChild?]
  | arr items =>
    simp only [withChild?, Option.bind_eq_none_iff]
    refine forall_congr' fun i => forall_congr' fun _ => ?_
    split_ifs <;> simp
  | _ => exact Iff.rfl

/-- Containers count as true. -/
theorem truthy_withChild? (h : container.withChild? segment value = some changed) :
    truthy (some container) = true ∧ truthy (some changed) = true := by
  cases container with
  | obj members =>
    obtain rfl := withChild?_obj_eq_some_iff.1 h
    exact ⟨rfl, rfl⟩
  | arr items =>
    obtain ⟨-, -, ⟨-, rfl⟩ | ⟨-, rfl⟩⟩ := withChild?_arr_eq_some_iff.1 h <;> exact ⟨rfl, rfl⟩
  | _ => cases h

/-! ## Writing along a path -/

/-- **A write is a write into the child**, or into an empty object where there is no child, put
back into the container. -/
theorem put?_cons (written : Json) (segment : String) (path : List String) (container : Json) :
    put? written (segment :: path) container =
      (put? written path ((container.child? segment).getD (.obj []))).bind
        (container.withChild? segment) := by
  cases container with
  | obj members =>
    rw [put?, child?, Option.map_eq_bind]
    rfl
  | arr items =>
    have hput : (Json.arr items).withChild? segment = fun value =>
        (Json.arr items).withChild? segment value := rfl
    rw [put?, child?, hput]
    simp only [withChild?]
    cases index? segment with
    | none => simp
    | some i =>
      simp only [Option.bind_some]
      split_ifs with hlt heq
      · rw [List.getElem?_eq_getElem hlt, List.getD_eq_getElem?_getD, List.getElem?_eq_getElem hlt,
          Option.map_eq_bind]
        rfl
      · rw [heq, List.getElem?_eq_none (Nat.le_refl _), Option.map_eq_bind]
        rfl
      · simp
  | _ =>
    rw [put?]
    · exact (Option.bind_fun_none _).symm
    all_goals nofun

/-- An empty object takes any path. -/
theorem exists_put?_empty (written : Json) (path : List String) :
    ∃ changed, put? written path (.obj []) = some changed := by
  induction path with
  | nil => exact ⟨written, rfl⟩
  | cons segment path ih =>
    obtain ⟨inner, hinner⟩ := ih
    refine ⟨.obj [(segment, inner)], ?_⟩
    rw [put?_cons, child?, List.lookup_nil, Option.getD_none, hinner]
    rfl

/-! ## Writing in place -/

/-- The container with the slot that a segment names. A slot that was missing is made, and filled
for the time being. -/
def withSlot? (segment : String) (container filling : Json) : Option Json :=
  if (container.child? segment).isSome then some container
  else container.withChild? segment filling

/-- What a slot is filled with that is made on the way down a path: the last one gets its value
next, the others take further slots. -/
def filling (path : List String) : Json := if path.isEmpty then .null else .obj []

theorem put?_filling (written : Json) (path : List String) :
    put? written path (filling path) = put? written path (.obj []) := by
  cases path <;> rfl

/-- Writing in place: each slot on the way down is made where it is missing, and stays whatever
happens below. The flag says whether the value was written. -/
def writeInPlace (written : Json) : List String → Json → Json × Bool
  | [], _ => (written, true)
  | segment :: path, container =>
    match container.withSlot? segment (filling path) with
    | none => (container, false)
    | some opened =>
      let (inner, done) := writeInPlace written path ((opened.child? segment).getD .null)
      ((opened.withChild? segment inner).getD opened, done)

/-- **Writing in place is all or nothing**: it leaves the value with the write done, or what was
there before. -/
theorem writeInPlace_eq (written : Json) (path : List String) (value : Json) :
    writeInPlace written path value =
      ((put? written path value).getD value, (put? written path value).isSome) := by
  induction path generalizing value with
  | nil => rfl
  | cons segment path ih =>
    rw [writeInPlace, withSlot?, put?_cons]
    cases hchild : value.child? segment with
    | some child =>
      -- nothing is made here, so after a refusal below the slot gets back what it held
      have hself := withChild?_of_child? hchild
      cases hput : put? written path child with
      | none => simp [hchild, ih, hput, hself]
      | some inner =>
        obtain ⟨changed, hchanged⟩ : ∃ changed, value.withChild? segment inner = some changed := by
          rw [← Option.ne_none_iff_exists', ne_eq, withChild?_eq_none_iff child, hself]
          nofun
        simp [hchild, ih, hput, hchanged]
    | none =>
      -- what is made here is empty, so there is no refusal below
      obtain ⟨inner, hput⟩ := exists_put?_empty written path
      cases hopened : value.withChild? segment (filling path) with
      | none =>
        have hnone : value.withChild? segment inner = none :=
          (withChild?_eq_none_iff (filling path)).2 hopened
        simp [hput, hnone]
      | some opened =>
        have hlast := withChild?_withChild? hopened inner
        obtain ⟨changed, hchanged⟩ : ∃ changed, value.withChild? segment inner = some changed := by
          rw [← Option.ne_none_iff_exists', ne_eq, withChild?_eq_none_iff (filling path), hopened]
          nofun
        simp [child?_withChild? hopened, ih, put?_filling, hput, hlast, hchanged]

/-! ## The laws along paths -/

/-- What was written is read. -/
theorem at?_put? {path : List String} {written value changed : Json}
    (h : put? written path value = some changed) : at? path changed = some written := by
  induction path generalizing value changed with
  | nil =>
    obtain rfl := Option.some.inj h
    rfl
  | cons segment path ih =>
    rw [put?_cons] at h
    obtain ⟨inner, hinner, hchanged⟩ := Option.bind_eq_some_iff.1 h
    rw [at?, if_pos (truthy_withChild? hchanged).2, child?_withChild? hchanged]
    exact ih hinner

/-- The last of two writes to one path counts. -/
theorem put?_put? {path : List String} {written value changed : Json}
    (h : put? written path value = some changed) (last : Json) :
    put? last path changed = put? last path value := by
  induction path generalizing value changed with
  | nil => rfl
  | cons segment path ih =>
    rw [put?_cons] at h
    obtain ⟨inner, hinner, hchanged⟩ := Option.bind_eq_some_iff.1 h
    rw [put?_cons, put?_cons, child?_withChild? hchanged, Option.getD_some, ih hinner]
    exact congrArg _ (funext (withChild?_withChild? hchanged))

/-- Whether a write can be done does not depend on what is written. -/
theorem put?_eq_none_iff {path : List String} {written value : Json} (last : Json) :
    put? written path value = none ↔ put? last path value = none := by
  induction path generalizing value with
  | nil => exact iff_of_false nofun nofun
  | cons segment path ih =>
    rw [put?_cons, put?_cons]
    have hbelow := @ih ((value.child? segment).getD (.obj []))
    cases hfirst : put? written path ((value.child? segment).getD (.obj [])) with
    | none => rw [hbelow.1 hfirst]
    | some inner =>
      obtain ⟨other, hother⟩ := Option.ne_none_iff_exists'.1
        (mt hbelow.2 (Option.ne_none_iff_exists'.2 ⟨inner, hfirst⟩))
      rw [hother]
      exact withChild?_eq_none_iff other

theorem not_pathsApart_nil (path : List String) : ¬PathsApart path [] := by
  rintro ⟨position, hposition, -⟩
  rw [List.zip_nil_right] at hposition
  cases hposition

theorem pathsApart_cons {segment step : String} {path other : List String} :
    PathsApart (segment :: path) (step :: other) ↔
      SegmentsApart segment step ∨ PathsApart path other := by
  simp [PathsApart]

/-- **A write does not show** where paths are apart. -/
theorem at?_put?_of_apart {path other : List String} {written value changed : Json}
    (h : put? written path value = some changed) (hapart : PathsApart path other) :
    at? other changed = at? other value := by
  induction path generalizing other value changed with
  | nil =>
    obtain ⟨position, hposition, -⟩ := hapart
    cases hposition
  | cons segment path ih =>
    cases other with
    | nil => exact absurd hapart (not_pathsApart_nil _)
    | cons step other =>
      rw [put?_cons] at h
      obtain ⟨inner, hinner, hchanged⟩ := Option.bind_eq_some_iff.1 h
      obtain ⟨hcontainer, htruthy⟩ := truthy_withChild? hchanged
      rw [at?, at?, if_pos hcontainer, if_pos htruthy]
      by_cases hhere : SegmentsApart segment step
      · rw [child?_withChild?_of_apart hchanged hhere]
      · have hbelow := (pathsApart_cons.1 hapart).resolve_left hhere
        rcases child?_withChild?_or hchanged hhere with hsame | ⟨hstep, hslot⟩
        · rw [hsame]
        · rw [hstep, hslot, Option.bind_some, ih hinner hbelow]
          cases value.child? segment with
          | some child => rfl
          | none =>
            -- what was made on the way was empty, so there was nothing to read before
            cases other with
            | nil => exact absurd hbelow (not_pathsApart_nil _)
            | cons => rfl

/-! ## Writes under keys -/

/-- Writing in place under a key. -/
def writeInPlaceAt (state : Json) (key : String) (written : Json) : Json × Bool :=
  writeInPlace written (keySegments key) state

/-- **Writes under keys are atomic and behave like a lens.** A write that is refused leaves the
state as it was, even when it is done in place. A write that is done leaves the same state in
either way; then the key has the value, another write under the key is done and leaves what it
would have left of the old state, and keys that are apart from this one have the values that they
had. -/
theorem withValueAt?_lawful (state : Json) (key : String) (value : Json) :
    (state.withValueAt? key value = none →
      state.writeInPlaceAt key value = (state, false)) ∧
    ∀ changed, state.withValueAt? key value = some changed →
      state.writeInPlaceAt key value = (changed, true) ∧
      changed.valueAt key = some value ∧
      (∀ last, ∃ final, state.withValueAt? key last = some final ∧
        changed.withValueAt? key last = some final) ∧
      ∀ other, KeysApart key other → changed.valueAt other = state.valueAt other := by
  have hinPlace := writeInPlace_eq value (keySegments key) state
  refine ⟨fun hrefused => ?_, fun changed hdone => ⟨?_, at?_put? hdone, fun last => ?_,
    fun other hapart => at?_put?_of_apart hdone hapart⟩⟩
  · rw [withValueAt?] at hrefused
    rw [writeInPlaceAt, hinPlace, hrefused]
    rfl
  · rw [withValueAt?] at hdone
    rw [writeInPlaceAt, hinPlace, hdone]
    rfl
  · have hroom : ¬state.withValueAt? key last = none := by
      rw [withValueAt?, put?_eq_none_iff value, ← withValueAt?, hdone]
      nofun
    obtain ⟨final, hfinal⟩ := Option.ne_none_iff_exists'.1 hroom
    exact ⟨final, hfinal, (put?_put? hdone last).trans hfinal⟩

/-- A state with a list of rows and a number. -/
def ledger : Json :=
  .obj [("rows", .arr [.obj [("done", .bool false)]]), ("count", .num (.int 3))]

/-- The same with a second row, which has a text in an object of its own. -/
def longerLedger : Json :=
  .obj [("rows", .arr [.obj [("done", .bool false)], .obj [("note", .obj [("text", .str "x")])]]),
    ("count", .num (.int 3))]

/-- A write behind the last row makes two objects, and a key that spells the index differently
reads what it read before; a write into a number is refused. -/
theorem withValueAt?_lawful_ledger :
    ledger.withValueAt? "count.value" .null = none ∧
      ledger.writeInPlaceAt "count.value" .null = (ledger, false) ∧
      ledger.withValueAt? "rows.+01.note.text" (.str "x") = some longerLedger ∧
      ledger.writeInPlaceAt "rows.+01.note.text" (.str "x") = (longerLedger, true) ∧
      longerLedger.valueAt "rows.+01.note.text" = some (.str "x") ∧
      KeysApart "rows.+01.note.text" "rows.1.note.size" ∧
      longerLedger.valueAt "rows.1.note.size" = ledger.valueAt "rows.1.note.size" := by
  have hcount : keySegments "count.value" = ["count", "value"] := by decide +kernel
  have hrefused : ledger.withValueAt? "count.value" .null = none := by
    rw [withValueAt?, hcount, ledger]
    rfl
  have hkey : keySegments "rows.+01.note.text" = ["rows", "+01", "note", "text"] := by
    decide +kernel
  have hindex : index? "+01" = some 1 := by decide +kernel
  have hdone : ledger.withValueAt? "rows.+01.note.text" (.str "x") = some longerLedger := by
    rw [withValueAt?, hkey, ledger, longerLedger]
    simp [put?, hindex, OrderedMap.set]
  have hapart : KeysApart "rows.+01.note.text" "rows.1.note.size" := by decide +kernel
  obtain ⟨hinPlace, hread, -, hothers⟩ :=
    (withValueAt?_lawful ledger "rows.+01.note.text" (.str "x")).2 _ hdone
  exact ⟨hrefused, (withValueAt?_lawful ledger _ _).1 hrefused, hdone, hinPlace, hread, hapart,
    hothers _ hapart⟩

end Json

end PageTree
