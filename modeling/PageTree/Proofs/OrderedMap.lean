import Mathlib.Data.List.Nodup
import Mathlib.Tactic.Common
import PageTree.OrderedMap

/-!
# Laws of maps in insertion order

Look-ups after each operation, and the names that an operation leaves in the map. A map whose names
are distinct is the map of its entries.

## Main results

* `OrderedMap.lookup_set`, `OrderedMap.lookup_setNew`, `OrderedMap.lookup_erase`
* `OrderedMap.nodup_set`, `OrderedMap.nodup_overlay`
* `OrderedMap.ofEntries_eq_self`
* `OrderedMap.overlay_overlay`
-/

namespace PageTree

namespace OrderedMap

variable {α : Type}

/-- The names of a map, in order. -/
def names (map : OrderedMap α) : List String := map.map (·.1)

@[simp] theorem names_nil : names ([] : OrderedMap α) = [] := rfl

@[simp] theorem names_cons (entry : String × α) (map : OrderedMap α) :
    names (entry :: map) = entry.1 :: names map := rfl

@[simp] theorem names_append (a b : OrderedMap α) : names (a ++ b) = names a ++ names b :=
  List.map_append

/-! ## Look-ups -/

theorem lookup_cons_self (name : String) (value : α) (map : OrderedMap α) :
    List.lookup name ((name, value) :: map) = some value := by
  rw [List.lookup_cons, beq_self_eq_true]

theorem lookup_cons_of_ne {name : String} {entry : String × α} (h : name ≠ entry.1)
    (map : OrderedMap α) : List.lookup name (entry :: map) = List.lookup name map := by
  rw [List.lookup_cons, beq_eq_false_iff_ne.2 h]

theorem lookup_eq_none_iff {name : String} {map : OrderedMap α} :
    map.lookup name = none ↔ name ∉ names map := by
  induction map with
  | nil => simp
  | cons entry map ih =>
    by_cases h : name = entry.1
    · rw [h, lookup_cons_self]
      simp
    · rw [lookup_cons_of_ne h, ih]
      simp [h]

theorem contains_iff {name : String} {map : OrderedMap α} :
    contains name map = true ↔ name ∈ names map := by
  rw [contains, Option.isSome_iff_ne_none, ne_eq, lookup_eq_none_iff, not_not]

theorem mem_of_lookup {name : String} {value : α} {map : OrderedMap α}
    (h : map.lookup name = some value) : (name, value) ∈ map := by
  induction map with
  | nil => simp at h
  | cons entry map ih =>
    by_cases hname : name = entry.1
    · rw [hname, lookup_cons_self] at h
      obtain rfl := Option.some.inj h
      rw [hname]
      exact List.mem_cons_self
    · rw [lookup_cons_of_ne hname] at h
      exact List.mem_cons_of_mem _ (ih h)

theorem lookup_of_mem {map : OrderedMap α} (hnames : (names map).Nodup) {entry : String × α}
    (h : entry ∈ map) : map.lookup entry.1 = some entry.2 := by
  induction map with
  | nil => cases h
  | cons first map ih =>
    obtain ⟨hfirst, hnames⟩ := List.nodup_cons.1 hnames
    rcases List.mem_cons.1 h with rfl | h
    · exact lookup_cons_self _ _ _
    · have hne : entry.1 ≠ first.1 := by
        intro heq
        have hname : entry.1 ∈ names map := List.mem_map_of_mem h
        rw [heq] at hname
        exact hfirst hname
      rw [lookup_cons_of_ne hne]
      exact ih hnames h

theorem lookup_append (name : String) (a b : OrderedMap α) :
    (a ++ b).lookup name = (a.lookup name).or (b.lookup name) := by
  induction a with
  | nil => rfl
  | cons entry a ih =>
    rw [List.cons_append]
    by_cases h : name = entry.1
    · rw [h, lookup_cons_self, lookup_cons_self, Option.some_or]
    · rw [lookup_cons_of_ne h, lookup_cons_of_ne h]
      exact ih

@[simp] theorem lookup_set (name other : String) (value : α) (map : OrderedMap α) :
    (set name value map).lookup other = if other = name then some value else map.lookup other := by
  induction map with
  | nil =>
    by_cases h : other = name
    · simp [set, h]
    · rw [set, if_neg h]
      exact lookup_cons_of_ne h []
  | cons entry map ih =>
    obtain ⟨n, v⟩ := entry
    rw [set]
    by_cases hn : n = name
    · subst hn
      rw [if_pos rfl]
      by_cases h : other = n
      · rw [if_pos h, h, lookup_cons_self]
      · rw [if_neg h, lookup_cons_of_ne h, lookup_cons_of_ne h]
    · rw [if_neg hn]
      by_cases h : other = n
      · have hne : other ≠ name := h ▸ hn
        rw [if_neg hne, h, lookup_cons_self, lookup_cons_self]
      · rw [lookup_cons_of_ne h, lookup_cons_of_ne h, ih]

theorem lookup_setNew (name other : String) (value : α) (map : OrderedMap α) :
    (setNew name value map).lookup other =
      (map.lookup other).or (if other = name then some value else none) := by
  unfold setNew
  split_ifs with hin h h
  · subst h
    obtain ⟨v, hv⟩ := Option.isSome_iff_exists.1 hin
    simp [hv]
  · simp
  · subst h
    rw [lookup_append, lookup_cons_self]
  · rw [lookup_append, lookup_cons_of_ne h]
    rfl

@[simp] theorem lookup_erase (name other : String) (map : OrderedMap α) :
    (erase name map).lookup other = if other = name then none else map.lookup other := by
  induction map with
  | nil => simp [erase]
  | cons entry map ih =>
    unfold erase at ih ⊢
    by_cases hn : entry.1 = name
    · rw [List.filter_cons_of_neg (by simp [hn]), ih]
      by_cases h : other = name
      · rw [if_pos h, if_pos h]
      · rw [lookup_cons_of_ne (hn ▸ h)]
    · rw [List.filter_cons_of_pos (by simp [hn])]
      by_cases h : other = entry.1
      · have hne : other ≠ name := h ▸ hn
        rw [if_neg hne, h, lookup_cons_self, lookup_cons_self]
      · rw [lookup_cons_of_ne h, lookup_cons_of_ne h, ih]

/-! ## Names -/

theorem length_filter_eq_count (name : String) (map : OrderedMap α) :
    (map.filter fun entry => entry.1 == name).length = (names map).count name := by
  rw [← List.countP_eq_length_filter, names, List.count, List.countP_map]
  rfl

theorem names_set (name : String) (value : α) (map : OrderedMap α) :
    names (set name value map) =
      if name ∈ names map then names map else names map ++ [name] := by
  induction map with
  | nil => simp [set]
  | cons entry map ih =>
    obtain ⟨n, v⟩ := entry
    by_cases hn : n = name
    · simp [set, hn]
    · have hne : name ≠ n := Ne.symm hn
      by_cases hin : name ∈ names map
      · simp [set, hn, hne, ih, hin]
      · simp [set, hn, hne, ih, hin]

theorem nodup_set {name : String} {value : α} {map : OrderedMap α} (h : (names map).Nodup) :
    (names (set name value map)).Nodup := by
  rw [names_set]
  split_ifs with hin
  · exact h
  · exact List.nodup_append.2 ⟨h, List.nodup_singleton name, by
      rintro a ha b hb rfl
      exact hin (List.mem_singleton.1 hb ▸ ha)⟩

theorem nodup_overlay {map : OrderedMap α} (patch : OrderedMap α) (h : (names map).Nodup) :
    (names (overlay map patch)).Nodup := by
  induction patch generalizing map with
  | nil => exact h
  | cons entry patch ih => exact ih (nodup_set h)

theorem mem_of_mem_set {name : String} {value : α} {map : OrderedMap α} {entry : String × α}
    (h : entry ∈ set name value map) : entry = (name, value) ∨ entry ∈ map := by
  induction map with
  | nil => exact Or.inl (List.mem_singleton.1 h)
  | cons first map ih =>
    rw [set] at h
    split_ifs at h with hname
    · rcases List.mem_cons.1 h with rfl | h
      · exact Or.inl (Prod.ext hname rfl)
      · exact Or.inr (List.mem_cons_of_mem _ h)
    · rcases List.mem_cons.1 h with rfl | h
      · exact Or.inr (List.mem_cons_self ..)
      · exact (ih h).imp_right (List.mem_cons_of_mem _)

theorem mem_of_mem_overlay {map patch : OrderedMap α} {entry : String × α}
    (h : entry ∈ overlay map patch) : entry ∈ map ∨ entry ∈ patch := by
  induction patch generalizing map with
  | nil => exact Or.inl h
  | cons first patch ih =>
    rcases ih h with h | h
    · exact (mem_of_mem_set h).elim (fun h => Or.inr (h ▸ List.mem_cons_self ..)) Or.inl
    · exact Or.inr (List.mem_cons_of_mem _ h)

theorem mem_names_overlay {name : String} {map patch : OrderedMap α} :
    name ∈ names (overlay map patch) ↔ name ∈ names map ∨ name ∈ names patch := by
  induction patch generalizing map with
  | nil => simp [overlay]
  | cons entry patch ih =>
    have hset : name ∈ names (set entry.1 entry.2 map) ↔ name ∈ names map ∨ name = entry.1 := by
      rw [names_set]
      split_ifs with hin
      · exact ⟨Or.inl, fun h => h.elim id fun h => h ▸ hin⟩
      · simp
    rw [overlay, List.foldl_cons, ← overlay, ih, hset, names_cons, List.mem_cons, or_assoc]

/-- The entries of the patch win. -/
theorem lookup_overlay (name : String) {map patch : OrderedMap α} (h : (names patch).Nodup) :
    (overlay map patch).lookup name = (patch.lookup name).or (map.lookup name) := by
  induction patch generalizing map with
  | nil => rfl
  | cons entry patch ih =>
    obtain ⟨hnot, hrest⟩ := List.nodup_cons.1 h
    rw [overlay, List.foldl_cons, ← overlay, ih hrest, lookup_set]
    by_cases hname : name = entry.1
    · subst hname
      rw [lookup_eq_none_iff.2 hnot, if_pos rfl, List.lookup_cons_self]
      rfl
    · rw [if_neg hname, List.lookup_cons, beq_eq_false_iff_ne.2 hname]

theorem set_of_not_mem {name : String} {value : α} {map : OrderedMap α} (h : name ∉ names map) :
    set name value map = map ++ [(name, value)] := by
  induction map with
  | nil => rfl
  | cons entry map ih =>
    obtain ⟨n, v⟩ := entry
    obtain ⟨hne, hrest⟩ := not_or.1 (mt List.mem_cons.2 h)
    rw [set, if_neg (Ne.symm hne), ih hrest, List.cons_append]

/-! ## Setting twice -/

/-- Of two values for one name the last one stays. -/
theorem set_set (name : String) (first last : α) (map : OrderedMap α) :
    set name last (set name first map) = set name last map := by
  induction map with
  | nil => simp [set]
  | cons entry map ih =>
    obtain ⟨n, v⟩ := entry
    by_cases h : n = name
    · simp [set, h]
    · simp [set, h, ih]

/-- Giving a name the value that it has changes nothing. -/
theorem set_of_lookup {name : String} {value : α} {map : OrderedMap α}
    (h : map.lookup name = some value) : set name value map = map := by
  induction map with
  | nil => cases h
  | cons entry map ih =>
    obtain ⟨n, v⟩ := entry
    by_cases hn : n = name
    · subst hn
      rw [lookup_cons_self] at h
      rw [set, if_pos rfl, Option.some.inj h]
    · rw [lookup_cons_of_ne (Ne.symm hn)] at h
      rw [set, if_neg hn, ih h]

/-- Values for two names are set in either order when one of the names has its place. -/
theorem set_comm {name other : String} (hne : other ≠ name) (value otherValue : α)
    {map : OrderedMap α} (h : name ∈ names map) :
    set name value (set other otherValue map) = set other otherValue (set name value map) := by
  induction map with
  | nil => cases h
  | cons entry map ih =>
    obtain ⟨n, v⟩ := entry
    by_cases hname : n = name
    · have hother : n ≠ other := fun heq => hne (heq.symm.trans hname)
      rw [set, if_neg hother, set, if_pos hname, set, if_pos hname, set, if_neg hother]
    · have hrest : name ∈ names map := (List.mem_cons.1 h).resolve_left (Ne.symm hname)
      by_cases hother : n = other
      · rw [set, if_pos hother, set, if_neg hname, set, if_neg hname, set, if_pos hother]
      · rw [set, if_neg hother, set, if_neg hname, set, if_neg hname, set, if_neg hother, ih hrest]

/-- A name that has its place may be set before a patch that does not set it. -/
theorem set_overlay {name : String} {value : α} {patch : OrderedMap α} (hnot : name ∉ names patch) :
    ∀ {map : OrderedMap α}, name ∈ names map →
      set name value (overlay map patch) = overlay (set name value map) patch := by
  induction patch with
  | nil => exact fun _ => rfl
  | cons entry patch ih =>
    intro map hin
    obtain ⟨hne, hrest⟩ := not_or.1 (mt List.mem_cons.2 hnot)
    have hplace : name ∈ names (set entry.1 entry.2 map) := by
      rw [names_set]
      split_ifs
      · exact hin
      · exact List.mem_append_left _ hin
    rw [overlay, List.foldl_cons, ← overlay, ih hrest hplace, set_comm (Ne.symm hne) _ _ hin]
    rfl

/-- A name that is set in a patch is set after it. -/
theorem overlay_set {name : String} {value : α} {patch : OrderedMap α} (h : (names patch).Nodup) :
    ∀ map : OrderedMap α,
      overlay map (set name value patch) = set name value (overlay map patch) := by
  induction patch with
  | nil => exact fun _ => rfl
  | cons entry patch ih =>
    intro map
    obtain ⟨n, v⟩ := entry
    obtain ⟨hnot, hrest⟩ := List.nodup_cons.1 h
    have hcons (entry : String × α) (patch : OrderedMap α) :
        overlay map (entry :: patch) = overlay (set entry.1 entry.2 map) patch := rfl
    rw [set]
    split_ifs with hname
    · subst hname
      have hplace : n ∈ names (set n v map) := by
        rw [names_set]
        split_ifs with hin
        · exact hin
        · exact List.mem_append_right _ (List.mem_singleton_self n)
      rw [hcons, hcons, set_overlay hnot hplace, set_set]
    · rw [hcons, hcons, ih hrest]

/-- **Two overlays are one**: entries and their order are those of the map with the second patch
laid over the first one. -/
theorem overlay_overlay {patch : OrderedMap α} (map other : OrderedMap α)
    (h : (names patch).Nodup) :
    overlay (overlay map patch) other = overlay map (overlay patch other) := by
  induction other generalizing patch with
  | nil => rfl
  | cons entry other ih =>
    have hnodup : (names (set entry.1 entry.2 patch)).Nodup := nodup_set h
    have hset := ih hnodup
    rwa [overlay_set h] at hset

theorem overlay_eq_append {map patch : OrderedMap α} (h : (names (map ++ patch)).Nodup) :
    overlay map patch = map ++ patch := by
  induction patch generalizing map with
  | nil => simp [overlay]
  | cons entry patch ih =>
    have hnot : entry.1 ∉ names map := by
      rw [names_append, List.nodup_append] at h
      exact fun hin => h.2.2 _ hin _ (by simp) rfl
    have hset : set entry.1 entry.2 map = map ++ [entry] := set_of_not_mem hnot
    rw [overlay, List.foldl_cons, hset, ← overlay, ih (by simpa using h)]
    simp

/-- **A map with distinct names is the map of its entries.** -/
theorem ofEntries_eq_self {map : OrderedMap α} (h : (names map).Nodup) : ofEntries map = map :=
  overlay_eq_append h

theorem nodup_ofEntries (entries : List (String × α)) : (names (ofEntries entries)).Nodup :=
  nodup_overlay entries List.nodup_nil

theorem mem_of_mem_ofEntries {entries : List (String × α)} {entry : String × α}
    (h : entry ∈ ofEntries entries) : entry ∈ entries :=
  (mem_of_mem_overlay h).resolve_left List.not_mem_nil

/-- Entries with new names are put behind a map one after the other. -/
theorem foldl_setNew {map entries : OrderedMap α} (h : (names (map ++ entries)).Nodup) :
    entries.foldl (fun m entry => setNew entry.1 entry.2 m) map = map ++ entries := by
  induction entries generalizing map with
  | nil => simp
  | cons entry entries ih =>
    have hnot : entry.1 ∉ names map := by
      rw [names_append, List.nodup_append] at h
      exact fun hin => h.2.2 _ hin _ (by simp) rfl
    have hnew : setNew entry.1 entry.2 map = map ++ [entry] :=
      if_neg (mt contains_iff.1 hnot)
    rw [List.foldl_cons, hnew, ih (by simpa using h)]
    simp

/-! ## Leaving names out -/

/-- The entries of other names, in their order. -/
def without (names : List String) (map : OrderedMap α) : OrderedMap α :=
  map.filter fun entry => !names.contains entry.1

theorem without_append (names : List String) (a b : OrderedMap α) :
    without names (a ++ b) = without names a ++ without names b :=
  List.filter_append ..

theorem without_eq_nil {names : List String} {map : OrderedMap α}
    (h : OrderedMap.names map ⊆ names) : without names map = [] := by
  rw [without, List.filter_eq_nil_iff]
  intro entry hentry
  have hname := h (List.mem_map_of_mem hentry)
  simp [hname]

/-- Setting a name that is left out makes no difference. -/
theorem without_set {names : List String} {name : String} (h : name ∈ names) (value : α)
    (map : OrderedMap α) : without names (set name value map) = without names map := by
  induction map with
  | nil => exact List.filter_cons_of_neg (by simp [h])
  | cons entry map ih =>
    unfold without at ih ⊢
    rw [set]
    split_ifs with hname
    · subst hname
      rw [List.filter_cons_of_neg (by simp [h]), List.filter_cons_of_neg (by simp [h])]
    · rw [List.filter_cons, List.filter_cons, ih]

/-- So does erasing it. -/
theorem without_erase {names : List String} {name : String} (h : name ∈ names)
    (map : OrderedMap α) : without names (erase name map) = without names map := by
  rw [without, without, erase, List.filter_filter]
  refine List.filter_congr fun entry _ => ?_
  by_cases hname : entry.1 = name
  · simp [hname, h]
  · rw [bne_iff_ne.2 hname, Bool.and_true]

end OrderedMap

end PageTree
