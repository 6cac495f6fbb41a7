import Exc.Lib.Linked
import Exc.SkipList.Skiplist
import Mathlib.Data.Finset.Card

/-!
# Towers

What the memory of a skip list holds is a list of towers in the order of their keys; level `i` links
the header and the towers that are higher than `i`. `Holds` is this representation invariant and
`Valid` adds that the level of the list is the height of its highest tower.

A walk along a level stops at the last tower with a smaller key (`walk_spec`). That tower is higher
than the level, so it is also linked one level below, and the walk can go on from it there
(`descend_spec`): when the bottom is reached `update` holds the place of the key on every level, and
`q` is the first tower with a key that is not smaller.
-/

set_option autoImplicit false
set_option relaxedAutoImplicit false

namespace Exc.SkipList

open Lib

namespace Memory

/-! ### Slots and shapes -/

/-- The pointer in a forward slot, if there is one. -/
def slot (memory : Memory) (i : ℕ) (p : Addr) : Option Ptr :=
  (memory.heap p).bind fun node ↦ node.forward[i]?.join

/-- What a block keeps for its lifetime: the key, the value and the number of forward slots. -/
def shape (memory : Memory) (p : Addr) : Option (ℤ × ℤ × ℕ) :=
  (memory.heap p).map fun node ↦ (node.key, node.value, node.forward.length)

variable {memory : Memory} {p : Addr} {i : ℕ}

theorem getForward_of_slot {q : Ptr} (hslot : memory.slot i p = some q) :
    memory.getForward p i = .ok q := by
  unfold slot at hslot
  unfold getForward load
  obtain ⟨node, hnode, hjoin⟩ := Option.bind_eq_some_iff.mp hslot
  rw [hnode]
  rw [Option.join_eq_some_iff] at hjoin
  simp [bind, Except.bind, hjoin]

theorem load_of_shape {key value : ℤ} {slots : ℕ}
    (hshape : memory.shape p = some (key, value, slots)) :
    ∃ node, memory.load p = .ok node ∧ node.key = key ∧ node.value = value ∧
      node.forward.length = slots := by
  obtain ⟨node, hnode, heq⟩ := Option.map_eq_some_iff.mp hshape
  refine ⟨node, ?_, ?_⟩
  · rw [load, hnode]
  · simpa using heq

/-- Writing a slot inside the array changes that slot and nothing else. -/
theorem setForward_spec {key value : ℤ} {slots : ℕ}
    (hshape : memory.shape p = some (key, value, slots)) (hi : i < slots) (q : Ptr) :
    ∃ written, memory.setForward p i q = .ok written ∧ written.shape = memory.shape ∧
      written.fresh = memory.fresh ∧ written.slot i p = some q ∧
      ∀ j a, j ≠ i ∨ a ≠ p → written.slot j a = memory.slot j a := by
  obtain ⟨node, hload, hkey, hvalue, hlength⟩ := load_of_shape hshape
  have hnode : memory.heap p = some node := by
    unfold load at hload
    split at hload
    · rename_i found heap
      rw [heap, Except.ok.inj hload]
    · cases hload
  have hlt : i < node.forward.length := hlength ▸ hi
  let block : NodeStructure := { node with forward := node.forward.set i (some q) }
  refine ⟨⟨Function.update memory.heap p (some block), memory.fresh⟩, ?_, ?_, rfl, ?_, ?_⟩
  · unfold setForward
    rw [hload]
    exact if_pos hlt
  · funext a
    by_cases ha : a = p
    · subst ha
      simp [shape, block, hnode]
    · simp [shape, Function.update_of_ne ha]
  · simp [slot, block, hlt]
  · intro j a hother
    by_cases ha : a = p
    · subst ha
      have hj : i ≠ j := fun heq ↦ hother.elim (fun hne ↦ hne heq.symm) fun hne ↦ hne rfl
      simp [slot, block, hnode, List.getElem?_set_ne hj]
    · simp [slot, Function.update_of_ne ha]

end Memory

/-! ### The representation invariant -/

/-- A node of the list: its address, key and value, and the number of levels it is linked on. -/
structure Tower where
  addr : Addr
  key : ℤ
  value : ℤ
  height : ℕ

/-- The addresses of towers. -/
def addrs (towers : List Tower) : List Addr := towers.map Tower.addr

/-- The towers that are linked on a level. -/
def atLevel (i : ℕ) (towers : List Tower) : List Tower :=
  towers.filter fun t ↦ i < t.height

/-- The height of the highest tower. -/
def topLevel (towers : List Tower) : ℕ := towers.foldr (fun t top ↦ max t.height top) 0

/-- The memory holds the towers, linked from the header on every level. -/
structure Holds (memory : Memory) (header : Addr) (towers : List Tower) : Prop where
  header_stored : ∃ key value, memory.shape header = some (key, value, maxLevel)
  stored : ∀ t ∈ towers, memory.shape t.addr = some (t.key, t.value, t.height + 1)
  heights : ∀ t ∈ towers, 1 ≤ t.height ∧ t.height ≤ maxLevel
  sorted : towers.Pairwise fun s t ↦ s.key < t.key
  distinct : (header :: addrs towers).Nodup
  allocated : ∀ a ∈ header :: addrs towers, a < memory.fresh
  linked : ∀ i < maxLevel, Linked (memory.slot i) (header :: addrs (atLevel i towers))

/-- The list holds the towers, and its level is the height of the highest. -/
structure Valid (sl : Skiplist) (towers : List Tower) : Prop
    extends Holds sl.memory sl.header towers where
  level_eq : sl.level = topLevel towers

section Lists

variable {i : ℕ} {towers before after : List Tower} {t : Tower}

@[simp] theorem addrs_nil : addrs [] = [] := rfl

@[simp] theorem addrs_cons : addrs (t :: towers) = t.addr :: addrs towers := rfl

@[simp] theorem addrs_append : addrs (before ++ after) = addrs before ++ addrs after :=
  List.map_append

@[simp] theorem atLevel_append :
    atLevel i (before ++ after) = atLevel i before ++ atLevel i after :=
  List.filter_append ..

theorem atLevel_cons_of_lt (hlt : i < t.height) : atLevel i (t :: towers) = t :: atLevel i towers :=
  List.filter_cons_of_pos (by simpa using hlt)

theorem atLevel_cons_of_le (hle : t.height ≤ i) : atLevel i (t :: towers) = atLevel i towers :=
  List.filter_cons_of_neg (by simpa using hle)

theorem mem_atLevel : t ∈ atLevel i towers ↔ t ∈ towers ∧ i < t.height := by
  simp [atLevel]

theorem mem_of_mem_addrs_atLevel {a : Addr} (ha : a ∈ addrs (atLevel i towers)) :
    a ∈ addrs towers :=
  List.map_subset _ (List.filter_subset_self _) ha

theorem atLevel_zero (hheights : ∀ t ∈ towers, 1 ≤ t.height) : atLevel 0 towers = towers :=
  List.filter_eq_self.mpr fun t ht ↦ decide_eq_true (hheights t ht)

/-- A level is below the top exactly when some tower is linked on it. -/
theorem lt_topLevel : i < topLevel towers ↔ ∃ t ∈ towers, i < t.height := by
  induction towers with
  | nil => simp [topLevel]
  | cons first rest ih =>
    change i < max first.height (topLevel rest) ↔ _
    rw [lt_max_iff, ih]
    simp

theorem atLevel_eq_nil (hle : topLevel towers ≤ i) : atLevel i towers = [] := by
  refine List.filter_eq_nil_iff.mpr fun t ht hlt ↦ ?_
  exact absurd (lt_topLevel.mpr ⟨t, ht, by simpa using hlt⟩) (not_lt.mpr hle)

end Lists

namespace Holds

variable {memory : Memory} {header : Addr} {towers : List Tower}

/-- The addresses that are linked on a level are distinct. -/
theorem nodup_level (h : Holds memory header towers) (i : ℕ) :
    (header :: addrs (atLevel i towers)).Nodup := by
  refine h.distinct.sublist (List.Sublist.cons_cons header ?_)
  exact List.Sublist.map _ List.filter_sublist

/-- A level is not longer than the number of blocks made so far, so the walks end. -/
theorem length_lt (h : Holds memory header towers) (i : ℕ) :
    (atLevel i towers).length < memory.fresh := by
  have hsubset : (header :: addrs (atLevel i towers)).toFinset ⊆ Finset.range memory.fresh := by
    intro a ha
    rw [List.mem_toFinset] at ha
    rw [Finset.mem_range]
    refine h.allocated a ?_
    rcases List.mem_cons.mp ha with rfl | hlevel
    · exact List.mem_cons_self
    · exact List.mem_cons_of_mem _ (mem_of_mem_addrs_atLevel hlevel)
  have hcard := Finset.card_le_card hsubset
  rw [List.toFinset_card_of_nodup (h.nodup_level i), Finset.card_range, List.length_cons, addrs,
    List.length_map] at hcard
  exact hcard

end Holds

/-! ### Walks -/

/-- A walk along a level stops behind the towers with smaller keys. -/
theorem walk_spec {memory : Memory} {key : ℤ} {i : ℕ} {after : List Tower}
    (hafter : ∀ t ∈ after, key ≤ t.key) : ∀ (before : List Tower) (p : Addr) (steps : ℕ),
      before.length < steps → Linked (memory.slot i) (p :: addrs (before ++ after)) →
      (∀ t ∈ before ++ after, memory.shape t.addr = some (t.key, t.value, t.height + 1)) →
      (∀ t ∈ before, t.key < key) →
      walk memory key i steps p = .ok ((addrs before).getLastD p, (addrs after).head?) := by
  intro before
  induction before with
  | nil =>
    intro p steps hsteps hlinked hstored _
    obtain ⟨steps, rfl⟩ : ∃ rest, steps = rest + 1 := ⟨steps - 1, by simp at hsteps; omega⟩
    rw [walk, Memory.getForward_of_slot hlinked.1]
    cases after with
    | nil => rfl
    | cons t rest =>
      obtain ⟨node, hload, hkey, -⟩ := Memory.load_of_shape (hstored t List.mem_cons_self)
      have hstop : ¬ node.key < key := by
        rw [hkey]
        exact not_lt.mpr (hafter t List.mem_cons_self)
      simp [bind, Except.bind, hload, hstop, pure, Except.pure]
  | cons t before ih =>
    intro p steps hsteps hlinked hstored hbefore
    obtain ⟨steps, rfl⟩ : ∃ rest, steps = rest + 1 := ⟨steps - 1, by simp at hsteps; omega⟩
    obtain ⟨node, hload, hkey, -⟩ := Memory.load_of_shape (hstored t List.mem_cons_self)
    have hgo : node.key < key := by
      rw [hkey]
      exact hbefore t List.mem_cons_self
    have hnext := ih t.addr steps (by simpa using hsteps) hlinked.2
      (fun s hs ↦ hstored s (List.mem_cons_of_mem _ hs))
      fun s hs ↦ hbefore s (List.mem_cons_of_mem _ hs)
    rw [walk, Memory.getForward_of_slot hlinked.1]
    simp only [List.cons_append, addrs_cons, List.head?_cons, bind, Except.bind, hload, if_pos hgo]
    rw [hnext, List.getLastD_cons]

/-- Where a key belongs on a level: the last tower there with a smaller key, or the header. -/
def place (header : Addr) (before : List Tower) (i : ℕ) : Addr :=
  (addrs (atLevel i before)).getLastD header

/-- A level splits at the place of the key. -/
theorem place_split (header : Addr) (before : List Tower) (i : ℕ) :
    ∃ front, header :: addrs (atLevel i before) = front ++ [place header before i] := by
  refine ⟨(header :: addrs (atLevel i before)).dropLast, ?_⟩
  rw [place, ← List.getLast_eq_getLastD (List.cons_ne_nil _ _)]
  exact (List.dropLast_append_getLast _).symm

theorem level_split (header : Addr) (before after : List Tower) (i : ℕ) :
    ∃ front, header :: addrs (atLevel i before) = front ++ [place header before i] ∧
      header :: addrs (atLevel i (before ++ after)) =
        front ++ place header before i :: addrs (atLevel i after) := by
  obtain ⟨front, hsplit⟩ := place_split header before i
  refine ⟨front, hsplit, ?_⟩
  rw [atLevel_append, addrs_append, ← List.cons_append, hsplit, List.append_assoc,
    List.singleton_append]

/-- The place of a key on a level is the header or a tower that is linked there. -/
theorem place_cases (header : Addr) (before : List Tower) (i : ℕ) :
    place header before i = header ∨
      ∃ t ∈ before, t.addr = place header before i ∧ i < t.height := by
  obtain ⟨front, hsplit⟩ := place_split header before i
  have hmem : place header before i ∈ header :: addrs (atLevel i before) := by simp [hsplit]
  rcases List.mem_cons.mp hmem with heq | htower
  · exact Or.inl heq
  · obtain ⟨t, ht, heq⟩ := List.mem_map.mp htower
    obtain ⟨hbefore, hlt⟩ := mem_atLevel.mp ht
    exact Or.inr ⟨t, hbefore, heq, hlt⟩

section Descend

variable {memory : Memory} {header : Addr} {key : ℤ} {before after : List Tower}

/-- What lies ahead of an address on a level, up to the place of the key and behind it. -/
theorem Holds.ahead (h : Holds memory header (before ++ after)) {i : ℕ} (hi : i < maxLevel)
    {p : Addr} (hp : p ∈ header :: addrs (atLevel i before)) :
    ∃ back : List Tower, (∀ t ∈ back, t ∈ before) ∧ back.length < memory.fresh + 1 ∧
      Linked (memory.slot i) (p :: addrs (back ++ atLevel i after)) ∧
      place header before i = (addrs back).getLastD p := by
  have hlinked := h.linked i hi
  have hlength := h.length_lt i
  rw [atLevel_append] at hlinked hlength
  rw [List.length_append] at hlength
  rcases List.mem_cons.mp hp with rfl | htower
  · exact ⟨atLevel i before, fun t ht ↦ (mem_atLevel.mp ht).1, by omega, hlinked, rfl⟩
  · obtain ⟨t, ht, rfl⟩ := List.mem_map.mp htower
    obtain ⟨front, back, hsplit⟩ := List.append_of_mem ht
    rw [hsplit] at hlinked hlength
    refine ⟨back, fun s hs ↦ ?_, ?_, ?_, ?_⟩
    · exact (mem_atLevel.mp (hsplit ▸ List.mem_append_right _ (List.mem_cons_of_mem _ hs))).1
    · simp only [List.length_append, List.length_cons] at hlength
      omega
    · have hrest : Linked (memory.slot i)
          ((header :: addrs front) ++ t.addr :: addrs (back ++ atLevel i after)) := by
        simpa using hlinked
      exact hrest.of_append
    · rw [place, hsplit, addrs_append, addrs_cons, List.getLastD_eq_getLast?,
        List.getLast?_append_cons, ← List.getLastD_eq_getLast?, List.getLastD_cons]

/-- What lies ahead on a level is stored. -/
theorem Holds.stored_ahead (h : Holds memory header (before ++ after)) {back : List Tower}
    (hback : ∀ t ∈ back, t ∈ before) (i : ℕ) :
    ∀ t ∈ back ++ atLevel i after, memory.shape t.addr = some (t.key, t.value, t.height + 1) := by
  intro t ht
  refine h.stored t ?_
  rcases List.mem_append.mp ht with hold | hnew
  · exact List.mem_append_left _ (hback t hold)
  · exact List.mem_append_right _ (mem_atLevel.mp hnew).1

/-- A walk along a level ends at the place of the key, from wherever it starts before it. -/
theorem walk_place (h : Holds memory header (before ++ after)) (hbefore : ∀ t ∈ before, t.key < key)
    (hafter : ∀ t ∈ after, key ≤ t.key) {i : ℕ} (hi : i < maxLevel) {p : Addr}
    (hp : p ∈ header :: addrs (atLevel i before)) :
    walk memory key i (memory.fresh + 1) p =
      .ok (place header before i, (addrs (atLevel i after)).head?) := by
  obtain ⟨back, hback, hlength, hlinked, hplace⟩ := h.ahead hi hp
  rw [hplace]
  exact walk_spec (fun t ht ↦ hafter t (mem_atLevel.mp ht).1) back p _ hlength hlinked
    (h.stored_ahead hback i) fun t ht ↦ hbefore t (hback t ht)

/-- An address of which a higher level is known is linked on the level below. -/
theorem mem_level_of_le {i : ℕ} {p : Addr}
    (hp : p = header ∨ ∃ t ∈ before, t.addr = p ∧ i < t.height) :
    p ∈ header :: addrs (atLevel i before) := by
  rcases hp with rfl | ⟨t, ht, rfl, hheight⟩
  · exact List.mem_cons_self
  · exact List.mem_cons_of_mem _ (List.mem_map_of_mem (mem_atLevel.mpr ⟨ht, hheight⟩))

/-- The place of a key on a level is linked on all levels below. -/
theorem place_le (header : Addr) (before : List Tower) (i : ℕ) :
    place header before i = header ∨
      ∃ t ∈ before, t.addr = place header before i ∧ i ≤ t.height := by
  rcases place_cases header before i with heq | ⟨t, ht, heq, hlt⟩
  · exact Or.inl heq
  · exact Or.inr ⟨t, ht, heq, hlt.le⟩

/-- The loop over the levels finds the place of the key on each of them. -/
theorem descend_spec (h : Holds memory header (before ++ after))
    (hbefore : ∀ t ∈ before, t.key < key) (hafter : ∀ t ∈ after, key ≤ t.key) :
    ∀ (i : ℕ) (p : Addr) (q : Ptr) (update : Update), i ≤ maxLevel →
      (p = header ∨ ∃ t ∈ before, t.addr = p ∧ i ≤ t.height) →
      descend memory key i p q update =
        .ok (if i = 0 then q else (addrs after).head?,
          fun j ↦ if j < i then some (place header before j) else update j) := by
  intro i
  induction i with
  | zero =>
    intro p q update _ _
    simp [descend, pure, Except.pure]
  | succ i ih =>
    intro p q update hi hp
    rw [descend, walk_place h hbefore hafter hi (mem_level_of_le hp)]
    simp only [bind, Except.bind]
    rw [ih _ _ _ (by omega) (place_le header before i)]
    have hbottom : (if i = 0 then (addrs (atLevel i after)).head? else (addrs after).head?) =
        (addrs after).head? := by
      split_ifs with hzero
      · rw [hzero, atLevel_zero fun t ht ↦ (h.heights t (List.mem_append_right _ ht)).1]
      · rfl
    have hupdate : (fun j ↦ if j < i then some (place header before j)
        else Function.update update i (some (place header before i)) j) =
        fun j ↦ if j < i + 1 then some (place header before j) else update j := by
      funext j
      rcases lt_trichotomy j i with hlt | rfl | hgt
      · rw [if_pos hlt, if_pos (by omega)]
      · simp
      · rw [if_neg (by omega), if_neg (by omega), Function.update_of_ne (by omega)]
    rw [hbottom, hupdate, if_neg (Nat.succ_ne_zero i)]

end Descend

end Exc.SkipList
