import Exc.SkipList.FiniteMap

/-!
# The levels of the skip list

What the memory of a skip list looks like between two operations, level by level and without the
towers: `LevelsInvariant` speaks of the chains from the header, of the blocks that are allocated and
of the level drawn for each of them. The draws are not stored in a block; `applyRecorded` runs an
operation and writes them down beside the list.

The towers do not say which blocks are allocated. `RecordedTowers` adds that every block is the
header or a tower, and that the height of a tower is the level drawn for it. The loops that link and
unlink allocate nothing (`linkLevels_allocated`, `unlinkLevels_allocated`), so `insert` adds one
block (`insert_allocated`) and `deleteSL` takes the block of its key away (`deleteSL_allocated`).
The loop that lowers the level goes down once for each level at most, so the level does not become
negative.
-/

set_option autoImplicit false
set_option relaxedAutoImplicit false

namespace Exc.SkipList

open Lib

/-- The level drawn for each block. -/
abbrev Draws := Addr → ℕ

/-- The draws after an operation: an insertion that is done draws a level for its new block. -/
def Skiplist.record (sl : Skiplist) (draws : Draws) : Op → Result → Draws
  | .insert _ _ odds, .flag true => Function.update draws sl.memory.fresh (randomLevel odds)
  | _, _ => draws

/-- An operation on a list, with the draws written down. -/
def applyRecorded (state : Skiplist × Draws) (op : Op) :
    Except Fault (Result × (Skiplist × Draws)) := do
  let (result, next) ← state.1.apply op
  pure (result, next, state.1.record state.2 op result)

/-- The key of a block. -/
def Memory.keyAt (memory : Memory) (p : Addr) : Option ℤ := (memory.heap p).map NodeStructure.key

/-- The representation invariant: `chain i` are the nodes behind the header along `forward[i]`. -/
structure LevelsInvariant (sl : Skiplist) (draws : Draws) (chain : ℕ → List Addr) : Prop where
  linked : ∀ i < maxLevel, Linked (sl.memory.slot i) (sl.header :: chain i)
  increasing : ∀ i < maxLevel, (chain i).Pairwise fun p q ↦
    ∃ k l, sl.memory.keyAt p = some k ∧ sl.memory.keyAt q = some l ∧ k < l
  nested : ∀ i, i + 1 < maxLevel → (chain (i + 1)).Sublist (chain i)
  level_le : sl.level ≤ maxLevel
  header_next : ∀ i < maxLevel,
    ((∃ p, sl.memory.slot i sl.header = some (some p)) ↔ i < sl.level)
  node : ∀ p node, sl.memory.heap p = some node → p ≠ sl.header →
    1 ≤ draws p ∧ draws p ≤ maxLevel ∧ node.forward.length = draws p + 1 ∧
      ∀ i < maxLevel, p ∈ chain i ↔ i < draws p
  reachable : ∀ i < maxLevel, ∀ p ∈ chain i, p ≠ sl.header ∧
    ∃ node, sl.memory.heap p = some node ∧ i < node.forward.length

/-! ### Which blocks are allocated -/

/-- The block is allocated. -/
def Memory.Allocated (memory : Memory) (p : Addr) : Prop := ∃ node, memory.heap p = some node

section Allocated

variable {memory written : Memory}

/-- Writing a slot allocates nothing. -/
theorem setForward_allocated {p : Addr} {i : ℕ} {q : Ptr}
    (h : memory.setForward p i q = .ok written) {a : Addr} (ha : written.Allocated a) :
    memory.Allocated a := by
  obtain ⟨node, hload, hwrite⟩ := bind_eq_ok h
  split_ifs at hwrite with hlt
  cases hwrite
  by_cases heq : a = p
  · subst heq
    unfold Memory.load at hload
    split at hload
    · exact ⟨_, ‹_›⟩
    · cases hload
  · obtain ⟨block, hblock⟩ := ha
    exact ⟨block, by simpa [Function.update_of_ne heq] using hblock⟩

/-- A loop allocates nothing if none of its rounds does. -/
theorem loop_allocated (loop : ℕ → Except Fault Memory) {a : Addr} (hstart : loop 0 = .ok memory)
    (hround : ∀ i written, loop (i + 1) = .ok written →
      ∃ below, loop i = .ok below ∧ (written.Allocated a → below.Allocated a))
    (i : ℕ) {written : Memory} (h : loop i = .ok written) (ha : written.Allocated a) :
    memory.Allocated a := by
  induction i generalizing written with
  | zero =>
    obtain rfl := Except.ok.inj (hstart.symm.trans h)
    exact ha
  | succ i ih =>
    obtain ⟨below, hbelow, hkept⟩ := hround i written h
    exact ih hbelow (hkept ha)

/-- The loop that links a new tower allocates nothing. -/
theorem linkLevels_allocated {update : Update} {q a : Addr} (i : ℕ)
    (h : linkLevels update q i memory = .ok written) (ha : written.Allocated a) :
    memory.Allocated a := by
  refine loop_allocated (fun i ↦ linkLevels update q i memory) rfl ?_ i h ha
  intro i written h
  obtain ⟨below, hbelow, h⟩ := bind_eq_ok h
  obtain ⟨p, -, h⟩ := bind_eq_ok h
  obtain ⟨next, -, h⟩ := bind_eq_ok h
  obtain ⟨linked, hlinked, h⟩ := bind_eq_ok h
  exact ⟨below, hbelow, fun ha ↦ setForward_allocated hlinked (setForward_allocated h ha)⟩

/-- The loop that unlinks a tower allocates nothing. -/
theorem unlinkLevels_allocated {update : Update} {q a : Addr} (i : ℕ)
    (h : unlinkLevels update q i memory = .ok written) (ha : written.Allocated a) :
    memory.Allocated a := by
  refine loop_allocated (fun i ↦ unlinkLevels update q i memory) rfl ?_ i h ha
  intro i written h
  obtain ⟨below, hbelow, h⟩ := bind_eq_ok h
  obtain ⟨p, -, h⟩ := bind_eq_ok h
  obtain ⟨next, -, h⟩ := bind_eq_ok h
  split_ifs at h with hnext
  · obtain ⟨behind, -, h⟩ := bind_eq_ok h
    exact ⟨below, hbelow, fun ha ↦ setForward_allocated h ha⟩
  · cases h
    exact ⟨_, hbelow, fun ha ↦ ha⟩

/-- The loop that clears the pointers of the header allocates nothing. -/
theorem clearForward_allocated {header a : Addr} (i : ℕ)
    (h : clearForward header i memory = .ok written) (ha : written.Allocated a) :
    memory.Allocated a := by
  refine loop_allocated (fun i ↦ clearForward header i memory) rfl ?_ i h ha
  intro i written h
  obtain ⟨below, hbelow, h⟩ := bind_eq_ok h
  exact ⟨below, hbelow, fun ha ↦ setForward_allocated h ha⟩

variable {sl next : Skiplist} {key value : ℤ} {a : Addr}

/-- `insert` keeps the header. -/
theorem insert_header {odds : ℕ} {done : Bool} (h : sl.insert key value odds = .ok (done, next)) :
    next.header = sl.header := by
  obtain ⟨⟨q, update⟩, -, h⟩ := bind_eq_ok h
  obtain ⟨found, -, h⟩ := bind_eq_ok h
  split_ifs at h with hfound
  · cases h
    rfl
  · obtain ⟨linked, -, h⟩ := bind_eq_ok h
    cases h
    rfl

/-- `deleteSL` keeps the header. -/
theorem deleteSL_header {done : Bool} (h : sl.deleteSL key = .ok (done, next)) :
    next.header = sl.header := by
  obtain ⟨⟨q, update⟩, -, h⟩ := bind_eq_ok h
  obtain ⟨found, -, h⟩ := bind_eq_ok h
  split at h
  · obtain ⟨unlinked, -, h⟩ := bind_eq_ok h
    obtain ⟨level, -, h⟩ := bind_eq_ok h
    cases h
    rfl
  · cases h
    rfl

/-- `insert` allocates the block of the new node only. -/
theorem insert_allocated {odds : ℕ} (h : sl.insert key value odds = .ok (true, next))
    (ha : next.memory.Allocated a) : a = sl.memory.fresh ∨ sl.memory.Allocated a := by
  obtain ⟨⟨q, update⟩, -, h⟩ := bind_eq_ok h
  obtain ⟨found, -, h⟩ := bind_eq_ok h
  split_ifs at h with hfound
  · cases h
  · obtain ⟨linked, hlinked, h⟩ := bind_eq_ok h
    cases h
    obtain ⟨node, hnode⟩ := linkLevels_allocated _ hlinked ha
    by_cases heq : a = sl.memory.fresh
    · exact Or.inl heq
    · exact Or.inr ⟨node, by simpa [Memory.createNode, Function.update_of_ne heq] using hnode⟩

/-- `deleteSL` allocates nothing and frees the block that its search ends at. -/
theorem deleteSL_allocated {q : Addr} {update : Update}
    (hdescend : descend sl.memory key sl.level sl.header none (fun _ ↦ none) =
      .ok (some q, update))
    (h : sl.deleteSL key = .ok (true, next)) (ha : next.memory.Allocated a) :
    a ≠ q ∧ sl.memory.Allocated a := by
  obtain ⟨⟨q', update'⟩, hfirst, h⟩ := bind_eq_ok h
  cases hdescend.symm.trans hfirst
  obtain ⟨found, -, h⟩ := bind_eq_ok h
  cases found with
  | false => cases h
  | true =>
    obtain ⟨unlinked, hunlinked, h⟩ := bind_eq_ok h
    obtain ⟨level, -, h⟩ := bind_eq_ok h
    cases h
    obtain ⟨node, hnode⟩ := ha
    by_cases heq : a = q
    · subst heq
      simp [Memory.free] at hnode
    · refine ⟨heq, unlinkLevels_allocated _ hunlinked ⟨node, ?_⟩⟩
      simpa [Memory.free, Function.update_of_ne heq] using hnode

end Allocated

/-! ### The towers and the draws -/

/-- The list holds towers of the heights drawn, and nothing else is allocated. -/
structure RecordedTowers (sl : Skiplist) (draws : Draws) (towers : List Tower) : Prop
    extends Valid sl towers where
  drawn : ∀ t ∈ towers, draws t.addr = t.height
  only_towers : ∀ a, sl.memory.Allocated a → a ∈ sl.header :: addrs towers

/-- What `applyRecorded` keeps. -/
def Recorded (state : Skiplist × Draws) : Prop := ∃ towers, RecordedTowers state.1 state.2 towers

/-- A new list is recorded. -/
theorem createSkiplist_recorded :
    ∃ sl, createSkiplist = .ok sl ∧ Recorded (sl, fun _ ↦ 0) := by
  obtain ⟨sl, hcreate, towers, hvalid, hmap⟩ := createSkiplist_represents
  refine ⟨sl, hcreate, towers, hvalid, ?_, ?_⟩
  · -- A tower would give its key a value.
    intro t ht
    have hkey : toMap towers t.key = none := by rw [← hmap]
    have hfind := List.find?_eq_none.mp (Option.map_eq_none_iff.mp hkey) t ht
    simp at hfind
  · intro a ha
    obtain ⟨cleared, hcleared, hsl⟩ := bind_eq_ok hcreate
    cases hsl
    obtain ⟨node, hnode⟩ := clearForward_allocated _ hcleared ha
    by_cases heq : a = 0
    · rw [heq]
      exact List.mem_cons_self
    · simp [Function.update_of_ne heq] at hnode

section Step

variable {sl : Skiplist} {draws : Draws}

/-- `insert` of a new key adds the block of its tower, with the level drawn for it. -/
theorem insert_recorded (h : Recorded (sl, draws)) (key value : ℤ) (odds : ℕ) :
    ∃ done next, sl.insert key value odds = .ok (done, next) ∧
      Recorded (next, sl.record draws (.insert key value odds) (.flag done)) := by
  obtain ⟨towers, h⟩ := h
  obtain ⟨before, after, hbefore, hafter, rfl | ⟨t, hkey, rfl⟩⟩ := exists_split h.sorted key
  · obtain ⟨next, hinsert, hnext⟩ := insert_absent h.toValid hbefore hafter value odds
    refine ⟨true, next, hinsert, _, hnext, ?_, ?_⟩
    · intro t ht
      change Function.update draws sl.memory.fresh (randomLevel odds) t.addr = t.height
      by_cases hin : t ∈ before ++ after
      · have hlt : t.addr < sl.memory.fresh :=
          h.allocated _ (List.mem_cons_of_mem _ (List.mem_map_of_mem hin))
        rw [Function.update_of_ne hlt.ne]
        exact h.drawn t hin
      · obtain rfl : t = ⟨sl.memory.fresh, key, value, randomLevel odds⟩ := by
          simp only [List.mem_append, List.mem_cons] at ht hin
          tauto
        simp
    · intro a ha
      change a ∈ next.header :: _
      rw [insert_header hinsert]
      rcases insert_allocated hinsert ha with rfl | hold
      · simp
      · have hin := h.only_towers a hold
        simp only [List.mem_cons, addrs_append, addrs_cons, List.mem_append] at hin ⊢
        tauto
  · exact ⟨false, sl, insert_present h.toValid hkey hbefore hafter value odds, _, h⟩

/-- `deleteSL` of a key that is there takes the block of its tower away. -/
theorem deleteSL_recorded (h : Recorded (sl, draws)) (key : ℤ) :
    ∃ done next, sl.deleteSL key = .ok (done, next) ∧ Recorded (next, draws) := by
  obtain ⟨towers, h⟩ := h
  obtain ⟨before, after, hbefore, hafter, rfl | ⟨t, hkey, rfl⟩⟩ := exists_split h.sorted key
  · exact ⟨false, sl, deleteSL_absent h.toValid hbefore hafter, _, h⟩
  · obtain ⟨next, hdelete, hnext⟩ := deleteSL_present h.toValid hkey hbefore hafter
    have hdescend := h.descend_eq hbefore (Valid.after_le hkey hafter)
    refine ⟨true, next, hdelete, _, hnext, ?_, ?_⟩
    · intro s hs
      refine h.drawn s ?_
      simp only [List.mem_append, List.mem_cons] at hs ⊢
      tauto
    · intro a ha
      obtain ⟨hne, hold⟩ := deleteSL_allocated hdescend hdelete ha
      have hin := h.only_towers a hold
      change a ∈ next.header :: _
      rw [deleteSL_header hdelete]
      simp only [List.mem_cons, addrs_append, addrs_cons, List.mem_append] at hin ⊢
      tauto

/-- One operation succeeds on a recorded list and leaves a recorded list. -/
theorem applyRecorded_recorded (state : Skiplist × Draws) (op : Op) (h : Recorded state) :
    ∃ result next, applyRecorded state op = .ok (result, next) ∧ Recorded next := by
  obtain ⟨sl, draws⟩ := state
  cases op with
  | insert key value odds =>
    obtain ⟨done, next, hinsert, hnext⟩ := insert_recorded h key value odds
    refine ⟨.flag done, _, ?_, hnext⟩
    simp only [applyRecorded, Skiplist.apply, hinsert, bind, Except.bind, pure, Except.pure]
  | search key =>
    obtain ⟨towers, htowers⟩ := h
    obtain ⟨next, hok, -⟩ := apply_refines sl _ (.search key) ⟨towers, htowers.toValid, rfl⟩
    obtain ⟨found, hsearch, -⟩ := bind_eq_ok hok
    refine ⟨.value found, (sl, draws), ?_, towers, htowers⟩
    simp only [applyRecorded, Skiplist.apply, hsearch, bind, Except.bind, pure, Except.pure]
    rfl
  | deleteSL key =>
    obtain ⟨done, next, hdelete, hnext⟩ := deleteSL_recorded h key
    refine ⟨.flag done, (next, draws), ?_, hnext⟩
    simp only [applyRecorded, Skiplist.apply, hdelete, bind, Except.bind, pure, Except.pure]
    rfl

end Step

/-! ### The representation invariant -/

namespace RecordedTowers

variable {sl : Skiplist} {draws : Draws} {towers : List Tower} {i : ℕ}

theorem heap_eq (h : RecordedTowers sl draws towers) {t : Tower} (ht : t ∈ towers) :
    ∃ node, sl.memory.heap t.addr = some node ∧ node.key = t.key ∧
      node.forward.length = draws t.addr + 1 := by
  obtain ⟨node, hnode, hdata⟩ := Option.map_eq_some_iff.mp (h.stored t ht)
  simp only [Prod.mk.injEq] at hdata
  exact ⟨node, hnode, hdata.1, by rw [h.drawn t ht, hdata.2.2]⟩

/-- A tower is linked on the levels below the one drawn for it, and on no other. -/
theorem addr_mem_level (h : RecordedTowers sl draws towers) {t : Tower} (ht : t ∈ towers) :
    t.addr ∈ addrs (atLevel i towers) ↔ i < draws t.addr := by
  constructor
  · intro hmem
    obtain ⟨s, hs, heq⟩ := List.mem_map.mp hmem
    obtain ⟨hin, hlt⟩ := mem_atLevel.mp hs
    rw [← heq, h.drawn s hin]
    exact hlt
  · intro hlt
    rw [h.drawn t ht] at hlt
    exact List.mem_map_of_mem (mem_atLevel.mpr ⟨ht, hlt⟩)

/-- The keys increase along a level. -/
theorem level_increasing (h : RecordedTowers sl draws towers) (i : ℕ) :
    (addrs (atLevel i towers)).Pairwise fun p q ↦
      ∃ k l, sl.memory.keyAt p = some k ∧ sl.memory.keyAt q = some l ∧ k < l := by
  have hsorted := h.sorted.sublist (List.filter_sublist (p := fun t ↦ i < t.height))
  refine List.pairwise_map.mpr (hsorted.imp_of_mem fun {s t} hs ht hlt ↦ ?_)
  obtain ⟨first, hfirst, hk, -⟩ := h.heap_eq (mem_atLevel.mp hs).1
  obtain ⟨second, hsecond, hl, -⟩ := h.heap_eq (mem_atLevel.mp ht).1
  refine ⟨s.key, t.key, ?_, ?_, hlt⟩
  · rw [Memory.keyAt, hfirst, Option.map_some, hk]
  · rw [Memory.keyAt, hsecond, Option.map_some, hl]

/-- The header points to a node exactly on the levels below that of the list. -/
theorem header_next_iff (h : RecordedTowers sl draws towers) (hi : i < maxLevel) :
    (∃ p, sl.memory.slot i sl.header = some (some p)) ↔ i < sl.level := by
  have hhead : sl.memory.slot i sl.header = some (addrs (atLevel i towers)).head? :=
    (h.linked i hi).1
  rw [hhead, h.level_eq, lt_topLevel]
  constructor
  · rintro ⟨p, hp⟩
    obtain ⟨t, ht, -⟩ := List.mem_map.mp (List.mem_of_mem_head? (Option.some.inj hp))
    exact ⟨t, mem_atLevel.mp ht⟩
  · rintro ⟨t, ht⟩
    have hmem : t.addr ∈ addrs (atLevel i towers) := List.mem_map_of_mem (mem_atLevel.mpr ht)
    cases hcells : addrs (atLevel i towers) with
    | nil => simp [hcells] at hmem
    | cons p rest => exact ⟨p, rfl⟩

/-- The chains are the towers, level by level. -/
theorem levels (h : RecordedTowers sl draws towers) :
    LevelsInvariant sl draws fun i ↦ addrs (atLevel i towers) := by
  constructor
  · exact h.linked
  · exact fun i _ ↦ h.level_increasing i
  · intro i _
    refine List.Sublist.map _ (List.monotone_filter_right _ fun t ht ↦ ?_)
    simp only [decide_eq_true_eq] at ht ⊢
    omega
  · exact h.level_le
  · exact fun i hi ↦ h.header_next_iff hi
  · intro p node hp hne
    rcases List.mem_cons.mp (h.only_towers p ⟨node, hp⟩) with heq | hmem
    · exact absurd heq hne
    · obtain ⟨t, ht, rfl⟩ := List.mem_map.mp hmem
      obtain ⟨block, hblock, -, hslots⟩ := h.heap_eq ht
      cases hblock.symm.trans hp
      have hheight := h.heights t ht
      rw [← h.drawn t ht] at hheight
      exact ⟨hheight.1, hheight.2, hslots, fun i _ ↦ h.addr_mem_level ht⟩
  · intro i _ p hp
    obtain ⟨t, ht, rfl⟩ := List.mem_map.mp hp
    obtain ⟨hin, hlt⟩ := mem_atLevel.mp ht
    constructor
    · intro heq
      exact (List.nodup_cons.mp h.distinct).1 (heq ▸ List.mem_map_of_mem hin)
    · obtain ⟨node, hnode, -, hslots⟩ := h.heap_eq hin
      rw [h.drawn t hin] at hslots
      exact ⟨node, hnode, by omega⟩

end RecordedTowers

/-- Every sequence of operations on a new list runs without a fault, whatever levels are drawn, and
leaves a list with the representation invariant. -/
theorem skiplist_levels (ops : List Op) :
    ∃ sl results last draws chain, createSkiplist = .ok sl ∧
      runExcept applyRecorded ops (sl, fun _ ↦ 0) = .ok (results, last, draws) ∧
      LevelsInvariant last draws chain := by
  obtain ⟨sl, hcreate, hempty⟩ := createSkiplist_recorded
  obtain ⟨results, ⟨last, draws⟩, hrun, towers, hlast⟩ :=
    runExcept_invariant applyRecorded_recorded ops _ hempty
  exact ⟨sl, results, last, draws, _, hcreate, hrun, hlast.levels⟩

end Exc.SkipList
