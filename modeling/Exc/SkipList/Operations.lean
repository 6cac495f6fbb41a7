import Exc.SkipList.Towers
import Mathlib.Tactic.Tauto

/-!
# What the operations of the skip list do to the towers

A key splits the towers into those with smaller keys, the one with the key, if it is there, and
those with larger keys (`exists_split`). Each of the three operations has two lemmas in terms of
this split, for a key that is there (`insert_present`, `deleteSL_present`, `searchLevels_present`)
and for one that is not (`insert_absent`, `deleteSL_absent`, `searchLevels_absent`). The linking and
unlinking loops are followed level by level (`linkLevels_spec`, `unlinkLevels_spec`): below the
level reached so far the towers are linked as they will be, and from it on every slot is as it was.
-/

set_option autoImplicit false
set_option relaxedAutoImplicit false

namespace Exc.SkipList

open Lib

/-- A key splits towers that are sorted by their keys. -/
theorem exists_split {towers : List Tower} (hsorted : towers.Pairwise fun s t ↦ s.key < t.key)
    (key : ℤ) :
    ∃ before after, (∀ t ∈ before, t.key < key) ∧ (∀ t ∈ after, key < t.key) ∧
      (towers = before ++ after ∨ ∃ t, t.key = key ∧ towers = before ++ t :: after) := by
  induction towers with
  | nil => exact ⟨[], [], by simp, by simp, Or.inl rfl⟩
  | cons first rest ih =>
    obtain ⟨hfirst, hrest⟩ := List.pairwise_cons.mp hsorted
    rcases lt_trichotomy first.key key with hlt | heq | hgt
    · obtain ⟨before, after, hbefore, hafter, hsplit⟩ := ih hrest
      refine ⟨first :: before, after, ?_, hafter, ?_⟩
      · simpa [hlt] using hbefore
      · rcases hsplit with rfl | ⟨t, hkey, rfl⟩
        · exact Or.inl rfl
        · exact Or.inr ⟨t, hkey, rfl⟩
    · exact ⟨[], rest, by simp, heq ▸ hfirst, Or.inr ⟨first, heq, rfl⟩⟩
    · refine ⟨[], first :: rest, by simp, ?_, Or.inl rfl⟩
      simpa [hgt] using fun t ht ↦ hgt.trans (hfirst t ht)

section

variable {memory : Memory} {header : Addr} {key : ℤ} {before after : List Tower}

theorem addrs_perm (header : Addr) (before after : List Tower) (t : Tower) :
    (header :: addrs (before ++ t :: after)).Perm
      (t.addr :: header :: addrs (before ++ after)) := by
  rw [addrs_append, addrs_cons, addrs_append]
  exact (List.Perm.cons header List.perm_middle).trans (List.Perm.swap _ _ _)

namespace Holds

/-- The address of a tower is that of no other one. -/
theorem ne_addr {t : Tower} (h : Holds memory header (before ++ t :: after)) :
    ∀ a ∈ header :: addrs (before ++ after), a ≠ t.addr := by
  have hdistinct := (addrs_perm header before after t).nodup_iff.mp h.distinct
  rintro a ha rfl
  exact (List.nodup_cons.mp hdistinct).1 ha

/-- The place of a key on a level has a slot for the level. -/
theorem place_stored (h : Holds memory header (before ++ after)) {i : ℕ} (hi : i < maxLevel) :
    ∃ key value slots, memory.shape (place header before i) = some (key, value, slots) ∧
      i < slots := by
  rcases place_cases header before i with heq | ⟨t, ht, heq, hlt⟩
  · obtain ⟨key, value, hshape⟩ := h.header_stored
    exact ⟨key, value, maxLevel, by rw [heq, hshape], hi⟩
  · exact ⟨t.key, t.value, t.height + 1, heq ▸ h.stored t (List.mem_append_left _ ht), by omega⟩

/-- The place of a key on a level points to the first tower there with a key that is not smaller. -/
theorem place_next (h : Holds memory header (before ++ after)) {i : ℕ} (hi : i < maxLevel) :
    memory.slot i (place header before i) = some (addrs (atLevel i after)).head? := by
  obtain ⟨front, -, hsplit⟩ := level_split header before after i
  have hlinked := h.linked i hi
  rw [hsplit] at hlinked
  exact hlinked.next_of_append

/-- The place of a key is an address of the list. -/
theorem place_mem (header : Addr) (before after : List Tower) (i : ℕ) :
    place header before i ∈ header :: addrs (before ++ after) := by
  rcases place_cases header before i with heq | ⟨t, ht, heq, -⟩
  · rw [heq]
    exact List.mem_cons_self
  · rw [← heq]
    exact List.mem_cons_of_mem _ (List.mem_map_of_mem (List.mem_append_left _ ht))

end Holds

/-! ### Insertion -/

/-- The loop that links a new tower. -/
theorem linkLevels_spec {created : Memory} {update : Update} (new : Tower)
    (h : Holds memory header (before ++ after))
    (hnew : new.addr ∉ header :: addrs (before ++ after)) (hheight : new.height ≤ maxLevel)
    (hshape : created.shape new.addr = some (new.key, new.value, new.height + 1))
    (hothers : ∀ a ≠ new.addr, created.shape a = memory.shape a ∧
      ∀ i, created.slot i a = memory.slot i a)
    (hupdate : ∀ i < new.height, update i = some (place header before i)) :
    ∀ i ≤ new.height, ∃ linked, linkLevels update new.addr i created = .ok linked ∧
      linked.shape = created.shape ∧ linked.fresh = created.fresh ∧
      (∀ j < i, Linked (linked.slot j)
        (header :: addrs (atLevel j before) ++ new.addr :: addrs (atLevel j after))) ∧
      ∀ j, i ≤ j → ∀ a, linked.slot j a = created.slot j a := by
  intro i
  induction i with
  | zero => exact fun _ ↦ ⟨created, rfl, rfl, rfl, fun j hj ↦ absurd hj (Nat.not_lt_zero j),
      fun j _ a ↦ rfl⟩
  | succ i ih =>
    intro hi
    obtain ⟨below, hbelow, hbelowShape, hbelowFresh, hbelowLinked, hbelowSlots⟩ := ih (by omega)
    have hlevel : i < maxLevel := by omega
    -- The place on this level is not the new tower, so its slot is still the old one.
    have hplaceNe : place header before i ≠ new.addr := by
      intro heq
      exact hnew (heq ▸ Holds.place_mem header before after i)
    have hslot : below.slot i (place header before i) = some (addrs (atLevel i after)).head? := by
      rw [hbelowSlots i le_rfl, (hothers _ hplaceNe).2 i, h.place_next hlevel]
    obtain ⟨linked, hlinked, hlinkedShape, hlinkedFresh, hlinkedSlot, hlinkedOthers⟩ :=
      Memory.setForward_spec (i := i) (hbelowShape ▸ hshape) (by omega)
        (addrs (atLevel i after)).head?
    obtain ⟨key', value', slots, hplaceShape, hslots⟩ := h.place_stored hlevel
    have hplaceShape' : linked.shape (place header before i) = some (key', value', slots) := by
      rw [hlinkedShape, hbelowShape, (hothers _ hplaceNe).1, hplaceShape]
    obtain ⟨done, hdone, hdoneShape, hdoneFresh, hdoneSlot, hdoneOthers⟩ :=
      Memory.setForward_spec hplaceShape' hslots (some new.addr)
    refine ⟨done, ?_, ?_, ?_, fun j hj ↦ ?_, fun j hj a ↦ ?_⟩
    · simp only [linkLevels, hbelow, bind, Except.bind, Update.get, hupdate i (by omega),
        Memory.getForward_of_slot hslot, hlinked, hdone]
    · rw [hdoneShape, hlinkedShape, hbelowShape]
    · rw [hdoneFresh, hlinkedFresh, hbelowFresh]
    · have hnewLevel : new.addr ∉ header :: addrs (atLevel i (before ++ after)) := by
        intro hmem
        rcases List.mem_cons.mp hmem with heq | htower
        · exact hnew (List.mem_cons.mpr (Or.inl heq))
        · exact hnew (List.mem_cons_of_mem _ (mem_of_mem_addrs_atLevel htower))
      rcases Nat.lt_succ_iff_lt_or_eq.mp hj with hlt | rfl
      · refine (hbelowLinked j hlt).congr fun a _ ↦ ?_
        rw [hdoneOthers j a (Or.inl hlt.ne), hlinkedOthers j a (Or.inl hlt.ne)]
      · obtain ⟨front, hfront, hsplit⟩ := level_split header before after j
        have hold := h.linked j hlevel
        have hnodup := h.nodup_level j
        rw [hsplit] at hold hnodup hnewLevel
        rw [hfront, List.append_assoc]
        refine hold.insert hnodup hnewLevel hdoneSlot ?_ fun a hplace ha ↦ ?_
        · rw [hdoneOthers j _ (Or.inr hplaceNe.symm), hlinkedSlot]
        · rw [hdoneOthers j a (Or.inr hplace), hlinkedOthers j a (Or.inr ha),
            hbelowSlots j le_rfl, (hothers a ha).2 j]
    · rw [hdoneOthers j a (Or.inl (by omega)), hlinkedOthers j a (Or.inl (by omega)),
        hbelowSlots j (by omega)]

end

/-! ### Finding the place -/

namespace Valid

variable {sl : Skiplist} {key : ℤ} {before after : List Tower}

theorem level_le {towers : List Tower} (h : Valid sl towers) : sl.level ≤ maxLevel := by
  rw [h.level_eq]
  by_contra hlt
  obtain ⟨t, ht, hheight⟩ := lt_topLevel.mp (not_le.mp hlt)
  exact absurd (h.heights t ht).2 (not_le.mpr hheight)

/-- The loop that `insert` and `deleteSL` begin with. -/
theorem descend_eq (h : Valid sl (before ++ after)) (hbefore : ∀ t ∈ before, t.key < key)
    (hafter : ∀ t ∈ after, key ≤ t.key) :
    descend sl.memory key sl.level sl.header none (fun _ ↦ none) =
      .ok ((addrs after).head?,
        fun j ↦ if j < sl.level then some (place sl.header before j) else none) := by
  rw [descend_spec h.toHolds hbefore hafter sl.level sl.header none _ h.level_le (Or.inl rfl)]
  split_ifs with hzero
  · -- With level zero there are no towers.
    have hnil : after = [] := by
      refine List.eq_nil_iff_forall_not_mem.mpr fun t ht ↦ ?_
      have hmem : t ∈ before ++ after := List.mem_append_right _ ht
      have htop := lt_topLevel.mpr ⟨t, hmem, (h.heights t hmem).1⟩
      rw [← h.level_eq, hzero] at htop
      exact lt_irrefl 0 htop
    rw [hnil]
    rfl
  · rfl

theorem hasKey_eq_false (h : Valid sl (before ++ after)) (hafter : ∀ t ∈ after, key < t.key) :
    hasKey sl.memory key (addrs after).head? = .ok false := by
  cases after with
  | nil => rfl
  | cons t rest =>
    obtain ⟨node, hload, hkey, -⟩ := Memory.load_of_shape (h.stored t (by simp))
    have hne : node.key ≠ key := by
      rw [hkey]
      exact (hafter t List.mem_cons_self).ne'
    simp [hasKey, hload, hne, bind, Except.bind, pure, Except.pure]

theorem hasKey_eq_true {t : Tower} (h : Valid sl (before ++ t :: after)) (hkey : t.key = key) :
    hasKey sl.memory key (some t.addr) = .ok true := by
  obtain ⟨node, hload, hnode, -⟩ := Memory.load_of_shape (h.stored t (by simp))
  simp [hasKey, hload, hnode, hkey, bind, Except.bind, pure, Except.pure]

theorem after_le {t : Tower} (hkey : t.key = key) (hafter : ∀ s ∈ after, key < s.key) :
    ∀ s ∈ t :: after, key ≤ s.key := by
  intro s hs
  rcases List.mem_cons.mp hs with rfl | hrest
  · exact hkey.ge
  · exact (hafter s hrest).le

end Valid

theorem randomLevel_mem (odds : ℕ) : 1 ≤ randomLevel odds ∧ randomLevel odds ≤ maxLevel := by
  unfold randomLevel maxLevel
  dsimp only
  split_ifs <;> omega

/-- A new block at the fresh address, and everything else as it was. -/
theorem createNode_spec (memory : Memory) (level : ℕ) (key value : ℤ) :
    (memory.createNode level key value).2.shape memory.fresh = some (key, value, level + 1) ∧
      ∀ a ≠ memory.fresh, (memory.createNode level key value).2.shape a = memory.shape a ∧
        ∀ i, (memory.createNode level key value).2.slot i a = memory.slot i a := by
  refine ⟨by simp [Memory.createNode, Memory.shape], fun a ha ↦ ⟨?_, fun i ↦ ?_⟩⟩
  · simp [Memory.createNode, Memory.shape, Function.update_of_ne ha]
  · simp [Memory.createNode, Memory.slot, Function.update_of_ne ha]

section Insert

variable {sl : Skiplist} {key : ℤ} {before after : List Tower}

/-- `insert` of a key that is there changes nothing. -/
theorem insert_present {t : Tower} (h : Valid sl (before ++ t :: after)) (hkey : t.key = key)
    (hbefore : ∀ s ∈ before, s.key < key) (hafter : ∀ s ∈ after, key < s.key) (value : ℤ)
    (odds : ℕ) : sl.insert key value odds = .ok (false, sl) := by
  simp only [Skiplist.insert, h.descend_eq hbefore (Valid.after_le hkey hafter),
    addrs_cons, List.head?_cons, h.hasKey_eq_true hkey, bind, Except.bind]
  rfl

/-- The memory with a new tower linked on all its levels. -/
theorem Holds.insert {memory linked : Memory} {header : Addr} {new : Tower}
    (h : Holds memory header (before ++ after)) (hbefore : ∀ t ∈ before, t.key < new.key)
    (hafter : ∀ t ∈ after, new.key < t.key) (hnew : new.addr = memory.fresh)
    (hheight : 1 ≤ new.height ∧ new.height ≤ maxLevel)
    (hshape : linked.shape new.addr = some (new.key, new.value, new.height + 1))
    (hothers : ∀ a ≠ new.addr, linked.shape a = memory.shape a)
    (hfresh : linked.fresh = memory.fresh + 1)
    (hbelow : ∀ i < new.height, Linked (linked.slot i)
      (header :: addrs (atLevel i before) ++ new.addr :: addrs (atLevel i after)))
    (habove : ∀ i, new.height ≤ i → ∀ a ≠ new.addr, linked.slot i a = memory.slot i a) :
    Holds linked header (before ++ new :: after) := by
  have hne : ∀ a ∈ header :: addrs (before ++ after), a ≠ new.addr := by
    intro a ha heq
    exact absurd (h.allocated a ha) (by rw [heq, hnew]; exact lt_irrefl _)
  have hmem : ∀ t ∈ before ++ new :: after, t = new ∨ t ∈ before ++ after := by
    intro t ht
    simp only [List.mem_append, List.mem_cons] at ht ⊢
    tauto
  have hmemAddr : ∀ a ∈ header :: addrs (before ++ new :: after),
      a = new.addr ∨ a ∈ header :: addrs (before ++ after) := by
    intro a ha
    simp only [addrs_append, addrs_cons, List.mem_cons, List.mem_append] at ha ⊢
    tauto
  constructor
  · obtain ⟨key, value, hheader⟩ := h.header_stored
    exact ⟨key, value, by rw [hothers _ (hne _ List.mem_cons_self), hheader]⟩
  · intro t ht
    rcases hmem t ht with rfl | hold
    · exact hshape
    · rw [hothers _ (hne _ (List.mem_cons_of_mem _ (List.mem_map_of_mem hold))), h.stored t hold]
  · intro t ht
    rcases hmem t ht with rfl | hold
    · exact hheight
    · exact h.heights t hold
  · have hsorted := List.pairwise_append.mp h.sorted
    refine List.pairwise_append.mpr ⟨hsorted.1, List.pairwise_cons.mpr ⟨hafter, hsorted.2.1⟩, ?_⟩
    intro s hs t ht
    rcases List.mem_cons.mp ht with rfl | hold
    · exact hbefore s hs
    · exact hsorted.2.2 s hs t hold
  · refine (addrs_perm header before after new).nodup_iff.mpr
      (List.nodup_cons.mpr ⟨fun hin ↦ ?_, h.distinct⟩)
    exact hne _ hin rfl
  · intro a ha
    rw [hfresh]
    rcases hmemAddr a ha with rfl | hold
    · exact hnew ▸ Nat.lt_succ_self _
    · exact (h.allocated a hold).trans (Nat.lt_succ_self _)
  · intro i hi
    rw [atLevel_append, addrs_append]
    rcases lt_or_ge i new.height with hlt | hge
    · rw [atLevel_cons_of_lt hlt, addrs_cons]
      exact hbelow i hlt
    · rw [atLevel_cons_of_le hge, ← addrs_append, ← atLevel_append]
      refine (h.linked i hi).congr fun a ha ↦ habove i hge a (hne a ?_)
      rcases List.mem_cons.mp ha with rfl | hlevel
      · exact List.mem_cons_self
      · exact List.mem_cons_of_mem _ (mem_of_mem_addrs_atLevel hlevel)

theorem topLevel_insert (before after : List Tower) (new : Tower) :
    topLevel (before ++ new :: after) = max (topLevel (before ++ after)) new.height := by
  refine eq_of_forall_lt_iff fun i ↦ ?_
  rw [lt_topLevel, lt_max_iff, lt_topLevel]
  simp only [List.mem_append, List.mem_cons]
  constructor
  · rintro ⟨t, ht | rfl | ht, hlt⟩
    · exact Or.inl ⟨t, Or.inl ht, hlt⟩
    · exact Or.inr hlt
    · exact Or.inl ⟨t, Or.inr ht, hlt⟩
  · rintro (⟨t, ht | ht, hlt⟩ | hlt)
    · exact ⟨t, Or.inl ht, hlt⟩
    · exact ⟨t, Or.inr (Or.inr ht), hlt⟩
    · exact ⟨new, Or.inr (Or.inl rfl), hlt⟩

/-- `insert` of a key that is not there adds a tower at its place. -/
theorem insert_absent (h : Valid sl (before ++ after)) (hbefore : ∀ t ∈ before, t.key < key)
    (hafter : ∀ t ∈ after, key < t.key) (value : ℤ) (odds : ℕ) :
    ∃ sl', sl.insert key value odds = .ok (true, sl') ∧
      Valid sl' (before ++ ⟨sl.memory.fresh, key, value, randomLevel odds⟩ :: after) := by
  obtain ⟨hshape, hothers⟩ := createNode_spec sl.memory (randomLevel odds) key value
  have hheight := randomLevel_mem odds
  have hnew : sl.memory.fresh ∉ sl.header :: addrs (before ++ after) :=
    fun hmem ↦ absurd (h.allocated _ hmem) (lt_irrefl _)
  -- Above the level of the list the place of every key is the header.
  have hfilled : ∀ i < randomLevel odds,
      (if sl.level < randomLevel odds then fillUpdate sl.header sl.level (randomLevel odds)
        (fun j ↦ if j < sl.level then some (place sl.header before j) else none)
        else fun j ↦ if j < sl.level then some (place sl.header before j) else none) i =
      some (place sl.header before i) := by
    intro i hi
    rcases lt_or_ge i sl.level with hlt | hge
    · split_ifs <;> simp [fillUpdate, hlt, not_le.mpr hlt]
    · have hplace : place sl.header before i = sl.header := by
        have hnil : atLevel i (before ++ after) = [] := atLevel_eq_nil (h.level_eq ▸ hge)
        rw [atLevel_append, List.append_eq_nil_iff] at hnil
        rw [place, hnil.1]
        rfl
      rw [if_pos (by omega), fillUpdate, if_pos ⟨hge, hi⟩, hplace]
  obtain ⟨linked, hlinked, hlinkedShape, hlinkedFresh, hbelow, habove⟩ :=
    linkLevels_spec ⟨sl.memory.fresh, key, value, randomLevel odds⟩ h.toHolds hnew hheight.2
      hshape hothers hfilled (randomLevel odds) le_rfl
  refine ⟨⟨if sl.level < randomLevel odds then randomLevel odds else sl.level, sl.header, linked⟩,
    ?_, ⟨?_, ?_⟩⟩
  · simp only [Skiplist.insert, h.descend_eq hbefore fun t ht ↦ (hafter t ht).le,
      h.hasKey_eq_false hafter, bind, Except.bind]
    change (do
      let linked ← linkLevels _ sl.memory.fresh (randomLevel odds)
        (sl.memory.createNode (randomLevel odds) key value).2
      pure (true, _)) = _
    rw [hlinked]
    rfl
  · refine h.toHolds.insert hbefore hafter rfl hheight ?_ (fun a ha ↦ ?_) ?_ hbelow
      fun i hi a ha ↦ ?_
    · rw [hlinkedShape, hshape]
    · rw [hlinkedShape, (hothers a ha).1]
    · rw [hlinkedFresh]
      rfl
    · rw [habove i hi, (hothers a ha).2]
  · rw [topLevel_insert, ← h.level_eq]
    change (if sl.level < randomLevel odds then randomLevel odds else sl.level) = _
    split_ifs with hlt
    · exact (max_eq_right hlt.le).symm
    · exact (max_eq_left (not_lt.mp hlt)).symm

end Insert

/-! ### Deletion -/

section Delete

variable {memory : Memory} {header : Addr} {before after : List Tower} {t : Tower}

/-- The loop that unlinks a tower. -/
theorem unlinkLevels_spec (update : Update) {level : ℕ}
    (h : Holds memory header (before ++ t :: after)) (hlevel : level ≤ maxLevel)
    (hupdate : ∀ i < level, update i = some (place header before i)) :
    ∀ i ≤ level, ∃ unlinked, unlinkLevels update t.addr i memory = .ok unlinked ∧
      unlinked.shape = memory.shape ∧ unlinked.fresh = memory.fresh ∧
      (∀ j < i, Linked (unlinked.slot j) (header :: addrs (atLevel j (before ++ after)))) ∧
      ∀ j, i ≤ j → ∀ a, unlinked.slot j a = memory.slot j a := by
  intro i
  induction i with
  | zero => exact fun _ ↦ ⟨memory, rfl, rfl, rfl, fun j hj ↦ absurd hj (Nat.not_lt_zero j),
      fun j _ a ↦ rfl⟩
  | succ i ih =>
    intro hi
    obtain ⟨below, hbelow, hbelowShape, hbelowFresh, hbelowLinked, hbelowSlots⟩ := ih (by omega)
    have hi' : i < maxLevel := by omega
    have hnext := h.place_next hi'
    have hslot : below.slot i (place header before i) =
        some (addrs (atLevel i (t :: after))).head? := by
      rw [hbelowSlots i le_rfl, hnext]
    have hold := h.linked i hi'
    have hnodup := h.nodup_level i
    rcases lt_or_ge i t.height with hlt | hge
    · -- The tower is linked on this level: the place is made to point behind it.
      obtain ⟨front, hfront, hsplit⟩ := level_split header before (t :: after) i
      rw [hsplit, atLevel_cons_of_lt hlt, addrs_cons] at hold hnodup
      rw [atLevel_cons_of_lt hlt, addrs_cons, List.head?_cons] at hslot
      have hbehind : below.slot i t.addr = some (addrs (atLevel i after)).head? := by
        rw [hbelowSlots i le_rfl]
        rw [List.append_cons] at hold
        exact hold.next_of_append
      obtain ⟨key', value', slots, hplaceShape, hslots⟩ := h.place_stored hi'
      obtain ⟨done, hdone, hdoneShape, hdoneFresh, hdoneSlot, hdoneOthers⟩ :=
        Memory.setForward_spec (hbelowShape ▸ hplaceShape) hslots (addrs (atLevel i after)).head?
      refine ⟨done, ?_, hdoneShape.trans hbelowShape, hdoneFresh.trans hbelowFresh,
        fun j hj ↦ ?_, fun j hj a ↦ ?_⟩
      · simp only [unlinkLevels, hbelow, bind, Except.bind, Update.get, hupdate i (by omega),
          Memory.getForward_of_slot hslot, Memory.getForward_of_slot hbehind, hdone, if_true]
      · rcases Nat.lt_succ_iff_lt_or_eq.mp hj with hlt' | rfl
        · refine (hbelowLinked j hlt').congr fun a _ ↦ ?_
          rw [hdoneOthers j a (Or.inl hlt'.ne)]
        · rw [atLevel_append, addrs_append, ← List.cons_append, hfront, List.append_assoc]
          refine hold.remove hnodup hdoneSlot fun a ha ↦ ?_
          rw [hdoneOthers j a (Or.inr ha), hbelowSlots j le_rfl]
      · rw [hdoneOthers j a (Or.inl (by omega)), hbelowSlots j (by omega)]
    · -- The tower is not linked on this level, so the place points to another one.
      rw [atLevel_cons_of_le hge] at hslot
      have hother : (addrs (atLevel i after)).head? ≠ some t.addr := by
        intro heq
        have hmem := mem_of_mem_addrs_atLevel (List.mem_of_mem_head? heq)
        exact h.ne_addr t.addr (List.mem_cons_of_mem _ (by simp [hmem])) rfl
      refine ⟨below, ?_, hbelowShape, hbelowFresh, fun j hj ↦ ?_, fun j hj a ↦ ?_⟩
      · simp only [unlinkLevels, hbelow, bind, Except.bind, Update.get, hupdate i (by omega),
          Memory.getForward_of_slot hslot, if_neg hother]
        rfl
      · rcases Nat.lt_succ_iff_lt_or_eq.mp hj with hlt' | rfl
        · exact hbelowLinked j hlt'
        · rw [atLevel_append, atLevel_cons_of_le hge, ← atLevel_append] at hold
          exact hold.congr fun a _ ↦ hbelowSlots j le_rfl a
      · exact hbelowSlots j (by omega) a

theorem free_spec (memory : Memory) (p : Addr) :
    ∀ a ≠ p, (memory.free p).shape a = memory.shape a ∧
      ∀ i, (memory.free p).slot i a = memory.slot i a := by
  refine fun a ha ↦ ⟨?_, fun i ↦ ?_⟩
  · simp [Memory.free, Memory.shape, Function.update_of_ne ha]
  · simp [Memory.free, Memory.slot, Function.update_of_ne ha]

/-- The memory without a tower. -/
theorem Holds.remove {unlinked : Memory} (h : Holds memory header (before ++ t :: after))
    (hshape : ∀ a ≠ t.addr, unlinked.shape a = memory.shape a)
    (hfresh : unlinked.fresh = memory.fresh)
    (hlinked : ∀ i < maxLevel,
      Linked (unlinked.slot i) (header :: addrs (atLevel i (before ++ after)))) :
    Holds unlinked header (before ++ after) := by
  have hsub : (before ++ after).Sublist (before ++ t :: after) :=
    List.Sublist.append_left (List.sublist_cons_self t after) before
  have hsubAddr : (header :: addrs (before ++ after)).Sublist
      (header :: addrs (before ++ t :: after)) := (hsub.map Tower.addr).cons_cons header
  have hne := h.ne_addr
  constructor
  · obtain ⟨key, value, hheader⟩ := h.header_stored
    exact ⟨key, value, by rw [hshape _ (hne _ List.mem_cons_self), hheader]⟩
  · intro s hs
    rw [hshape _ (hne _ (List.mem_cons_of_mem _ (List.mem_map_of_mem hs))),
      h.stored s (hsub.subset hs)]
  · exact fun s hs ↦ h.heights s (hsub.subset hs)
  · exact h.sorted.sublist hsub
  · exact h.distinct.sublist hsubAddr
  · exact fun a ha ↦ hfresh ▸ h.allocated a (hsubAddr.subset ha)
  · exact hlinked

/-- The loop that lowers the level stops at the height of the highest tower. -/
theorem lowerLevel_spec {towers : List Tower} (h : Holds memory header towers) :
    ∀ (i level : ℕ), i ≤ maxLevel →
      lowerLevel memory header i level = .ok (level - (i - topLevel towers)) := by
  intro i
  induction i with
  | zero =>
    intro level _
    simp [lowerLevel, pure, Except.pure]
  | succ i ih =>
    intro level hi
    have hslot : memory.slot i header = some (addrs (atLevel i towers)).head? := (h.linked i hi).1
    rw [lowerLevel, Memory.getForward_of_slot hslot]
    simp only [bind, Except.bind]
    rw [ih _ (by omega)]
    rcases lt_or_ge i (topLevel towers) with hlt | hge
    · have hsome : (addrs (atLevel i towers)).head? ≠ none := by
        obtain ⟨s, hs, hheight⟩ := lt_topLevel.mp hlt
        intro hnone
        rw [List.head?_eq_none_iff, addrs, List.map_eq_nil_iff] at hnone
        exact List.not_mem_nil (hnone ▸ mem_atLevel.mpr ⟨hs, hheight⟩)
      rw [if_neg hsome]
      congr 1
      omega
    · rw [atLevel_eq_nil hge, addrs_nil, List.head?_nil, if_pos rfl]
      congr 1
      omega

variable {sl : Skiplist} {key : ℤ}

/-- `deleteSL` of a key that is not there changes nothing. -/
theorem deleteSL_absent (h : Valid sl (before ++ after)) (hbefore : ∀ s ∈ before, s.key < key)
    (hafter : ∀ s ∈ after, key < s.key) : sl.deleteSL key = .ok (false, sl) := by
  simp only [Skiplist.deleteSL, h.descend_eq hbefore fun s hs ↦ (hafter s hs).le,
    h.hasKey_eq_false hafter, bind, Except.bind]
  split
  · rename_i hfalse
    cases hfalse
  · rfl

/-- `deleteSL` of a key that is there takes its tower away. -/
theorem deleteSL_present (h : Valid sl (before ++ t :: after)) (hkey : t.key = key)
    (hbefore : ∀ s ∈ before, s.key < key) (hafter : ∀ s ∈ after, key < s.key) :
    ∃ sl', sl.deleteSL key = .ok (true, sl') ∧ Valid sl' (before ++ after) := by
  obtain ⟨unlinked, hunlinked, hunlinkedShape, hunlinkedFresh, hbelow, habove⟩ :=
    unlinkLevels_spec (fun j ↦ if j < sl.level then some (place sl.header before j) else none)
      h.toHolds h.level_le (fun i hi ↦ if_pos hi) sl.level le_rfl
  have hfree := free_spec unlinked t.addr
  have htop : sl.level = max (topLevel (before ++ after)) t.height := by
    rw [h.level_eq, topLevel_insert]
  have hlinked : ∀ i < maxLevel, Linked ((unlinked.free t.addr).slot i)
      (sl.header :: addrs (atLevel i (before ++ after))) := by
    intro i hi
    have hne : ∀ a ∈ sl.header :: addrs (atLevel i (before ++ after)), a ≠ t.addr := by
      intro a ha
      refine h.ne_addr a ?_
      rcases List.mem_cons.mp ha with rfl | hlevel
      · exact List.mem_cons_self
      · exact List.mem_cons_of_mem _ (mem_of_mem_addrs_atLevel hlevel)
    rcases lt_or_ge i sl.level with hlt | hge
    · exact (hbelow i hlt).congr fun a ha ↦ (hfree a (hne a ha)).2 i
    · have hheight : t.height ≤ i := (htop ▸ le_max_right _ _ : t.height ≤ sl.level).trans hge
      have hold := h.linked i hi
      rw [atLevel_append, atLevel_cons_of_le hheight, ← atLevel_append] at hold
      exact hold.congr fun a ha ↦ by rw [(hfree a (hne a ha)).2 i, habove i hge]
  have hholds : Holds (unlinked.free t.addr) sl.header (before ++ after) :=
    h.toHolds.remove (fun a ha ↦ by rw [(hfree a ha).1, hunlinkedShape]) hunlinkedFresh hlinked
  refine ⟨⟨topLevel (before ++ after), sl.header, unlinked.free t.addr⟩, ?_, hholds, rfl⟩
  have hle : topLevel (before ++ after) ≤ sl.level := htop ▸ le_max_left _ _
  have hlower := lowerLevel_spec hholds sl.level sl.level h.level_le
  rw [Nat.sub_sub_self hle] at hlower
  simp only [Skiplist.deleteSL, h.descend_eq hbefore (Valid.after_le hkey hafter),
    h.hasKey_eq_true hkey, bind, Except.bind, addrs_cons, List.head?_cons, hunlinked, hlower]
  rfl

end Delete

/-! ### Search -/

section Search

/-- A walk of `search` along a level ends at the tower with the key, if it is linked there, and at
the last tower with a smaller key otherwise. -/
theorem searchLevel_spec {memory : Memory} {key : ℤ} {i : ℕ} {after : List Tower} :
    ∀ (before : List Tower) (p : Addr) (steps : ℕ), before.length < steps →
      Linked (memory.slot i) (p :: addrs (before ++ after)) →
      (∀ t ∈ before ++ after, memory.shape t.addr = some (t.key, t.value, t.height + 1)) →
      (∀ t ∈ before, t.key < key) →
      ((∀ t ∈ after, key < t.key) →
        searchLevel memory key i steps p = .ok (.inr ((addrs before).getLastD p))) ∧
      ∀ t rest, after = t :: rest → t.key = key →
        searchLevel memory key i steps p = .ok (.inl t.value) := by
  intro before
  induction before with
  | nil =>
    intro p steps hsteps hlinked hstored _
    obtain ⟨steps, rfl⟩ : ∃ rest, steps = rest + 1 := ⟨steps - 1, by simp at hsteps; omega⟩
    rw [searchLevel, Memory.getForward_of_slot hlinked.1]
    refine ⟨fun hafter ↦ ?_, ?_⟩
    · cases after with
      | nil => rfl
      | cons t rest =>
        obtain ⟨node, hload, hkey, -⟩ := Memory.load_of_shape (hstored t List.mem_cons_self)
        have hstop : ¬ node.key ≤ key := by
          rw [hkey]
          exact not_le.mpr (hafter t List.mem_cons_self)
        simp [bind, Except.bind, hload, hstop, pure, Except.pure]
    · rintro t rest rfl hkey
      obtain ⟨node, hload, hnode, hvalue, -⟩ := Memory.load_of_shape (hstored t List.mem_cons_self)
      simp [bind, Except.bind, hload, hnode, hkey, hvalue, pure, Except.pure]
  | cons s before ih =>
    intro p steps hsteps hlinked hstored hbefore
    obtain ⟨steps, rfl⟩ : ∃ rest, steps = rest + 1 := ⟨steps - 1, by simp at hsteps; omega⟩
    obtain ⟨node, hload, hkey, -⟩ := Memory.load_of_shape (hstored s List.mem_cons_self)
    have hgo : node.key < key := by
      rw [hkey]
      exact hbefore s List.mem_cons_self
    have hnext := ih s.addr steps (by simpa using hsteps) hlinked.2
      (fun t ht ↦ hstored t (List.mem_cons_of_mem _ ht))
      fun t ht ↦ hbefore t (List.mem_cons_of_mem _ ht)
    have hstep : searchLevel memory key i (steps + 1) p =
        searchLevel memory key i steps s.addr := by
      rw [searchLevel, Memory.getForward_of_slot hlinked.1]
      simp only [List.cons_append, addrs_cons, List.head?_cons, bind, Except.bind, hload,
        if_pos hgo.le, if_neg hgo.ne]
    rw [hstep, addrs_cons, List.getLastD_cons]
    exact hnext

variable {memory : Memory} {header : Addr} {key : ℤ} {before after : List Tower}

/-- `search` for a key that is not there goes through all levels and finds nothing. -/
theorem searchLevels_absent (h : Holds memory header (before ++ after))
    (hbefore : ∀ t ∈ before, t.key < key) (hafter : ∀ t ∈ after, key < t.key) :
    ∀ (i : ℕ) (p : Addr), i ≤ maxLevel →
      (p = header ∨ ∃ t ∈ before, t.addr = p ∧ i ≤ t.height) →
      searchLevels memory key i p = .ok 0 := by
  intro i
  induction i with
  | zero => exact fun _ _ _ ↦ rfl
  | succ i ih =>
    intro p hi hp
    obtain ⟨back, hback, hlength, hlinked, hplace⟩ := h.ahead hi (mem_level_of_le hp)
    obtain ⟨hnone, -⟩ := searchLevel_spec back p _ hlength hlinked
      (h.stored_ahead hback i) fun t ht ↦ hbefore t (hback t ht)
    rw [searchLevels, hnone fun t ht ↦ hafter t (mem_atLevel.mp ht).1, ← hplace]
    exact ih _ (by omega) (place_le header before i)

/-- `search` for a key that is there finds its tower on the highest level of the tower. -/
theorem searchLevels_present {t : Tower} (h : Holds memory header (before ++ t :: after))
    (hkey : t.key = key) (hbefore : ∀ s ∈ before, s.key < key)
    (hafter : ∀ s ∈ after, key < s.key) :
    ∀ (i : ℕ) (p : Addr), 1 ≤ i → i ≤ maxLevel →
      (p = header ∨ ∃ s ∈ before, s.addr = p ∧ i ≤ s.height) →
      searchLevels memory key i p = .ok t.value := by
  intro i
  induction i with
  | zero => exact fun _ hi ↦ absurd hi (Nat.not_succ_le_zero 0)
  | succ i ih =>
    intro p _ hi hp
    obtain ⟨back, hback, hlength, hlinked, hplace⟩ := h.ahead hi (mem_level_of_le hp)
    obtain ⟨hnone, hsome⟩ := searchLevel_spec back p _ hlength hlinked
      (h.stored_ahead hback i) fun s hs ↦ hbefore s (hback s hs)
    rcases lt_or_ge i t.height with hlt | hge
    · rw [searchLevels, hsome t _ (atLevel_cons_of_lt hlt) hkey]
      rfl
    · have hheight := (h.heights t (List.mem_append_right _ List.mem_cons_self)).1
      rw [atLevel_cons_of_le hge] at hnone
      rw [searchLevels, hnone fun s hs ↦ hafter s (mem_atLevel.mp hs).1, ← hplace]
      exact ih _ (by omega) (by omega) (place_le header before i)

end Search

end Exc.SkipList
