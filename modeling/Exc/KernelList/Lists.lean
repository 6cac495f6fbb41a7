import Exc.KernelList.ListHead

/-!
# The lists in mind are the lists in memory

Every head stands in a ring with the entries of its list, and no node stands in two rings
(`Represents`). All calls change one ring by replacing what stands between two neighbours, so one
rule, `Represents.replace`, says that the other lists stay what they are.
-/

set_option autoImplicit false
set_option relaxedAutoImplicit false

namespace Exc.KernelList

open Lib

variable {Node : Type} [DecidableEq Node] {memory after : Memory Node} {lists : Lists Node}
  {head : Node} {nodes : List Node}

/-- The lists in memory. -/
structure Represents (lists : Lists Node) (memory : Memory Node) : Prop where
  ring : ∀ head nodes, lists head = some nodes → Ring (nextOf memory) (prevOf memory) head nodes
  nodup : ∀ head nodes, lists head = some nodes → (head :: nodes).Nodup
  apart : ∀ first second nodes others node, lists first = some nodes → lists second = some others →
    node ∈ first :: nodes → node ∈ second :: others → first = second

omit [DecidableEq Node] in
theorem Unused.notMem {node : Node} (hunused : Unused lists node)
    (hhead : lists head = some nodes) :
    node ∉ head :: nodes := by
  rintro hmem
  rcases List.mem_cons.mp hmem with rfl | hnodes
  · rw [hunused.1] at hhead
    cases hhead
  · exact hunused.2 head nodes hhead hnodes

/-- One list changes. Its nodes were its own, or unused, and only these are written to. -/
theorem Represents.replace (h : Represents lists memory) (own : List Node)
    (hring : Ring (nextOf after) (prevOf after) head nodes) (hnodup : (head :: nodes).Nodup)
    (hnodes : ∀ node ∈ head :: nodes, node ∈ own ∨ Unused lists node)
    (hown : ∀ other others, other ≠ head → lists other = some others →
      ∀ node ∈ other :: others, node ∉ own)
    (hsame : ∀ node, node ∉ own → ¬Unused lists node →
      nextOf after node = nextOf memory node ∧ prevOf after node = prevOf memory node) :
    Represents (Function.update lists head (some nodes)) after := by
  have hstrange {other : Node} {others : List Node} (hne : other ≠ head)
      (hother : lists other = some others) {node : Node} (hnode : node ∈ other :: others) :
      node ∉ own ∧ ¬Unused lists node :=
    ⟨hown other others hne hother node hnode, fun hunused ↦ hunused.notMem hother hnode⟩
  have hunchanged {other : Node} {others : List Node} (hne : other ≠ head)
      (hother : lists other = some others) {node : Node} (hnode : node ∈ other :: others) :
      nextOf after node = nextOf memory node ∧ prevOf after node = prevOf memory node :=
    hsame node (hstrange hne hother hnode).1 (hstrange hne hother hnode).2
  refine ⟨fun other others hother ↦ ?_, fun other others hother ↦ ?_,
    fun first second front back node hfirst hsecond hmemFirst hmemSecond ↦ ?_⟩
  · by_cases hne : other = head
    · subst hne
      rw [Function.update_self] at hother
      obtain rfl := Option.some.inj hother
      exact hring
    · rw [Function.update_of_ne hne] at hother
      exact (h.ring other others hother).congr
        (fun node hnode ↦ (hunchanged hne hother hnode).1)
        fun node hnode ↦ (hunchanged hne hother hnode).2
  · by_cases hne : other = head
    · subst hne
      rw [Function.update_self] at hother
      obtain rfl := Option.some.inj hother
      exact hnodup
    · rw [Function.update_of_ne hne] at hother
      exact h.nodup other others hother
  · have hapart {other : Node} {others : List Node} (hne : other ≠ head)
        (hother : lists other = some others) (hmem : node ∈ head :: nodes)
        (hmemOther : node ∈ other :: others) : False := by
      obtain ⟨hnot, hused⟩ := hstrange hne hother hmemOther
      exact (hnodes node hmem).elim hnot hused
    by_cases hone : first = head
    · by_cases htwo : second = head
      · rw [hone, htwo]
      · subst hone
        rw [Function.update_self] at hfirst
        rw [Function.update_of_ne htwo] at hsecond
        obtain rfl := Option.some.inj hfirst
        exact (hapart htwo hsecond hmemFirst hmemSecond).elim
    · rw [Function.update_of_ne hone] at hfirst
      by_cases htwo : second = head
      · subst htwo
        rw [Function.update_self] at hsecond
        obtain rfl := Option.some.inj hsecond
        exact (hapart hone hfirst hmemSecond hmemFirst).elim
      · rw [Function.update_of_ne htwo] at hsecond
        exact h.apart first second front back node hfirst hsecond hmemFirst hmemSecond

/-- A list is forgotten: the others are still there. -/
theorem Represents.forget (h : Represents lists memory) (list : Node) :
    Represents (Function.update lists list none) memory := by
  have hother {head : Node} {nodes : List Node}
      (hhead : Function.update lists list none head = some nodes) : lists head = some nodes := by
    by_cases hne : head = list
    · subst hne
      rw [Function.update_self] at hhead
      cases hhead
    · rwa [Function.update_of_ne hne] at hhead
  exact ⟨fun head nodes hhead ↦ h.ring head nodes (hother hhead),
    fun head nodes hhead ↦ h.nodup head nodes (hother hhead),
    fun first second nodes others node hfirst hsecond ↦
      h.apart first second nodes others node (hother hfirst) (hother hsecond)⟩

/-- The nodes of a list that is forgotten are in no list. -/
theorem Represents.unused (h : Represents lists memory) {list : Node}
    (hlist : lists list = some nodes) {node : Node} (hnode : node ∈ list :: nodes) :
    Unused (Function.update lists list none) node := by
  have hnone {head : Node} {others : List Node}
      (hhead : Function.update lists list none head = some others) (hmem : node ∈ head :: others) :
      False := by
    by_cases hne : head = list
    · subst hne
      rw [Function.update_self] at hhead
      cases hhead
    · rw [Function.update_of_ne hne] at hhead
      exact hne (h.apart head list others nodes node hhead hlist hmem hnode)
  refine ⟨?_, fun head others hhead hmem ↦ hnone hhead (List.mem_cons_of_mem _ hmem)⟩
  cases hvalue : Function.update lists list none node with
  | none => rfl
  | some others => exact (hnone hvalue List.mem_cons_self).elim

/-! ### The calls -/

omit [DecidableEq Node] in
theorem mem_of_last {front rest : List Node} {a : Node} (ha : a ∈ (head :: front).getLast?) :
    a ∈ head :: (front ++ rest) := by
  rw [← List.cons_append]
  exact List.mem_append_left _ (List.mem_of_mem_getLast? ha)

omit [DecidableEq Node] in
theorem mem_of_first {front rest : List Node} {b : Node} (hb : b ∈ (rest ++ [head]).head?) :
    b ∈ head :: (front ++ rest) := by
  rcases List.mem_append.mp (List.mem_of_mem_head? hb) with hmem | hmem
  · exact List.mem_cons_of_mem _ (List.mem_append_right _ hmem)
  · rw [List.mem_singleton.mp hmem]
    exact List.mem_cons_self

theorem Represents.initListHead (h : Represents lists memory) {list : Node}
    (hentry : ∀ head nodes, lists head = some nodes → list ∉ nodes) :
    Represents (Function.update lists list (some [])) (initListHead memory list) := by
  have hnext (node : Node) : nextOf (KernelList.initListHead memory list) node =
      if node = list then some list else nextOf memory node := by
    rw [KernelList.initListHead, nextOf_writePrev, nextOf_writeNext]
    rfl
  have hprev (node : Node) : prevOf (KernelList.initListHead memory list) node =
      if node = list then some list else prevOf memory node := by
    rw [KernelList.initListHead, prevOf_writePrev, prevOf_writeNext]
    rfl
  refine h.replace [list] ?_ (List.nodup_singleton _) ?_ ?_ ?_
  · exact List.isChain_pair.mpr ⟨by rw [hnext, if_pos rfl], by rw [hprev, if_pos rfl]⟩
  · exact fun node hnode ↦ .inl hnode
  · intro other others hne hother node hnode hlist
    obtain rfl := List.mem_singleton.mp hlist
    rcases List.mem_cons.mp hnode with rfl | hmem
    · exact hne rfl
    · exact hentry other others hother hmem
  · intro node hnot _
    have hne : node ≠ list := fun heq ↦ hnot (List.mem_singleton.mpr heq)
    exact ⟨by rw [hnext, if_neg hne], by rw [hprev, if_neg hne]⟩

/-- `__list_add` between two neighbours of a list. -/
theorem Represents.listAddBetween (h : Represents lists memory) {front rest : List Node}
    (hhead : lists head = some (front ++ rest)) {new a b : Node} (hnew : Unused lists new)
    (ha : a ∈ (head :: front).getLast?) (hb : b ∈ (rest ++ [head]).head?) :
    ∃ after, listAddBetween memory (.node new) (.node a) (.node b) = some after ∧
      Represents (Function.update lists head (some (front ++ new :: rest))) after := by
  have hnot : new ∉ head :: (front ++ rest) := hnew.notMem hhead
  have hmemA : a ∈ head :: (front ++ rest) := mem_of_last ha
  have hmemB : b ∈ head :: (front ++ rest) := mem_of_first hb
  have hneA : new ≠ a := fun heq ↦ hnot (heq ▸ hmemA)
  have hneB : new ≠ b := fun heq ↦ hnot (heq ▸ hmemB)
  refine ⟨_, rfl, ?_⟩
  generalize hafter : writeNext (writePrev (writeNext (writePrev memory b (.node new)) new
    (.node b)) new (.node a)) a (.node new) = after
  have hnext (node : Node) : nextOf after node =
      if node = a then some new else if node = new then some b else nextOf memory node := by
    rw [← hafter]
    simp only [nextOf_writeNext, nextOf_writePrev, Ptr.node?]
  have hprev (node : Node) : prevOf after node =
      if node = new then some a else if node = b then some new else prevOf memory node := by
    rw [← hafter]
    simp only [prevOf_writeNext, prevOf_writePrev, Ptr.node?]
  have hold : (head :: (front ++ rest)).Nodup := h.nodup head _ hhead
  refine h.replace (head :: (front ++ rest)) ?_ ?_ ?_ ?_ ?_
  · have hring := h.ring head _ hhead
    rw [← List.append_nil front] at hring
    rw [← List.singleton_append, ← List.append_assoc]
    refine hring.replace hold ha hb ?_ ?_ ?_
    · refine List.isChain_cons_cons.mpr ⟨⟨?_, ?_⟩, List.isChain_pair.mpr ⟨?_, ?_⟩⟩
      · rw [hnext, if_pos rfl]
      · rw [hprev, if_pos rfl]
      · rw [hnext, if_neg hneA, if_pos rfl]
      · rw [hprev, if_neg hneB.symm, if_pos rfl]
    · intro x hx hne
      have hneNew : x ≠ new := fun heq ↦ hnot (heq ▸ hx)
      rw [hnext, if_neg hne, if_neg hneNew]
    · intro x hx hne
      have hneNew : x ≠ new := fun heq ↦ hnot (heq ▸ hx)
      rw [hprev, if_neg hneNew, if_neg hne]
  · have hperm : (head :: (front ++ new :: rest)).Perm (new :: head :: (front ++ rest)) :=
      (List.Perm.cons head List.perm_middle).trans (List.Perm.swap new head _)
    exact hperm.nodup_iff.mpr (List.nodup_cons.mpr ⟨hnot, hold⟩)
  · intro node hnode
    by_cases hsame : node = new
    · exact .inr (hsame ▸ hnew)
    · refine .inl ?_
      simp only [List.mem_cons, List.mem_append] at hnode ⊢
      tauto
  · intro other others hne hother node hnode hown
    exact hne (h.apart other head others _ node hother hhead hnode hown)
  · intro node hown hused
    have hneNew : node ≠ new := fun heq ↦ hused (heq ▸ hnew)
    have hA : node ≠ a := fun heq ↦ hown (heq ▸ hmemA)
    have hB : node ≠ b := fun heq ↦ hown (heq ▸ hmemB)
    exact ⟨by rw [hnext, if_neg hA, if_neg hneNew], by rw [hprev, if_neg hneNew, if_neg hB]⟩

omit [DecidableEq Node] in
theorem Represents.next_head (h : Represents lists memory) (hhead : lists head = some nodes)
    {b : Node} (hb : b ∈ (nodes ++ [head]).head?) : (memory head).next = .node b := by
  have hring : Ring (nextOf memory) (prevOf memory) head ([] ++ nodes) := h.ring head nodes hhead
  exact Ptr.eq_of_node? (hring.link (Option.mem_some_self head) hb).1

omit [DecidableEq Node] in
theorem Represents.prev_head (h : Represents lists memory) (hhead : lists head = some nodes)
    {a : Node} (ha : a ∈ (head :: nodes).getLast?) : (memory head).prev = .node a := by
  have hring := h.ring head nodes hhead
  rw [← List.append_nil nodes] at hring
  exact Ptr.eq_of_node? (hring.link ha (Option.mem_some_self head)).2

omit [DecidableEq Node] in
theorem exists_head (nodes : List Node) (head : Node) : ∃ b, b ∈ (nodes ++ [head]).head? := by
  cases nodes with
  | nil => exact ⟨head, rfl⟩
  | cons first rest => exact ⟨first, rfl⟩

omit [DecidableEq Node] in
theorem exists_last (nodes : List Node) (head : Node) : ∃ a, a ∈ (head :: nodes).getLast? :=
  ⟨_, List.getLast_mem_getLast? (List.cons_ne_nil head nodes)⟩

theorem Represents.listAdd (h : Represents lists memory) (hhead : lists head = some nodes)
    {new : Node} (hnew : Unused lists new) :
    ∃ after, listAdd memory new head = some after ∧
      Represents (Function.update lists head (some (new :: nodes))) after := by
  obtain ⟨b, hb⟩ := exists_head nodes head
  have hfront : lists head = some ([] ++ nodes) := hhead
  rw [KernelList.listAdd, h.next_head hhead hb]
  exact h.listAddBetween hfront hnew (Option.mem_some_self head) hb

theorem Represents.listAddTail (h : Represents lists memory) (hhead : lists head = some nodes)
    {new : Node} (hnew : Unused lists new) :
    ∃ after, listAddTail memory new head = some after ∧
      Represents (Function.update lists head (some (nodes ++ [new]))) after := by
  obtain ⟨a, ha⟩ := exists_last nodes head
  rw [KernelList.listAddTail, h.prev_head hhead ha]
  rw [← List.append_nil nodes] at hhead
  exact h.listAddBetween hhead hnew ha (Option.mem_some_self head)

theorem Represents.listDel (h : Represents lists memory) (hhead : lists head = some nodes)
    {entry : Node} (hentry : entry ∈ nodes) :
    ∃ after, listDel memory entry = some after ∧
      Represents (Function.update lists head (some (nodes.erase entry))) after := by
  obtain ⟨front, rest, rfl⟩ := List.append_of_mem hentry
  have hold : (head :: (front ++ entry :: rest)).Nodup := h.nodup head _ hhead
  have hperm : (head :: (front ++ entry :: rest)).Perm (entry :: head :: (front ++ rest)) :=
    (List.Perm.cons head List.perm_middle).trans (List.Perm.swap entry head _)
  obtain ⟨hnot, hnew⟩ := List.nodup_cons.mp (hperm.nodup_iff.mp hold)
  have herase : (front ++ entry :: rest).erase entry = front ++ rest := by
    have hfront : entry ∉ front := fun hmem ↦
      hnot (List.mem_cons_of_mem _ (List.mem_append_left _ hmem))
    rw [List.erase_append_right _ hfront, List.erase_cons_head]
  obtain ⟨a, ha⟩ := exists_last front head
  obtain ⟨b, hb⟩ := exists_head rest head
  have hring := h.ring head _ hhead
  have hprevEntry : (memory entry).prev = .node a :=
    Ptr.eq_of_node? (hring.link ha (Option.mem_some_self entry)).2
  have hnextEntry : (memory entry).next = .node b := by
    have hsplit : Ring (nextOf memory) (prevOf memory) head (front ++ [entry] ++ rest) := by
      rwa [List.append_assoc]
    refine Ptr.eq_of_node? (hsplit.link ?_ hb).1
    rw [← List.cons_append, List.getLast?_append]
    rfl
  have hmemA : a ∈ head :: (front ++ rest) := mem_of_last ha
  have hmemB : b ∈ head :: (front ++ rest) := mem_of_first hb
  rw [KernelList.listDel, hprevEntry, hnextEntry, herase]
  refine ⟨_, rfl, ?_⟩
  generalize hafter : writePrev (writeNext (writeNext (writePrev memory b (.node a)) a (.node b))
    entry .poison1) entry .poison2 = after
  have hnext (node : Node) : nextOf after node =
      if node = entry then none else if node = a then some b else nextOf memory node := by
    rw [← hafter]
    simp only [nextOf_writeNext, nextOf_writePrev, Ptr.node?]
  have hprev (node : Node) : prevOf after node =
      if node = entry then none else if node = b then some a else prevOf memory node := by
    rw [← hafter]
    simp only [prevOf_writeNext, prevOf_writePrev, Ptr.node?]
  have hne {node : Node} (hnode : node ∈ head :: (front ++ rest)) : node ≠ entry := fun heq ↦
    hnot (heq ▸ hnode)
  refine h.replace (head :: (front ++ entry :: rest)) ?_ hnew ?_ ?_ ?_
  · have hsplit : Ring (nextOf memory) (prevOf memory) head (front ++ [entry] ++ rest) := by
      rwa [List.append_assoc]
    have hreplaced : Ring (nextOf after) (prevOf after) head (front ++ [] ++ rest) := by
      refine hsplit.replace hnew ha hb (List.isChain_pair.mpr ⟨?_, ?_⟩) ?_ ?_
      · rw [hnext, if_neg (hne hmemA), if_pos rfl]
      · rw [hprev, if_neg (hne hmemB), if_pos rfl]
      · intro x hx hneA
        rw [hnext, if_neg (hne hx), if_neg hneA]
      · intro x hx hneB
        rw [hprev, if_neg (hne hx), if_neg hneB]
    rwa [List.append_nil] at hreplaced
  · exact fun node hnode ↦ .inl (hperm.symm.subset (List.mem_cons_of_mem _ hnode))
  · intro other others hother hlist node hnode hown
    exact hother (h.apart other head others _ node hlist hhead hnode hown)
  · intro node hown _
    have hneEntry : node ≠ entry := fun heq ↦ hown (by
      rw [heq]
      exact List.mem_cons_of_mem _ hentry)
    have hneA : node ≠ a := fun heq ↦
      hown (hperm.symm.subset (List.mem_cons_of_mem _ (heq ▸ hmemA)))
    have hneB : node ≠ b := fun heq ↦
      hown (hperm.symm.subset (List.mem_cons_of_mem _ (heq ▸ hmemB)))
    exact ⟨by rw [hnext, if_neg hneEntry, if_neg hneA], by rw [hprev, if_neg hneEntry, if_neg hneB]⟩

omit [DecidableEq Node] in
theorem Represents.listEmpty_iff [DecidableEq Node] (h : Represents lists memory)
    (hhead : lists head = some nodes) : listEmpty memory head = true ↔ nodes = [] := by
  rw [listEmpty, decide_eq_true_eq]
  cases nodes with
  | nil =>
    rw [h.next_head hhead (Option.mem_some_self head)]
    exact iff_of_true rfl rfl
  | cons first rest =>
    have hne : first ≠ head := fun heq ↦
      (List.nodup_cons.mp (h.nodup head _ hhead)).1 (heq ▸ List.mem_cons_self)
    rw [h.next_head hhead (Option.mem_some_self first)]
    refine iff_of_false (fun heq ↦ hne ?_) (List.cons_ne_nil first rest)
    injection heq

/-- The nodes of a list are put between the head of another list and what is behind it. -/
theorem Represents.listSplice (h : Represents lists memory) {list : Node} {others : List Node}
    (hne : list ≠ head) (hlist : lists list = some nodes) (hnodes : nodes ≠ [])
    (hhead : lists head = some others) :
    ∃ after, listSplice memory list head = some after ∧
      Represents
        (Function.update (Function.update lists list none) head (some (nodes ++ others)))
        after := by
  have hapart {node : Node} (hnode : node ∈ list :: nodes) : node ∉ head :: others := fun hmem ↦
    hne (h.apart list head nodes others node hlist hhead hnode hmem)
  have hmemNodes {node : Node} (hnode : node ∈ nodes) : node ∉ head :: others :=
    hapart (List.mem_cons_of_mem _ hnode)
  have hnodup := List.nodup_cons.mp (h.nodup list nodes hlist)
  obtain ⟨first, hfirst⟩ : ∃ first, nodes.head? = some first := ⟨_, List.head?_eq_some_head hnodes⟩
  obtain ⟨last, hlast⟩ : ∃ last, nodes.getLast? = some last :=
    ⟨_, List.getLast?_eq_some_getLast hnodes⟩
  obtain ⟨b, hb⟩ := exists_head others head
  have hmemB : b ∈ head :: ([] ++ others) := mem_of_first hb
  have hfirstPtr : (memory list).next = .node first := by
    refine h.next_head hlist ?_
    rw [List.head?_append, hfirst]
    rfl
  have hlastPtr : (memory list).prev = .node last := by
    refine h.prev_head hlist ?_
    rw [List.getLast?_cons, hlast]
    rfl
  have hempty : listEmpty memory list = false :=
    Bool.eq_false_iff.mpr fun heq ↦ hnodes ((h.listEmpty_iff hlist).mp heq)
  simp only [KernelList.listSplice, hempty, Bool.false_eq_true, if_false, hfirstPtr, hlastPtr,
    h.next_head hhead hb]
  refine ⟨_, rfl, ?_⟩
  generalize hafter : writePrev (writeNext (writeNext (writePrev memory first (.node head)) head
    (.node first)) last (.node b)) b (.node last) = after
  have hnext (node : Node) : nextOf after node =
      if node = last then some b else if node = head then some first else nextOf memory node := by
    rw [← hafter]
    simp only [nextOf_writeNext, nextOf_writePrev, Ptr.node?]
  have hprev (node : Node) : prevOf after node =
      if node = b then some last else if node = first then some head else prevOf memory node := by
    rw [← hafter]
    simp only [prevOf_writeNext, prevOf_writePrev, Ptr.node?]
  have hneHead {node : Node} (hnode : node ∈ nodes) : node ≠ head := fun heq ↦
    hmemNodes hnode (heq ▸ List.mem_cons_self)
  have hneB {node : Node} (hnode : node ∈ nodes) : node ≠ b := fun heq ↦
    hmemNodes hnode (heq ▸ hmemB)
  have hfirstMem : first ∈ nodes := List.mem_of_mem_head? hfirst
  have hlastMem : last ∈ nodes := List.mem_of_mem_getLast? hlast
  have hmiddle : Path (nextOf after) (prevOf after) (head :: (nodes ++ [b])) := by
    refine List.isChain_cons.mpr ⟨fun y hy ↦ ?_, List.isChain_append.mpr
      ⟨?_, List.isChain_singleton b, fun x hx y hy ↦ ?_⟩⟩
    · rw [List.head?_append, hfirst] at hy
      obtain rfl : first = y := Option.some.inj hy
      rw [hnext, hprev, if_neg (hneHead hlastMem).symm, if_pos rfl, if_neg (hneB hfirstMem),
        if_pos rfl]
      exact ⟨rfl, rfl⟩
    · have hring : Path (nextOf memory) (prevOf memory) (list :: nodes) :=
        List.IsChain.left_of_append (h.ring list nodes hlist)
      have hpath : Path (nextOf memory) (prevOf memory) nodes := (List.isChain_cons.mp hring).2
      refine hpath.congr (fun x hx ↦ ?_) fun x hx ↦ ?_
      · rw [hnext, if_neg (ne_of_mem_dropLast hnodup.2 hx hlast),
          if_neg (hneHead (List.dropLast_subset _ hx))]
      · rw [hprev, if_neg (hneB (List.mem_of_mem_tail hx)),
          if_neg (ne_of_mem_tail hnodup.2 hx hfirst)]
    · obtain rfl : last = x := Option.some.inj (hlast.symm.trans hx)
      obtain rfl : b = y := Option.some.inj hy
      rw [hnext, hprev, if_pos rfl, if_pos rfl]
      exact ⟨rfl, rfl⟩
  have hheadForget : Function.update lists list none head = some others := by
    rw [Function.update_of_ne hne.symm, hhead]
  have hold : (head :: ([] ++ others)).Nodup := h.nodup head others hhead
  refine (h.forget list).replace (head :: others) ?_ ?_ ?_ ?_ ?_
  · have hring : Ring (nextOf memory) (prevOf memory) head ([] ++ [] ++ others) :=
      h.ring head others hhead
    have hreplaced : Ring (nextOf after) (prevOf after) head ([] ++ nodes ++ others) := by
      refine hring.replace hold (Option.mem_some_self head) hb hmiddle ?_ ?_
      · intro x hx hneX
        have hneLast : x ≠ last := fun heq ↦ hmemNodes hlastMem (heq ▸ hx)
        rw [hnext, if_neg hneLast, if_neg hneX]
      · intro x hx hneX
        have hneFirst : x ≠ first := fun heq ↦ hmemNodes hfirstMem (heq ▸ hx)
        rw [hprev, if_neg hneX, if_neg hneFirst]
    exact hreplaced
  · rw [List.nodup_cons] at hold ⊢
    refine ⟨fun hmem ↦ ?_, List.nodup_append.mpr ⟨hnodup.2, hold.2, ?_⟩⟩
    · rcases List.mem_append.mp hmem with hnode | hnode
      · exact hneHead hnode rfl
      · exact hold.1 hnode
    · rintro x hx y hy rfl
      exact hmemNodes hx (List.mem_cons_of_mem _ hy)
  · intro node hnode
    rcases List.mem_cons.mp hnode with rfl | hmem
    · exact .inl List.mem_cons_self
    · rcases List.mem_append.mp hmem with hmem | hmem
      · exact .inr (h.unused hlist (List.mem_cons_of_mem _ hmem))
      · exact .inl (List.mem_cons_of_mem _ hmem)
  · intro other rest hother hrest node hnode hown
    exact hother ((h.forget list).apart other head rest others node hrest hheadForget hnode hown)
  · intro node hown hused
    have hnotNodes : node ∉ nodes := fun hmem ↦
      hused (h.unused hlist (List.mem_cons_of_mem _ hmem))
    have hneNode {other : Node} (hother : other ∈ nodes) : node ≠ other := fun heq ↦
      hnotNodes (heq ▸ hother)
    have hneOwn {other : Node} (hother : other ∈ head :: others) : node ≠ other := fun heq ↦
      hown (heq ▸ hother)
    exact ⟨by rw [hnext, if_neg (hneNode hlastMem), if_neg (hneOwn List.mem_cons_self)],
      by rw [hprev, if_neg (hneOwn hmemB), if_neg (hneNode hfirstMem)]⟩

/-! ### Loops -/

omit [DecidableEq Node] in
/-- A loop that follows a chain of pointers visits the nodes up to the head. -/
theorem forEachFrom_eq [DecidableEq Node] {advance : Node → Ptr Node} {pos : Node}
    (hchain : (pos :: (nodes ++ [head])).IsChain fun a b ↦ advance a = .node b)
    (hhead : head ∉ nodes) {fuel : ℕ} (hfuel : nodes.length < fuel) :
    forEachFrom advance head fuel (advance pos) = some nodes := by
  induction nodes generalizing pos fuel with
  | nil =>
    obtain _ | fuel := fuel
    · cases hfuel
    rw [List.isChain_pair.mp hchain, forEachFrom, if_pos rfl]
  | cons first rest ih =>
    obtain _ | fuel := fuel
    · cases hfuel
    obtain ⟨hfirst, hrest⟩ := List.isChain_cons_cons.mp hchain
    have hne : (Ptr.node first) ≠ .node head := by
      intro heq
      injection heq with heq
      exact hhead (heq ▸ List.mem_cons_self)
    rw [hfirst, forEachFrom, if_neg hne]
    simp only [ih hrest (fun hmem ↦ hhead (List.mem_cons_of_mem _ hmem))
      (Nat.lt_of_succ_lt_succ hfuel), Option.map_some]

theorem Represents.listForEach (h : Represents lists memory) (hhead : lists head = some nodes)
    {fuel : ℕ} (hfuel : nodes.length < fuel) : listForEach memory fuel head = some nodes := by
  have hring := h.ring head nodes hhead
  refine forEachFrom_eq (List.IsChain.imp (fun a b hlink ↦ ?_) hring)
    (List.nodup_cons.mp (h.nodup head nodes hhead)).1 hfuel
  exact Ptr.eq_of_node? hlink.1

theorem Represents.listForEachR (h : Represents lists memory) (hhead : lists head = some nodes)
    {fuel : ℕ} (hfuel : nodes.length < fuel) :
    listForEachR memory fuel head = some nodes.reverse := by
  have hring := h.ring head nodes hhead
  have hreverse : (head :: (nodes.reverse ++ [head])).IsChain fun a b ↦
      (memory a).prev = .node b := by
    have hpath : (head :: (nodes.reverse ++ [head])) = (head :: nodes ++ [head]).reverse := by
      simp
    rw [hpath, List.isChain_reverse]
    exact List.IsChain.imp (fun a b hlink ↦ Ptr.eq_of_node? hlink.2) hring
  refine forEachFrom_eq hreverse (fun hmem ↦ ?_) (by rwa [List.length_reverse])
  exact (List.nodup_cons.mp (h.nodup head nodes hhead)).1 (List.mem_reverse.mp hmem)

/-! ### Runs -/

/-- A call that follows the discipline does to the memory what it does to the lists. -/
theorem Represents.step (h : Represents lists memory) {request : Call Node} {next : Lists Node}
    (hstep : Step lists request next) :
    ∃ after, call memory request = some after ∧ Represents next after := by
  cases hstep with
  | init list hentry => exact ⟨_, rfl, h.initListHead hentry⟩
  | add new head nodes hhead hnew => exact h.listAdd hhead hnew
  | addTail new head nodes hhead hnew => exact h.listAddTail hhead hnew
  | del entry head nodes hhead hentry => exact h.listDel hhead hentry
  | spliceEmpty list head hlist =>
    have hempty : listEmpty memory list = true := (h.listEmpty_iff hlist).mpr rfl
    refine ⟨memory, ?_, h⟩
    rw [call, KernelList.listSplice, if_pos hempty]
    rfl
  | splice list head nodes others hne hlist hnodes hhead =>
    exact h.listSplice hne hlist hnodes hhead

/-- Whatever the order of the calls, and whatever is in memory at first: when the calls follow the
discipline, none of them stops, and every list in memory is the one in mind. -/
theorem forEach_eq_of_run {calls : List (Call Node)} {lists : Lists Node}
    (hrun : Run Step (fun _ ↦ none) calls lists) (memory : Memory Node) :
    ∃ after, calls.foldlM call memory = some after ∧
      ∀ head nodes, lists head = some nodes →
        (∀ fuel > nodes.length, listForEach after fuel head = some nodes ∧
          listForEachR after fuel head = some nodes.reverse) ∧
        (listEmpty after head = true ↔ nodes = []) := by
  have hfirst : Represents (fun _ ↦ none) memory := by
    refine ⟨fun _ _ hnone ↦ ?_, fun _ _ hnone ↦ ?_, fun _ _ _ _ _ hnone ↦ ?_⟩ <;> cases hnone
  obtain ⟨after, hafter, hrep⟩ : ∃ after, Run (stepOf call) memory calls after ∧
      Represents lists after :=
    hrun.simulation hfirst fun lists memory request next hrep hstep ↦ Represents.step hrep hstep
  exact ⟨after, hafter.foldlM_eq, fun head nodes hhead ↦
    ⟨fun fuel hfuel ↦ ⟨hrep.listForEach hhead hfuel, hrep.listForEachR hhead hfuel⟩,
      hrep.listEmpty_iff hhead⟩⟩

/-- Two entries, of which the first is deleted. -/
theorem forEach_eq_of_run_deleted : ∃ after : Memory (Fin 3),
    [Call.initListHead 0, .listAdd 1 0, .listAddTail 2 0, .listDel 1].foldlM call
        (fun _ ↦ ⟨.poison1, .poison1⟩) = some after ∧
      listForEach after 2 0 = some [2] := by
  have hunused {lists : Lists (Fin 3)} {node : Fin 3} (hnone : lists node = none)
      (hall : ∀ head, node ∉ (lists head).getD []) : Unused lists node :=
    ⟨hnone, fun head nodes hhead hmem ↦ hall head (by rwa [hhead])⟩
  have hinit : Run Step (fun _ : Fin 3 ↦ none) [.initListHead 0]
      (Function.update (fun _ ↦ none) 0 (some [])) :=
    Run.tail .refl (.init 0 fun _ _ hnone ↦ by cases hnone)
  have hadd := hinit.tail (.add 1 0 [] rfl (hunused (by decide) (by decide)))
  have haddTail := hadd.tail (.addTail 2 0 [1] rfl (hunused (by decide) (by decide)))
  have hdel := haddTail.tail (.del 1 0 [1, 2] rfl (by decide))
  obtain ⟨after, hafter, hlists⟩ := forEach_eq_of_run hdel fun _ ↦ ⟨.poison1, .poison1⟩
  exact ⟨after, hafter, ((hlists 0 [2] rfl).1 2 (by decide)).1⟩

end Exc.KernelList
