import CUtils.Spec.ListCorrect

/-!
# Inserting one node

`list_insert_node` writes `next->prev` without looking whether there is a next node, and
never writes `tail`.

- `listInsertNode_front`, `listInsertNode_between`: a node is linked in front of another.
- `listInsertNode_end`: at the end of the list NULL is dereferenced.
- `listInsertNode_correct_iff`: the two together.
-/

namespace CUtils

/-- Linking a node behind a left part. -/
theorem LeftPart.push {mem : NodeMem} {head : Option Ptr} {xs : List Ptr} {a x : Ptr}
    (h : LeftPart mem head xs a) (hx : x ∉ xs ++ [a]) :
    LeftPart ((mem.setNext a (some x)).setPrev x (some a)) head (xs ++ [a]) x := by
  obtain ⟨q, hfwd⟩ := h.fwd
  constructor
  · rw [nextOf_setPrev, nextOf_setNext]
    exact ⟨_, (hfwd.update_getLast h.notMem (some x)).append ⟨rfl, rfl⟩⟩
  · have hx' : x ∉ a :: xs.reverse := by
      simpa [or_comm] using hx
    rw [prevOf_setPrev, prevOf_setNext, List.reverse_append, List.reverse_singleton]
    refine ⟨rfl, ?_⟩
    rw [Function.update_self]
    exact h.bwd.update_of_notMem hx' (some a)

/-- A node without `prev` is a left part of its own. -/
theorem LeftPart.single (mem : NodeMem) (x : Ptr) :
    LeftPart (mem.setPrev x none) (some x) [] x := by
  constructor
  · exact ⟨_, rfl, rfl⟩
  · rw [prevOf_setPrev]
    exact ⟨rfl, Function.update_self ..⟩

/-- What the removal of a node leaves when it undoes an insertion: the list, and the
    memory of all other nodes. -/
structure Restored (mem : NodeMem) (list : DList) (newNode : Ptr) (mem' : NodeMem)
    (list' : DList) : Prop where
  list_eq : list' = list
  mem_eq : ∀ p, p ≠ newNode → mem' p = mem p

/-- `list_insert_node` leaves a well-formed list with the new node between `pre` and
    `post`, and `list_remove_node` undoes that. -/
def InsertsBetween (mem : NodeMem) (list : DList) (after : Option Ptr) (newNode : Ptr)
    (pre post : List Ptr) : Prop :=
  ∃ mem' list', listInsertNode mem list after newNode = some (mem', list') ∧
    ListRepr mem' list' (pre ++ newNode :: post) ∧
    ∃ mem'' list'', listRemoveNode mem' list' newNode = some (mem'', list'') ∧
      Restored mem list newNode mem'' list''

section Insert

variable {mem : NodeMem} {list : DList} {pre post : List Ptr} {newNode a b : Ptr}

/-- In front of the first node. -/
theorem listInsertNode_front (h : ListRepr mem list (b :: post)) (hnew : newNode ∉ b :: post) :
    InsertsBetween mem list none newNode [] (b :: post) := by
  have hhead : list.head = some b := h.fwd.1
  have hfirst : ListRepr mem list ([] ++ b :: post) := h
  have hprev : (mem b).prev = none := hfirst.prev_eq
  have hne : newNode ≠ b := List.ne_of_not_mem_cons hnew
  have hlink := (LeftPart.single mem newNode).link (hfirst.rightPart.setPrev hnew none)
    (by simpa using hnew)
  generalize hmem : ((mem.setPrev newNode none).setNext newNode (some b)).setPrev b
    (some newNode) = mem' at hlink
  have hnode : mem' newNode = ⟨some b, none⟩ := by
    simp [← hmem, NodeMem.setNext, NodeMem.setPrev, hne]
  refine ⟨mem', ⟨some newNode, list.tail⟩, ?_, hlink, mem'.setPrev b none,
    ⟨some b, list.tail⟩, ?_, ?_, ?_⟩
  · simp [listInsertNode, hhead, hmem]
  · -- it is removed as the head
    simp only [listRemoveNode, hnode, ↓reduceIte]
  · rw [← hhead]
  · intro p hp
    by_cases hpb : p = b
    · subst hpb
      simp [← hmem, NodeMem.setNext, NodeMem.setPrev, hp, ← hprev]
    · simp [← hmem, NodeMem.setNext, NodeMem.setPrev, hp, hpb]

/-- Between two nodes. -/
theorem listInsertNode_between (h : ListRepr mem list (pre ++ a :: b :: post))
    (hnew : newNode ∉ pre ++ a :: b :: post) :
    InsertsBetween mem list (some a) newNode (pre ++ [a]) (b :: post) := by
  have hmove : pre ++ a :: b :: post = (pre ++ [a]) ++ b :: post := by simp
  have hnext : (mem a).next = some b := h.next_eq
  have hsplit : ListRepr mem list ((pre ++ [a]) ++ b :: post) := hmove ▸ h
  have hright := hsplit.rightPart
  have hprev : (mem b).prev = some a := by
    rw [hsplit.prev_eq, List.getLast?_concat]
  have hnodup := h.nodup
  rw [hmove] at hnodup hnew
  have hdisj : List.Disjoint (pre ++ [a]) (b :: post) := List.disjoint_of_nodup_append hnodup
  have ha : a ∉ b :: post := hdisj (by simp)
  have hnewLeft : newNode ∉ pre ++ [a] := fun hmem => hnew (List.mem_append_left _ hmem)
  have hnewRight : newNode ∉ b :: post := fun hmem => hnew (List.mem_append_right _ hmem)
  have hlink := (h.leftPart.push hnewLeft).link
    ((hright.setNext ha (some newNode)).setPrev hnewRight (some a)) (by
      intro p hp hp'
      rcases List.mem_append.mp hp with hp | hp
      · exact hdisj hp hp'
      · rw [List.mem_singleton.mp hp] at hp'
        exact hnewRight hp')
  rw [List.append_assoc (pre ++ [a]), List.singleton_append] at hlink
  have hab : a ≠ b := List.ne_of_not_mem_cons ha
  have hna : newNode ≠ a := by
    rintro rfl
    simp at hnewLeft
  have hnb : newNode ≠ b := List.ne_of_not_mem_cons hnewRight
  generalize hmem : (((mem.setNext a (some newNode)).setPrev newNode (some a)).setNext newNode
    (some b)).setPrev b (some newNode) = mem' at hlink
  have hnode : mem' newNode = ⟨some b, some a⟩ := by
    simp [← hmem, NodeMem.setNext, NodeMem.setPrev, hnb]
  refine ⟨mem', list, ?_, hlink, (mem'.setPrev b (some a)).setNext a (some b), list, ?_, rfl, ?_⟩
  · simp [listInsertNode, hnext, hmem]
  · -- it is removed from between its neighbours
    have hstill : mem'.setPrev b (some a) newNode = mem' newNode := Function.update_of_ne hnb _ _
    simp [listRemoveNode, hnode, hstill]
  · intro p hp
    by_cases hpb : p = b
    · subst hpb
      simp [← hmem, NodeMem.setNext, NodeMem.setPrev, hp, hab.symm, ← hprev]
    · by_cases hpa : p = a
      · subst hpa
        simp [← hmem, NodeMem.setNext, NodeMem.setPrev, hp, hpb, ← hnext]
      · simp [← hmem, NodeMem.setNext, NodeMem.setPrev, hp, hpb, hpa]

/-- At the end of the list, or in an empty list, NULL is dereferenced. -/
theorem listInsertNode_end (h : ListRepr mem list pre) :
    listInsertNode mem list pre.getLast? newNode = none := by
  rcases List.eq_nil_or_concat pre with rfl | ⟨pre, a, rfl⟩
  · have hhead : list.head = none := h.head_eq_none_iff.mpr rfl
    simp [listInsertNode, hhead]
  · rw [List.concat_eq_append] at *
    have hnext : (mem a).next = none := h.next_eq
    simp [listInsertNode, hnext]

/-- A call of `list_insert_node` with `after` the last node of `pre`, NULL when there is
    none, inserts the new node between `pre` and `post` exactly when some node follows
    there. -/
theorem listInsertNode_correct_iff (h : ListRepr mem list (pre ++ post)) {after : Option Ptr}
    (hafter : after = pre.getLast?) (hnew : newNode ∉ pre ++ post) :
    InsertsBetween mem list after newNode pre post ↔ post ≠ [] := by
  subst hafter
  cases post with
  | nil =>
    rw [List.append_nil] at h
    constructor
    · rintro ⟨mem', list', hinsert, _⟩
      rw [listInsertNode_end h] at hinsert
      cases hinsert
    · intro hne
      exact absurd rfl hne
  | cons b post =>
    constructor
    · intro _
      exact List.cons_ne_nil b post
    · intro _
      -- `after` is NULL, or the last node in front
      rcases List.eq_nil_or_concat pre with rfl | ⟨pre, a, rfl⟩
      · exact listInsertNode_front h hnew
      · rw [List.concat_eq_append] at *
        rw [List.getLast?_concat]
        rw [List.append_assoc, List.singleton_append] at h hnew
        exact listInsertNode_between h hnew

end Insert

/-- A list of two nodes, 1 and 2. -/
private def twoNodes : NodeMem
  | 1 => ⟨some 2, none⟩
  | 2 => ⟨none, some 1⟩
  | _ => ⟨none, none⟩

private theorem twoNodes_repr : ListRepr twoNodes ⟨some 1, some 2⟩ ([1] ++ [2]) := by
  constructor <;> simp [nextOf, prevOf, twoNodes]

/-- Node 3 is inserted between them. -/
theorem listInsertNode_correct_iff_between :
    InsertsBetween twoNodes ⟨some 1, some 2⟩ (some 1) 3 [1] [2] ↔ ([2] : List Ptr) ≠ [] :=
  listInsertNode_correct_iff twoNodes_repr rfl (by simp)

/-- After node 2, and into an empty list, `next` is NULL. -/
theorem listInsertNode_null_next :
    ListRepr twoNodes ⟨some 1, some 2⟩ [1, 2] ∧
      listInsertNode twoNodes ⟨some 1, some 2⟩ (some 2) 3 = none ∧
      ListRepr twoNodes listInit [] ∧ listInsertNode twoNodes listInit none 3 = none :=
  ⟨twoNodes_repr, rfl, listInit_repr twoNodes, rfl⟩

end CUtils
