import Mathlib.Data.List.Nodup
import CUtils.ForStd.Segment
import CUtils.ForStd.StepSystem
import CUtils.Native.List

/-!
# Doubly linked lists are sequences

`ListRepr mem list xs` says that the list stores the sequence `xs`: forward along
`next` from `head`, backward along `prev` from `tail`.  Every operation acts on the
sequence as its name says, and `list_refines_seq` lifts this to runs.

Exchanging `next` with `prev` and `head` with `tail` reverses the sequence, so the
operations at the head are the mirror images of those at the tail.
-/

namespace CUtils

open StepSystem

/-- The forward links. -/
def nextOf (mem : NodeMem) (p : Ptr) : Option Ptr := (mem p).next

/-- The backward links. -/
def prevOf (mem : NodeMem) (p : Ptr) : Option Ptr := (mem p).prev

@[simp] theorem nextOf_setNext (mem : NodeMem) (p : Ptr) (q : Option Ptr) :
    nextOf (mem.setNext p q) = Function.update (nextOf mem) p q := by
  funext r
  by_cases hr : r = p
  · subst hr
    simp only [nextOf, NodeMem.setNext, Function.update_self]
  · simp only [nextOf, NodeMem.setNext, Function.update_of_ne hr]

@[simp] theorem nextOf_setPrev (mem : NodeMem) (p : Ptr) (q : Option Ptr) :
    nextOf (mem.setPrev p q) = nextOf mem := by
  funext r
  by_cases hr : r = p
  · subst hr
    simp only [nextOf, NodeMem.setPrev, Function.update_self]
  · simp only [nextOf, NodeMem.setPrev, Function.update_of_ne hr]

@[simp] theorem prevOf_setNext (mem : NodeMem) (p : Ptr) (q : Option Ptr) :
    prevOf (mem.setNext p q) = prevOf mem := by
  funext r
  by_cases hr : r = p
  · subst hr
    simp only [prevOf, NodeMem.setNext, Function.update_self]
  · simp only [prevOf, NodeMem.setNext, Function.update_of_ne hr]

@[simp] theorem prevOf_setPrev (mem : NodeMem) (p : Ptr) (q : Option Ptr) :
    prevOf (mem.setPrev p q) = Function.update (prevOf mem) p q := by
  funext r
  by_cases hr : r = p
  · subst hr
    simp only [prevOf, NodeMem.setPrev, Function.update_self]
  · simp only [prevOf, NodeMem.setPrev, Function.update_of_ne hr]

/-- The list stores the sequence `xs`. -/
structure ListRepr (mem : NodeMem) (list : DList) (xs : List Ptr) : Prop where
  fwd : IsSeg (nextOf mem) list.head xs none
  bwd : IsSeg (prevOf mem) list.tail xs.reverse none

namespace ListRepr

variable {mem : NodeMem} {list : DList} {xs : List Ptr}

theorem nodup (h : ListRepr mem list xs) : xs.Nodup := h.fwd.nodup

theorem head_eq (h : ListRepr mem list xs) : list.head = xs.head? := by
  rw [h.fwd.eq_head, Option.or_none]

theorem tail_eq (h : ListRepr mem list xs) : list.tail = xs.getLast? := by
  rw [h.bwd.eq_head, Option.or_none, List.head?_reverse]

/-- `head` is NULL exactly when the sequence is empty. -/
theorem head_eq_none_iff (h : ListRepr mem list xs) : list.head = none ↔ xs = [] := by
  rw [h.head_eq, List.head?_eq_none_iff]

/-- `tail` is NULL exactly when the sequence is empty. -/
theorem tail_eq_none_iff (h : ListRepr mem list xs) : list.tail = none ↔ xs = [] := by
  rw [h.tail_eq, List.getLast?_eq_none_iff]

end ListRepr

/-- The empty list after `list_init`. -/
theorem listInit_repr (mem : NodeMem) : ListRepr mem listInit [] := ⟨rfl, rfl⟩

/-! ## Mirror images -/

/-- Exchange the links of every node. -/
def NodeMem.flip (mem : NodeMem) : NodeMem := fun p => ⟨(mem p).prev, (mem p).next⟩

/-- Exchange the ends of a list. -/
def DList.flip (list : DList) : DList := ⟨list.tail, list.head⟩

/-- The mirror image stores the reversed sequence. -/
theorem ListRepr.flip {mem : NodeMem} {list : DList} {xs : List Ptr} (h : ListRepr mem list xs) :
    ListRepr mem.flip list.flip xs.reverse :=
  ⟨h.bwd, by rw [List.reverse_reverse]; exact h.fwd⟩

theorem ListRepr.of_flip {mem : NodeMem} {list : DList} {xs : List Ptr}
    (h : ListRepr mem.flip list.flip xs.reverse) : ListRepr mem list xs := by
  have hbwd := h.bwd
  rw [List.reverse_reverse] at hbwd
  exact ⟨hbwd, h.fwd⟩

@[simp] theorem flip_setNext (mem : NodeMem) (p : Ptr) (q : Option Ptr) :
    (mem.setNext p q).flip = mem.flip.setPrev p q := by
  funext r
  by_cases hr : r = p
  · subst hr
    simp only [NodeMem.flip, NodeMem.setNext, NodeMem.setPrev, Function.update_self]
  · simp only [NodeMem.flip, NodeMem.setNext, NodeMem.setPrev, Function.update_of_ne hr]

@[simp] theorem flip_setPrev (mem : NodeMem) (p : Ptr) (q : Option Ptr) :
    (mem.setPrev p q).flip = mem.flip.setNext p q := by
  funext r
  by_cases hr : r = p
  · subst hr
    simp only [NodeMem.flip, NodeMem.setNext, NodeMem.setPrev, Function.update_self]
  · simp only [NodeMem.flip, NodeMem.setNext, NodeMem.setPrev, Function.update_of_ne hr]

/-- A `next` and a `prev` can be written in either order. -/
theorem setNext_setPrev_comm (mem : NodeMem) (p r : Ptr) (q q' : Option Ptr) :
    (mem.setPrev r q').setNext p q = (mem.setNext p q).setPrev r q' := by
  funext x
  by_cases hp : x = p
  · subst hp
    by_cases hr : x = r
    · subst hr
      simp only [NodeMem.setNext, NodeMem.setPrev, Function.update_self]
    · simp only [NodeMem.setNext, NodeMem.setPrev, Function.update_self, Function.update_of_ne hr]
  · by_cases hr : x = r
    · subst hr
      simp only [NodeMem.setNext, NodeMem.setPrev, Function.update_self, Function.update_of_ne hp]
    · simp only [NodeMem.setNext, NodeMem.setPrev, Function.update_of_ne hp,
        Function.update_of_ne hr]

/-- `list_appendleft` is the mirror image of `list_append`. -/
theorem flip_listAppendleft (mem : NodeMem) (list : DList) (node : Ptr) :
    ((listAppendleft mem list node).1.flip, (listAppendleft mem list node).2.flip) =
      listAppend mem.flip list.flip node := by
  simp only [listAppendleft, listAppend, DList.flip]
  cases list.head <;> cases list.tail <;> simp [setNext_setPrev_comm]

/-- `list_popleft` is the mirror image of `list_pop`. -/
theorem flip_listPopleft (mem : NodeMem) (list : DList) :
    ((listPopleft mem list).1.flip, (listPopleft mem list).2.1.flip, (listPopleft mem list).2.2) =
      listPop mem.flip list.flip := by
  simp only [listPopleft, listPop, DList.flip]
  cases hhead : list.head with
  | none => simp only [hhead]
  | some node =>
    have hflip : (mem.flip node).prev = (mem node).next := rfl
    cases hnext : (mem node).next <;> simp [hflip, hnext]

/-! ## Append -/

/-- `list_append` of a node that is not in the list appends it. -/
theorem listAppend_spec {mem : NodeMem} {list : DList} {xs : List Ptr}
    (h : ListRepr mem list xs) {node : Ptr} (hnode : node ∉ xs) :
    ListRepr (listAppend mem list node).1 (listAppend mem list node).2 (xs ++ [node]) := by
  have hnode' : node ∉ xs.reverse := by rwa [List.mem_reverse]
  rcases List.eq_nil_or_concat xs with rfl | ⟨init, t, rfl⟩
  · have hhead : list.head = none := h.head_eq_none_iff.mpr rfl
    have htail : list.tail = none := h.tail_eq_none_iff.mpr rfl
    constructor
    · simp [listAppend, hhead, htail]
    · simp [listAppend, htail]
  · rw [List.concat_eq_append] at *
    have htail : list.tail = some t := by
      rw [h.tail_eq, List.getLast?_concat]
    obtain ⟨hd, hhead⟩ : ∃ hd, list.head = some hd := by
      rw [h.head_eq]
      cases init <;> simp
    have hnt : node ≠ t := fun heq => hnode (heq ▸ List.mem_append_right init List.mem_cons_self)
    have htinit : t ∉ init := fun hmem => h.nodup.disjoint hmem List.mem_cons_self
    constructor
    · -- the old last node now links to the new one
      simp only [listAppend, htail, hhead, nextOf_setNext, nextOf_setPrev]
      refine IsSeg.append (m := some node) ?_ ⟨rfl, ?_⟩
      · rw [← hhead]
        exact (h.fwd.update_of_notMem hnode none).update_getLast htinit (some node)
      · rw [Function.update_of_ne hnt, Function.update_self]
        rfl
    · simp only [listAppend, htail, prevOf_setNext, prevOf_setPrev]
      rw [List.reverse_append, List.reverse_singleton]
      refine ⟨rfl, ?_⟩
      rw [Function.update_self, ← htail]
      exact h.bwd.update_of_notMem hnode' list.tail

/-- `list_appendleft` of a node that is not in the list prepends it. -/
theorem listAppendleft_spec {mem : NodeMem} {list : DList} {xs : List Ptr}
    (h : ListRepr mem list xs) {node : Ptr} (hnode : node ∉ xs) :
    ListRepr (listAppendleft mem list node).1 (listAppendleft mem list node).2 (node :: xs) := by
  have hmirror := listAppend_spec h.flip (List.mem_reverse.not.mpr hnode)
  rw [← flip_listAppendleft] at hmirror
  refine ListRepr.of_flip ?_
  rw [List.reverse_cons]
  exact hmirror

/-! ## Pop -/

/-- `list_pop` returns the last node and removes it. -/
theorem listPop_spec {mem : NodeMem} {list : DList} {xs : List Ptr} {x : Ptr}
    (h : ListRepr mem list (xs ++ [x])) :
    ∃ mem' list', listPop mem list = (mem', list', ⟨0, some x⟩) ∧ ListRepr mem' list' xs := by
  have htail : list.tail = some x := by
    rw [h.tail_eq, List.getLast?_concat]
  have hbwd := h.bwd
  rw [List.reverse_append, List.reverse_singleton] at hbwd
  have hrest : IsSeg (prevOf mem) (mem x).prev xs.reverse none := hbwd.2
  rcases List.eq_nil_or_concat xs with rfl | ⟨init, t, rfl⟩
  · -- it was the only node
    have hprev : (mem x).prev = none := hrest
    refine ⟨mem, ⟨none, none⟩, ?_, rfl, rfl⟩
    simp only [listPop, htail, hprev]
  · rw [List.concat_eq_append] at *
    -- the node before it becomes the last one
    have hprev : (mem x).prev = some t := by
      rw [hrest.eq_head, Option.or_none, List.head?_reverse, List.getLast?_concat]
    have htinit : t ∉ init :=
      fun hmem => h.nodup.of_append_left.disjoint hmem List.mem_cons_self
    obtain ⟨m, hfwd, _⟩ := IsSeg.append_iff.mp h.fwd
    refine ⟨mem.setNext t none, { list with tail := some t }, ?_, ?_, ?_⟩
    · simp only [listPop, htail, hprev]
    · rw [nextOf_setNext]
      exact hfwd.update_getLast htinit none
    · rw [prevOf_setNext]
      exact hprev ▸ hrest

/-- `list_pop` of an empty list returns -1 and changes nothing. -/
theorem listPop_nil {mem : NodeMem} {list : DList} (h : ListRepr mem list []) :
    listPop mem list = (mem, list, ⟨-1, none⟩) := by
  simp only [listPop, h.tail_eq_none_iff.mpr rfl]

/-- `list_popleft` returns the first node and removes it. -/
theorem listPopleft_spec {mem : NodeMem} {list : DList} {xs : List Ptr} {x : Ptr}
    (h : ListRepr mem list (x :: xs)) :
    ∃ mem' list', listPopleft mem list = (mem', list', ⟨0, some x⟩) ∧ ListRepr mem' list' xs := by
  have hflip := h.flip
  rw [List.reverse_cons] at hflip
  obtain ⟨mem', list', hpop, hrepr⟩ := listPop_spec hflip
  rw [← flip_listPopleft] at hpop
  obtain ⟨rfl, rfl, hres⟩ : (listPopleft mem list).1.flip = mem' ∧
      (listPopleft mem list).2.1.flip = list' ∧
      (listPopleft mem list).2.2 = ⟨0, some x⟩ := by simpa using hpop
  exact ⟨_, _, by rw [← hres], hrepr.of_flip⟩

/-- `list_popleft` of an empty list returns -1 and changes nothing. -/
theorem listPopleft_nil {mem : NodeMem} {list : DList} (h : ListRepr mem list []) :
    listPopleft mem list = (mem, list, ⟨-1, none⟩) := by
  simp only [listPopleft, h.head_eq_none_iff.mpr rfl]

/-! ## Rewiring -/

/-- The nodes `xs ++ [a]` are linked, and `a` may link to anything. -/
structure LeftPart (mem : NodeMem) (head : Option Ptr) (xs : List Ptr) (a : Ptr) : Prop where
  fwd : ∃ q, IsSeg (nextOf mem) head (xs ++ [a]) q
  bwd : IsSeg (prevOf mem) (some a) (a :: xs.reverse) none

/-- The nodes `b :: ys` are linked, and `b` may link back to anything. -/
structure RightPart (mem : NodeMem) (tail : Option Ptr) (b : Ptr) (ys : List Ptr) : Prop where
  fwd : IsSeg (nextOf mem) (some b) (b :: ys) none
  bwd : ∃ q, IsSeg (prevOf mem) tail (ys.reverse ++ [b]) q

namespace ListRepr

variable {mem : NodeMem} {list : DList} {xs ys : List Ptr} {a b : Ptr}

theorem leftPart (h : ListRepr mem list (xs ++ a :: ys)) : LeftPart mem list.head xs a := by
  have hsplit : xs ++ a :: ys = (xs ++ [a]) ++ ys := by simp
  have hfwd := h.fwd
  have hbwd := h.bwd
  rw [hsplit] at hfwd hbwd
  rw [List.reverse_append, List.reverse_append, List.reverse_singleton] at hbwd
  obtain ⟨q, hleft, _⟩ := IsSeg.append_iff.mp hfwd
  obtain ⟨m, _, hback⟩ := IsSeg.append_iff.mp hbwd
  obtain rfl : m = some a := hback.1
  exact ⟨⟨q, hleft⟩, hback⟩

theorem rightPart (h : ListRepr mem list (xs ++ b :: ys)) : RightPart mem list.tail b ys := by
  have hrev : (xs ++ b :: ys).reverse = (ys.reverse ++ [b]) ++ xs.reverse := by simp
  have hbwd := h.bwd
  rw [hrev] at hbwd
  obtain ⟨m, _, hright⟩ := IsSeg.append_iff.mp h.fwd
  obtain rfl : m = some b := hright.1
  obtain ⟨q, hback, _⟩ := IsSeg.append_iff.mp hbwd
  exact ⟨hright, q, hback⟩

/-- The links of a node are its neighbours. -/
theorem next_eq (h : ListRepr mem list (xs ++ a :: ys)) : (mem a).next = ys.head? := by
  have hfwd : (mem a).next = ys.head?.or none := h.rightPart.fwd.2.eq_head
  rwa [Option.or_none] at hfwd

theorem prev_eq (h : ListRepr mem list (xs ++ a :: ys)) : (mem a).prev = xs.getLast? := by
  have hbwd : (mem a).prev = xs.reverse.head?.or none := h.leftPart.bwd.2.eq_head
  rwa [Option.or_none, List.head?_reverse] at hbwd

end ListRepr

/-- A right part whose first node has no `prev` is a list. -/
theorem RightPart.listRepr {mem : NodeMem} {tail : Option Ptr} {b : Ptr} {ys : List Ptr}
    (h : RightPart mem tail b ys) :
    ListRepr (mem.setPrev b none) ⟨some b, tail⟩ (b :: ys) := by
  have hb : b ∉ ys.reverse := by
    rw [List.mem_reverse]
    exact (List.nodup_cons.mp h.fwd.nodup).1
  obtain ⟨q, hbwd⟩ := h.bwd
  constructor
  · rw [nextOf_setPrev]
    exact h.fwd
  · rw [prevOf_setPrev, List.reverse_cons]
    exact hbwd.update_getLast hb none

/-- The last node of a left part is not one of the others. -/
theorem LeftPart.notMem {mem : NodeMem} {head : Option Ptr} {xs : List Ptr} {a : Ptr}
    (h : LeftPart mem head xs a) : a ∉ xs := by
  have hnotMem := (List.nodup_cons.mp h.bwd.nodup).1
  rwa [List.mem_reverse] at hnotMem

/-- A left part whose last node has no `next` is a list. -/
theorem LeftPart.listRepr {mem : NodeMem} {head : Option Ptr} {xs : List Ptr} {a : Ptr}
    (h : LeftPart mem head xs a) : ListRepr (mem.setNext a none) ⟨head, some a⟩ (xs ++ [a]) := by
  obtain ⟨q, hfwd⟩ := h.fwd
  constructor
  · rw [nextOf_setNext]
    exact hfwd.update_getLast h.notMem none
  · rw [prevOf_setNext, List.reverse_append, List.reverse_singleton]
    exact h.bwd

/-- A right part does not depend on the `next` of other nodes. -/
theorem RightPart.setNext {mem : NodeMem} {tail : Option Ptr} {b : Ptr} {ys : List Ptr}
    (h : RightPart mem tail b ys) {x : Ptr} (hx : x ∉ b :: ys) (q : Option Ptr) :
    RightPart (mem.setNext x q) tail b ys := by
  constructor
  · rw [nextOf_setNext]
    exact h.fwd.update_of_notMem hx q
  · rw [prevOf_setNext]
    exact h.bwd

/-- Nor on their `prev`. -/
theorem RightPart.setPrev {mem : NodeMem} {tail : Option Ptr} {b : Ptr} {ys : List Ptr}
    (h : RightPart mem tail b ys) {x : Ptr} (hx : x ∉ b :: ys) (q : Option Ptr) :
    RightPart (mem.setPrev x q) tail b ys := by
  have hx' : x ∉ ys.reverse ++ [b] := by
    simpa [or_comm] using hx
  obtain ⟨m, hbwd⟩ := h.bwd
  constructor
  · rw [nextOf_setPrev]
    exact h.fwd
  · rw [prevOf_setPrev]
    exact ⟨m, hbwd.update_of_notMem hx' q⟩

/-- Linking the last node of a left part with the first node of a right part. -/
theorem LeftPart.link {mem : NodeMem} {head tail : Option Ptr} {xs ys : List Ptr} {a b : Ptr}
    (hl : LeftPart mem head xs a) (hr : RightPart mem tail b ys)
    (hdisj : List.Disjoint (xs ++ [a]) (b :: ys)) :
    ListRepr ((mem.setNext a (some b)).setPrev b (some a)) ⟨head, tail⟩
      (xs ++ [a] ++ b :: ys) := by
  have ha : a ∉ xs := by
    have hnotMem := (List.nodup_cons.mp hl.bwd.nodup).1
    rwa [List.mem_reverse] at hnotMem
  have hb : b ∉ ys.reverse := by
    rw [List.mem_reverse]
    exact (List.nodup_cons.mp hr.fwd.nodup).1
  have har : a ∉ b :: ys := hdisj (by simp)
  have hbl : b ∉ a :: xs.reverse := by
    intro hmem
    exact hdisj (by simpa [or_comm] using hmem) List.mem_cons_self
  obtain ⟨q, hfwd⟩ := hl.fwd
  obtain ⟨q', hbwd⟩ := hr.bwd
  constructor
  · rw [nextOf_setPrev, nextOf_setNext]
    apply IsSeg.append (hfwd.update_getLast ha (some b))
    exact hr.fwd.update_of_notMem har (some b)
  · have hrev : (xs ++ [a] ++ b :: ys).reverse = (ys.reverse ++ [b]) ++ a :: xs.reverse := by simp
    rw [hrev, prevOf_setPrev, prevOf_setNext]
    apply IsSeg.append (hbwd.update_getLast hb (some a))
    exact hl.bwd.update_of_notMem hbl (some a)

/-! ## Remove -/

/-- `list_remove_node` of the first node does what `list_popleft` does. -/
private theorem listRemoveNode_head {mem : NodeMem} {list : DList} {xs : List Ptr} {x : Ptr}
    (h : ListRepr mem list (x :: xs)) :
    listRemoveNode mem list x = some ((listPopleft mem list).1, (listPopleft mem list).2.1) := by
  have hhead : list.head = some x := h.fwd.1
  have hfirst : ListRepr mem list ([] ++ x :: xs) := h
  have hprev : (mem x).prev = none := hfirst.prev_eq
  simp only [listRemoveNode, hprev, ↓reduceIte, listPopleft, hhead]
  cases (mem x).next <;> rfl

/-- `list_remove_node` of the last node of several does what `list_pop` does. -/
private theorem listRemoveNode_last {mem : NodeMem} {list : DList} {xs : List Ptr} {x : Ptr}
    (h : ListRepr mem list (xs ++ [x])) (hxs : xs ≠ []) :
    listRemoveNode mem list x = some ((listPop mem list).1, (listPop mem list).2.1) := by
  have htail : list.tail = some x := by
    rw [h.tail_eq, List.getLast?_concat]
  have hnext : (mem x).next = none := h.next_eq
  have hne : (mem x).prev ≠ none := by
    rw [h.prev_eq, ne_eq, List.getLast?_eq_none_iff]
    exact hxs
  simp only [listRemoveNode, hne, hnext, ↓reduceIte, listPop, htail]
  cases (mem x).prev <;> rfl

/-- `list_remove_node` of a node between two others links its neighbours. -/
private theorem listRemoveNode_between {mem : NodeMem} {list : DList} {pre post : List Ptr}
    {a x b : Ptr} (h : ListRepr mem list ((pre ++ [a]) ++ x :: b :: post)) :
    listRemoveNode mem list x = some ((mem.setPrev b (some a)).setNext a (some b), list) ∧
      ListRepr ((mem.setPrev b (some a)).setNext a (some b)) list
        ((pre ++ [a]) ++ b :: post) := by
  have hnext : (mem x).next = some b := h.next_eq
  have hprev : (mem x).prev = some a := by
    rw [h.prev_eq, List.getLast?_concat]
  have hnodup := h.nodup
  have hxb : x ≠ b := by
    have hnotMem := (List.nodup_cons.mp hnodup.of_append_right).1
    exact fun heq => hnotMem (heq ▸ List.mem_cons_self)
  have hdisj : List.Disjoint (pre ++ [a]) (b :: post) := by
    intro y hy hy'
    exact hnodup.disjoint hy (List.mem_cons_of_mem x hy')
  constructor
  · have hx : ((mem.setPrev b (some a)) x) = mem x := Function.update_of_ne hxb _ _
    simp [listRemoveNode, hnext, hprev, hx]
  · have hsplit : (pre ++ [a]) ++ x :: b :: post = pre ++ a :: (x :: b :: post) := by simp
    have hsplit' : (pre ++ [a]) ++ x :: b :: post = (pre ++ [a] ++ [x]) ++ b :: post := by simp
    rw [setNext_setPrev_comm]
    exact (hsplit ▸ h).leftPart.link (hsplit' ▸ h).rightPart hdisj

/-- `list_remove_node` of a node of the list removes that node. -/
theorem listRemoveNode_spec {mem : NodeMem} {list : DList} {pre post : List Ptr} {x : Ptr}
    (h : ListRepr mem list (pre ++ x :: post)) :
    ∃ mem' list', listRemoveNode mem list x = some (mem', list') ∧
      ListRepr mem' list' (pre ++ post) := by
  rcases List.eq_nil_or_concat pre with rfl | ⟨pre, a, rfl⟩
  · obtain ⟨mem', list', hpop, hrepr⟩ := listPopleft_spec h
    refine ⟨mem', list', ?_, hrepr⟩
    rw [listRemoveNode_head h, hpop]
  · rw [List.concat_eq_append] at *
    cases post with
    | nil =>
      obtain ⟨mem', list', hpop, hrepr⟩ := listPop_spec h
      refine ⟨mem', list', ?_, by rwa [List.append_nil]⟩
      rw [listRemoveNode_last h (by simp), hpop]
    | cons b post =>
      obtain ⟨hrun, hrepr⟩ := listRemoveNode_between h
      exact ⟨_, _, hrun, hrepr⟩

/-! ## Runs -/

/-- A call of the list interface, or of the queue interface on the list inside a queue. -/
inductive ListOp where
  | append (node : Ptr)
  | appendleft (node : Ptr)
  | pop
  | popleft
  | removeNode (node : Ptr)
  | enqueue (node : Ptr)
  | dequeue
  | peekFirst
  | peekLast
deriving DecidableEq

/-- What a call returns. -/
inductive ListOut where
  | void
  | result (r : NodeResult)
deriving DecidableEq

/-- Perform a call on the list. -/
def listStep (s : NodeMem × DList) : ListOp → Option ((NodeMem × DList) × ListOut)
  | .append node => some (listAppend s.1 s.2 node, .void)
  | .appendleft node => some (listAppendleft s.1 s.2 node, .void)
  | .pop => let (mem, list, r) := listPop s.1 s.2; some ((mem, list), .result r)
  | .popleft => let (mem, list, r) := listPopleft s.1 s.2; some ((mem, list), .result r)
  | .removeNode node => (listRemoveNode s.1 s.2 node).map fun s' => (s', .void)
  | .enqueue node => let (mem, queue) := queueEnqueue s.1 ⟨s.2⟩ node
    some ((mem, queue.list), .void)
  | .dequeue => let (mem, queue, r) := queueDequeue s.1 ⟨s.2⟩
    some ((mem, queue.list), .result r)
  | .peekFirst => some (s, .result (queuePeekFirst ⟨s.2⟩))
  | .peekLast => some (s, .result (queuePeekLast ⟨s.2⟩))

/-- What taking an end of a sequence returns: -1 when there is none. -/
def endResult : Option Ptr → NodeResult
  | none => ⟨-1, none⟩
  | some node => ⟨0, some node⟩

/-- Perform a call on a sequence.  Only nodes outside the sequence may be added and
    only nodes of the sequence may be removed; any other call is `none`. -/
def seqStep (xs : List Ptr) : ListOp → Option (List Ptr × ListOut)
  | .append node => if node ∈ xs then none else some (xs ++ [node], .void)
  | .appendleft node => if node ∈ xs then none else some (node :: xs, .void)
  | .pop => some (xs.dropLast, .result (endResult xs.getLast?))
  | .popleft => some (xs.tail, .result (endResult xs.head?))
  | .removeNode node => if node ∈ xs then some (xs.erase node, .void) else none
  | .enqueue node => if node ∈ xs then none else some (xs ++ [node], .void)
  | .dequeue => some (xs.tail, .result (endResult xs.head?))
  | .peekFirst => some (xs, .result (endResult xs.head?))
  | .peekLast => some (xs, .result (endResult xs.getLast?))

/-- `list_popleft` on any list, empty or not. -/
theorem listPopleft_endResult {mem : NodeMem} {list : DList} {xs : List Ptr}
    (h : ListRepr mem list xs) :
    ∃ mem' list', listPopleft mem list = (mem', list', endResult xs.head?) ∧
      ListRepr mem' list' xs.tail := by
  cases xs with
  | nil => exact ⟨mem, list, listPopleft_nil h, h⟩
  | cons x xs => exact listPopleft_spec h

/-- `list_pop` on any list, empty or not. -/
theorem listPop_endResult {mem : NodeMem} {list : DList} {xs : List Ptr}
    (h : ListRepr mem list xs) :
    ∃ mem' list', listPop mem list = (mem', list', endResult xs.getLast?) ∧
      ListRepr mem' list' xs.dropLast := by
  rcases List.eq_nil_or_concat xs with rfl | ⟨init, x, rfl⟩
  · exact ⟨mem, list, listPop_nil h, h⟩
  · rw [List.concat_eq_append] at *
    obtain ⟨mem', list', hpop, hrepr⟩ := listPop_spec h
    refine ⟨mem', list', ?_, by rwa [List.dropLast_concat]⟩
    rw [hpop, List.getLast?_concat]
    rfl

/-- The step lemma: every call acts on the list as on the sequence it stores. -/
theorem listStep_spec {s : NodeMem × DList} {xs : List Ptr} (h : ListRepr s.1 s.2 xs)
    {op : ListOp} {xs' : List Ptr} {out : ListOut} (hspec : seqStep xs op = some (xs', out)) :
    ∃ s', listStep s op = some (s', out) ∧ ListRepr s'.1 s'.2 xs' := by
  obtain ⟨mem, list⟩ := s
  cases op with
  | append node | enqueue node =>
    simp only [seqStep, Option.ite_none_left_eq_some, Option.some.injEq, Prod.mk.injEq] at hspec
    obtain ⟨hmem, rfl, rfl⟩ := hspec
    exact ⟨_, rfl, listAppend_spec h hmem⟩
  | appendleft node =>
    simp only [seqStep, Option.ite_none_left_eq_some, Option.some.injEq, Prod.mk.injEq] at hspec
    obtain ⟨hmem, rfl, rfl⟩ := hspec
    exact ⟨_, rfl, listAppendleft_spec h hmem⟩
  | pop =>
    simp only [seqStep, Option.some.injEq, Prod.mk.injEq] at hspec
    obtain ⟨rfl, rfl⟩ := hspec
    obtain ⟨mem', list', hpop, hrepr⟩ := listPop_endResult h
    exact ⟨(mem', list'), by simp only [listStep, hpop], hrepr⟩
  | popleft | dequeue =>
    simp only [seqStep, Option.some.injEq, Prod.mk.injEq] at hspec
    obtain ⟨rfl, rfl⟩ := hspec
    obtain ⟨mem', list', hpop, hrepr⟩ := listPopleft_endResult h
    exact ⟨(mem', list'), by simp only [listStep, queueDequeue, hpop], hrepr⟩
  | removeNode node =>
    simp only [seqStep, Option.ite_none_right_eq_some, Option.some.injEq, Prod.mk.injEq] at hspec
    obtain ⟨hmem, rfl, rfl⟩ := hspec
    -- the node splits the list, and erasing it joins the two parts
    obtain ⟨pre, post, _, rfl, herase⟩ := List.exists_erase_eq hmem
    obtain ⟨mem', list', hrun, hrepr⟩ := listRemoveNode_spec h
    refine ⟨(mem', list'), by simp only [listStep, hrun, Option.map_some], ?_⟩
    rw [herase]
    exact hrepr
  | peekFirst =>
    simp only [seqStep, Option.some.injEq, Prod.mk.injEq] at hspec
    obtain ⟨rfl, rfl⟩ := hspec
    have hhead : list.head = xs.head? := h.head_eq
    refine ⟨(mem, list), ?_, h⟩
    simp only [listStep, queuePeekFirst, hhead]
    cases xs.head? <;> rfl
  | peekLast =>
    simp only [seqStep, Option.some.injEq, Prod.mk.injEq] at hspec
    obtain ⟨rfl, rfl⟩ := hspec
    have htail : list.tail = xs.getLast? := h.tail_eq
    refine ⟨(mem, list), ?_, h⟩
    simp only [listStep, queuePeekLast, htail]
    cases xs.getLast? <;> rfl

/-- The calls that take or read an end of the list. -/
def ListOp.readsEnd : ListOp → Bool
  | .pop | .popleft | .dequeue | .peekFirst | .peekLast => true
  | _ => false

/-- On an empty list the calls that take or read an end return -1 and change nothing. -/
theorem listStep_empty {s : NodeMem × DList} (h : ListRepr s.1 s.2 []) {op : ListOp}
    (hop : op.readsEnd = true) : listStep s op = some (s, .result ⟨-1, none⟩) := by
  obtain ⟨mem, list⟩ := s
  have hhead : list.head = none := h.head_eq_none_iff.mpr rfl
  have htail : list.tail = none := h.tail_eq_none_iff.mpr rfl
  cases op with
  | pop => simp only [listStep, listPop_nil h]
  | popleft => simp only [listStep, listPopleft_nil h]
  | dequeue => simp only [listStep, queueDequeue, listPopleft_nil h]
  | peekFirst => simp only [listStep, queuePeekFirst, hhead]
  | peekLast => simp only [listStep, queuePeekLast, htail]
  | append node => exact nomatch hop
  | appendleft node => exact nomatch hop
  | removeNode node => exact nomatch hop
  | enqueue node => exact nomatch hop

/-- A run of the list from `list_init`, whatever the memory of the nodes holds, does
    call by call what the sequence does.  Afterwards the sequence has distinct
    nodes, `next` from `head` and `prev` from `tail` yield it in the two directions,
    and `head` and `tail` are NULL exactly when it is empty; then the calls that take
    or read an end return -1 and change nothing. -/
theorem list_refines_seq (mem : NodeMem) (ops : List ListOp) (xs : List Ptr) (outs : List ListOut)
    (hspec : runOut seqStep [] ops = some (xs, outs)) :
    ∃ mem' list, runOut listStep (mem, listInit) ops = some ((mem', list), outs) ∧
      xs.Nodup ∧ IsSeg (nextOf mem') list.head xs none ∧
      IsSeg (prevOf mem') list.tail xs.reverse none ∧
      (list.head = none ↔ xs = []) ∧ (list.tail = none ↔ xs = []) ∧
      (xs = [] → ∀ op : ListOp, op.readsEnd = true →
        listStep (mem', list) op = some ((mem', list), .result ⟨-1, none⟩)) := by
  have hsim : ∀ (s : NodeMem × DList) (xs : List Ptr) (op : ListOp) (xs' : List Ptr) (out : ListOut),
      ListRepr s.1 s.2 xs → seqStep xs op = some (xs', out) →
      ∃ s', listStep s op = some (s', out) ∧ ListRepr s'.1 s'.2 xs' :=
    fun _ _ _ _ _ h hstep => listStep_spec h hstep
  have hinit : ListRepr (mem, listInit).1 (mem, listInit).2 [] := listInit_repr mem
  obtain ⟨⟨mem', list⟩, hrun, hrepr⟩ := runOut_simulation hsim hinit hspec
  refine ⟨mem', list, hrun, hrepr.nodup, hrepr.fwd, hrepr.bwd, hrepr.head_eq_none_iff,
    hrepr.tail_eq_none_iff, ?_⟩
  rintro rfl op hop
  exact listStep_empty hrepr hop

/-- A run through all calls: removal of a head, a tail and a node in between, and the
    end of an emptied queue. -/
theorem list_refines_seq_run :
    ∃ mem' list, runOut listStep ((fun _ => ⟨some 7, some 7⟩), listInit)
        [.append 1, .append 2, .appendleft 3, .append 4, .removeNode 1, .removeNode 3,
          .removeNode 4, .enqueue 1, .peekFirst, .peekLast, .pop, .dequeue, .popleft] =
      some ((mem', list), [.void, .void, .void, .void, .void, .void, .void, .void,
        .result ⟨0, some 2⟩, .result ⟨0, some 1⟩, .result ⟨0, some 1⟩, .result ⟨0, some 2⟩,
        .result ⟨-1, none⟩]) ∧
      ([] : List Ptr).Nodup ∧ IsSeg (nextOf mem') list.head [] none ∧
      IsSeg (prevOf mem') list.tail ([] : List Ptr).reverse none ∧
      (list.head = none ↔ ([] : List Ptr) = []) ∧ (list.tail = none ↔ ([] : List Ptr) = []) ∧
      (([] : List Ptr) = [] → ∀ op : ListOp, op.readsEnd = true →
        listStep (mem', list) op = some ((mem', list), .result ⟨-1, none⟩)) :=
  list_refines_seq (fun _ => ⟨some 7, some 7⟩) _ [] _ (by decide)

end CUtils
