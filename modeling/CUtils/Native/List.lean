import Mathlib.Logic.Function.Basic
import CUtils.ForStd.Heap

/-!
# Doubly linked lists

The lists of `list.c`.  The nodes belong to the caller (they are embedded in its
objects), so the memory of the nodes is a total map from addresses to nodes and
outlives the list: a node that was removed keeps its pointers.  A result `none`
means that the C code would dereference NULL.
-/

namespace CUtils

/-- `node_t`. -/
structure Node where
  next : Option Ptr
  prev : Option Ptr
deriving DecidableEq

/-- The memory of the nodes. -/
abbrev NodeMem := Ptr → Node

/-- `list_t`. -/
structure DList where
  head : Option Ptr
  tail : Option Ptr
deriving DecidableEq

/-- `node->next = q`. -/
def NodeMem.setNext (mem : NodeMem) (p : Ptr) (q : Option Ptr) : NodeMem :=
  Function.update mem p { mem p with next := q }

/-- `node->prev = q`. -/
def NodeMem.setPrev (mem : NodeMem) (p : Ptr) (q : Option Ptr) : NodeMem :=
  Function.update mem p { mem p with prev := q }

/-- `list_init(list)`. -/
def listInit : DList := { head := none, tail := none }

/-- `list_append(list, node)`. -/
def listAppend (mem : NodeMem) (list : DList) (node : Ptr) : NodeMem × DList :=
  let mem := mem.setPrev node list.tail
  let mem := mem.setNext node none
  let mem := match list.tail with
    | some t => mem.setNext t (some node)
    | none => mem
  let head := match list.head with
    | some h => some h
    | none => some node
  (mem, { head, tail := some node })

/-- `list_appendleft(list, node)`. -/
def listAppendleft (mem : NodeMem) (list : DList) (node : Ptr) : NodeMem × DList :=
  let mem := mem.setPrev node none
  let mem := mem.setNext node list.head
  let mem := match list.head with
    | some h => mem.setPrev h (some node)
    | none => mem
  let tail := match list.tail with
    | some t => some t
    | none => some node
  (mem, { head := some node, tail })

/-- What a function with an `int` result and an out parameter `node` returns; the out
    parameter is `none` when it is not written. -/
structure NodeResult where
  rc : Int
  node : Option Ptr
deriving DecidableEq

/-- `list_pop(list, node)`. -/
def listPop (mem : NodeMem) (list : DList) : NodeMem × DList × NodeResult :=
  match list.tail with
  | none => (mem, list, ⟨-1, none⟩)
  | some node =>
    match (mem node).prev with
    | some t => (mem.setNext t none, { list with tail := some t }, ⟨0, some node⟩)
    -- it was the only node
    | none => (mem, { head := none, tail := none }, ⟨0, some node⟩)

/-- `list_popleft(list, node)`. -/
def listPopleft (mem : NodeMem) (list : DList) : NodeMem × DList × NodeResult :=
  match list.head with
  | none => (mem, list, ⟨-1, none⟩)
  | some node =>
    match (mem node).next with
    | some h => (mem.setPrev h none, { list with head := some h }, ⟨0, some node⟩)
    -- it was the only node
    | none => (mem, { head := none, tail := none }, ⟨0, some node⟩)

/-- `list_remove_node(list, node)`. -/
def listRemoveNode (mem : NodeMem) (list : DList) (node : Ptr) : Option (NodeMem × DList) :=
  if (mem node).prev = none then
    -- remove head
    match (mem node).next with
    | none => some (mem, { head := none, tail := none })
    | some h => some (mem.setPrev h none, { list with head := some h })
  else if (mem node).next = none then
    -- remove tail
    match (mem node).prev with
    | none => some (mem, { head := none, tail := none })
    | some t => some (mem.setNext t none, { list with tail := some t })
  else do
    -- remove in-between
    let next ← (mem node).next
    let mem := mem.setPrev next (mem node).prev
    let prev ← (mem node).prev
    return (mem.setNext prev (mem node).next, list)

/-- `list_insert_node(list, after, newNode)`. -/
def listInsertNode (mem : NodeMem) (list : DList) (after : Option Ptr) (newNode : Ptr) :
    Option (NodeMem × DList) := do
  let (mem, list, next) := match after with
    -- insert at head
    | none => (mem, { list with head := some newNode }, list.head)
    | some a => (mem.setNext a (some newNode), list, (mem a).next)
  let mem := mem.setPrev newNode after
  let mem := mem.setNext newNode next
  -- without a test for NULL
  let next ← next
  return (mem.setPrev next (some newNode), list)

/-! ## Segments

The loops below follow the links for as long as the C code does.  Each takes a bound
`fuel` on its rounds, and the outer `none` also stands for a loop that is still running
when the bound is used up.  The argument `last` is `end` in C. -/

/-- The loop of `list_find_node` from the pointer `p`. -/
def listFindFrom (mem : NodeMem) (node : Option Ptr) : Nat → Option Ptr → Option (Option Ptr)
  | 0, _ => none
  | _ + 1, none => some none
  | fuel + 1, some p =>
    if some p ≠ node then listFindFrom mem node fuel (mem p).next else some (some p)

/-- `list_find_node(list, node)`. -/
def listFindNode (fuel : Nat) (mem : NodeMem) (list : DList) (node : Option Ptr) :
    Option (Option Ptr) :=
  listFindFrom mem node fuel list.head

/-- The loop of `list_check_links`: the last values of `p1` and `p2`. -/
def listCheckLoop (mem : NodeMem) :
    Nat → Option Ptr → Option Ptr → Option Ptr → Option Ptr → Option (Option Ptr × Option Ptr)
  | 0, _, _, _, _ => none
  | fuel + 1, some p1, some p2, p1Prev, p2Next =>
    if p1 ≠ p2 ∧ (mem p1).next ≠ (mem p2).prev ∧
        (mem p1).prev = p1Prev ∧ (mem p2).next = p2Next then
      listCheckLoop mem fuel (mem p1).next (mem p2).prev (some p1) (some p2)
    else some (some p1, some p2)
  | _ + 1, p1, p2, _, _ => some (p1, p2)

/-- What `list_check_links` returns after its loop. -/
def listLinksMeet (mem : NodeMem) : Option Ptr → Option Ptr → Bool
  | some p1, some p2 => decide (p1 = p2 ∨ (mem p1).next = (mem p2).prev)
  | _, _ => false

/-- `list_check_links(p1, p2)`. -/
def listCheckLinks (fuel : Nat) (mem : NodeMem) : Option Ptr → Option Ptr → Option Bool
  | some p1, some p2 =>
    if p1 = p2 then some true
    else do
      let (q1, q2) ← listCheckLoop mem fuel (some p1) (some p2) (mem p1).prev (mem p2).next
      return listLinksMeet mem q1 q2
  | _, _ => some false

/-- `list_remove_nodes(list, start, end)`. -/
def listRemoveNodes (fuel : Nat) (mem : NodeMem) (list : DList) (start last : Option Ptr) :
    Option (NodeMem × DList × Int) := do
  -- check if start in list and the range is a valid list
  if (← listFindNode fuel mem list start) = none then return (mem, list, -1)
  if (← listCheckLinks fuel mem start last) = false then return (mem, list, -1)
  let s ← start
  let e ← last
  if (mem s).prev = none then
    -- remove from head
    match (mem e).next with
    | none => return (mem, { list with head := none }, 0)
    | some h => return (mem.setPrev h none, { list with head := some h }, 0)
  else if (mem e).next = none then
    -- remove upto tail
    let p ← (mem s).prev
    return (mem.setNext p none, { list with tail := some p }, 0)
  else
    -- remove in-between
    let p ← (mem s).prev
    let mem := mem.setNext p (mem e).next
    let n ← (mem e).next
    return (mem.setPrev n (mem s).prev, list, 0)

/-- `list_insert_nodes(list, after, start, end)`. -/
def listInsertNodes (fuel : Nat) (mem : NodeMem) (list : DList) (after start last : Option Ptr) :
    Option (NodeMem × DList × Int) := do
  -- check if nodes is a valid list
  if (← listCheckLinks fuel mem start last) = false then return (mem, list, -1)
  let s ← start
  let e ← last
  if list.head = none then
    return (mem, { head := some s, tail := some e }, 0)
  else
    match after with
    | none =>
      let mem := mem.setNext e list.head
      return (mem.setPrev s none, { list with head := some s }, 0)
    | some a =>
      let next := (mem a).next
      let mem := mem.setNext a (some s)
      let mem := mem.setPrev s (some a)
      let mem := mem.setNext e next
      match next with
      | some n => return (mem.setPrev n (some e), list, 0)
      | none => return (mem, { list with tail := some e }, 0)

/-! ## Queues -/

/-- `queue_t`. -/
structure Queue where
  list : DList
deriving DecidableEq

/-- `queue_init(queue)`. -/
def queueInit : Queue := ⟨listInit⟩

/-- `queue_enqueue(queue, node)`. -/
def queueEnqueue (mem : NodeMem) (queue : Queue) (node : Ptr) : NodeMem × Queue :=
  let (mem, list) := listAppend mem queue.list node
  (mem, ⟨list⟩)

/-- `queue_dequeue(queue, node)`. -/
def queueDequeue (mem : NodeMem) (queue : Queue) : NodeMem × Queue × NodeResult :=
  let (mem, list, result) := listPopleft mem queue.list
  (mem, ⟨list⟩, result)

/-- `queue_peek_last(queue, node)`. -/
def queuePeekLast (queue : Queue) : NodeResult :=
  match queue.list.tail with
  | none => ⟨-1, none⟩
  | some node => ⟨0, some node⟩

/-- `queue_peek_first(queue, node)`. -/
def queuePeekFirst (queue : Queue) : NodeResult :=
  match queue.list.head with
  | none => ⟨-1, none⟩
  | some node => ⟨0, some node⟩

end CUtils
