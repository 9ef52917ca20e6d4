import Mathlib.Logic.Function.Basic
import CUtils.ForStd.Heap

/-!
# Singly linked lists

The singly linked lists of `list.c` and the stacks of `stack.c`.  A node is only its
`next`, and the memory of the nodes is a total map from their addresses, as for the doubly
linked lists.  Each loop takes a bound `fuel` on its rounds; a result `none` means that the
C code would dereference NULL, or that the bound is used up.
-/

namespace CUtils

/-- The memory of the nodes: `next` of the `snode_t` at an address. -/
abbrev SNodeMem := Ptr → Option Ptr

/-- `slist_t`. -/
structure SList where
  head : Option Ptr
deriving DecidableEq

/-- `node->next = q`. -/
def SNodeMem.setNext (mem : SNodeMem) (p : Ptr) (q : Option Ptr) : SNodeMem :=
  Function.update mem p q

/-- What a function with an `int` result and an out parameter `node` returns; the outer
    `none` of the out parameter is that it is not written, the inner one is NULL. -/
structure SNodeResult where
  rc : Int
  node : Option (Option Ptr)
deriving DecidableEq

/-- `slist_init(list)`. -/
def slistInit : SList := { head := none }

/-- The loop of `slist_append` from `p`: the node without a `next`. -/
def slistLast (mem : SNodeMem) : Nat → Ptr → Option Ptr
  | 0, _ => none
  | fuel + 1, p =>
    match mem p with
    | some q => slistLast mem fuel q
    | none => some p

/-- `slist_append(list, after, node)`. -/
def slistAppend (fuel : Nat) (mem : SNodeMem) (list : SList) (after : Option Ptr) (node : Ptr) :
    Option (SNodeMem × SList) :=
  match after.or list.head with
  | none => some (mem.setNext node none, { head := some node })
  | some p => do
    let p ← slistLast mem fuel p
    let mem := mem.setNext p (some node)
    return (mem.setNext node none, list)

/-- `slist_appendleft(list, node)`. -/
def slistAppendleft (mem : SNodeMem) (list : SList) (node : Ptr) : SNodeMem × SList :=
  (mem.setNext node list.head, { head := some node })

/-- The loop of `slist_pop`: the last values of `n1` and `n2`. -/
def slistScan (mem : SNodeMem) : Nat → Ptr → Option Ptr → Option (Ptr × Option Ptr)
  | 0, _, _ => none
  | _ + 1, n1, none => some (n1, none)
  | fuel + 1, n1, some n2 =>
    match mem n2 with
    | none => some (n1, some n2)
    | some _ => do
      let n1 ← mem n1
      slistScan mem fuel n1 (mem n2)

/-- `slist_pop(list, after, node)`. -/
def slistPop (fuel : Nat) (mem : SNodeMem) (list : SList) (after : Option Ptr) :
    Option (SNodeMem × SList × SNodeResult) :=
  match list.head with
  | none => some (mem, list, ⟨-1, none⟩)
  | some h =>
    match mem h with
    -- it was the only node
    | none => some (mem, { head := none }, ⟨0, some (some h)⟩)
    | some _ => do
      let n1 := after.getD h
      let (n1, n2) ← slistScan mem fuel n1 (mem n1)
      return (mem.setNext n1 none, list, ⟨0, some n2⟩)

/-- `slist_popleft(list, node)`. -/
def slistPopleft (mem : SNodeMem) (list : SList) : SList × SNodeResult :=
  match list.head with
  | none => (list, ⟨-1, none⟩)
  | some h => ({ head := mem h }, ⟨0, some (some h)⟩)

/-- The loop of `slist_remove_node`: the last values of `prev` and `cur`. -/
def slistFind (mem : SNodeMem) (node : Ptr) :
    Nat → Option Ptr → Option Ptr → Option (Option Ptr × Option Ptr)
  | 0, _, _ => none
  | _ + 1, prev, none => some (prev, none)
  | fuel + 1, prev, some cur =>
    if cur ≠ node then slistFind mem node fuel (some cur) (mem cur) else some (prev, some cur)

/-- `slist_remove_node(list, node)`. -/
def slistRemoveNode (fuel : Nat) (mem : SNodeMem) (list : SList) (node : Ptr) :
    Option (SNodeMem × SList × Int) := do
  match ← slistFind mem node fuel none list.head with
  | (_, none) => return (mem, list, -1)
  | (none, some cur) => return (mem, { head := mem cur }, 0)
  | (some prev, some cur) => return (mem.setNext prev (mem cur), list, 0)

/-- `slist_insert_node(list, after, newNode)`. -/
def slistInsertNode (mem : SNodeMem) (list : SList) (after : Option Ptr) (newNode : Ptr) :
    SNodeMem × SList :=
  match after with
  -- same as append left
  | none => (mem.setNext newNode list.head, { head := some newNode })
  | some a =>
    let mem := mem.setNext newNode (mem a)
    (mem.setNext a (some newNode), list)

/-! ## Stacks -/

/-- `stack_t`. -/
structure Stack where
  list : SList
deriving DecidableEq

/-- `stack_push(stack, node)`. -/
def stackPush (mem : SNodeMem) (stack : Stack) (node : Ptr) : SNodeMem × Stack :=
  let (mem, list) := slistAppendleft mem stack.list node
  (mem, ⟨list⟩)

/-- `stack_pop(stack, node)`. -/
def stackPop (mem : SNodeMem) (stack : Stack) : Stack × SNodeResult :=
  let (list, result) := slistPopleft mem stack.list
  (⟨list⟩, result)

/-- `stack_get_top(stack, node)`. -/
def stackGetTop (stack : Stack) : SNodeResult :=
  match stack.list.head with
  | none => ⟨-1, none⟩
  | some h => ⟨0, some (some h)⟩

end CUtils
