import CUtils.ForStd.List
import CUtils.ForStd.Segment
import CUtils.ForStd.StepSystem
import CUtils.Native.SList

/-!
# A singly linked list is a sequence of nodes

- `slist_refines_seq`: every sequence of calls of the lists and stacks acts as on a
  sequence of nodes, if no `slist_pop` starts at the last node.
- `slistPop_last_iff`: for which lists and nodes `slist_pop` takes the last node.
-/

namespace CUtils

open StepSystem

/-- The list stores the nodes `xs` in this order. -/
def SListRepr (mem : SNodeMem) (list : SList) (xs : List Ptr) : Prop :=
  IsSeg mem list.head xs none

/-- The empty list after `slist_init`. -/
theorem slistInit_repr (mem : SNodeMem) : SListRepr mem slistInit [] := rfl

section

variable {mem : SNodeMem} {list : SList} {xs pre post : List Ptr} {a x node : Ptr} {fuel : Nat}

namespace SListRepr

theorem nodup (h : SListRepr mem list xs) : xs.Nodup := IsSeg.nodup h

theorem head_eq (h : SListRepr mem list xs) : list.head = xs.head? := by
  rw [IsSeg.eq_head h, Option.or_none]

/-- The nodes from one of them on. -/
theorem suffix (h : SListRepr mem list (pre ++ a :: post)) :
    IsSeg mem (some a) (a :: post) none := by
  obtain ⟨m, _, hpost⟩ := IsSeg.append_iff.mp h
  rwa [← hpost.1]

theorem notMem_left (h : SListRepr mem list (pre ++ a :: post)) : a ∉ pre := by
  intro hmem
  have hdisj := List.disjoint_of_nodup_append h.nodup
  exact hdisj hmem List.mem_cons_self

/-- Redirecting a node cuts the nodes behind it off and continues at another node. -/
theorem relink (h : SListRepr mem list (pre ++ a :: post)) (q : Option Ptr) :
    IsSeg (mem.setNext a q) list.head (pre ++ [a]) q := by
  have hsplit : pre ++ a :: post = (pre ++ [a]) ++ post := by simp
  have hseg : IsSeg mem list.head (pre ++ a :: post) none := h
  rw [hsplit] at hseg
  obtain ⟨m, hleft, _⟩ := IsSeg.append_iff.mp hseg
  exact hleft.update_getLast h.notMem_left q

end SListRepr

/-! ## Loops -/

/-- The loop of `slist_append` stops at the last node. -/
theorem slistLast_spec {p : Ptr} (h : IsSeg mem (some p) (xs ++ [x]) none)
    (hfuel : xs.length < fuel) : slistLast mem fuel p = some x := by
  induction xs generalizing p fuel with
  | nil =>
    obtain ⟨fuel, rfl⟩ : ∃ n, fuel = n + 1 := ⟨fuel - 1, by omega⟩
    obtain rfl := Option.some.inj h.1
    have hnext : mem p = none := h.2
    rw [slistLast, hnext]
  | cons y xs ih =>
    rw [List.length_cons] at hfuel
    obtain ⟨fuel, rfl⟩ : ∃ n, fuel = n + 1 := ⟨fuel - 1, by omega⟩
    obtain rfl := Option.some.inj h.1
    have hrest : IsSeg mem (mem p) (xs ++ [x]) none := h.2
    -- `p` is not the last node, so it has a next one
    cases hnext : mem p with
    | none =>
      rw [hnext] at hrest
      have hnil := hrest.eq_nil_of_none
      simp at hnil
    | some q =>
      rw [hnext] at hrest
      rw [slistLast, hnext]
      exact ih hrest (by omega)

/-- The loop of `slist_pop` stops with the last two nodes. -/
theorem slistScan_spec {n1 : Ptr} (h : IsSeg mem (some n1) (xs ++ [a, x]) none)
    (hfuel : xs.length < fuel) : slistScan mem fuel n1 (mem n1) = some (a, some x) := by
  induction xs generalizing n1 fuel with
  | nil =>
    obtain ⟨fuel, rfl⟩ : ∃ n, fuel = n + 1 := ⟨fuel - 1, by omega⟩
    obtain ⟨hn1, hnext, hlast⟩ := h
    obtain rfl := Option.some.inj hn1
    have hend : mem x = none := hlast
    rw [hnext, slistScan, hend]
  | cons y xs ih =>
    rw [List.length_cons] at hfuel
    obtain ⟨fuel, rfl⟩ : ∃ n, fuel = n + 1 := ⟨fuel - 1, by omega⟩
    obtain rfl := Option.some.inj h.1
    have hrest : IsSeg mem (mem n1) (xs ++ [a, x]) none := h.2
    cases hnext : mem n1 with
    | none =>
      rw [hnext] at hrest
      have hnil := hrest.eq_nil_of_none
      simp at hnil
    | some n2 =>
      rw [hnext] at hrest
      -- `n2` is not the last node
      cases hnext2 : mem n2 with
      | none =>
        cases xs with
        | nil =>
          obtain rfl := Option.some.inj hrest.1
          have hlink : mem n2 = some x := hrest.2.1
          rw [hnext2] at hlink
          cases hlink
        | cons z xs =>
          obtain rfl := Option.some.inj hrest.1
          have hnil : xs ++ [a, x] = [] := by
            have hseg : IsSeg mem (mem n2) (xs ++ [a, x]) none := hrest.2
            rw [hnext2] at hseg
            exact hseg.eq_nil_of_none
          simp at hnil
      | some n3 =>
        have hloop := ih hrest (show xs.length < fuel by omega)
        rw [hnext2] at hloop
        simp only [slistScan, hnext2, hnext, Option.bind_eq_bind, Option.bind_some, hloop]

/-- The loop of `slist_remove_node` stops at a node of the list, with the node before it. -/
theorem slistFind_spec {cur : Option Ptr} (prev : Option Ptr)
    (h : IsSeg mem cur (pre ++ node :: post) none) (hnode : node ∉ pre)
    (hfuel : pre.length < fuel) :
    slistFind mem node fuel prev cur = some (pre.getLast?.or prev, some node) := by
  induction pre generalizing prev cur fuel with
  | nil =>
    obtain ⟨fuel, rfl⟩ : ∃ n, fuel = n + 1 := ⟨fuel - 1, by omega⟩
    obtain rfl := h.1
    rw [slistFind, if_neg (not_not.mpr rfl)]
    rfl
  | cons y pre ih =>
    rw [List.length_cons] at hfuel
    obtain ⟨fuel, rfl⟩ : ∃ n, fuel = n + 1 := ⟨fuel - 1, by omega⟩
    obtain rfl := h.1
    obtain ⟨hne, hnode⟩ := not_or.mp (List.mem_cons.not.mp hnode)
    rw [slistFind, if_pos (Ne.symm hne), ih (some y) h.2 hnode (by omega),
      List.getLast?_cons_or]

/-- It runs to the end of the list if the node is not in it. -/
theorem slistFind_notMem {cur : Option Ptr} (prev : Option Ptr) (h : IsSeg mem cur xs none)
    (hnode : node ∉ xs) (hfuel : xs.length < fuel) :
    ∃ prev', slistFind mem node fuel prev cur = some (prev', none) := by
  induction xs generalizing prev cur fuel with
  | nil =>
    obtain ⟨fuel, rfl⟩ : ∃ n, fuel = n + 1 := ⟨fuel - 1, by omega⟩
    obtain rfl := h
    exact ⟨prev, rfl⟩
  | cons y xs ih =>
    rw [List.length_cons] at hfuel
    obtain ⟨fuel, rfl⟩ : ∃ n, fuel = n + 1 := ⟨fuel - 1, by omega⟩
    obtain rfl := h.1
    obtain ⟨hne, hnode⟩ := not_or.mp (List.mem_cons.not.mp hnode)
    rw [slistFind, if_pos (Ne.symm hne)]
    exact ih (some y) h.2 hnode (by omega)

/-! ## Functions -/

theorem slistAppendleft_spec (h : SListRepr mem list xs) (hnode : node ∉ xs) :
    SListRepr (slistAppendleft mem list node).1 (slistAppendleft mem list node).2
      (node :: xs) := by
  refine ⟨rfl, ?_⟩
  have hnext : (slistAppendleft mem list node).1 node = list.head := Function.update_self ..
  rw [hnext]
  exact IsSeg.update_of_notMem h hnode _

/-- `slist_append` adds the node behind the last one, wherever its search starts. -/
theorem slistAppend_spec (h : SListRepr mem list xs) (hnode : node ∉ xs)
    {after : Option Ptr} (hafter : ∀ a ∈ after, a ∈ xs) (hfuel : xs.length < fuel) :
    ∃ mem' list', slistAppend fuel mem list after node = some (mem', list') ∧
      SListRepr mem' list' (xs ++ [node]) := by
  cases hstart : after.or list.head with
  | none =>
    obtain ⟨_, hhead⟩ := Option.or_eq_none_iff.mp hstart
    rw [h.head_eq, List.head?_eq_none_iff] at hhead
    subst hhead
    refine ⟨_, _, by rw [slistAppend, hstart], rfl, ?_⟩
    exact Function.update_self ..
  | some p =>
    have hp : p ∈ xs := by
      rcases Option.or_eq_some_iff.mp hstart with hsome | ⟨_, hhead⟩
      · exact hafter p hsome
      · exact List.mem_of_head? (h.head_eq ▸ hhead)
    obtain ⟨pre, post, rfl⟩ := List.append_of_mem hp
    -- the nodes from `p` on have a last one
    obtain ⟨init, x, hlast⟩ : ∃ init x, p :: post = init ++ [x] :=
      List.eq_nil_or_concat' (p :: post) |>.resolve_left (List.cons_ne_nil p post)
    have hseg : IsSeg mem (some p) (init ++ [x]) none := hlast ▸ h.suffix
    have hlen := congrArg List.length hlast
    simp only [List.length_append, List.length_cons, List.length_nil] at hfuel hlen
    have hloop := slistLast_spec hseg (show init.length < fuel by omega)
    have hrun : slistAppend fuel mem list after node =
        some ((mem.setNext x (some node)).setNext node none, list) := by
      simp only [slistAppend, hstart, hloop, Option.bind_eq_bind, Option.bind_some,
        Option.pure_def]
    refine ⟨_, _, hrun, ?_⟩
    have hxs : pre ++ p :: post = pre ++ init ++ [x] := by rw [hlast, List.append_assoc]
    rw [hxs] at h hnode ⊢
    refine IsSeg.append (IsSeg.update_of_notMem (h.relink (some node)) hnode none) ⟨rfl, ?_⟩
    exact Function.update_self ..

theorem slistPopleft_spec (h : SListRepr mem list (x :: xs)) :
    ∃ list', slistPopleft mem list = (list', ⟨0, some (some x)⟩) ∧ SListRepr mem list' xs := by
  have hhead : list.head = some x := h.1
  exact ⟨_, by rw [slistPopleft, hhead], h.2⟩

theorem slistPopleft_nil (h : SListRepr mem list []) :
    slistPopleft mem list = (list, ⟨-1, none⟩) := by
  have hhead : list.head = none := h
  rw [slistPopleft, hhead]

theorem slistPop_nil (h : SListRepr mem list []) (after : Option Ptr) :
    slistPop fuel mem list after = some (mem, list, ⟨-1, none⟩) := by
  have hhead : list.head = none := h
  rw [slistPop, hhead]

/-- `slist_pop` of the only node does not look at `after`. -/
theorem slistPop_singleton (h : SListRepr mem list [x]) (after : Option Ptr) :
    slistPop fuel mem list after = some (mem, { head := none }, ⟨0, some (some x)⟩) := by
  have hhead : list.head = some x := h.1
  have hnext : mem x = none := h.2
  rw [slistPop, hhead]
  simp only [hnext]

/-- The loop of `slist_pop` is entered if there are two nodes. -/
theorem slistPop_eq {y z : Ptr} (fuel : Nat) (h : SListRepr mem list (y :: z :: xs))
    (after : Option Ptr) :
    slistPop fuel mem list after =
      (slistScan mem fuel (after.getD y) (mem (after.getD y))).map fun r =>
        (mem.setNext r.1 none, list, ⟨0, some r.2⟩) := by
  have hhead : list.head = some y := h.1
  have hnext : mem y = some z := h.2.1
  rw [slistPop, hhead]
  simp only [hnext, Option.bind_eq_bind, Option.pure_def]
  cases slistScan mem fuel (after.getD y) (mem (after.getD y)) <;> rfl

/-- `slist_pop` takes the last node if its search starts before that. -/
theorem slistPop_spec (h : SListRepr mem list (xs ++ [x])) {after : Option Ptr}
    (hafter : ∀ a ∈ after, a ∈ xs) (hfuel : xs.length < fuel) :
    ∃ mem' list', slistPop fuel mem list after = some (mem', list', ⟨0, some (some x)⟩) ∧
      SListRepr mem' list' xs := by
  cases xs with
  | nil => exact ⟨_, _, slistPop_singleton h after, rfl⟩
  | cons y xs =>
    obtain ⟨z, zs, hzs⟩ : ∃ z zs, xs ++ [x] = z :: zs :=
      List.exists_cons_of_ne_nil (by simp)
    have htwo : SListRepr mem list (y :: z :: zs) := by rwa [← hzs]
    have hpop := slistPop_eq fuel htwo after
    have hstart : after.getD y ∈ y :: xs := by
      cases after with
      | none => exact List.mem_cons_self
      | some a => exact hafter a rfl
    obtain ⟨pre, post, hsplit⟩ := List.append_of_mem hstart
    -- the nodes from the first one searched to the one before the last
    obtain ⟨init, a, hlast⟩ : ∃ init a, after.getD y :: post = init ++ [a] :=
      List.eq_nil_or_concat' _ |>.resolve_left (List.cons_ne_nil _ post)
    have hlen := congrArg List.length hlast
    rw [hsplit] at h hfuel ⊢
    simp only [List.length_append, List.length_cons, List.length_nil] at hfuel hlen
    rw [List.append_assoc, List.cons_append] at h
    have hseg : IsSeg mem (some (after.getD y)) (init ++ [a, x]) none := by
      have hsuffix := h.suffix
      rwa [← List.cons_append, hlast, List.append_assoc] at hsuffix
    have hloop := slistScan_spec hseg (show init.length < fuel by omega)
    rw [hloop, Option.map_some] at hpop
    refine ⟨_, _, hpop, ?_⟩
    rw [hlast, ← List.append_assoc]
    rw [← List.cons_append, hlast, List.append_assoc, ← List.append_assoc] at h
    exact h.relink none

/-- From the last of several nodes `slist_pop` takes nothing and reports NULL. -/
theorem slistPop_from_last (h : SListRepr mem list (xs ++ [x])) (hne : xs ≠ [])
    (hfuel : 0 < fuel) :
    slistPop fuel mem list (some x) = some (mem.setNext x none, list, ⟨0, some none⟩) := by
  obtain ⟨fuel, rfl⟩ : ∃ n, fuel = n + 1 := ⟨fuel - 1, by omega⟩
  obtain ⟨y, ys, rfl⟩ := List.exists_cons_of_ne_nil hne
  obtain ⟨z, zs, hzs⟩ : ∃ z zs, ys ++ [x] = z :: zs := List.exists_cons_of_ne_nil (by simp)
  have hend : mem x = none := h.suffix.2
  rw [List.cons_append, hzs] at h
  rw [slistPop_eq _ h, Option.getD_some, hend]
  rfl

/-- `slist_remove_node` takes a node out of the list. -/
theorem slistRemoveNode_spec (h : SListRepr mem list (pre ++ node :: post))
    (hfuel : pre.length < fuel) :
    ∃ mem' list', slistRemoveNode fuel mem list node = some (mem', list', 0) ∧
      SListRepr mem' list' (pre ++ post) := by
  have hloop := slistFind_spec none h h.notMem_left hfuel
  rw [Option.or_none] at hloop
  have hrest : IsSeg mem (mem node) post none := h.suffix.2
  rcases List.eq_nil_or_concat' pre with rfl | ⟨pre, a, rfl⟩
  · rw [List.getLast?_nil] at hloop
    refine ⟨_, _, ?_, hrest⟩
    rw [slistRemoveNode, hloop]
    rfl
  · rw [List.getLast?_concat] at hloop
    rw [List.append_assoc, List.singleton_append] at h
    refine ⟨_, _, by rw [slistRemoveNode, hloop]; rfl, ?_⟩
    refine IsSeg.append (h.relink (mem node)) (hrest.update_of_notMem ?_ _)
    -- `a` is before `node`, so not behind it
    intro hmem
    have hsuffix := (List.nodup_append.mp h.nodup).2.1
    exact (List.nodup_cons.mp hsuffix).1 (List.mem_cons_of_mem node hmem)

/-- A node that is not in the list changes nothing. -/
theorem slistRemoveNode_notMem (h : SListRepr mem list xs) (hnode : node ∉ xs)
    (hfuel : xs.length < fuel) :
    slistRemoveNode fuel mem list node = some (mem, list, -1) := by
  obtain ⟨prev, hloop⟩ := slistFind_notMem none h hnode hfuel
  rw [slistRemoveNode, hloop]
  rfl

/-- `slist_insert_node` puts a new node behind a node of the list. -/
theorem slistInsertNode_spec (h : SListRepr mem list (pre ++ a :: post))
    (hnode : node ∉ pre ++ a :: post) :
    SListRepr (slistInsertNode mem list (some a) node).1 (slistInsertNode mem list (some a) node).2
      (pre ++ a :: node :: post) := by
  have hrest : IsSeg mem (mem a) post none := h.suffix.2
  have ha : a ∉ node :: post := by
    have hsuffix := (List.nodup_append.mp h.nodup).2.1
    intro hmem
    rcases List.mem_cons.mp hmem with rfl | hpost
    · exact hnode (List.mem_append_right pre List.mem_cons_self)
    · exact (List.nodup_cons.mp hsuffix).1 hpost
  -- the first write puts the new node in front of those behind `a`
  have hnew : IsSeg (mem.setNext node (mem a)) (some node) (node :: post) none := by
    refine ⟨rfl, ?_⟩
    have hself : mem.setNext node (mem a) node = mem a := Function.update_self ..
    rw [hself]
    refine hrest.update_of_notMem (fun hpost => hnode ?_) _
    exact List.mem_append_right pre (List.mem_cons_of_mem a hpost)
  have hold : SListRepr (mem.setNext node (mem a)) list (pre ++ a :: post) :=
    IsSeg.update_of_notMem h hnode _
  have hsplit : pre ++ a :: node :: post = (pre ++ [a]) ++ node :: post := by simp
  rw [hsplit]
  exact IsSeg.append (hold.relink (some node)) (hnew.update_of_notMem ha _)

end

/-! ## Runs -/

/-- A call of the list interface, or of the stack interface on the list inside a stack. -/
inductive SListOp where
  | append (after : Option Ptr) (node : Ptr)
  | appendleft (node : Ptr)
  | insertNode (after : Option Ptr) (node : Ptr)
  | pop (after : Option Ptr)
  | popleft
  | removeNode (node : Ptr)
  | push (node : Ptr)
  | stackPop
  | getTop
deriving DecidableEq

/-- What a call returns. -/
inductive SListOut where
  | void
  | rc (r : Int)
  | result (r : SNodeResult)
deriving DecidableEq

/-- Perform a call on the list. -/
def slistStep (fuel : Nat) (s : SNodeMem × SList) :
    SListOp → Option ((SNodeMem × SList) × SListOut)
  | .append after node => (slistAppend fuel s.1 s.2 after node).map fun s' => (s', .void)
  | .appendleft node => some (slistAppendleft s.1 s.2 node, .void)
  | .insertNode after node => some (slistInsertNode s.1 s.2 after node, .void)
  | .pop after => (slistPop fuel s.1 s.2 after).map fun r => ((r.1, r.2.1), .result r.2.2)
  | .popleft => let (list, r) := slistPopleft s.1 s.2; some ((s.1, list), .result r)
  | .removeNode node =>
    (slistRemoveNode fuel s.1 s.2 node).map fun r => ((r.1, r.2.1), .rc r.2.2)
  | .push node => let (mem, stack) := stackPush s.1 ⟨s.2⟩ node; some ((mem, stack.list), .void)
  | .stackPop => let (stack, r) := stackPop s.1 ⟨s.2⟩; some ((s.1, stack.list), .result r)
  | .getTop => some (s, .result (stackGetTop ⟨s.2⟩))

/-- What taking an end of a sequence returns: -1 when there is none. -/
def slistEndResult : Option Ptr → SNodeResult
  | none => ⟨-1, none⟩
  | some node => ⟨0, some (some node)⟩

/-- The sequence with a new element behind `a`. -/
def insertAfter (a node : Ptr) : List Ptr → List Ptr
  | [] => []
  | x :: xs => if x = a then x :: node :: xs else x :: insertAfter a node xs

/-- Perform a call on a sequence.  A node that is added must not be in it, and the hint
    `after` must be: for `slist_pop` it must not be the last node.  Any other call is
    `none`. -/
def slistSeqStep (xs : List Ptr) : SListOp → Option (List Ptr × SListOut)
  | .append after node =>
    if node ∉ xs ∧ ∀ a ∈ after, a ∈ xs then some (xs ++ [node], .void) else none
  | .appendleft node => if node ∉ xs then some (node :: xs, .void) else none
  | .insertNode none node => if node ∉ xs then some (node :: xs, .void) else none
  | .insertNode (some a) node =>
    if node ∉ xs ∧ a ∈ xs then some (insertAfter a node xs, .void) else none
  | .pop after =>
    if ∀ a ∈ after, a ∈ xs ∧ xs.getLast? ≠ some a then
      some (xs.dropLast, .result (slistEndResult xs.getLast?))
    else none
  | .popleft => some (xs.tail, .result (slistEndResult xs.head?))
  | .removeNode node => some (xs.erase node, .rc (if node ∈ xs then 0 else -1))
  | .push node => if node ∉ xs then some (node :: xs, .void) else none
  | .stackPop => some (xs.tail, .result (slistEndResult xs.head?))
  | .getTop => some (xs, .result (slistEndResult xs.head?))

theorem insertAfter_eq {pre : List Ptr} {a : Ptr} (ha : a ∉ pre) (node : Ptr) (post : List Ptr) :
    insertAfter a node (pre ++ a :: post) = pre ++ a :: node :: post := by
  induction pre with
  | nil => rw [List.nil_append, insertAfter, if_pos rfl, List.nil_append]
  | cons x pre ih =>
    obtain ⟨hne, ha⟩ := not_or.mp (List.mem_cons.not.mp ha)
    rw [List.cons_append, insertAfter, if_neg (Ne.symm hne), ih ha, List.cons_append]

/-- No call adds more than one node. -/
theorem length_slistSeqStep_le {xs xs' : List Ptr} {op : SListOp} {out : SListOut}
    (h : slistSeqStep xs op = some (xs', out)) : xs'.length ≤ xs.length + 1 := by
  have hinsert : ∀ a node, (insertAfter a node xs).length ≤ xs.length + 1 := by
    intro a node
    clear h
    induction xs with
    | nil => exact Nat.zero_le _
    | cons x xs ih =>
      rw [insertAfter]
      split
      · exact Nat.le_refl _
      · exact Nat.succ_le_succ ih
  -- only the calls that add a node make the sequence longer
  cases op with
  | append after node =>
    obtain ⟨_, h⟩ := Option.ite_none_right_eq_some.mp h
    obtain ⟨rfl, rfl⟩ := Prod.mk.inj (Option.some.inj h)
    rw [List.length_append, List.length_singleton]
  | appendleft node | push node =>
    obtain ⟨_, h⟩ := Option.ite_none_right_eq_some.mp h
    obtain ⟨rfl, rfl⟩ := Prod.mk.inj (Option.some.inj h)
    exact Nat.le_refl _
  | insertNode after node =>
    cases after with
    | none =>
      obtain ⟨_, h⟩ := Option.ite_none_right_eq_some.mp h
      obtain ⟨rfl, rfl⟩ := Prod.mk.inj (Option.some.inj h)
      exact Nat.le_refl _
    | some a =>
      obtain ⟨_, h⟩ := Option.ite_none_right_eq_some.mp h
      obtain ⟨rfl, rfl⟩ := Prod.mk.inj (Option.some.inj h)
      exact hinsert a node
  | pop after =>
    obtain ⟨_, h⟩ := Option.ite_none_right_eq_some.mp h
    obtain ⟨rfl, rfl⟩ := Prod.mk.inj (Option.some.inj h)
    rw [List.length_dropLast]
    omega
  | popleft | stackPop =>
    obtain ⟨rfl, rfl⟩ := Prod.mk.inj (Option.some.inj h)
    rw [List.length_tail]
    omega
  | removeNode node =>
    obtain ⟨rfl, rfl⟩ := Prod.mk.inj (Option.some.inj h)
    exact Nat.le_succ_of_le List.length_erase_le
  | getTop =>
    obtain ⟨rfl, rfl⟩ := Prod.mk.inj (Option.some.inj h)
    exact Nat.le_succ _

/-- `slist_popleft` on any list, empty or not. -/
theorem slistPopleft_endResult {mem : SNodeMem} {list : SList} {xs : List Ptr}
    (h : SListRepr mem list xs) :
    ∃ list', slistPopleft mem list = (list', slistEndResult xs.head?) ∧
      SListRepr mem list' xs.tail := by
  cases xs with
  | nil => exact ⟨list, slistPopleft_nil h, h⟩
  | cons x xs => exact slistPopleft_spec h

/-- `slist_pop` on any list, empty or not. -/
theorem slistPop_endResult {mem : SNodeMem} {list : SList} {xs : List Ptr} {fuel : Nat}
    (h : SListRepr mem list xs) {after : Option Ptr}
    (hafter : ∀ a ∈ after, a ∈ xs ∧ xs.getLast? ≠ some a) (hfuel : xs.length < fuel) :
    ∃ mem' list', slistPop fuel mem list after =
      some (mem', list', slistEndResult xs.getLast?) ∧ SListRepr mem' list' xs.dropLast := by
  rcases List.eq_nil_or_concat' xs with rfl | ⟨init, x, rfl⟩
  · exact ⟨mem, list, slistPop_nil h after, h⟩
  · rw [List.length_append, List.length_singleton] at hfuel
    rw [List.getLast?_concat] at hafter ⊢
    rw [List.dropLast_concat]
    have hinit : ∀ a ∈ after, a ∈ init := by
      intro a ha
      obtain ⟨hmem, hlast⟩ := hafter a ha
      rcases List.mem_append.mp hmem with hinit | hx
      · exact hinit
      · exact absurd (congrArg some (List.mem_singleton.mp hx).symm) hlast
    exact slistPop_spec h hinit (by omega)

/-- `slist_remove_node` of any node, in the list or not. -/
theorem slistRemoveNode_erase {mem : SNodeMem} {list : SList} {xs : List Ptr} {fuel : Nat}
    (h : SListRepr mem list xs) (node : Ptr) (hfuel : xs.length < fuel) :
    ∃ mem' list', slistRemoveNode fuel mem list node =
      some (mem', list', if node ∈ xs then 0 else -1) ∧ SListRepr mem' list' (xs.erase node) := by
  by_cases hnode : node ∈ xs
  · rw [if_pos hnode]
    obtain ⟨pre, post, _, rfl, herase⟩ := List.exists_erase_eq hnode
    rw [List.length_append] at hfuel
    rw [herase]
    exact slistRemoveNode_spec h (by omega)
  · rw [if_neg hnode, List.erase_of_not_mem hnode]
    exact ⟨mem, list, slistRemoveNode_notMem h hnode hfuel, h⟩

/-- The step lemma: every call acts on the list as on the sequence it stores. -/
theorem slistStep_spec {fuel : Nat} {s : SNodeMem × SList} {xs : List Ptr}
    (h : SListRepr s.1 s.2 xs) (hfuel : xs.length < fuel) {op : SListOp} {xs' : List Ptr}
    {out : SListOut} (hspec : slistSeqStep xs op = some (xs', out)) :
    ∃ s', slistStep fuel s op = some (s', out) ∧ SListRepr s'.1 s'.2 xs' := by
  obtain ⟨mem, list⟩ := s
  cases op with
  | append after node =>
    obtain ⟨⟨hnode, hafter⟩, hspec⟩ := Option.ite_none_right_eq_some.mp hspec
    obtain ⟨rfl, rfl⟩ := Prod.mk.inj (Option.some.inj hspec)
    obtain ⟨mem', list', hrun, hrepr⟩ := slistAppend_spec h hnode hafter hfuel
    exact ⟨(mem', list'), by rw [slistStep, hrun]; rfl, hrepr⟩
  | appendleft node | push node =>
    obtain ⟨hnode, hspec⟩ := Option.ite_none_right_eq_some.mp hspec
    obtain ⟨rfl, rfl⟩ := Prod.mk.inj (Option.some.inj hspec)
    exact ⟨_, rfl, slistAppendleft_spec h hnode⟩
  | insertNode after node =>
    cases after with
    | none =>
      obtain ⟨hnode, hspec⟩ := Option.ite_none_right_eq_some.mp hspec
      obtain ⟨rfl, rfl⟩ := Prod.mk.inj (Option.some.inj hspec)
      exact ⟨_, rfl, slistAppendleft_spec h hnode⟩
    | some a =>
      obtain ⟨⟨hnode, ha⟩, hspec⟩ := Option.ite_none_right_eq_some.mp hspec
      obtain ⟨rfl, rfl⟩ := Prod.mk.inj (Option.some.inj hspec)
      obtain ⟨pre, post, rfl⟩ := List.append_of_mem ha
      -- the nodes are distinct, so `a` is found where the list has it
      rw [insertAfter_eq h.notMem_left]
      exact ⟨_, rfl, slistInsertNode_spec h hnode⟩
  | pop after =>
    obtain ⟨hafter, hspec⟩ := Option.ite_none_right_eq_some.mp hspec
    obtain ⟨rfl, rfl⟩ := Prod.mk.inj (Option.some.inj hspec)
    obtain ⟨mem', list', hrun, hrepr⟩ := slistPop_endResult h hafter hfuel
    exact ⟨(mem', list'), by rw [slistStep, hrun]; rfl, hrepr⟩
  | popleft | stackPop =>
    obtain ⟨rfl, rfl⟩ := Prod.mk.inj (Option.some.inj hspec)
    obtain ⟨list', hrun, hrepr⟩ := slistPopleft_endResult h
    exact ⟨(mem, list'), by simp only [slistStep, CUtils.stackPop, hrun], hrepr⟩
  | removeNode node =>
    obtain ⟨rfl, rfl⟩ := Prod.mk.inj (Option.some.inj hspec)
    obtain ⟨mem', list', hrun, hrepr⟩ := slistRemoveNode_erase h node hfuel
    exact ⟨(mem', list'), by rw [slistStep, hrun]; rfl, hrepr⟩
  | getTop =>
    obtain ⟨rfl, rfl⟩ := Prod.mk.inj (Option.some.inj hspec)
    have hhead : list.head = xs.head? := h.head_eq
    refine ⟨(mem, list), ?_, h⟩
    simp only [slistStep, stackGetTop, hhead]
    cases xs.head? <;> rfl

/-- What the calls return that cannot succeed on an empty list. -/
def SListOp.failure : SListOp → Option SListOut
  | .pop _ | .popleft | .stackPop | .getTop => some (.result ⟨-1, none⟩)
  | .removeNode _ => some (.rc (-1))
  | _ => none

/-- Calls that cannot succeed on an empty list change nothing. -/
theorem slistStep_empty {fuel : Nat} {s : SNodeMem × SList} (h : SListRepr s.1 s.2 [])
    (hfuel : 0 < fuel) {op : SListOp} {out : SListOut} (hop : op.failure = some out) :
    slistStep fuel s op = some (s, out) := by
  obtain ⟨mem, list⟩ := s
  cases op with
  | pop after =>
    obtain rfl := Option.some.inj hop
    rw [slistStep, slistPop_nil h]
    rfl
  | popleft | stackPop =>
    obtain rfl := Option.some.inj hop
    simp only [slistStep, CUtils.stackPop, slistPopleft_nil h]
  | getTop =>
    obtain rfl := Option.some.inj hop
    have hhead : list.head = none := h
    simp only [slistStep, stackGetTop, hhead]
  | removeNode node =>
    obtain rfl := Option.some.inj hop
    rw [slistStep, slistRemoveNode_notMem h List.not_mem_nil hfuel]
    rfl
  -- the other calls do not fail
  | append after node => cases hop
  | appendleft node => cases hop
  | insertNode after node => cases hop
  | push node => cases hop

/-- A run of the list from `slist_init`, whatever the memory of the nodes holds, does call by
    call what the sequence does.  Afterwards `next` from `head` on yields the sequence, which
    has distinct nodes and ends in NULL; then removing an absent node returns -1, as the
    calls do that cannot succeed on an empty list, and both change nothing.  The loops take
    no more rounds than there were calls. -/
theorem slist_refines_seq (mem : SNodeMem) (ops : List SListOp) (xs : List Ptr)
    (outs : List SListOut) (hspec : runOut slistSeqStep [] ops = some (xs, outs)) {fuel : Nat}
    (hfuel : ops.length < fuel) :
    ∃ mem' list, runOut (slistStep fuel) (mem, slistInit) ops = some ((mem', list), outs) ∧
      SListRepr mem' list xs ∧ xs.Nodup ∧
      (∀ node, node ∉ xs →
        slistStep fuel (mem', list) (.removeNode node) = some ((mem', list), .rc (-1))) ∧
      ∀ op out, op.failure = some out → xs = [] →
        slistStep fuel (mem', list) op = some ((mem', list), out) := by
  -- a list has no more nodes than there were calls
  have hsim : ∀ (k : Nat) (s : SNodeMem × SList) (xs : List Ptr) (op : SListOp) (xs' : List Ptr)
      (out : SListOut), k < ops.length → SListRepr s.1 s.2 xs ∧ xs.length ≤ k →
      slistSeqStep xs op = some (xs', out) →
      ∃ s', slistStep fuel s op = some (s', out) ∧ SListRepr s'.1 s'.2 xs' ∧
        xs'.length ≤ k + 1 := by
    intro k s xs op xs' out hk hR hstep
    obtain ⟨s', hrun, hrepr⟩ := slistStep_spec hR.1 (show xs.length < fuel by omega) hstep
    have hle := length_slistSeqStep_le hstep
    exact ⟨s', hrun, hrepr, by omega⟩
  obtain ⟨⟨mem', list⟩, hrun, hrepr, hlen⟩ := runOut_simulation_count (k := 0)
    (R := fun k s xs => SListRepr s.1 s.2 xs ∧ xs.length ≤ k) hsim
    (s := (mem, slistInit)) (t := []) ⟨slistInit_repr mem, Nat.le_refl 0⟩ (Nat.zero_add _).le hspec
  refine ⟨mem', list, hrun, hrepr, hrepr.nodup, fun node hnode => ?_, ?_⟩
  · rw [slistStep, slistRemoveNode_notMem hrepr hnode (by omega)]
    rfl
  · intro op out hop hnil
    subst hnil
    exact slistStep_empty hrepr (by omega) hop

/-- `slist_refines_seq` on a run in which nodes 1 to 4 are added in every way and taken out
    again. -/
theorem slist_refines_seq_run :
    ∃ mem' list, runOut (slistStep 10) (fun _ => none, slistInit)
      [.append none 1, .append (some 1) 2, .appendleft 3, .insertNode (some 1) 4, .pop (some 1),
        .removeNode 1, .removeNode 9, .stackPop, .getTop] =
      some ((mem', list), [.void, .void, .void, .void, .result ⟨0, some (some 2)⟩, .rc 0,
        .rc (-1), .result ⟨0, some (some 3)⟩, .result ⟨0, some (some 4)⟩]) ∧
      SListRepr mem' list [4] ∧ List.Nodup [4] ∧
      (∀ node, node ∉ [4] →
        slistStep 10 (mem', list) (.removeNode node) = some ((mem', list), .rc (-1))) ∧
      ∀ op out, op.failure = some out → [4] = [] →
        slistStep 10 (mem', list) op = some ((mem', list), out) :=
  slist_refines_seq _ _ _ _ (by decide) (by decide)

/-! ## Taking the last node -/

/-- The call has taken the last node of `xs` and reported it, or it has returned -1 and
    changed nothing. -/
def TakesLast (mem : SNodeMem) (list : SList) (xs : List Ptr)
    (r : SNodeMem × SList × SNodeResult) : Prop :=
  (r.2.2.rc = 0 ∧ ∃ x ys, r.2.2.node = some (some x) ∧ xs.getLast? = some x ∧
    SListRepr r.1 r.2.1 ys ∧ x ∉ ys) ∨
  (r.2.2.rc = -1 ∧ r.1 = mem ∧ r.2.1 = list)

/-- `slist_pop` takes the last node, except when it is to start at the last of several. -/
theorem slistPop_last_iff {mem : SNodeMem} {list : SList} {xs : List Ptr}
    (h : SListRepr mem list xs) (hne : xs ≠ []) {after : Option Ptr}
    (hafter : ∀ a ∈ after, a ∈ xs) {fuel : Nat} (hfuel : xs.length < fuel) :
    ∃ r, slistPop fuel mem list after = some r ∧
      (TakesLast mem list xs r ↔ ¬ (after = xs.getLast? ∧ 2 ≤ xs.length)) := by
  obtain ⟨init, x, rfl⟩ := List.eq_nil_or_concat' xs |>.resolve_left hne
  have hx : x ∉ init := h.notMem_left
  rw [List.getLast?_concat, List.length_append, List.length_singleton] at *
  by_cases hbad : after = some x ∧ 2 ≤ init.length + 1
  · obtain ⟨rfl, hlen⟩ := hbad
    have hinit : init ≠ [] := List.ne_nil_of_length_pos (by omega)
    refine ⟨_, slistPop_from_last h hinit (by omega), ?_⟩
    -- 0 is returned, with NULL as the node
    refine iff_of_false ?_ (not_not.mpr ⟨rfl, hlen⟩)
    intro htakes
    rcases htakes with ⟨_, y, ys, hnode, _⟩ | ⟨hrc, _⟩
    · cases Option.some.inj hnode
    · cases hrc
  · have htakes : ∀ mem' list', SListRepr mem' list' init →
        TakesLast mem list (init ++ [x]) (mem', list', ⟨0, some (some x)⟩) := by
      intro mem' list' hrepr
      exact .inl ⟨rfl, x, init, rfl, List.getLast?_concat, hrepr, hx⟩
    by_cases hinit : init = []
    · subst hinit
      exact ⟨_, slistPop_singleton h after, iff_of_true (htakes _ _ rfl) hbad⟩
    · have hpos := List.length_pos_iff.mpr hinit
      have hstart : ∀ a ∈ after, a ∈ init := by
        intro a ha
        rcases List.mem_append.mp (hafter a ha) with hmem | hlast
        · exact hmem
        · obtain rfl := List.mem_singleton.mp hlast
          exact absurd ⟨ha, by omega⟩ hbad
      obtain ⟨mem', list', hrun, hrepr⟩ := slistPop_spec h hstart (show init.length < fuel by omega)
      exact ⟨_, hrun, iff_of_true (htakes _ _ hrepr) hbad⟩

/-- The nodes 1 and 2, linked in this order. -/
def twoSNodes : SNodeMem := fun p => if p = 1 then some 2 else none

/-- `slistPop_last_iff` for the first of two nodes. -/
theorem slistPop_last_iff_two :
    SListRepr twoSNodes ⟨some 1⟩ [1, 2] ∧
    ∃ r, slistPop 3 twoSNodes ⟨some 1⟩ (some 1) = some r ∧
      (TakesLast twoSNodes ⟨some 1⟩ [1, 2] r ↔
        ¬ (some 1 = [1, 2].getLast? ∧ 2 ≤ [1, 2].length)) := by
  have hrepr : SListRepr twoSNodes ⟨some 1⟩ [1, 2] := ⟨rfl, rfl, rfl⟩
  exact ⟨hrepr, slistPop_last_iff hrepr (by decide) (by decide) (by decide)⟩

/-- From the last of two nodes `slist_pop` returns 0, reports NULL and takes nothing. -/
theorem slistPop_last_hint :
    SListRepr twoSNodes ⟨some 1⟩ [1, 2] ∧
    ∃ mem', slistPop 3 twoSNodes ⟨some 1⟩ (some 2) = some (mem', ⟨some 1⟩, ⟨0, some none⟩) ∧
      SListRepr mem' ⟨some 1⟩ [1, 2] ∧
      ¬ TakesLast twoSNodes ⟨some 1⟩ [1, 2] (mem', ⟨some 1⟩, ⟨0, some none⟩) := by
  refine ⟨⟨rfl, rfl, rfl⟩, _, rfl, ⟨rfl, rfl, rfl⟩, ?_⟩
  intro htakes
  rcases htakes with ⟨_, y, ys, hnode, _⟩ | ⟨hrc, _⟩
  · cases Option.some.inj hnode
  · cases hrc

end CUtils
