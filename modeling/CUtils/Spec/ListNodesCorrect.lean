import CUtils.Spec.ListCorrect

/-!
# Segments of doubly linked lists

`list_check_links` walks from both ends of a segment towards each other.  The two
pointers only notice that they have met when the segment has an odd number of nodes;
otherwise they pass each other and go on outside of the segment, where they run into
the two ends of the list.

- `listCheckLinks_correct_iff`: the pairs of nodes about which it is right.
- `listRemoveNodes_correct_iff`: the segments that `list_remove_nodes` removes.
- `listInsertNodes_correct_iff`: the chains that `list_insert_nodes` inserts.
-/

namespace CUtils

/-! ## The loops -/

/-- `list_find_node` finds a node of the list. -/
theorem listFindFrom_mem {mem : NodeMem} {p : Option Ptr} {xs : List Ptr}
    (h : IsSeg (nextOf mem) p xs none) {x : Ptr} (hx : x ∈ xs) {fuel : Nat}
    (hfuel : xs.length < fuel) : listFindFrom mem (some x) fuel p = some (some x) := by
  induction xs generalizing p fuel with
  | nil => simp at hx
  | cons y ys ih =>
    obtain ⟨rfl, hrest⟩ := h
    rw [List.length_cons] at hfuel
    obtain ⟨fuel, rfl⟩ : ∃ k, fuel = k + 1 := ⟨fuel - 1, by omega⟩
    by_cases hyx : y = x
    · subst hyx
      simp only [listFindFrom, ne_eq, not_true_eq_false, ↓reduceIte]
    · have hmem : x ∈ ys := by
        cases hx with
        | head => exact absurd rfl hyx
        | tail _ hmem => exact hmem
      have hne : some y ≠ some x := by simpa using hyx
      simp only [listFindFrom, hne, ↓reduceIte, ne_eq, not_false_eq_true]
      exact ih hrest hmem (by omega)

namespace ListRepr

variable {mem : NodeMem} {list : DList} {xs : List Ptr}

theorem next_getElem? (h : ListRepr mem list xs) {i : Nat} {x : Ptr} (hx : xs[i]? = some x) :
    (mem x).next = xs[i + 1]? :=
  h.fwd.next_getElem? hx

theorem prev_getElem? (h : ListRepr mem list xs) {i : Nat} {x : Ptr}
    (hx : xs.reverse[i]? = some x) : (mem x).prev = xs.reverse[i + 1]? :=
  h.bwd.next_getElem? hx

/-- The node after `x` has `x` as its `prev`. -/
theorem prev_next (h : ListRepr mem list xs) {i : Nat} {x y : Ptr} (hx : xs[i]? = some x)
    (hy : xs[i + 1]? = some y) : (mem y).prev = some x := by
  obtain ⟨hlt, rfl⟩ := List.getElem?_eq_some_iff.mp hy
  have hrev : xs.reverse[xs.length - 2 - i]? = some xs[i + 1] := by
    rw [List.getElem?_reverse (by omega), ← hy]
    congr 1
    omega
  rw [h.prev_getElem? hrev, List.getElem?_reverse (by omega), ← hx]
  congr 1
  omega

/-- The node before `x` has `x` as its `next`. -/
theorem next_prev (h : ListRepr mem list xs) {k : Nat} {x y : Ptr}
    (hx : xs.reverse[k]? = some x) (hy : xs.reverse[k + 1]? = some y) :
    (mem y).next = some x :=
  h.flip.prev_next hx hy

/-- The node `i` places from the front is the node `k` places from the back. -/
theorem getElem?_eq_iff (h : ListRepr mem list xs) {i k : Nat} {x y : Ptr}
    (hx : xs[i]? = some x) (hy : xs.reverse[k]? = some y) :
    x = y ↔ i + k + 1 = xs.length := by
  obtain ⟨hi, rfl⟩ := List.getElem?_eq_some_iff.mp hx
  obtain ⟨hk, rfl⟩ := List.getElem?_eq_some_iff.mp hy
  rw [List.length_reverse] at hk
  rw [List.getElem_reverse, h.nodup.getElem_inj_iff]
  omega

/-- The links out of these two nodes agree when one node lies between them, or when both
    leave the list. -/
theorem next_eq_prev_iff (h : ListRepr mem list xs) {i k : Nat} {x y : Ptr}
    (hx : xs[i]? = some x) (hy : xs.reverse[k]? = some y) :
    (mem x).next = (mem y).prev ↔
      i + k + 3 = xs.length ∨ i + 1 = xs.length ∧ k + 1 = xs.length := by
  have hi : i < xs.length := (List.getElem?_eq_some_iff.mp hx).1
  have hk : k < xs.length := by
    simpa using (List.getElem?_eq_some_iff.mp hy).1
  rw [h.next_getElem? hx, h.prev_getElem? hy]
  cases hx' : xs[i + 1]? with
  -- `x` is the last node, and both pointers are NULL only if `y` is the first
  | none =>
    have hlen : xs.length ≤ i + 1 := List.getElem?_eq_none_iff.mp hx'
    rw [eq_comm, List.getElem?_eq_none_iff, List.length_reverse]
    omega
  | some x' =>
    have hlen : i + 1 < xs.length := (List.getElem?_eq_some_iff.mp hx').1
    cases hy' : xs.reverse[k + 1]? with
    | none =>
      have hlen' : xs.length ≤ k + 1 := by
        simpa using List.getElem?_eq_none_iff.mp hy'
      constructor
      · intro heq
        cases heq
      · omega
    | some y' =>
      have hlen' : k + 1 < xs.length := by
        simpa using (List.getElem?_eq_some_iff.mp hy').1
      rw [Option.some_inj, h.getElem?_eq_iff hx' hy']
      omega

end ListRepr

/-- The loop of `list_check_links` with its pointers `i` nodes from the front and `k`
    nodes from the back.  Either an odd number of nodes lies between them, both
    included, and they meet, or they run into the ends of the list. -/
private theorem listCheckLoop_spec {mem : NodeMem} {list : DList} {xs : List Ptr}
    (h : ListRepr mem list xs) {fuel i k : Nat} {p1Prev p2Next : Option Ptr}
    (hi : i ≤ xs.length) (hk : k ≤ xs.length)
    (hprev : ∀ x, xs[i]? = some x → (mem x).prev = p1Prev)
    (hnext : ∀ x, xs.reverse[k]? = some x → (mem x).next = p2Next)
    (hfuel : xs.length - i < fuel) :
    ∃ q1 q2, listCheckLoop mem fuel xs[i]? xs.reverse[k]? p1Prev p2Next = some (q1, q2) ∧
      listLinksMeet mem q1 q2 =
        decide ((xs.length + i + k) % 2 = 1 ∧ i + k < xs.length ∨ i = k ∧ i < xs.length) := by
  induction fuel generalizing i k p1Prev p2Next with
  | zero => omega
  | succ fuel ih =>
    cases hx : xs[i]? with
    | none =>
      have hle : xs.length ≤ i := List.getElem?_eq_none_iff.mp hx
      refine ⟨none, xs.reverse[k]?, by simp only [listCheckLoop], ?_⟩
      simp only [listLinksMeet, Bool.false_eq, decide_eq_false_iff_not]
      omega
    | some x =>
      cases hy : xs.reverse[k]? with
      | none =>
        have hle : xs.length ≤ k := by
          simpa using List.getElem?_eq_none_iff.mp hy
        refine ⟨some x, none, by simp only [listCheckLoop], ?_⟩
        simp only [listLinksMeet, Bool.false_eq, decide_eq_false_iff_not]
        omega
      | some y =>
        have hilt : i < xs.length := (List.getElem?_eq_some_iff.mp hx).1
        have hklt : k < xs.length := by
          simpa using (List.getElem?_eq_some_iff.mp hy).1
        have hxy := h.getElem?_eq_iff hx hy
        have hlinks := h.next_eq_prev_iff hx hy
        by_cases hstop : x = y ∨ (mem x).next = (mem y).prev
        · -- they have met, or they leave the list together
          refine ⟨some x, some y, ?_, ?_⟩
          · rw [listCheckLoop, if_neg]
            intro hgo
            exact hstop.elim hgo.1 hgo.2.1
          · simp only [listLinksMeet, hstop, decide_true, true_eq_decide_iff]
            rw [hxy, hlinks] at hstop
            omega
        · rw [hxy, hlinks] at hstop
          have hgo : x ≠ y ∧ (mem x).next ≠ (mem y).prev ∧
              (mem x).prev = p1Prev ∧ (mem y).next = p2Next := by
            refine ⟨?_, ?_, hprev x hx, hnext y hy⟩
            · rw [ne_eq, hxy]
              omega
            · rw [ne_eq, hlinks]
              omega
          rw [listCheckLoop, if_pos hgo, h.next_getElem? hx, h.prev_getElem? hy]
          obtain ⟨q1, q2, hloop, hresult⟩ := ih (i := i + 1) (k := k + 1) (by omega)
            (by omega) (fun _ => h.prev_next hx) (fun _ => h.next_prev hy) (by omega)
          refine ⟨q1, q2, hloop, ?_⟩
          rw [hresult, decide_eq_decide]
          omega

/-- `list_check_links` accepts two nodes when the first is in front of the second with an
    odd number of nodes from one to the other, and when they are as far from the two ends
    of the list. -/
theorem listCheckLinks_nodes {mem : NodeMem} {list : DList} {xs : List Ptr}
    (h : ListRepr mem list xs) {p1 p2 : Ptr} {i k : Nat} (hi : xs[i]? = some p1)
    (hk : xs.reverse[k]? = some p2) {fuel : Nat} (hfuel : xs.length < fuel) :
    listCheckLinks fuel mem (some p1) (some p2) =
      some (decide ((xs.length + i + k) % 2 = 1 ∧ i + k < xs.length ∨ i = k)) := by
  have hilt : i < xs.length := (List.getElem?_eq_some_iff.mp hi).1
  have hklt : k < xs.length := by
    simpa using (List.getElem?_eq_some_iff.mp hk).1
  have heq := h.getElem?_eq_iff hi hk
  by_cases hsame : p1 = p2
  · -- a single node
    rw [heq] at hsame
    have hodd : (xs.length + i + k) % 2 = 1 ∧ i + k < xs.length ∨ i = k := by omega
    simp only [listCheckLinks, heq.mpr hsame, ↓reduceIte, hodd, decide_true]
  · have hprev : ∀ x, xs[i]? = some x → (mem x).prev = (mem p1).prev := by
      intro x hx
      rw [Option.some.inj (hi.symm.trans hx)]
    have hnext : ∀ x, xs.reverse[k]? = some x → (mem x).next = (mem p2).next := by
      intro x hx
      rw [Option.some.inj (hk.symm.trans hx)]
    obtain ⟨q1, q2, hloop, hresult⟩ := listCheckLoop_spec h (Nat.le_of_lt hilt)
      (Nat.le_of_lt hklt) hprev hnext (show xs.length - i < fuel by omega)
    rw [hi, hk] at hloop
    simp only [listCheckLinks, hsame, ↓reduceIte, hloop, Option.bind_eq_bind, Option.bind_some,
      hresult, Option.pure_def, Option.some.injEq, decide_eq_decide]
    omega

/-- It accepts a segment of a list exactly when the segment has an odd number of nodes or
    lies in the middle of the list. -/
theorem listCheckLinks_spec {mem : NodeMem} {list : DList} {pre seg post : List Ptr}
    (h : ListRepr mem list (pre ++ seg ++ post)) {start last : Ptr}
    (hstart : seg.head? = some start) (hlast : seg.getLast? = some last) {fuel : Nat}
    (hfuel : (pre ++ seg ++ post).length < fuel) :
    listCheckLinks fuel mem (some start) (some last) =
      some (decide (seg.length % 2 = 1 ∨ pre.length = post.length)) := by
  have hpos : 0 < seg.length := by
    cases seg with
    | nil => simp at hstart
    | cons => simp
  have hlen : (pre ++ seg ++ post).length = pre.length + seg.length + post.length := by
    simp only [List.length_append]
  have hi : (pre ++ seg ++ post)[pre.length]? = some start := by
    rw [List.append_assoc, List.getElem?_append_right (Nat.le_refl _), Nat.sub_self,
      ← List.head?_eq_getElem?, List.head?_append, hstart]
    rfl
  have hk : (pre ++ seg ++ post).reverse[post.length]? = some last := by
    rw [List.reverse_append, List.getElem?_append_right (by simp), List.length_reverse,
      Nat.sub_self, ← List.head?_eq_getElem?, List.reverse_append, List.head?_append,
      List.head?_reverse, hlast]
    rfl
  rw [listCheckLinks_nodes h hi hk hfuel, Option.some.injEq, decide_eq_decide]
  omega

/-! ## Reachable nodes -/

/-- The node `q` is `p`, or reachable from it along `next`. -/
def Reaches (mem : NodeMem) (p q : Ptr) : Prop :=
  Relation.ReflTransGen (fun x y => (mem x).next = some y) p q

/-- In a list these are the nodes at and behind `p`. -/
theorem ListRepr.reaches_iff {mem : NodeMem} {list : DList} {xs : List Ptr}
    (h : ListRepr mem list xs) {p q : Ptr} {i j : Nat} (hi : xs[i]? = some p)
    (hj : xs[j]? = some q) : Reaches mem p q ↔ i ≤ j := by
  constructor
  · intro hreach
    -- every node on the way has an index, which grows
    have hindex : ∃ m, xs[m]? = some q ∧ i ≤ m := by
      clear hj
      induction hreach with
      | refl => exact ⟨i, hi, Nat.le_refl i⟩
      | tail _ hnext ih =>
        obtain ⟨m, hm, hle⟩ := ih
        refine ⟨m + 1, ?_, Nat.le_succ_of_le hle⟩
        rw [← h.next_getElem? hm, hnext]
    obtain ⟨m, hm, hle⟩ := hindex
    obtain ⟨hmlt, hmq⟩ := List.getElem?_eq_some_iff.mp hm
    obtain ⟨hjlt, hjq⟩ := List.getElem?_eq_some_iff.mp hj
    rw [(h.nodup.getElem_inj_iff).mp (hmq.trans hjq.symm)] at hle
    exact hle
  · intro hle
    induction j generalizing q with
    | zero =>
      obtain rfl : i = 0 := Nat.le_zero.mp hle
      obtain rfl := Option.some.inj (hi.symm.trans hj)
      exact Relation.ReflTransGen.refl
    | succ j ih =>
      by_cases hij : i = j + 1
      · subst hij
        obtain rfl := Option.some.inj (hi.symm.trans hj)
        exact Relation.ReflTransGen.refl
      · have hjlt : j < xs.length := by
          have hlt := (List.getElem?_eq_some_iff.mp hj).1
          omega
        have hget : xs[j]? = some xs[j] := List.getElem?_eq_getElem hjlt
        refine (ih hget (by omega)).tail ?_
        rw [h.next_getElem? hget, hj]

/-- Where `list_check_links` is right about the nodes with the indices `i` and `j` in a
    list of `n` nodes: the second one is at an even distance behind the first, or as far
    from the end as the first from the front; or it is in front of it, and not so. -/
def LinksRight (n i j : Nat) : Prop :=
  if i ≤ j then (j - i) % 2 = 0 ∨ i + j + 1 = n else i + j + 1 ≠ n

/-- `list_check_links` returns for every two nodes of a list, and whether the second one is
    reachable from the first exactly in the positions of `LinksRight`. -/
theorem listCheckLinks_correct_iff {mem : NodeMem} {list : DList} {xs : List Ptr}
    (h : ListRepr mem list xs) {p1 p2 : Ptr} {i j : Nat} (hi : xs[i]? = some p1)
    (hj : xs[j]? = some p2) :
    ∃ b, (∀ fuel, xs.length < fuel → listCheckLinks fuel mem (some p1) (some p2) = some b) ∧
      ((b = true ↔ Reaches mem p1 p2) ↔ LinksRight xs.length i j) := by
  have hilt : i < xs.length := (List.getElem?_eq_some_iff.mp hi).1
  have hjlt : j < xs.length := (List.getElem?_eq_some_iff.mp hj).1
  have hk : xs.reverse[xs.length - 1 - j]? = some p2 := by
    rw [List.getElem?_reverse (by omega), ← hj]
    congr 1
    omega
  refine ⟨_, fun fuel hfuel => listCheckLinks_nodes h hi hk hfuel, ?_⟩
  rw [h.reaches_iff hi hj, decide_eq_true_iff]
  unfold LinksRight
  split <;> omega

/-- A list of three nodes, 1, 2 and 3. -/
private def threeNodes : NodeMem
  | 1 => ⟨some 2, none⟩
  | 2 => ⟨some 3, some 1⟩
  | 3 => ⟨none, some 2⟩
  | _ => ⟨none, none⟩

private theorem threeNodes_repr : ListRepr threeNodes ⟨some 1, some 3⟩ ([1] ++ [2] ++ [3]) := by
  constructor <;> simp [nextOf, prevOf, threeNodes]

/-- From the first node to the last one there are three. -/
theorem listCheckLinks_correct_iff_ends :
    ∃ b, (∀ fuel, ([1, 2, 3] : List Ptr).length < fuel →
        listCheckLinks fuel threeNodes (some 1) (some 3) = some b) ∧
      ((b = true ↔ Reaches threeNodes 1 3) ↔ LinksRight 3 0 2) :=
  listCheckLinks_correct_iff threeNodes_repr rfl rfl

/-- A node and its successor are refused, and the last node and the first are accepted. -/
theorem listCheckLinks_wrong :
    ListRepr threeNodes ⟨some 1, some 3⟩ [1, 2, 3] ∧
      (Reaches threeNodes 1 2 ∧ listCheckLinks 4 threeNodes (some 1) (some 2) = some false) ∧
      (¬Reaches threeNodes 3 1 ∧ listCheckLinks 4 threeNodes (some 3) (some 1) = some true) := by
  refine ⟨threeNodes_repr, ⟨?_, rfl⟩, ?_, rfl⟩
  · exact (threeNodes_repr.reaches_iff (i := 0) (j := 1) rfl rfl).mpr (Nat.zero_le 1)
  · rw [threeNodes_repr.reaches_iff (i := 2) (j := 0) rfl rfl]
    decide

/-! ## Removal -/

section Remove

variable {mem : NodeMem} {list : DList} {pre seg post : List Ptr} {start last : Ptr}
variable {fuel : Nat}

/-- The node before a segment. -/
theorem ListRepr.prev_start (h : ListRepr mem list (pre ++ seg ++ post))
    (hstart : seg.head? = some start) : (mem start).prev = pre.getLast? := by
  obtain ⟨rest, rfl⟩ := List.head?_eq_some_iff.mp hstart
  have hsplit : pre ++ start :: rest ++ post = pre ++ start :: (rest ++ post) := by simp
  rw [hsplit] at h
  exact h.prev_eq

/-- The node after a segment. -/
theorem ListRepr.next_last (h : ListRepr mem list (pre ++ seg ++ post))
    (hlast : seg.getLast? = some last) : (mem last).next = post.head? := by
  obtain ⟨rest, rfl⟩ := List.getLast?_eq_some_iff.mp hlast
  have hsplit : pre ++ (rest ++ [last]) ++ post = (pre ++ rest) ++ last :: post := by simp
  rw [hsplit] at h
  exact h.next_eq

private theorem listFindNode_start (h : ListRepr mem list (pre ++ seg ++ post))
    (hstart : seg.head? = some start) (hfuel : (pre ++ seg ++ post).length < fuel) :
    listFindNode fuel mem list (some start) = some (some start) := by
  have hmem : start ∈ pre ++ seg ++ post := by
    have hseg : start ∈ seg := List.mem_of_mem_head? hstart
    simp [hseg]
  exact listFindFrom_mem h.fwd hmem hfuel

/-- A segment that `list_check_links` does not accept stays in the list. -/
theorem listRemoveNodes_refused (h : ListRepr mem list (pre ++ seg ++ post))
    (hstart : seg.head? = some start) (hlast : seg.getLast? = some last)
    (hfuel : (pre ++ seg ++ post).length < fuel)
    (hcheck : ¬(seg.length % 2 = 1 ∨ pre.length = post.length)) :
    listRemoveNodes fuel mem list (some start) (some last) = some (mem, list, -1) := by
  simp [listRemoveNodes, listFindNode_start h hstart hfuel,
    listCheckLinks_spec h hstart hlast hfuel, hcheck]

/-- Removing all nodes resets `head` only. -/
theorem listRemoveNodes_whole (h : ListRepr mem list seg) (hstart : seg.head? = some start)
    (hlast : seg.getLast? = some last) (hfuel : seg.length < fuel) :
    listRemoveNodes fuel mem list (some start) (some last) =
      some (mem, { list with head := none }, 0) := by
  have h' : ListRepr mem list ([] ++ seg ++ []) := by simpa using h
  have hfuel' : ([] ++ seg ++ []).length < fuel := by simpa using hfuel
  have hprev : (mem start).prev = none := h'.prev_start hstart
  have hnext : (mem last).next = none := h'.next_last hlast
  simp [listRemoveNodes, listFindNode_start h' hstart hfuel',
    listCheckLinks_spec h' hstart hlast hfuel', hprev, hnext]

/-- A segment that `list_check_links` accepts and that is not the whole list is removed. -/
theorem listRemoveNodes_accepted (h : ListRepr mem list (pre ++ seg ++ post))
    (hstart : seg.head? = some start) (hlast : seg.getLast? = some last)
    (hcheck : seg.length % 2 = 1 ∨ pre.length = post.length) (hrest : pre ++ post ≠ []) :
    ∃ mem' list',
      (∀ fuel, (pre ++ seg ++ post).length < fuel →
        listRemoveNodes fuel mem list (some start) (some last) = some (mem', list', 0)) ∧
      ListRepr mem' list' (pre ++ post) := by
  have hfind : ∀ fuel, (pre ++ seg ++ post).length < fuel →
      listFindNode fuel mem list (some start) = some (some start) :=
    fun fuel => listFindNode_start h hstart
  have hlinks : ∀ fuel, (pre ++ seg ++ post).length < fuel →
      listCheckLinks fuel mem (some start) (some last) = some true := by
    intro fuel hfuel
    rw [listCheckLinks_spec h hstart hlast hfuel, decide_eq_true hcheck]
  have hprev := h.prev_start hstart
  have hnext := h.next_last hlast
  rcases List.eq_nil_or_concat pre with rfl | ⟨pre, a, rfl⟩
  · -- remove from head
    cases post with
    | nil => exact absurd rfl hrest
    | cons b post =>
      refine ⟨_, _, ?_, h.rightPart.listRepr⟩
      intro fuel hfuel
      simp [listRemoveNodes, hfind fuel hfuel, hlinks fuel hfuel, hprev, hnext]
  · rw [List.concat_eq_append] at *
    have hleft : LeftPart mem list.head pre a := by
      have hsplit : pre ++ [a] ++ seg ++ post = pre ++ a :: (seg ++ post) := by simp
      rw [hsplit] at h
      exact h.leftPart
    rw [List.getLast?_concat] at hprev
    cases post with
    | nil =>
      -- remove upto tail
      refine ⟨_, _, ?_, by rw [List.append_nil]; exact hleft.listRepr⟩
      intro fuel hfuel
      simp [listRemoveNodes, hfind fuel hfuel, hlinks fuel hfuel, hprev, hnext]
    | cons b post =>
      -- remove in-between
      have hright : RightPart mem list.tail b post := h.rightPart
      have hnodup := h.nodup
      rw [List.append_assoc] at hnodup
      have hall : List.Disjoint (pre ++ [a]) (seg ++ b :: post) :=
        List.disjoint_of_nodup_append hnodup
      have hne : ∀ x ∈ seg, x ≠ a := by
        intro x hx heq
        exact hall (by simp [heq]) (List.mem_append_left _ hx)
      have hne_start := hne start (List.mem_of_mem_head? hstart)
      have hne_last := hne last (List.mem_of_mem_getLast? hlast)
      refine ⟨_, _, ?_, hleft.link hright (List.disjoint_of_disjoint_append_right_right hall)⟩
      intro fuel hfuel
      simp [listRemoveNodes, hfind fuel hfuel, hlinks fuel hfuel, hprev, hnext, NodeMem.setNext,
        hne_last, hne_start]

/-- What `list_remove_nodes(list, start, end)` does to a list with the segment
    `start..end`.  It returns 0 or -1; the list stores the nodes outside of the segment
    after a 0 and is unchanged after a -1, unless the segment is the whole list. -/
theorem listRemoveNodes_correct_iff (h : ListRepr mem list (pre ++ seg ++ post))
    (hstart : seg.head? = some start) (hlast : seg.getLast? = some last) :
    ∃ mem' list' rc,
      (∀ fuel, (pre ++ seg ++ post).length < fuel →
        listRemoveNodes fuel mem list (some start) (some last) = some (mem', list', rc)) ∧
      (rc = 0 ∨ rc = -1) ∧
      (((rc = 0 → ListRepr mem' list' (pre ++ post)) ∧
        (rc = -1 → mem' = mem ∧ list' = list)) ↔ pre ++ post ≠ []) := by
  by_cases hrest : pre ++ post = []
  · obtain ⟨rfl, rfl⟩ := List.append_eq_nil_iff.mp hrest
    have hwhole : ListRepr mem list seg := by simpa using h
    refine ⟨mem, { list with head := none }, 0, ?_, Or.inl rfl, ?_⟩
    · intro fuel hfuel
      exact listRemoveNodes_whole hwhole hstart hlast (by simpa using hfuel)
    · -- `tail` still points to the last node
      constructor
      · intro hspec
        have htail : list.tail = none := (hspec.1 rfl).tail_eq_none_iff.mpr rfl
        rw [hwhole.tail_eq, hlast] at htail
        exact absurd htail (by simp)
      · intro hne
        exact absurd rfl hne
  · by_cases hcheck : seg.length % 2 = 1 ∨ pre.length = post.length
    · obtain ⟨mem', list', hrun, hrepr⟩ := listRemoveNodes_accepted h hstart hlast hcheck hrest
      refine ⟨mem', list', 0, hrun, Or.inl rfl, ?_⟩
      simp [hrest, hrepr]
    · refine ⟨mem, list, -1, ?_, Or.inr rfl, ?_⟩
      · intro fuel hfuel
        exact listRemoveNodes_refused h hstart hlast hfuel hcheck
      · simp [hrest]

end Remove

/-- The node in the middle is removed. -/
theorem listRemoveNodes_correct_iff_middle :
    ∃ mem' list' rc,
      (∀ fuel, ([1] ++ [2] ++ [3] : List Ptr).length < fuel →
        listRemoveNodes fuel threeNodes ⟨some 1, some 3⟩ (some 2) (some 2) =
          some (mem', list', rc)) ∧
      (rc = 0 ∨ rc = -1) ∧
      (((rc = 0 → ListRepr mem' list' ([1] ++ [3])) ∧
        (rc = -1 → mem' = threeNodes ∧ list' = ⟨some 1, some 3⟩)) ↔
        ([1] ++ [3] : List Ptr) ≠ []) :=
  listRemoveNodes_correct_iff threeNodes_repr rfl rfl

/-- Removing the whole of that list returns 0 and leaves `tail` at its last node. -/
theorem listRemoveNodes_stale_tail :
    ListRepr threeNodes ⟨some 1, some 3⟩ [1, 2, 3] ∧
      listRemoveNodes 4 threeNodes ⟨some 1, some 3⟩ (some 1) (some 3) =
        some (threeNodes, ⟨none, some 3⟩, 0) ∧
      ¬ListRepr threeNodes ⟨none, some 3⟩ [] := by
  refine ⟨threeNodes_repr, rfl, ?_⟩
  intro h
  exact absurd (h.tail_eq_none_iff.mpr rfl) (by simp)

/-! ## Insertion -/

section Insert

variable {mem : NodeMem} {list : DList} {pre seg post : List Ptr} {start last : Ptr}

/-- `list_check_links` accepts every detached chain. -/
theorem listCheckLinks_chain (hchain : ListRepr mem ⟨some start, some last⟩ seg) {fuel : Nat}
    (hfuel : seg.length < fuel) :
    listCheckLinks fuel mem (some start) (some last) = some true := by
  have hchain' : ListRepr mem ⟨some start, some last⟩ ([] ++ seg ++ []) := by simpa using hchain
  have hcheck : seg.length % 2 = 1 ∨ ([] : List Ptr).length = ([] : List Ptr).length :=
    Or.inr rfl
  rw [listCheckLinks_spec hchain' hchain.head_eq.symm hchain.tail_eq.symm (by simpa using hfuel),
    decide_eq_true hcheck]

/-- Chains are inserted into an empty list as they are. -/
theorem listInsertNodes_empty (h : ListRepr mem list [])
    (hchain : ListRepr mem ⟨some start, some last⟩ seg) {fuel : Nat} (hfuel : seg.length < fuel)
    (after : Option Ptr) :
    listInsertNodes fuel mem list after (some start) (some last) =
      some (mem, ⟨some start, some last⟩, 0) := by
  have hhead : list.head = none := h.head_eq_none_iff.mpr rfl
  simp [listInsertNodes, listCheckLinks_chain hchain hfuel, hhead]

/-- A chain in front of a list is linked in the forward direction only. -/
theorem listInsertNodes_front {x : Ptr} (h : ListRepr mem list (x :: post))
    (hchain : ListRepr mem ⟨some start, some last⟩ seg) {fuel : Nat} (hfuel : seg.length < fuel) :
    listInsertNodes fuel mem list none (some start) (some last) =
      some ((mem.setNext last (some x)).setPrev start none, ⟨some start, list.tail⟩, 0) := by
  have hhead : list.head = some x := h.fwd.1
  simp [listInsertNodes, listCheckLinks_chain hchain hfuel, hhead]

/-- Then the walk back from `tail` does not reach the chain. -/
theorem ListRepr.not_front {mem' : NodeMem} {x head : Ptr} (h : ListRepr mem list (x :: post))
    (hdisj : start ∉ x :: post) (hprev : prevOf mem' = Function.update (prevOf mem) start none)
    (hseg : seg ≠ []) : ¬ListRepr mem' ⟨some head, list.tail⟩ (seg ++ x :: post) := by
  intro hrepr
  have hnotMem : start ∉ (x :: post).reverse := by
    rwa [List.mem_reverse]
  have hback : IsSeg (prevOf mem') list.tail (x :: post).reverse none := by
    rw [hprev]
    exact h.bwd.update_of_notMem hnotMem none
  have hlen := congrArg List.length (hrepr.bwd.unique hback)
  have hpos := List.length_pos_iff.mpr hseg
  simp only [List.length_reverse, List.length_append] at hlen
  omega

/-- A chain after a node of the list is linked in both directions. -/
theorem listInsertNodes_after {a : Ptr} (h : ListRepr mem list (pre ++ a :: post))
    (hchain : ListRepr mem ⟨some start, some last⟩ seg)
    (hdisj : List.Disjoint seg (pre ++ a :: post)) :
    ∃ mem' list',
      (∀ fuel, seg.length < fuel →
        listInsertNodes fuel mem list (some a) (some start) (some last) =
          some (mem', list', 0)) ∧
      ListRepr mem' list' (pre ++ [a] ++ seg ++ post) := by
  obtain ⟨rest, hrest⟩ := List.head?_eq_some_iff.mp hchain.head_eq.symm
  obtain ⟨init, hinit⟩ := List.getLast?_eq_some_iff.mp hchain.tail_eq.symm
  have hnext : (mem a).next = post.head? := h.next_eq
  -- the seam between `a` and `start`
  have hright : RightPart mem (some last) start rest := by
    rw [hrest] at hchain
    have hfront : ListRepr mem ⟨some start, some last⟩ ([] ++ start :: rest) := hchain
    exact hfront.rightPart
  have hdisj' : List.Disjoint (pre ++ [a]) (start :: rest) := by
    rw [← hrest]
    intro x hx hx'
    exact hdisj hx' (by simp at hx ⊢; tauto)
  have hseam := h.leftPart.link hright hdisj'
  have hsplit : pre ++ [a] ++ start :: rest = pre ++ [a] ++ init ++ [last] := by
    rw [← hrest, hinit]
    simp
  rw [hsplit] at hseam
  have hleft := hseam.leftPart
  have hhead : list.head ≠ none := by
    rw [ne_eq, h.head_eq_none_iff]
    simp
  cases post with
  | nil =>
    refine ⟨_, _, ?_, by rw [hinit]; simpa using hleft.listRepr⟩
    intro fuel hfuel
    simp [listInsertNodes, listCheckLinks_chain hchain hfuel, hhead, hnext]
  | cons b post =>
    -- the seam between `last` and `b`
    have hpost : List.Disjoint (pre ++ [a] ++ seg) (b :: post) := by
      intro x hx hx'
      rcases List.mem_append.mp hx with hx | hx
      · have hnodup := h.nodup
        have hmove : pre ++ a :: b :: post = (pre ++ [a]) ++ b :: post := by simp
        rw [hmove] at hnodup
        exact List.disjoint_of_nodup_append hnodup hx hx'
      · exact hdisj hx (by simp at hx' ⊢; tauto)
    have hsplit' : pre ++ [a] ++ seg = pre ++ [a] ++ init ++ [last] := by
      rw [hinit, List.append_assoc (pre ++ [a])]
    have ha : a ∉ b :: post := hpost (by simp)
    have hstart : start ∉ b :: post := hpost (by simp [hrest])
    have hback : RightPart mem list.tail b post := by
      have hmove : pre ++ a :: b :: post = (pre ++ [a]) ++ b :: post := by simp
      rw [hmove] at h
      exact h.rightPart
    rw [hsplit'] at hpost ⊢
    refine ⟨_, _, ?_, hleft.link ((hback.setNext ha (some start)).setPrev hstart (some a)) hpost⟩
    intro fuel hfuel
    simp [listInsertNodes, listCheckLinks_chain hchain hfuel, hhead, hnext]

/-- What `list_insert_nodes(list, after, start, end)` does to a list `pre ++ post` with
    `after` the last node of `pre`, NULL when there is none, and a detached chain.  It
    returns 0, and the list stores the chain between `pre` and `post` unless the chain
    goes in front of a node. -/
theorem listInsertNodes_correct_iff (h : ListRepr mem list (pre ++ post)) {after : Option Ptr}
    (hafter : after = pre.getLast?) (hchain : ListRepr mem ⟨some start, some last⟩ seg)
    (hdisj : List.Disjoint seg (pre ++ post)) :
    ∃ mem' list' rc,
      (∀ fuel, seg.length < fuel →
        listInsertNodes fuel mem list after (some start) (some last) = some (mem', list', rc)) ∧
      ((rc = 0 ∧ ListRepr mem' list' (pre ++ seg ++ post)) ↔
        (list.head = none ∨ after ≠ none)) := by
  have hseg : seg ≠ [] := by
    intro hnil
    have hhead := hchain.head_eq_none_iff.mpr hnil
    simp at hhead
  rcases List.eq_nil_or_concat pre with rfl | ⟨pre, a, rfl⟩
  · obtain rfl : after = none := hafter
    cases post with
    | nil =>
      -- the chain becomes the list
      refine ⟨mem, ⟨some start, some last⟩, 0, ?_, ?_⟩
      · intro fuel hfuel
        exact listInsertNodes_empty h hchain hfuel none
      · simpa [h.head_eq_none_iff.mpr rfl] using hchain
    | cons x post =>
      refine ⟨(mem.setNext last (some x)).setPrev start none, ⟨some start, list.tail⟩, 0, ?_, ?_⟩
      · intro fuel hfuel
        exact listInsertNodes_front h hchain hfuel
      · -- the `prev` of the old first node still is NULL
        have hnotMem : start ∉ x :: post := hdisj (by
          obtain ⟨rest, hrest⟩ := List.head?_eq_some_iff.mp hchain.head_eq.symm
          simp [hrest])
        have hbroken : ¬ListRepr ((mem.setNext last (some x)).setPrev start none)
            ⟨some start, list.tail⟩ (seg ++ x :: post) :=
          ListRepr.not_front h hnotMem (by simp) hseg
        have hhead : list.head ≠ none := by
          rw [ne_eq, h.head_eq_none_iff]
          simp
        simpa [hhead] using hbroken
  · rw [List.concat_eq_append] at *
    rw [List.getLast?_concat] at hafter
    subst hafter
    rw [List.append_assoc] at h hdisj
    obtain ⟨mem', list', hrun, hrepr⟩ := listInsertNodes_after h hchain hdisj
    refine ⟨mem', list', 0, hrun, ?_⟩
    simpa using hrepr

end Insert

/-- A list of two nodes, 1 and 2, and a detached chain, 3 and 4. -/
private def listAndChain : NodeMem
  | 1 => ⟨some 2, none⟩
  | 2 => ⟨none, some 1⟩
  | 3 => ⟨some 4, none⟩
  | 4 => ⟨none, some 3⟩
  | _ => ⟨none, none⟩

private theorem listAndChain_list : ListRepr listAndChain ⟨some 1, some 2⟩ ([1] ++ [2]) := by
  constructor <;> simp [nextOf, prevOf, listAndChain]

private theorem listAndChain_chain : ListRepr listAndChain ⟨some 3, some 4⟩ [3, 4] := by
  constructor <;> simp [nextOf, prevOf, listAndChain]

/-- The chain is inserted between the two nodes. -/
theorem listInsertNodes_correct_iff_between :
    ∃ mem' list' rc,
      (∀ fuel, ([3, 4] : List Ptr).length < fuel →
        listInsertNodes fuel listAndChain ⟨some 1, some 2⟩ (some 1) (some 3) (some 4) =
          some (mem', list', rc)) ∧
      ((rc = 0 ∧ ListRepr mem' list' ([1] ++ [3, 4] ++ [2])) ↔
        ((⟨some 1, some 2⟩ : DList).head = none ∨ some (1 : Ptr) ≠ none)) :=
  listInsertNodes_correct_iff listAndChain_list rfl listAndChain_chain (by simp)

/-- In front of the two nodes the chain is linked forward only: node 1 has no `prev`. -/
theorem listInsertNodes_no_prev :
    ListRepr listAndChain ⟨some 1, some 2⟩ [1, 2] ∧
      ListRepr listAndChain ⟨some 3, some 4⟩ [3, 4] ∧
      ∃ mem', listInsertNodes 3 listAndChain ⟨some 1, some 2⟩ none (some 3) (some 4) =
          some (mem', ⟨some 3, some 2⟩, 0) ∧
        ¬ListRepr mem' ⟨some 3, some 2⟩ [3, 4, 1, 2] := by
  refine ⟨listAndChain_list, listAndChain_chain, _, rfl, ?_⟩
  intro h
  have hprev := h.bwd.2.2.1
  simp [prevOf, listAndChain, NodeMem.setNext, NodeMem.setPrev] at hprev

end CUtils
