import CUtils.Native.ChannelFifoKernel
import CUtils.Spec.ChannelFifoCorrect

/-!
# What acts on other FIFOs leave alone

- `fifoActs_lookup`: acts that close only their own descriptors keep the others open.
- `FifoGuard.fifoActs`: acts on other paths and descriptors keep two FIFOs as they are.
-/

namespace CUtils

/-! ## The kernel -/

namespace FifoKernel

variable {k k' : FifoKernel} {alloc : Allocator (List UInt8)} {path : List Int8}
variable {proc proc' : Nat} {num num' : Int} {q : Ptr}

@[simp] theorem lookup_setBytes (bs : List UInt8) :
    (k.setBytes q bs).lookup proc num = k.lookup proc num := rfl

@[simp] theorem names_setBytes (bs : List UInt8) : (k.setBytes q bs).names = k.names := rfl

theorem lookup_congr (h : k'.fds = k.fds) : k'.lookup proc num = k.lookup proc num := by
  rw [lookup, h]
  rfl

theorem bytes_setBytes (bs : List UInt8) (q' : Ptr) :
    (k.setBytes q bs).bytes q' = if q' = q then bs else k.bytes q' := by
  show ((Function.update k.fifos.cells q (some bs)) q').getD [] = _
  by_cases h : q' = q
  · rw [h, Function.update_self, if_pos rfl]
    rfl
  · rw [Function.update_of_ne h, if_neg h]
    rfl

/-- Every FIFO that a name or a descriptor leads to exists. -/
structure Live (k : FifoKernel) : Prop where
  names : ∀ path q, k.names path = some q → (k.fifos.cells q).isSome
  fds : ∀ proc num q, k.lookup proc num = some q → (k.fifos.cells q).isSome

theorem isSome_setBytes {q' : Ptr} (bs : List UInt8) (h : (k.fifos.cells q').isSome) :
    ((k.setBytes q bs).fifos.cells q').isSome := by
  show ((Function.update k.fifos.cells q (some bs)) q').isSome
  by_cases hq : q' = q
  · rw [hq, Function.update_self]
    rfl
  · rw [Function.update_of_ne hq]
    exact h

theorem Live.setBytes (h : k.Live) (bs : List UInt8) : (k.setBytes q bs).Live where
  names path q' hq := isSome_setBytes bs (h.names path q' hq)
  fds proc num q' hq := isSome_setBytes bs (h.fds proc num q' hq)

/-! ### Names -/

theorem mkfifo_eq_some (h : k.mkfifo alloc path = some k') :
    ∃ q, k.fifos.cells q = none ∧ k.names path = none ∧
      k'.names = Function.update k.names path (some q) ∧
      k'.fifos.cells = Function.update k.fifos.cells q (some []) ∧ k'.fds = k.fds := by
  unfold mkfifo at h
  split at h
  · next hnone =>
    obtain rfl := Option.some.inj h
    exact ⟨_, alloc.malloc_fresh k.fifos, hnone, rfl, rfl, rfl⟩
  · cases h

theorem unlink_eq_some (h : k.unlink path = some k') :
    k' = { k with names := Function.update k.names path none } := by
  unfold unlink at h
  split at h
  · cases h
  · exact (Option.some.inj h).symm

theorem Live.mkfifo (h : k.Live) (hmake : k.mkfifo alloc path = some k') : k'.Live := by
  obtain ⟨q, _, _, hnames, hcells, hfds⟩ := mkfifo_eq_some hmake
  have hkeep : ∀ q', (k.fifos.cells q').isSome → (k'.fifos.cells q').isSome := by
    intro q' hq'
    rw [hcells]
    by_cases hq : q' = q
    · rw [hq, Function.update_self]
      rfl
    · rwa [Function.update_of_ne hq]
  apply Live.mk
  · intro path' q' hq'
    rw [hnames] at hq'
    by_cases hp : path' = path
    · rw [hp, Function.update_self] at hq'
      rw [← Option.some.inj hq', hcells, Function.update_self]
      rfl
    · rw [Function.update_of_ne hp] at hq'
      exact hkeep q' (h.names path' q' hq')
  · intro proc num q' hq'
    refine hkeep q' (h.fds proc num q' ?_)
    rwa [lookup, hfds] at hq'

theorem Live.unlink (h : k.Live) (hun : k.unlink path = some k') : k'.Live := by
  rw [unlink_eq_some hun]
  apply Live.mk
  · intro path' q' hq'
    have hq : Function.update k.names path none path' = some q' := hq'
    by_cases hp : path' = path
    · rw [hp, Function.update_self] at hq
      cases hq
    · rw [Function.update_of_ne hp] at hq
      exact h.names path' q' hq
  · exact h.fds

/-! ### Descriptors -/

theorem openAt_eq_some (h : k.openAt proc path num = some k') :
    ∃ q, k.names path = some q ∧ k.lookup proc num = none ∧
      k' = { k with fds := ⟨proc, num, q⟩ :: k.fds } := by
  unfold openAt at h
  split at h
  · next q hq hnone => exact ⟨q, hq, hnone, (Option.some.inj h).symm⟩
  · cases h

theorem lookup_cons (fds : List FifoFd) (names : List Int8 → Option Ptr)
    (fifos : Heap (List UInt8)) :
    lookup ⟨names, fifos, ⟨proc, num, q⟩ :: fds⟩ proc' num' =
      if proc = proc' ∧ num = num' then some q else lookup ⟨names, fifos, fds⟩ proc' num' := by
  unfold lookup
  rw [List.find?_cons]
  by_cases h : proc = proc' ∧ num = num'
  · simp [h]
  · simp [h]

theorem lookup_close :
    (k.close proc num).lookup proc' num' =
      if proc' = proc ∧ num' = num then none else k.lookup proc' num' := by
  have hfilter : (k.fds.filter fun e => ¬ (e.proc = proc ∧ e.num = num)).find?
      (fun e => e.proc = proc' ∧ e.num = num') =
      if proc' = proc ∧ num' = num then none
      else k.fds.find? fun e => e.proc = proc' ∧ e.num = num' := by
    rw [List.find?_filter]
    split
    · next heq =>
      rw [List.find?_eq_none]
      intro e _ he
      simp only [decide_eq_true_eq] at he
      exact he.1 ⟨he.2.1.trans heq.1, he.2.2.trans heq.2⟩
    · next hne =>
      congr 1
      funext e
      by_cases he : e.proc = proc' ∧ e.num = num'
      · have hne' := not_and_or.mp hne
        simp [he, hne']
      · simp [he]
  unfold close
  split
  · next hnone =>
    split
    · next heq => rw [heq.1, heq.2, hnone]
    · rfl
  · next q hq =>
    have hsame : ∀ (c : Prop) [Decidable c] (k : FifoKernel),
        (if c then k else k.setBytes q []).lookup proc' num' = k.lookup proc' num' := by
      intro c _ k
      split
      · rfl
      · rfl
    simp only [hsame]
    unfold lookup
    rw [hfilter]
    split
    · rfl
    · rfl

@[simp] theorem names_close : (k.close proc num).names = k.names := by
  unfold close
  split
  · rfl
  · simp only
    split
    · rfl
    · rfl

theorem mem_of_lookup (h : k.lookup proc num = some q) : ⟨proc, num, q⟩ ∈ k.fds := by
  obtain ⟨e, he, hq⟩ := Option.map_eq_some_iff.mp h
  have hmem := List.mem_of_find?_eq_some he
  have hkey := List.find?_some he
  simp only [decide_eq_true_eq] at hkey
  obtain ⟨p, n, q'⟩ := e
  obtain ⟨rfl, rfl⟩ := hkey
  obtain rfl : q' = q := hq
  exact hmem

/-- A FIFO with another descriptor keeps its bytes. -/
theorem bytes_close {q' : Ptr} (hother : k.lookup proc' num' = some q')
    (hne : ¬ (proc' = proc ∧ num' = num)) : (k.close proc num).bytes q' = k.bytes q' := by
  unfold close
  split
  · rfl
  · next q hq =>
    simp only
    split
    · rfl
    · next hnone =>
      rw [bytes_setBytes, if_neg]
      · rfl
      · intro heq
        subst heq
        refine hnone ⟨_, List.mem_filter.mpr ⟨mem_of_lookup hother, ?_⟩, rfl⟩
        exact decide_eq_true hne

theorem isSome_close {q' : Ptr} (h : (k.fifos.cells q').isSome) :
    ((k.close proc num).fifos.cells q').isSome := by
  unfold close
  split
  · exact h
  · simp only
    split
    · exact h
    · exact isSome_setBytes [] h

theorem Live.openAt (h : k.Live) (hopen : k.openAt proc path num = some k') : k'.Live := by
  obtain ⟨q, hq, _, rfl⟩ := openAt_eq_some hopen
  apply Live.mk
  · exact h.names
  · intro proc' num' q' hq'
    rw [lookup_cons] at hq'
    split at hq'
    · obtain rfl := Option.some.inj hq'
      exact h.names path q hq
    · exact h.fds proc' num' q' hq'

theorem Live.close (h : k.Live) : (k.close proc num).Live where
  names path q hq := isSome_close (h.names path q (names_close ▸ hq))
  fds proc' num' q hq := by
    rw [lookup_close] at hq
    split at hq
    · cases hq
    · exact isSome_close (h.fds proc' num' q hq)

end FifoKernel

/-! ## Acts -/

/-- The path at which an act makes a FIFO. -/
def FifoAct.makes : FifoAct → List (List Int8)
  | .mkfifo path => [path]
  | _ => []

/-- The acts close only descriptors from `own` and those that they have opened before. -/
def ClosesOwn : List Int → List FifoAct → Prop
  | _, [] => True
  | own, .opened fd :: acts => ClosesOwn (fd :: own) acts
  | own, .closed fd :: acts => fd ∈ own ∧ ClosesOwn own acts
  | own, _ :: acts => ClosesOwn own acts

theorem closesOwn_of_mem {own : List Int} {acts : List FifoAct}
    (h : ∀ fd ∈ fifoCloses acts, fd ∈ own) : ClosesOwn own acts := by
  induction acts generalizing own with
  | nil => trivial
  | cons act acts ih =>
    cases act with
    | opened fd => exact ih fun num hnum => List.mem_cons_of_mem fd (h num hnum)
    | closed fd =>
      apply And.intro (h fd List.mem_cons_self)
      exact ih fun num hnum => h num (List.mem_cons_of_mem fd hnum)
    | _ => exact ih h

/-- Acts that close nothing, and behind them some that close what those have opened. -/
theorem closesOwn_append {own : List Int} {acts acts' : List FifoAct} (hnone : fifoCloses acts = [])
    (h : ∀ fd ∈ fifoCloses acts', fd ∈ own ∨ fd ∈ fifoOpens acts) :
    ClosesOwn own (acts ++ acts') := by
  induction acts generalizing own with
  | nil => exact closesOwn_of_mem fun fd hfd => (h fd hfd).resolve_right List.not_mem_nil
  | cons act acts ih =>
    cases act with
    | opened fd =>
      apply ih hnone
      intro num hnum
      rcases h num hnum with hown | hopen
      · exact .inl (List.mem_cons_of_mem fd hown)
      · rcases List.mem_cons.mp hopen with rfl | hopen
        · exact .inl List.mem_cons_self
        · exact .inr hopen
    | closed fd => cases hnone
    | _ => exact ih hnone h

section

variable {alloc : Allocator (List UInt8)} {proc : Nat} {paths paths' : List (List Int8)}
variable {k k' : FifoKernel} {acts : List FifoAct} {own : List Int}

/-- What an act does to the kernel, as one of its calls. -/
inductive ActCase (alloc : Allocator (List UInt8)) (proc : Nat) (paths : List (List Int8))
    (k : FifoKernel) : FifoAct → List (List Int8) → FifoKernel → Prop
  | same (act : FifoAct) (hopen : ∀ fd, act ≠ .opened fd) : ActCase alloc proc paths k act paths k
  | mkfifo (path : List Int8) {k' : FifoKernel} (h : k.mkfifo alloc path = some k') :
    ActCase alloc proc paths k (.mkfifo path) paths k'
  | unlink (path : List Int8) {k' : FifoKernel} (h : k.unlink path = some k') :
    ActCase alloc proc paths k (.unlink path true) paths k'
  | opened (fd : Int) (path : List Int8) (rest : List (List Int8)) {k' : FifoKernel}
    (hpaths : paths = path :: rest) (h : k.openAt proc path fd = some k') :
    ActCase alloc proc paths k (.opened fd) rest k'
  | closed (fd : Int) : ActCase alloc proc paths k (.closed fd) paths (k.close proc fd)

theorem fifoAct_cases {act : FifoAct} (h : fifoAct alloc proc (paths, k) act = some (paths', k')) :
    ActCase alloc proc paths k act paths' k' := by
  cases act with
  | alloc obj =>
    obtain ⟨rfl, rfl⟩ := Prod.mk.inj (Option.some.inj h)
    exact .same _ fun fd hfd => by cases hfd
  | free obj =>
    obtain ⟨rfl, rfl⟩ := Prod.mk.inj (Option.some.inj h)
    exact .same _ fun fd hfd => by cases hfd
  | mkfifo path =>
    obtain ⟨k₁, hk, heq⟩ := Option.map_eq_some_iff.mp h
    obtain ⟨rfl, rfl⟩ := Prod.mk.inj heq
    exact .mkfifo path hk
  | unlink path removed =>
    cases removed with
    | false =>
      obtain ⟨rfl, rfl⟩ := Prod.mk.inj (Option.some.inj h)
      exact .same _ fun fd hfd => by cases hfd
    | true =>
      obtain ⟨k₁, hk, heq⟩ := Option.map_eq_some_iff.mp h
      obtain ⟨rfl, rfl⟩ := Prod.mk.inj heq
      exact .unlink path hk
  | opened fd =>
    cases paths with
    | nil => cases h
    | cons path rest =>
      obtain ⟨k₁, hk, heq⟩ := Option.map_eq_some_iff.mp h
      obtain ⟨rfl, rfl⟩ := Prod.mk.inj heq
      exact .opened fd path rest rfl hk
  | closed fd =>
    obtain ⟨rfl, rfl⟩ := Prod.mk.inj (Option.some.inj h)
    exact .closed fd

theorem FifoKernel.Live.fifoActs
    (hacts : CUtils.fifoActs alloc proc acts (paths, k) = some (paths', k')) (h : k.Live) :
    k'.Live := by
  induction acts generalizing paths k with
  | nil =>
    obtain ⟨_, rfl⟩ := Prod.mk.inj (Option.some.inj hacts)
    exact h
  | cons act acts ih =>
    obtain ⟨⟨paths₁, k₁⟩, hact, hrest⟩ := Option.bind_eq_some_iff.mp hacts
    apply ih hrest
    cases fifoAct_cases hact with
    | same _ => exact h
    | mkfifo path hk => exact h.mkfifo hk
    | unlink path hk => exact h.unlink hk
    | opened fd path rest _ hk => exact h.openAt hk
    | closed fd => exact h.close

/-- A descriptor that the acts do not own stays open. -/
theorem fifoActs_lookup (hacts : fifoActs alloc proc acts (paths, k) = some (paths', k'))
    (hown : ClosesOwn own acts) {p : Nat} {num : Int} {q : Ptr} (h : k.lookup p num = some q)
    (hne : p = proc → num ∉ own) : k'.lookup p num = some q := by
  induction acts generalizing paths k own with
  | nil =>
    obtain ⟨_, rfl⟩ := Prod.mk.inj (Option.some.inj hacts)
    exact h
  | cons act acts ih =>
    obtain ⟨⟨paths₁, k₁⟩, hact, hrest⟩ := Option.bind_eq_some_iff.mp hacts
    cases fifoAct_cases hact with
    | same _ hopen =>
      have hown' : ClosesOwn own acts := by
        cases act with
        | opened fd => exact absurd rfl (hopen fd)
        | closed fd => exact hown.2
        | _ => exact hown
      exact ih hrest hown' h hne
    | mkfifo path hk =>
      obtain ⟨_, _, _, _, _, hfds⟩ := FifoKernel.mkfifo_eq_some hk
      exact ih hrest hown (by rwa [FifoKernel.lookup, hfds]) hne
    | unlink path hk =>
      rw [FifoKernel.unlink_eq_some hk] at hrest
      exact ih hrest hown h hne
    | opened fd path rest _ hk =>
      obtain ⟨x, _, hnone, rfl⟩ := FifoKernel.openAt_eq_some hk
      have hkey : ¬ (proc = p ∧ fd = num) := by
        intro heq
        rw [heq.1, heq.2, h] at hnone
        cases hnone
      refine ih hrest hown ?_ ?_
      · rw [FifoKernel.lookup_cons, if_neg hkey]
        exact h
      · intro hp hmem
        rcases List.mem_cons.mp hmem with hnum | hmem
        · exact hkey ⟨hp.symm, hnum.symm⟩
        · exact hne hp hmem
    | closed fd =>
      have hkey : ¬ (p = proc ∧ num = fd) := fun heq => hne heq.1 (heq.2 ▸ hown.1)
      refine ih hrest hown.2 ?_ hne
      rw [FifoKernel.lookup_close, if_neg hkey]
      exact h

/-! ## Two FIFOs and who has them open -/

/-- The FIFOs `a` and `b` belong to two paths and are open at the descriptors `held` only. -/
structure FifoGuard (held : FifoFd → Prop) (path0 path1 : List Int8) (a b : Ptr)
    (k : FifoKernel) : Prop where
  names : ∀ path q, k.names path = some q → (path = path0 ↔ q = a) ∧ (path = path1 ↔ q = b)
  fds : ∀ proc num q, q = a ∨ q = b → (k.lookup proc num = some q ↔ held ⟨proc, num, q⟩)
  live : ∀ q, q = a ∨ q = b → (k.fifos.cells q).isSome
  anchor : ∀ q, q = a ∨ q = b → ∃ proc num, held ⟨proc, num, q⟩

namespace FifoGuard

variable {held : FifoFd → Prop} {path0 path1 : List Int8} {a b : Ptr}

theorem setBytes (h : FifoGuard held path0 path1 a b k) (q : Ptr) (bs : List UInt8) :
    FifoGuard held path0 path1 a b (k.setBytes q bs) where
  names := h.names
  fds := h.fds
  live q' hq' := FifoKernel.isSome_setBytes bs (h.live q' hq')
  anchor := h.anchor

theorem mkfifo {path : List Int8} (h : FifoGuard held path0 path1 a b k)
    (hmake : k.mkfifo alloc path = some k') (hpath : path ≠ path0 ∧ path ≠ path1) :
    FifoGuard held path0 path1 a b k' ∧ ∀ q, q = a ∨ q = b → k'.bytes q = k.bytes q := by
  obtain ⟨fresh, hfresh, _, hnames, hcells, hfds⟩ := FifoKernel.mkfifo_eq_some hmake
  have hne : ∀ q, q = a ∨ q = b → q ≠ fresh := by
    intro q hq heq
    have hlive := h.live q hq
    rw [heq, hfresh] at hlive
    cases hlive
  have hkeep : ∀ q, q = a ∨ q = b → k'.fifos.cells q = k.fifos.cells q := by
    intro q hq
    rw [hcells, Function.update_of_ne (hne q hq)]
  refine ⟨⟨?_, ?_, ?_, h.anchor⟩, ?_⟩
  · intro path' q hq
    rw [hnames] at hq
    by_cases hp : path' = path
    · rw [hp, Function.update_self] at hq
      rw [hp, ← Option.some.inj hq]
      exact ⟨iff_of_false hpath.1 fun heq => hne a (.inl rfl) heq.symm,
        iff_of_false hpath.2 fun heq => hne b (.inr rfl) heq.symm⟩
    · rw [Function.update_of_ne hp] at hq
      exact h.names path' q hq
  · intro p num q hq
    rw [FifoKernel.lookup, hfds]
    exact h.fds p num q hq
  · intro q hq
    rw [hkeep q hq]
    exact h.live q hq
  · intro q hq
    rw [FifoKernel.bytes, hkeep q hq]
    rfl

theorem unlink {path : List Int8} (h : FifoGuard held path0 path1 a b k)
    (hun : k.unlink path = some k') :
    FifoGuard held path0 path1 a b k' ∧ ∀ q, q = a ∨ q = b → k'.bytes q = k.bytes q := by
  rw [FifoKernel.unlink_eq_some hun]
  refine ⟨⟨?_, h.fds, h.live, h.anchor⟩, fun _ _ => rfl⟩
  intro path' q hq
  have hnames : Function.update k.names path none path' = some q := hq
  by_cases hp : path' = path
  · rw [hp, Function.update_self] at hnames
    cases hnames
  · rw [Function.update_of_ne hp] at hnames
    exact h.names path' q hnames

theorem openAt {path : List Int8} {num : Int} (h : FifoGuard held path0 path1 a b k)
    (hopen : k.openAt proc path num = some k') (hpath : path ≠ path0 ∧ path ≠ path1) :
    FifoGuard held path0 path1 a b k' ∧ ∀ q, q = a ∨ q = b → k'.bytes q = k.bytes q := by
  obtain ⟨x, hx, hnone, rfl⟩ := FifoKernel.openAt_eq_some hopen
  have hname := h.names path x hx
  have hne : ∀ q, q = a ∨ q = b → x ≠ q := by
    intro q hq heq
    rcases hq with rfl | rfl
    · exact hpath.1 (hname.1.mpr heq)
    · exact hpath.2 (hname.2.mpr heq)
  refine ⟨⟨h.names, ?_, h.live, h.anchor⟩, fun _ _ => rfl⟩
  intro p n q hq
  rw [FifoKernel.lookup_cons]
  split
  · next heq =>
    apply iff_of_false
    · intro hx'
      exact hne q hq (Option.some.inj hx')
    · intro hheld
      rw [← heq.1, ← heq.2] at hheld
      have hlook := (h.fds proc num q hq).mpr hheld
      rw [hnone] at hlook
      cases hlook
  · exact h.fds p n q hq

theorem close {num : Int} (h : FifoGuard held path0 path1 a b k)
    (hfree : ∀ q, q = a ∨ q = b → ¬ held ⟨proc, num, q⟩) :
    FifoGuard held path0 path1 a b (k.close proc num) ∧
      ∀ q, q = a ∨ q = b → (k.close proc num).bytes q = k.bytes q := by
  refine ⟨⟨?_, ?_, ?_, h.anchor⟩, ?_⟩
  · intro path q hq
    rw [FifoKernel.names_close] at hq
    exact h.names path q hq
  · intro p n q hq
    rw [FifoKernel.lookup_close]
    split
    · next heq =>
      apply iff_of_false
      · intro hnone
        cases hnone
      · rw [heq.1, heq.2]
        exact hfree q hq
    · exact h.fds p n q hq
  · intro q hq
    exact FifoKernel.isSome_close (h.live q hq)
  · intro q hq
    obtain ⟨p, n, hheld⟩ := h.anchor q hq
    apply FifoKernel.bytes_close ((h.fds p n q hq).mpr hheld)
    intro heq
    rw [heq.1, heq.2] at hheld
    exact hfree q hq hheld

/-- Acts on other paths and other descriptors leave the two FIFOs alone. -/
theorem fifoActs (hacts : fifoActs alloc proc acts (paths, k) = some (paths', k'))
    (h : FifoGuard held path0 path1 a b k) (hown : ClosesOwn own acts)
    (hfree : ∀ num ∈ own, ∀ q, q = a ∨ q = b → ¬ held ⟨proc, num, q⟩)
    (hmake : ∀ act ∈ acts, ∀ path ∈ act.makes, path ≠ path0 ∧ path ≠ path1)
    (hopen : ∀ path ∈ paths, path ≠ path0 ∧ path ≠ path1) :
    FifoGuard held path0 path1 a b k' ∧ ∀ q, q = a ∨ q = b → k'.bytes q = k.bytes q := by
  induction acts generalizing paths k own with
  | nil =>
    obtain ⟨_, rfl⟩ := Prod.mk.inj (Option.some.inj hacts)
    exact ⟨h, fun _ _ => rfl⟩
  | cons act acts ih =>
    obtain ⟨⟨paths₁, k₁⟩, hact, hrest⟩ := Option.bind_eq_some_iff.mp hacts
    obtain ⟨hmake₁, hmakes⟩ := List.forall_mem_cons.mp hmake
    -- it is enough to see what the first act does
    have hnext : ∀ {own' : List Int}, ClosesOwn own' acts →
        (∀ num ∈ own', ∀ q, q = a ∨ q = b → ¬ held ⟨proc, num, q⟩) →
        (∀ path ∈ paths₁, path ≠ path0 ∧ path ≠ path1) →
        (FifoGuard held path0 path1 a b k₁ ∧ ∀ q, q = a ∨ q = b → k₁.bytes q = k.bytes q) →
        FifoGuard held path0 path1 a b k' ∧ ∀ q, q = a ∨ q = b → k'.bytes q = k.bytes q := by
      intro own' hown' hfree' hopen' hfirst
      obtain ⟨hk', hbytes⟩ := ih hrest hfirst.1 hown' hfree' hmakes hopen'
      exact ⟨hk', fun q hq => (hbytes q hq).trans (hfirst.2 q hq)⟩
    cases fifoAct_cases hact with
    | same _ hno =>
      have hown' : ClosesOwn own acts := by
        cases act with
        | opened fd => exact absurd rfl (hno fd)
        | closed fd => exact hown.2
        | _ => exact hown
      exact hnext hown' hfree hopen ⟨h, fun _ _ => rfl⟩
    | mkfifo path hk =>
      exact hnext hown hfree hopen (h.mkfifo hk (hmake₁ path (List.mem_singleton_self path)))
    | unlink path hk => exact hnext hown hfree hopen (h.unlink hk)
    | opened fd path rest hpaths hk =>
      subst hpaths
      obtain ⟨hpath, hrests⟩ := List.forall_mem_cons.mp hopen
      refine hnext hown ?_ hrests (h.openAt hk hpath)
      -- the number was not in use
      obtain ⟨_, _, hnone, _⟩ := FifoKernel.openAt_eq_some hk
      apply List.forall_mem_cons.mpr ⟨_, hfree⟩
      intro q hq hheld
      have hlook := (h.fds proc fd q hq).mpr hheld
      rw [hnone] at hlook
      cases hlook
    | closed fd => exact hnext hown.2 hfree hopen (h.close (hfree fd hown.1))

end FifoGuard

end

end CUtils
