import CUtils.Spec.BusServerCorrect

/-!
# When the bus server delivers every message

A publication overwrites the slot and gives it the id of its publisher.  Every message
reaches the other clients when the workers take turns: at each publication all other
workers have copied the last message and hold no message of their own, and so has the
publisher.  Otherwise a message is lost.

- `BusDelivery`: while the workers take turns, a message that was sent is pending, or
  received by every other client, or in the slot under an id that is ahead.
- `bus_delivers_all`: then a quiescent server has delivered every message.
- `bus_loses_all`: two clients that send at the same time lose both messages.
-/

namespace CUtils

open StepSystem

/-- The worker is about to publish. -/
def BusPc.isPublish : BusPc → Bool
  | .publish _ => true
  | _ => false

/-- At a publication, the publisher and all other workers had copied the last message,
    and no other worker holds an unpublished one. -/
def TakesTurn (s : BusServer) : BusAct → Prop
  | .worker i => (s.clients i).pc.isPublish = true →
      (s.clients i).messageId = s.gMessageId + 1 ∧ ∀ j < s.numClients, j ≠ i →
        (s.clients j).messageId = s.gMessageId ∧ (s.clients j).pc.isPublish = false
  | _ => True

/-- Clients connect before any message is sent. -/
def ConnectsFirst (s : BusServer) (a : BusAct) : Prop := a = .connect → s.sent = []

instance (s : BusServer) (a : BusAct) : Decidable (TakesTurn s a) :=
  match a with
  | .worker _ => inferInstanceAs (Decidable (_ → _))
  | .connect | .send _ _ => isTrue trivial

instance (s : BusServer) (a : BusAct) : Decidable (ConnectsFirst s a) :=
  inferInstanceAs (Decidable (_ → _))

/-- No worker has unread input, holds a message or would pass the comparison. -/
def Quiescent (s : BusServer) : Prop :=
  ∀ i < s.numClients, (s.clients i).input = [] ∧
    ((s.clients i).pc = .read ∨ (s.clients i).pc = .compare) ∧
    ¬ s.gMessageId > (s.clients i).messageId

instance (s : BusServer) : Decidable (Quiescent s) :=
  inferInstanceAs (Decidable (∀ i < s.numClients, _))

/-- The id of the last message that the worker has seen; the read of its own message
    has incremented it. -/
def CaughtUp (gMessageId : Nat) (p : BusClient) : Prop :=
  p.messageId = gMessageId + if p.pc.isPublish then 1 else 0

/-- What holds while the workers take turns. -/
structure BusDelivery (s : BusServer) : Prop where
  sender_lt : ∀ m ∈ s.sent, m.sender < s.numClients
  /-- no id is ahead of the slot -/
  not_ahead : ∀ j < s.numClients,
    (s.clients j).messageId ≤ s.gMessageId + if (s.clients j).pc.isPublish then 1 else 0
  copy_lt : ∀ j < s.numClients, (s.clients j).pc = .copy → (s.clients j).messageId < s.gMessageId
  accounted : ∀ m ∈ s.sent, m ∈ (s.clients m.sender).pending ∨
    ∀ j < s.numClients, j ≠ m.sender → m ∈ (s.clients j).received ∨
      (s.gMessageData = some m ∧ ¬ CaughtUp s.gMessageId (s.clients j))

section

variable {s : BusServer} {i : Nat}

/-- A worker that does not publish catches up only by receiving the slot. -/
private theorem BusDelivery.setClient (h : BusDelivery s) {p : BusClient}
    (hahead : p.messageId ≤ s.gMessageId + if p.pc.isPublish then 1 else 0)
    (hcopy : p.pc = .copy → p.messageId < s.gMessageId)
    (hpending : p.pending = (s.clients i).pending)
    (hreceived : ∀ m ∈ (s.clients i).received, m ∈ p.received)
    (hcaught : CaughtUp s.gMessageId p →
      CaughtUp s.gMessageId (s.clients i) ∨ ∀ m, s.gMessageData = some m → m ∈ p.received) :
    BusDelivery (s.setClient i p) where
  sender_lt := h.sender_lt
  not_ahead := forall_setClient
    (P := fun j p => j < s.numClients →
      p.messageId ≤ s.gMessageId + if p.pc.isPublish then 1 else 0)
    (fun _ => hahead) fun j _ hj => h.not_ahead j hj
  copy_lt := forall_setClient
    (P := fun j p => j < s.numClients → p.pc = .copy → p.messageId < s.gMessageId)
    (fun _ => hcopy) fun j _ hj => h.copy_lt j hj
  accounted m hm := by
    refine (h.accounted m hm).imp (fun hpend => ?_) fun hrecv => ?_
    · exact forall_setClient (P := fun j p => m ∈ (s.clients j).pending → m ∈ p.pending)
        (fun hm => hpending ▸ hm) (fun _ _ hm => hm) m.sender hpend
    · refine forall_setClient
        (P := fun j p => j < s.numClients → j ≠ m.sender → m ∈ p.received ∨
          (s.gMessageData = some m ∧ ¬ CaughtUp s.gMessageId p)) (fun hi hne => ?_)
        fun j _ => hrecv j
      rcases hrecv i hi hne with hold | ⟨hslot, hnot⟩
      -- the message was received, or is in the slot and still ahead of the worker
      · exact .inl (hreceived m hold)
      · by_cases hup : CaughtUp s.gMessageId p
        · rcases hcaught hup with hold | hnew
          · exact absurd hold hnot
          · exact .inl (hnew m hslot)
        · exact .inr ⟨hslot, hup⟩

/-- A publication in turn: all other workers fall behind the new message, and nobody
    needs the old one any more. -/
private theorem BusDelivery.publish (h : BusDelivery s) (hinv : BusInv s) {m : BusMsg}
    (hpc : (s.clients i).pc = .publish m) (hturn : TakesTurn s (.worker i)) :
    BusDelivery { s.setClient i { s.clients i with pc := .compare } with
      gMessageData := some m, gMessageId := (s.clients i).messageId } := by
  have hpublish : (s.clients i).pc.isPublish = true := by rw [hpc]; rfl
  obtain ⟨hid, hothers⟩ := hturn hpublish
  have hpending : (s.clients i).pending = m :: (s.clients i).input := by
    rw [BusClient.pending, hpc]
    rfl
  have hsender : m.sender = i :=
    (hinv.client i).pending_sender m (hpending ▸ List.mem_cons_self)
  refine ⟨h.sender_lt, ?_, ?_, ?_⟩
  · refine forall_setClient
      (P := fun j p => j < s.numClients →
        p.messageId ≤ (s.clients i).messageId + if p.pc.isPublish then 1 else 0)
      (fun _ => Nat.le_add_right _ _) fun j hji hj => ?_
    rw [(hothers j hj hji).1, hid]
    omega
  · refine forall_setClient
      (P := fun j p => j < s.numClients → p.pc = .copy → p.messageId < (s.clients i).messageId)
      (fun _ hcopy => by cases hcopy) fun j hji hj _ => ?_
    rw [(hothers j hj hji).1, hid]
    omega
  · intro m' hm'
    -- every worker had caught up with the old message
    have hcaught : ∀ j < s.numClients, CaughtUp s.gMessageId (s.clients j) := by
      intro j hj
      by_cases hji : j = i
      · rw [hji, CaughtUp, hid, hpublish]
        rfl
      · rw [CaughtUp, (hothers j hj hji).1, (hothers j hj hji).2]
        rfl
    by_cases heq : m' = m
    · -- the published message is now ahead of every other worker
      subst heq
      refine .inr (forall_setClient
        (P := fun j p => j < s.numClients → j ≠ m'.sender → m' ∈ p.received ∨
          (some m' = some m' ∧ ¬ CaughtUp (s.clients i).messageId p))
        (fun _ hne => absurd hsender.symm hne) fun j hji hj _ => .inr ⟨rfl, ?_⟩)
      rw [CaughtUp, (hothers j hj hji).1, (hothers j hj hji).2, hid]
      exact Nat.ne_of_lt (Nat.lt_succ_self _)
    · -- the message that leaves the slot has been received by all
      refine (h.accounted m' hm').imp (fun hpend => ?_) fun hrecv => ?_
      · refine forall_setClient (P := fun j p => m' ∈ (s.clients j).pending → m' ∈ p.pending)
          (fun hm => ?_) (fun _ _ hm => hm) m'.sender hpend
        rw [hpending] at hm
        exact (List.mem_cons.mp hm).resolve_left heq
      · refine forall_setClient
          (P := fun j p => j < s.numClients → j ≠ m'.sender → m' ∈ p.received ∨
            (some m = some m' ∧ ¬ CaughtUp (s.clients i).messageId p)) (fun hi hne => .inl ?_)
          fun j _ hj hne => .inl ?_
        · have hold := (hrecv i hi hne).resolve_right fun hnot => hnot.2 (hcaught i hi)
          rw [BusClient.received, hpc] at hold
          exact hold
        · exact (hrecv j hj hne).resolve_right fun hnot => hnot.2 (hcaught j hj)

/-- Every access of a worker that takes its turn. -/
private theorem busServerWorkFn_delivery (h : BusDelivery s) (hinv : BusInv s)
    (hi : i < s.numClients) (hturn : TakesTurn s (.worker i)) :
    BusDelivery (busServerWorkFn s i) := by
  have hahead := h.not_ahead i hi
  unfold busServerWorkFn
  cases hpc : (s.clients i).pc with
  | read =>
    rw [hpc] at hahead
    cases hinput : (s.clients i).input with
    | nil =>
      simp only [hpc, hinput]
      refine h.setClient hahead (fun hcopy => by cases hcopy) ?_ ?_ fun hup => .inl ?_
      · simp only [BusClient.pending, hpc, hinput, BusPc.held]
      · simp only [BusClient.received, hpc, BusPc.copied]
        exact fun _ hm => hm
      · rw [CaughtUp, hpc]
        exact hup
    | cons m input =>
      simp only [hpc, hinput]
      refine h.setClient (Nat.succ_le_succ hahead) (fun hcopy => by cases hcopy) ?_ ?_
        fun hup => .inl ?_
      · simp only [BusClient.pending, hpc, hinput, BusPc.held, List.singleton_append,
          List.nil_append]
      · simp only [BusClient.received, hpc, BusPc.copied]
        exact fun _ hm => hm
      · rw [CaughtUp, hpc]
        exact Nat.succ.inj hup
  | publish m =>
    simp only [hpc]
    exact h.publish hinv hpc hturn
  | compare =>
    rw [hpc] at hahead
    simp only [hpc]
    refine h.setClient ?_ ?_ ?_ ?_ fun hup => .inl ?_
    · split <;> exact hahead
    · split
      · next hgt => exact fun _ => hgt
      · exact fun hcopy => by cases hcopy
    · split <;> simp only [BusClient.pending, hpc, BusPc.held]
    · split <;> simp only [BusClient.received, hpc, BusPc.copied] <;> exact fun _ hm => hm
    · rw [CaughtUp, hpc]
      revert hup
      unfold CaughtUp
      split <;> exact fun hup => hup
  | copy =>
    simp only [hpc]
    -- the worker catches up, and has the message of the slot
    refine h.setClient (Nat.le_refl _) (fun hcopy => by cases hcopy) ?_ ?_ fun _ => .inr ?_
    · simp only [BusClient.pending, hpc, BusPc.held]
    · simp only [BusClient.received, hpc, BusPc.copied, List.append_nil]
      exact fun _ hm => List.mem_append_left _ hm
    · exact fun _ hm => List.mem_append_right _ (Option.mem_toList.mpr hm)
  | write m =>
    rw [hpc] at hahead
    simp only [hpc]
    refine h.setClient hahead (fun hcopy => by cases hcopy) ?_ ?_ fun hup => .inl ?_
    · simp only [BusClient.pending, hpc, BusPc.held]
    · simp only [BusClient.received, hpc, BusPc.copied, List.append_nil]
      exact fun _ hm => hm
    · rw [CaughtUp, hpc]
      exact hup

/-- Every step keeps both invariants while clients connect first and the workers take
    turns. -/
theorem busStep_delivery (s : BusServer) (a : BusAct) (s' : BusServer)
    (h : BusInv s ∧ BusDelivery s) (hcond : ConnectsFirst s a ∧ TakesTurn s a)
    (hstep : busStep s a = some s') : BusInv s' ∧ BusDelivery s' := by
  refine ⟨busStep_inv s a s' h.1 hstep, ?_⟩
  obtain ⟨hinv, h⟩ := h
  cases a with
  | connect =>
    obtain rfl := Option.some.inj hstep
    refine ⟨fun m hm => Nat.lt_succ_of_lt (h.sender_lt m hm), ?_, ?_, ?_⟩
    · refine forall_setClient
        (P := fun j p => j < s.numClients + 1 →
          p.messageId ≤ s.gMessageId + if p.pc.isPublish then 1 else 0)
        (fun _ => Nat.zero_le _) fun j hji hj => h.not_ahead j (by omega)
    · refine forall_setClient
        (P := fun j p => j < s.numClients + 1 → p.pc = .copy → p.messageId < s.gMessageId)
        (fun _ hcopy => by cases hcopy) fun j hji hj => h.copy_lt j (by omega)
    · intro m hm
      -- nothing has been sent before a client connects
      have hnil : s.sent = [] := hcond.1 rfl
      change m ∈ s.sent at hm
      rw [hnil] at hm
      exact nomatch hm
  | send i data =>
    simp only [busStep, Option.ite_none_right_eq_some, Option.some.injEq] at hstep
    obtain ⟨⟨hi, _⟩, rfl⟩ := hstep
    -- the message goes behind those that the worker has not read yet
    have hsub : ∀ m ∈ (s.clients i).pending, m ∈ ({ s.clients i with
        input := (s.clients i).input ++ [⟨data, i, s.sent.length⟩] } : BusClient).pending := by
      intro m hm
      rw [BusClient.pending, ← List.append_assoc]
      exact List.mem_append_left _ hm
    refine ⟨fun m hm => ?_, ?_, ?_, ?_⟩
    · rcases List.mem_append.mp hm with hm | hm
      · exact h.sender_lt m hm
      · rw [List.mem_singleton.mp hm]
        exact hi
    · exact forall_setClient
        (P := fun j p => j < s.numClients →
          p.messageId ≤ s.gMessageId + if p.pc.isPublish then 1 else 0)
        (fun hi => h.not_ahead i hi) fun j _ hj => h.not_ahead j hj
    · exact forall_setClient
        (P := fun j p => j < s.numClients → p.pc = .copy → p.messageId < s.gMessageId)
        (fun hi => h.copy_lt i hi) fun j _ hj => h.copy_lt j hj
    · intro m hm
      rcases List.mem_append.mp hm with hm | hm
      · refine (h.accounted m hm).imp (fun hpend => ?_) fun hrecv => ?_
        · exact forall_setClient (P := fun j p => m ∈ (s.clients j).pending → m ∈ p.pending)
            (hsub m) (fun _ _ hm => hm) m.sender hpend
        · exact forall_setClient
            (P := fun j p => j < s.numClients → j ≠ m.sender → m ∈ p.received ∨
              (s.gMessageData = some m ∧ ¬ CaughtUp s.gMessageId p))
            (fun hi => hrecv i hi) fun j _ => hrecv j
      · obtain rfl := List.mem_singleton.mp hm
        -- the new message is pending at its sender
        refine .inl ?_
        show _ ∈ ((s.setClient i _).clients i).pending
        rw [setClient_self, BusClient.pending, ← List.append_assoc]
        exact List.mem_append_right _ hm
  | worker i =>
    simp only [busStep, Option.ite_none_right_eq_some, Option.some.injEq] at hstep
    obtain ⟨hi, rfl⟩ := hstep
    exact busServerWorkFn_delivery h hinv hi hcond.2

theorem busInit_delivery : BusDelivery busInit where
  sender_lt _ hm := nomatch hm
  not_ahead _ hj := nomatch hj
  copy_lt _ hj := nomatch hj
  accounted _ hm := nomatch hm

/-- When the workers have taken turns, a quiescent server has delivered every message
    to every other client. -/
theorem BusDelivery.delivered (h : BusDelivery s) (hq : Quiescent s) {m : BusMsg}
    (hm : m ∈ s.sent) {j : Nat} (hj : j < s.numClients) (hne : j ≠ m.sender) :
    m ∈ (s.clients j).delivered := by
  have hheld : ∀ k < s.numClients, (s.clients k).pending = [] ∧
      (s.clients k).received = (s.clients k).delivered ∧ (s.clients k).pc.isPublish = false := by
    intro k hk
    obtain ⟨hinput, hpc, _⟩ := hq k hk
    rw [BusClient.pending, BusClient.received, hinput]
    rcases hpc with hpc | hpc <;> rw [hpc] <;> exact ⟨rfl, List.append_nil _, rfl⟩
  rcases h.accounted m hm with hpend | hrecv
  · rw [(hheld m.sender (h.sender_lt m hm)).1] at hpend
    cases hpend
  · -- nothing is on its way from a copy to a client
    rcases hrecv j hj hne with hrecv | ⟨_, hnot⟩
    · rwa [(hheld j hj).2.1] at hrecv
    · -- a worker that would not pass the comparison has caught up
      refine absurd ?_ hnot
      have hahead := h.not_ahead j hj
      have hback := (hq j hj).2.2
      rw [(hheld j hj).2.2] at hahead
      rw [CaughtUp, (hheld j hj).2.2]
      simp only [Bool.false_eq_true, ↓reduceIte] at hahead ⊢
      omega

end

/-! ## Results -/

/-- If clients connect before any message is sent and the workers take turns, then
    whenever all loops are quiescent every message has been delivered to every other
    client. -/
theorem bus_delivers_all (as : List BusAct) (s : BusServer)
    (hmeets : Meets busStep (fun s a => ConnectsFirst s a ∧ TakesTurn s a) busInit as)
    (hrun : run busStep busInit as = some s) (hq : Quiescent s) :
    ∀ m ∈ s.sent, ∀ j < s.numClients, j ≠ m.sender → m ∈ (s.clients j).delivered := by
  obtain ⟨_, hdelivery⟩ :=
    inv_of_meets busStep_delivery ⟨busInit_inv, busInit_delivery⟩ hmeets hrun
  exact fun m hm j hj hne => hdelivery.delivered hq hm hj hne

/-- Two clients send in turn, and the workers take turns. -/
def inTurnRun : List BusAct :=
  [.connect, .connect, .send 0 [1], .worker 0, .worker 0, .worker 0, .worker 1, .worker 1,
    .worker 1, .worker 1, .send 1 [2], .worker 1, .worker 1, .worker 1, .worker 0, .worker 0,
    .worker 0, .worker 0]

theorem bus_delivers_all_run :
    ∃ s, run busStep busInit inTurnRun = some s ∧ s.sent = [⟨[1], 0, 0⟩, ⟨[2], 1, 1⟩] ∧
      ∀ m ∈ s.sent, ∀ j < s.numClients, j ≠ m.sender → m ∈ (s.clients j).delivered :=
  ⟨_, rfl, rfl, bus_delivers_all inTurnRun _ (by decide) rfl (by decide)⟩

/-- Two clients send at the same time: both workers read before either publishes, so
    both publish under the id 1 and neither passes the comparison. -/
def simultaneousRun : List BusAct :=
  [.connect, .connect, .send 0 [1], .send 1 [2], .worker 0, .worker 1, .worker 0, .worker 1,
    .worker 0, .worker 1]

/-- After it both loops are quiescent, and both messages are lost. -/
theorem bus_loses_all :
    ∃ s, run busStep busInit simultaneousRun = some s ∧
      Meets busStep ConnectsFirst busInit simultaneousRun ∧ s.numClients = 2 ∧ Quiescent s ∧
      s.sent = [⟨[1], 0, 0⟩, ⟨[2], 1, 1⟩] ∧ (s.clients 0).delivered = [] ∧
      (s.clients 1).delivered = [] ∧
      ¬ ∀ m ∈ s.sent, ∀ j < s.numClients, j ≠ m.sender → m ∈ (s.clients j).delivered :=
  ⟨_, rfl, by decide, rfl, by decide, rfl, rfl, rfl, by decide⟩

end CUtils
