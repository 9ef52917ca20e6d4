import Mathlib.Data.List.Nodup
import CUtils.ForStd.StepSystem
import CUtils.Native.BusServer

/-!
# The bus server delivers nothing twice and nothing back

The server has a single slot for the last message, and every worker compares its own
id with that of the slot.  While the slot holds a message, the worker that published
it and the workers that copied it have ids that are not below `g_message_id`, so none
of them passes the comparison again: `BusInv.settled`.

- `busStep_inv`: every step keeps the invariant.
- `bus_no_echo_no_duplicate`: no client receives its own message or a message twice.
-/

namespace CUtils

open StepSystem

/-! ## Messages on their way -/

/-- The message that the worker has read and not yet published. -/
def BusPc.held : BusPc → List BusMsg
  | .publish m => [m]
  | _ => []

/-- The message that the worker has copied and not yet written. -/
def BusPc.copied : BusPc → List BusMsg
  | .write m => m.toList
  | _ => []

/-- The messages of a client that are not published yet. -/
def BusClient.pending (p : BusClient) : List BusMsg := p.pc.held ++ p.input

/-- The messages that were copied for a client. -/
def BusClient.received (p : BusClient) : List BusMsg := p.delivered ++ p.pc.copied

@[simp] theorem setClient_self (s : BusServer) (i : Nat) (p : BusClient) :
    (s.setClient i p).clients i = p := Function.update_self _ _ _

theorem setClient_of_ne (s : BusServer) {i j : Nat} (p : BusClient) (h : j ≠ i) :
    (s.setClient i p).clients j = s.clients j := Function.update_of_ne h _ _

/-- A property of all clients after the change of one. -/
theorem forall_setClient {s : BusServer} {i : Nat} {p : BusClient} {P : Nat → BusClient → Prop}
    (hself : P i p) (hother : ∀ j, j ≠ i → P j (s.clients j)) (j : Nat) :
    P j ((s.setClient i p).clients j) := by
  by_cases hji : j = i
  · rw [hji, setClient_self]
    exact hself
  · rw [setClient_of_ne s p hji]
    exact hother j hji

/-- What holds of the client `j` while the slot holds `slot` under the id `gMessageId`,
    and `sent` messages have been sent. -/
structure BusClientOk (gMessageId : Nat) (slot : Option BusMsg) (sent j : Nat) (p : BusClient) :
    Prop where
  pending_nodup : p.pending.Nodup
  pending_sender : ∀ m ∈ p.pending, m.sender = j
  pending_tag : ∀ m ∈ p.pending, m.tag < sent
  pending_slot : ∀ m ∈ p.pending, slot ≠ some m
  received_nodup : p.received.Nodup
  received_tag : ∀ m ∈ p.received, m.tag < sent
  received_sender : ∀ m ∈ p.received, m.sender ≠ j
  /-- whoever published or copied the message in the slot will not copy it -/
  settled : ∀ m, slot = some m → (m.sender = j ∨ m ∈ p.received) →
    gMessageId ≤ p.messageId ∧ p.pc ≠ .copy

/-- What holds in every state of the server. -/
structure BusInv (s : BusServer) : Prop where
  client : ∀ j, BusClientOk s.gMessageId s.gMessageData s.sent.length j (s.clients j)
  pending_received : ∀ i j, ∀ m ∈ (s.clients i).pending, m ∉ (s.clients j).received
  slot_sent : ∀ m, s.gMessageData = some m → m.tag < s.sent.length ∧ m.sender < s.numClients

namespace BusClientOk

variable {gMessageId sent j : Nat} {slot : Option BusMsg} {p p' : BusClient}

/-- A client that has just connected. -/
theorem init (h : ∀ m, slot = some m → m.sender ≠ j) :
    BusClientOk gMessageId slot sent j busClientInit where
  pending_nodup := List.nodup_nil
  pending_sender _ hm := nomatch hm
  pending_tag _ hm := nomatch hm
  pending_slot _ hm := nomatch hm
  received_nodup := List.nodup_nil
  received_tag _ hm := nomatch hm
  received_sender _ hm := nomatch hm
  settled m hslot hm := by
    rcases hm with hm | hm
    · exact absurd hm (h m hslot)
    · exact nomatch hm

/-- A step that moves no message only has to keep the client away from the slot. -/
theorem congr (h : BusClientOk gMessageId slot sent j p) (hpending : p'.pending = p.pending)
    (hreceived : p'.received = p.received)
    (hsettled : gMessageId ≤ p.messageId ∧ p.pc ≠ .copy →
      gMessageId ≤ p'.messageId ∧ p'.pc ≠ .copy) :
    BusClientOk gMessageId slot sent j p' where
  pending_nodup := hpending ▸ h.pending_nodup
  pending_sender := hpending ▸ h.pending_sender
  pending_tag := hpending ▸ h.pending_tag
  pending_slot := hpending ▸ h.pending_slot
  received_nodup := hreceived ▸ h.received_nodup
  received_tag := hreceived ▸ h.received_tag
  received_sender := hreceived ▸ h.received_sender
  settled m hslot hm := hsettled (h.settled m hslot (hreceived ▸ hm))

/-- More messages sent. -/
theorem mono (h : BusClientOk gMessageId slot sent j p) {sent' : Nat} (hle : sent ≤ sent') :
    BusClientOk gMessageId slot sent' j p :=
  { h with
    pending_tag := fun m hm => Nat.lt_of_lt_of_le (h.pending_tag m hm) hle
    received_tag := fun m hm => Nat.lt_of_lt_of_le (h.received_tag m hm) hle }

/-- The slot is taken by a message that has nothing to do with the client. -/
theorem other_publish (h : BusClientOk gMessageId slot sent j p) {m : BusMsg} (hm : m.sender ≠ j)
    (hrecv : m ∉ p.received) (gMessageId' : Nat) :
    BusClientOk gMessageId' (some m) sent j p :=
  { h with
    pending_slot := by
      rintro m' hm' heq
      obtain rfl := Option.some.inj heq
      exact hm (h.pending_sender m hm')
    settled := by
      rintro m' heq (hm' | hm')
      · obtain rfl := Option.some.inj heq
        exact absurd hm' hm
      · obtain rfl := Option.some.inj heq
        exact absurd hm' hrecv }

/-- The publisher leaves its message in the slot, under its own id. -/
theorem publish (h : BusClientOk gMessageId slot sent j p) {m : BusMsg}
    (hpc : p.pc = .publish m) :
    BusClientOk p.messageId (some m) sent j { p with pc := .compare } := by
  have hpending : p.pending = m :: p.input := by
    rw [BusClient.pending, hpc]
    rfl
  have hreceived : ({ p with pc := .compare } : BusClient).received = p.received := by
    rw [BusClient.received, BusClient.received, hpc]
    rfl
  have hnodup := h.pending_nodup
  rw [hpending, List.nodup_cons] at hnodup
  have hsub : ∀ m' ∈ p.input, m' ∈ p.pending := by
    rw [hpending]
    exact fun m' hm' => List.mem_cons_of_mem m hm'
  exact
    { pending_nodup := hnodup.2
      pending_sender := fun m' hm' => h.pending_sender m' (hsub m' hm')
      pending_tag := fun m' hm' => h.pending_tag m' (hsub m' hm')
      pending_slot := fun m' hm' heq => hnodup.1 (Option.some.inj heq ▸ hm')
      received_nodup := hreceived ▸ h.received_nodup
      received_tag := hreceived ▸ h.received_tag
      received_sender := hreceived ▸ h.received_sender
      settled := fun _ _ _ => ⟨Nat.le_refl _, nofun⟩ }

/-- The copy: the message in the slot is a new one, because the client would not have
    passed the comparison otherwise. -/
theorem copy (h : BusClientOk gMessageId slot sent j p) (hpc : p.pc = .copy)
    (hslot : ∀ m, slot = some m → m.tag < sent) :
    BusClientOk gMessageId slot sent j { p with messageId := gMessageId, pc := .write slot } := by
  have hpending : p.pending = p.input := by
    rw [BusClient.pending, hpc]
    rfl
  have hreceived : p.received = p.delivered := by
    rw [BusClient.received, hpc]
    exact List.append_nil _
  -- a client that is about to copy is not settled
  have hnew : ∀ m, slot = some m → m.sender ≠ j ∧ m ∉ p.delivered := by
    intro m hm
    constructor
    · exact fun hsender => (h.settled m hm (.inl hsender)).2 hpc
    · exact fun hmem => (h.settled m hm (.inr (hreceived ▸ hmem))).2 hpc
  have hone : slot.toList.Nodup := by
    cases slot with
    | none => exact List.nodup_nil
    | some m => exact List.nodup_singleton m
  have hmem : ∀ m, m ∈ p.delivered ++ slot.toList → m ∈ p.received ∨ slot = some m := by
    intro m hm
    rw [hreceived]
    rcases List.mem_append.mp hm with hm | hm
    · exact .inl hm
    · exact .inr (Option.mem_toList.mp hm)
  exact
    { pending_nodup := hpending ▸ h.pending_nodup
      pending_sender := hpending ▸ h.pending_sender
      pending_tag := hpending ▸ h.pending_tag
      pending_slot := hpending ▸ h.pending_slot
      received_nodup := by
        refine List.Nodup.append (hreceived ▸ h.received_nodup) hone ?_
        intro m hm hm'
        exact (hnew m (Option.mem_toList.mp hm')).2 hm
      received_tag := fun m hm => (hmem m hm).elim (h.received_tag m) (hslot m)
      received_sender := fun m hm =>
        (hmem m hm).elim (h.received_sender m) fun hm => (hnew m hm).1
      settled := fun _ _ _ => ⟨Nat.le_refl _, nofun⟩ }

/-- A new message of the client itself. -/
theorem send (h : BusClientOk gMessageId slot sent j p) {m : BusMsg} (hsender : m.sender = j)
    (htag : m.tag = sent) (hslot : slot ≠ some m) {sent' : Nat} (hlt : sent < sent') :
    BusClientOk gMessageId slot sent' j { p with input := p.input ++ [m] } := by
  have hpending : ({ p with input := p.input ++ [m] } : BusClient).pending = p.pending ++ [m] :=
    (List.append_assoc _ _ _).symm
  -- the tag of the message is new
  have hnew : m ∉ p.pending := by
    intro hm
    have hlt := h.pending_tag m hm
    omega
  have hmono := h.mono (Nat.le_of_lt hlt)
  have hmem : ∀ m', m' ∈ p.pending ++ [m] → m' ∈ p.pending ∨ m' = m := by
    intro m' hm'
    rcases List.mem_append.mp hm' with hm' | hm'
    · exact .inl hm'
    · exact .inr (List.mem_singleton.mp hm')
  exact
    { hmono with
      pending_nodup := by
        rw [hpending]
        refine List.Nodup.append h.pending_nodup (List.nodup_singleton m) ?_
        intro m' hm' hm''
        exact hnew (List.mem_singleton.mp hm'' ▸ hm')
      pending_sender := by
        rw [hpending]
        exact fun m' hm' => (hmem m' hm').elim (h.pending_sender m') fun heq => heq ▸ hsender
      pending_tag := by
        rw [hpending]
        exact fun m' hm' => (hmem m' hm').elim (hmono.pending_tag m') fun heq =>
          heq ▸ htag ▸ hlt
      pending_slot := by
        rw [hpending]
        exact fun m' hm' => (hmem m' hm').elim (h.pending_slot m') fun heq => heq ▸ hslot }

end BusClientOk

/-! ## Steps -/

theorem busInit_inv : BusInv busInit where
  client _ := .init nofun
  pending_received _ _ _ hm := nomatch hm
  slot_sent _ hm := nomatch hm

section

variable {s : BusServer} {i : Nat}

/-- A client may lose pending messages and receive the one in the slot. -/
private theorem BusInv.pending_received_setClient (h : BusInv s) {p : BusClient}
    (hpending : ∀ m ∈ p.pending, m ∈ (s.clients i).pending)
    (hreceived : ∀ m ∈ p.received, m ∈ (s.clients i).received ∨ s.gMessageData = some m) :
    ∀ j k, ∀ m ∈ ((s.setClient i p).clients j).pending,
      m ∉ ((s.setClient i p).clients k).received := by
  intro j k m hm
  have hpend : m ∈ (s.clients j).pending :=
    forall_setClient (P := fun j p => m ∈ p.pending → m ∈ (s.clients j).pending)
      (hpending m) (fun _ _ hm => hm) j hm
  refine forall_setClient (P := fun _ p => m ∉ p.received) ?_
    (fun k _ => h.pending_received j k m hpend) k
  intro hrecv
  rcases hreceived m hrecv with hrecv | hslot
  · exact h.pending_received j i m hpend hrecv
  · exact (h.client j).pending_slot m hpend hslot

/-- A step of a worker that moves no message keeps the invariant. -/
private theorem BusInv.setClient (h : BusInv s) {p : BusClient}
    (hpending : p.pending = (s.clients i).pending)
    (hreceived : p.received = (s.clients i).received)
    (hsettled : s.gMessageId ≤ (s.clients i).messageId ∧ (s.clients i).pc ≠ .copy →
      s.gMessageId ≤ p.messageId ∧ p.pc ≠ .copy) : BusInv (s.setClient i p) where
  client := forall_setClient ((h.client i).congr hpending hreceived hsettled)
    fun j _ => h.client j
  pending_received := h.pending_received_setClient (fun _ hm => hpending ▸ hm)
    fun _ hm => .inl (hreceived ▸ hm)
  slot_sent := h.slot_sent

/-- Every access of a worker keeps the invariant. -/
theorem busServerWorkFn_inv (h : BusInv s) (hi : i < s.numClients) :
    BusInv (busServerWorkFn s i) := by
  unfold busServerWorkFn
  cases hpc : (s.clients i).pc with
  | read =>
    cases hinput : (s.clients i).input with
    | nil =>
      simp only [hpc, hinput]
      refine h.setClient ?_ ?_ fun hset => ⟨hset.1, nofun⟩
      · simp only [BusClient.pending, hpc, hinput, BusPc.held]
      · simp only [BusClient.received, hpc, BusPc.copied]
    | cons m input =>
      -- the id grows, so a settled client stays settled
      simp only [hpc, hinput]
      refine h.setClient ?_ ?_ fun hset => ⟨Nat.le_succ_of_le hset.1, nofun⟩
      · simp only [BusClient.pending, hpc, hinput, BusPc.held, List.singleton_append,
          List.nil_append]
      · simp only [BusClient.received, hpc, BusPc.copied]
  | publish m =>
    simp only [hpc]
    have hmem : m ∈ (s.clients i).pending := by
      rw [BusClient.pending, hpc]
      exact List.mem_append_left _ (List.mem_singleton.mpr rfl)
    have hsender := (h.client i).pending_sender m hmem
    -- the publisher is settled under its own id; to all others the message is foreign
    refine ⟨forall_setClient ((h.client i).publish hpc) fun j hji => ?_,
      h.pending_received_setClient (fun m' hm' => ?_) (fun m' hm' => ?_), ?_⟩
    · exact (h.client j).other_publish (fun heq => hji (heq ▸ hsender))
        (h.pending_received i j m hmem) _
    · rw [BusClient.pending, hpc]
      exact List.mem_append_right _ hm'
    · rw [BusClient.received, hpc]
      exact .inl hm'
    · intro m' heq
      obtain rfl := Option.some.inj heq
      exact ⟨(h.client i).pending_tag m hmem, hsender ▸ hi⟩
  | compare =>
    simp only [hpc]
    refine h.setClient ?_ ?_ ?_
    · split <;> simp only [BusClient.pending, hpc, BusPc.held]
    · split <;> simp only [BusClient.received, hpc, BusPc.copied]
    · -- a settled client does not pass the comparison
      rintro ⟨hle, _⟩
      rw [if_neg (by omega)]
      exact ⟨hle, nofun⟩
  | copy =>
    simp only [hpc]
    refine ⟨forall_setClient ((h.client i).copy hpc fun m hm => (h.slot_sent m hm).1)
      fun j _ => h.client j, h.pending_received_setClient (fun m hm => ?_) (fun m hm => ?_),
      h.slot_sent⟩
    · rw [BusClient.pending, hpc]
      exact hm
    · rw [BusClient.received, hpc]
      exact (List.mem_append.mp hm).imp (List.mem_append_left _) Option.mem_toList.mp
  | write m =>
    simp only [hpc]
    refine h.setClient ?_ ?_ fun hset => ⟨hset.1, nofun⟩
    · simp only [BusClient.pending, hpc, BusPc.held]
    · simp only [BusClient.received, hpc, BusPc.copied, List.append_nil]

/-- Every step keeps the invariant. -/
theorem busStep_inv (s : BusServer) (a : BusAct) (s' : BusServer) (h : BusInv s)
    (hstep : busStep s a = some s') : BusInv s' := by
  cases a with
  | connect =>
    obtain rfl := Option.some.inj hstep
    have hsender : ∀ m, s.gMessageData = some m → m.sender ≠ s.numClients :=
      fun m hm => Nat.ne_of_lt (h.slot_sent m hm).2
    refine ⟨forall_setClient (.init hsender) fun j _ => h.client j, ?_, ?_⟩
    · exact h.pending_received_setClient (fun m hm => nomatch hm) fun m hm => nomatch hm
    · exact fun m hm => ⟨(h.slot_sent m hm).1, Nat.lt_succ_of_lt (h.slot_sent m hm).2⟩
  | send i data =>
    simp only [busStep, Option.ite_none_right_eq_some, Option.some.injEq] at hstep
    obtain ⟨⟨hi, _⟩, rfl⟩ := hstep
    -- the tag of the message is new
    have hslot : s.gMessageData ≠ some ⟨data, i, s.sent.length⟩ :=
      fun hm => Nat.lt_irrefl _ (h.slot_sent _ hm).1
    have hlt : s.sent.length < (s.sent ++ [(⟨data, i, s.sent.length⟩ : BusMsg)]).length := by
      rw [List.length_append, List.length_singleton]
      exact Nat.lt_succ_self _
    refine ⟨forall_setClient ((h.client i).send rfl rfl hslot hlt)
      fun j _ => (h.client j).mono (Nat.le_of_lt hlt), ?_, ?_⟩
    · intro j k m hm hrecv
      have hold : m ∈ (s.clients k).received := by
        refine forall_setClient (P := fun k p => m ∈ p.received → m ∈ (s.clients k).received)
          (fun hm => ?_) (fun _ _ hm => hm) k hrecv
        exact hm
      have hnew : m ∈ (s.clients j).pending ∨ m.tag = s.sent.length := by
        refine forall_setClient
          (P := fun j p => m ∈ p.pending → m ∈ (s.clients j).pending ∨ m.tag = s.sent.length)
          (fun hm => ?_) (fun _ _ hm => .inl hm) j hm
        rw [BusClient.pending, ← List.append_assoc] at hm
        refine (List.mem_append.mp hm).imp_right fun hm => ?_
        rw [List.mem_singleton.mp hm]
      -- a message that some client has received was sent before
      rcases hnew with hpend | htag
      · exact h.pending_received j k m hpend hold
      · exact Nat.ne_of_lt ((h.client k).received_tag m hold) htag
    · exact fun m hm => ⟨Nat.lt_trans (h.slot_sent m hm).1 hlt, (h.slot_sent m hm).2⟩
  | worker i =>
    simp only [busStep, Option.ite_none_right_eq_some, Option.some.injEq] at hstep
    obtain ⟨hi, rfl⟩ := hstep
    exact busServerWorkFn_inv h hi

end

/-- In every interleaving, with clients connecting at any time: no client is delivered
    a message of its own, and no client is delivered a message twice. -/
theorem bus_no_echo_no_duplicate (as : List BusAct) (s : BusServer)
    (hrun : run busStep busInit as = some s) (i : Nat) :
    (∀ m ∈ (s.clients i).delivered, m.sender ≠ i) ∧ (s.clients i).delivered.Nodup := by
  have hclient := (inv_of_run busStep_inv busInit_inv hrun).client i
  have hreceived : ∀ m ∈ (s.clients i).delivered, m ∈ (s.clients i).received :=
    fun m hm => List.mem_append_left _ hm
  exact ⟨fun m hm => hclient.received_sender m (hreceived m hm),
    (List.nodup_append.mp hclient.received_nodup).1⟩

/-- A run in which the id moves backwards between the comparison and the copy of
    worker 1: it compares with the id 2 of the second message of client 0, and copies
    the message of client 2 under the id 1. -/
def backwardsRun : List BusAct :=
  [.connect, .connect, .connect, .send 0 [1], .worker 0, .worker 0, .worker 0, .worker 1, .worker 1,
    .worker 1, .worker 1, .send 0 [2], .worker 0, .worker 0, .worker 1, .worker 1, .send 2 [3],
    .worker 2, .worker 2, .worker 1, .worker 1]

theorem bus_no_echo_no_duplicate_run :
    ∃ s, run busStep busInit backwardsRun = some s ∧
      (s.clients 1).delivered = [⟨[1], 0, 0⟩, ⟨[3], 2, 2⟩] ∧
      (∀ m ∈ (s.clients 1).delivered, m.sender ≠ 1) ∧ (s.clients 1).delivered.Nodup :=
  ⟨_, rfl, rfl, bus_no_echo_no_duplicate backwardsRun _ rfl 1⟩

end CUtils
