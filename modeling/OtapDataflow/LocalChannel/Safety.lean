import OtapDataflow.LocalChannel.Waiters

/-! # What the channel keeps

`held` lists the keys of the futures that are alive.  The channel's own numbers are tied to it: a
key is valid exactly if a future holds it, and `reserved_slots` counts the futures that hold an
unused grant.  In the middle of a poll the future that is polled neither waits nor holds a grant;
it is the one that `busy` excepts.

**Progress** is kept apart, since some operations lose it and then grant a place.  A grant always
restores it (`Core.grant`): either nobody waits, or there is no place left to give, or somebody was
given one. -/

namespace OtapDataflow.LocalChannel

open List Function SenderWaiters Option

/-! ## Counting -/

section

variable {α : Type} [DecidableEq α] {p : α → Bool} {l : List α} {a : α}

theorem countP_update_of_not_mem (h : a ∉ l) (b : Bool) : l.countP (update p a b) = l.countP p := by
  refine countP_congr fun x hx => ?_
  have hne : x ≠ a := fun heq => h (heq ▸ hx)
  rw [update_of_ne hne]

theorem countP_update (hl : l.Nodup) (h : a ∈ l) (b : Bool) :
    l.countP (update p a b) + (p a).toNat = l.countP p + b.toNat := by
  have hperm := perm_cons_erase h
  have hnot : a ∉ l.erase a := fun hmem => (hl.mem_erase_iff.mp hmem).1 rfl
  rw [hperm.countP_eq, hperm.countP_eq p, countP_cons, countP_cons,
    countP_update_of_not_mem hnot, update_self]
  cases p a <;> cases b <;> simp

end

namespace ChannelState

variable {T W : Type} {c c' : ChannelState T W} {held rest : List SenderWaiterKey}
  {busy : Option SenderWaiterKey} {key : SenderWaiterKey} {slot : SenderWaiterSlot W}

structure Core (c : ChannelState T W) (held : List SenderWaiterKey)
    (busy : Option SenderWaiterKey) : Prop where
  waiters : c.senderWaiters.Sound
  once : held.Nodup
  valid : ∀ key, key ∈ held ↔ (c.senderWaiters.slot? key).isSome = true
  count : c.reservedSlots = held.countP c.senderWaiters.granted
  room : c.buffer.length + c.reservedSlots ≤ c.capacity
  /-- Who waits in an open channel stands in the queue or holds a grant. -/
  waits : c.isClosed = false → ∀ key slot, busy ≠ some key →
    c.senderWaiters.slot? key = some slot → slot.queued = true ∨ slot.reserved = true

/-- While a future waits in the queue, the buffer is full or a grant is outstanding. -/
def Progress (c : ChannelState T W) : Prop :=
  c.isClosed = false → (∃ key slot, c.senderWaiters.slot? key = some slot ∧ slot.queued = true) →
    c.buffer.length = c.capacity ∨ 0 < c.reservedSlots

theorem Core.perm (h : Core c held busy) (hperm : held.Perm rest) : Core c rest busy where
  waiters := h.waiters
  once := hperm.nodup h.once
  valid key := hperm.mem_iff.symm.trans (h.valid key)
  count := h.count.trans (hperm.countP_eq _)
  room := h.room
  waits := h.waits

/-- Operations that leave the waiters alone. -/
theorem Core.frame (h : Core c held busy) (hwaiters : c'.senderWaiters = c.senderWaiters)
    (hreserved : c'.reservedSlots = c.reservedSlots)
    (hroom : c'.buffer.length + c'.reservedSlots ≤ c'.capacity)
    (hclosed : c'.isClosed = false → c.isClosed = false) : Core c' held busy where
  waiters := hwaiters ▸ h.waiters
  once := h.once
  valid := hwaiters ▸ h.valid
  count := by rw [hreserved, hwaiters, h.count]
  room := hroom
  waits hopen := hwaiters ▸ h.waits (hclosed hopen)

theorem Core.exists_slot (h : Core c held busy) (hkey : key ∈ held) :
    ∃ slot, c.senderWaiters.slot? key = some slot :=
  isSome_iff_exists.mp ((h.valid key).mp hkey)

theorem granted_update {w w' : SenderWaiters W} {new : Option (SenderWaiterSlot W)}
    (h : w'.slot? = update w.slot? key new) :
    w'.granted = update w.granted key (new.any (·.reserved)) := by
  funext other
  by_cases heq : other = key
  · subst heq
    simp [granted, h]
  · simp [granted, h, update_of_ne heq]

theorem granted_eq (h : c.senderWaiters.slot? key = some slot) :
    c.senderWaiters.granted key = slot.reserved := by
  simp [granted, h]

/-- One slot changes, and the count of reserved places follows its `reserved` mark. -/
theorem Core.put (h : Core c held busy) (hslot : c.senderWaiters.slot? key = some slot)
    {slot' : SenderWaiterSlot W} {busy' : Option SenderWaiterKey} (hsound : c'.senderWaiters.Sound)
    (hmap : c'.senderWaiters.slot? = update c.senderWaiters.slot? key (some slot'))
    (hcount : c'.reservedSlots + slot.reserved.toNat = c.reservedSlots + slot'.reserved.toNat)
    (hroom : c'.buffer.length + c'.reservedSlots ≤ c'.capacity)
    (hclosed : c'.isClosed = false → c.isClosed = false)
    (hbusy : ∀ other, other ≠ key → busy' ≠ some other → busy ≠ some other)
    (hwaits : busy' ≠ some key → slot'.queued = true ∨ slot'.reserved = true) :
    Core c' held busy' where
  waiters := hsound
  once := h.once
  valid other := by
    rw [h.valid, hmap]
    by_cases heq : other = key
    · subst heq
      simp [hslot]
    · rw [update_of_ne heq]
  count := by
    have hkey : key ∈ held := (h.valid key).mpr (by rw [hslot]; rfl)
    have hupdate := countP_update (p := c.senderWaiters.granted) h.once hkey slot'.reserved
    rw [granted_eq hslot, ← h.count] at hupdate
    rw [granted_update hmap]
    simp only [any_some]
    omega
  room := hroom
  waits := by
    intro hopen other found hne hfound
    rw [hmap] at hfound
    by_cases heq : other = key
    · subst heq
      rw [update_self, some.injEq] at hfound
      subst hfound
      exact hwaits hne
    · rw [update_of_ne heq] at hfound
      exact h.waits (hclosed hopen) other found (hbusy other heq hne) hfound

/-! ## Grants -/

/-- **A grant restores progress.** -/
theorem Core.grant (h : Core c held busy) :
    Core c.grantOneSenderWaiter.1 held busy ∧ Progress c.grantOneSenderWaiter.1 := by
  unfold grantOneSenderWaiter
  split
  · rename_i hfull
    refine ⟨h, fun hopen _ => ?_⟩
    have hroom := h.room
    rcases Bool.or_eq_true_iff.mp hfull with hclosed | hfull
    · rw [hopen] at hclosed
      cases hclosed
    · have hfull := of_decide_eq_true hfull
      show c.buffer.length = c.capacity ∨ 0 < c.reservedSlots
      omega
  · rename_i hplace
    have hspec := reserveOne_spec h.waiters
    simp only [Bool.or_eq_true, decide_eq_true_eq, not_or] at hplace
    generalize c.senderWaiters.reserveOne = result at hspec
    cases hspec with
    | nobody w' sound same none_queued =>
      refine ⟨⟨sound, h.once, ?_, ?_, h.room, ?_⟩, ?_⟩
      · exact fun key => by rw [h.valid]; exact (same ▸ Iff.rfl)
      · rw [show (granted w') = c.senderWaiters.granted from by
          funext key; simp only [granted, same]]
        exact h.count
      · intro hopen key slot hne hslot
        exact h.waits hopen key slot hne (same ▸ hslot)
      · rintro _ ⟨key, slot, hslot, hq⟩
        rw [none_queued key slot (same ▸ hslot)] at hq
        cases hq
    | granted key slot waker w' found queued sound update =>
      have hunreserved := (h.waiters.queued key slot found queued).1
      refine ⟨h.put found sound update ?_ ?_ id (fun _ _ hne => hne) fun _ => .inr rfl,
        fun _ _ => .inr (Nat.succ_pos _)⟩
      · simp [hunreserved]
      · show c.buffer.length + (c.reservedSlots + 1) ≤ c.capacity
        omega

/-! ## Giving up a key -/

section

variable (h : Core c (key :: rest) busy) (hbusy : ∀ other, other ≠ key → busy ≠ some other)
include h hbusy

/-- A key is no longer valid, and its unused grant is no longer counted. -/
theorem Core.remove
    (hslot : c.senderWaiters.slot? key = some slot) (hsound : c'.senderWaiters.Sound)
    (hmap : c'.senderWaiters.slot? = update c.senderWaiters.slot? key none)
    (hcount : c'.reservedSlots + slot.reserved.toNat = c.reservedSlots)
    (hroom : c'.buffer.length + c'.reservedSlots ≤ c'.capacity)
    (hclosed : c'.isClosed = false → c.isClosed = false) : Core c' rest none := by
  obtain ⟨hnot, honce⟩ := nodup_cons.mp h.once
  refine ⟨hsound, honce, fun other => ?_, ?_, hroom, ?_⟩
  · rw [hmap]
    by_cases heq : other = key
    · subst heq
      simp [hnot]
    · rw [update_of_ne heq, ← h.valid, mem_cons, or_iff_right heq]
  · have hold := h.count
    rw [countP_cons, granted_eq hslot] at hold
    rw [granted_update hmap, countP_update_of_not_mem hnot]
    cases hreserved : slot.reserved <;> simp_all
  · intro hopen other found _ hfound
    rw [hmap] at hfound
    by_cases heq : other = key
    · rw [heq, update_self] at hfound
      cases hfound
    · rw [update_of_ne heq] at hfound
      exact h.waits (hclosed hopen) other found (hbusy other heq) hfound

/-- A grant that is given back is passed on, so progress is not lost. -/
theorem Core.unregister :
    Core (c.unregisterSenderWaiter key).1 rest none ∧
      (Progress c → Progress (c.unregisterSenderWaiter key).1) := by
  obtain ⟨slot, hslot⟩ := h.exists_slot mem_cons_self
  obtain ⟨hresult, hsound, hmap⟩ := unregister_spec h.waiters hslot
  have hroom := h.room
  have hcount := h.count
  rw [countP_cons, granted_eq hslot] at hcount
  unfold unregisterSenderWaiter
  generalize c.senderWaiters.unregister key = result at hresult hsound hmap
  obtain ⟨released, waiters⟩ := result
  subst hresult
  cases hreserved : slot.reserved with
  | false =>
    refine ⟨h.remove hbusy hslot hsound hmap (by simp [hreserved]) hroom id, ?_⟩
    rintro hprogress hopen ⟨other, found, hfound, hq⟩
    refine hprogress hopen ⟨other, found, ?_, hq⟩
    have hfound : update c.senderWaiters.slot? key none other = some found := hmap ▸ hfound
    by_cases heq : other = key
    · rw [heq, update_self] at hfound
      cases hfound
    · rwa [update_of_ne heq] at hfound
  | true =>
    rw [hreserved, if_pos rfl] at hcount
    have hcore : Core { c with senderWaiters := waiters, reservedSlots := c.reservedSlots - 1 }
        rest none := by
      refine h.remove hbusy hslot hsound hmap ?_ ?_ id
      · simp only [hreserved, Bool.toNat_true]
        omega
      · show c.buffer.length + (c.reservedSlots - 1) ≤ c.capacity
        omega
    exact ⟨hcore.grant.1, fun _ => hcore.grant.2⟩

end

/-- The keys of the other futures, once a future has let go of its own. -/
theorem Core.unregisterKey {own : Option SenderWaiterKey} (h : Core c (own.toList ++ rest) busy)
    (hbusy : ∀ other, own ≠ some other → busy ≠ some other) :
    Core (c.unregisterKey own).1 rest none ∧ (Progress c → Progress (c.unregisterKey own).1) := by
  cases own with
  | none =>
    have hnone : busy = none := by
      cases busy with
      | none => rfl
      | some other => exact absurd rfl (hbusy other nofun)
    subst hnone
    exact ⟨h, id⟩
  | some key =>
    refine Core.unregister h fun other hne => hbusy other ?_
    rintro ⟨⟩
    exact hne rfl

/-! ## What the operations leave alone -/

/-- Everything but the buffer, the waiters, the reserved places and the receiver's waker. -/
structure Frame (c c' : ChannelState T W) : Prop where
  capacity : c'.capacity = c.capacity
  isClosed : c'.isClosed = c.isClosed
  senders : c'.senders = c.senders
  hasReceiver : c'.hasReceiver = c.hasReceiver

theorem Frame.refl (c : ChannelState T W) : Frame c c := ⟨rfl, rfl, rfl, rfl⟩

theorem Frame.trans {c'' : ChannelState T W} (h : Frame c c') (h' : Frame c' c'') : Frame c c'' :=
  ⟨h'.1.trans h.1, h'.2.trans h.2, h'.3.trans h.3, h'.4.trans h.4⟩

theorem grant_frame (c : ChannelState T W) : Frame c c.grantOneSenderWaiter.1 ∧
    c.grantOneSenderWaiter.1.buffer = c.buffer := by
  unfold grantOneSenderWaiter
  split
  · exact ⟨.refl c, rfl⟩
  · split <;> exact ⟨⟨rfl, rfl, rfl, rfl⟩, rfl⟩

theorem unregisterKey_frame (c : ChannelState T W) (own : Option SenderWaiterKey) :
    Frame c (c.unregisterKey own).1 ∧ (c.unregisterKey own).1.buffer = c.buffer := by
  cases own with
  | none => exact ⟨.refl c, rfl⟩
  | some key =>
    show Frame c (c.unregisterSenderWaiter key).1 ∧ (c.unregisterSenderWaiter key).1.buffer = _
    unfold unregisterSenderWaiter
    split
    · exact ⟨⟨rfl, rfl, rfl, rfl⟩, rfl⟩
    · rename_i waiters _
      obtain ⟨hframe, hbuffer⟩ := grant_frame
        { c with senderWaiters := waiters, reservedSlots := c.reservedSlots - 1 }
      exact ⟨{ hframe with }, hbuffer⟩

theorem takeGrant_frame (c : ChannelState T W) (own : Option SenderWaiterKey) :
    Frame c (c.takeGrant own).2 ∧ (c.takeGrant own).2.buffer = c.buffer := by
  cases own with
  | none => exact ⟨.refl c, rfl⟩
  | some key =>
    show Frame c (c.consumeReservation key).2 ∧ (c.consumeReservation key).2.buffer = _
    unfold consumeReservation
    split <;> exact ⟨⟨rfl, rfl, rfl, rfl⟩, rfl⟩

theorem completeSend_frame (c : ChannelState T W) (value : T) (own : Option SenderWaiterKey) :
    Frame c (c.completeSend value own).1 ∧
      (c.completeSend value own).1.buffer = c.buffer ++ [value] := by
  obtain ⟨hframe, hbuffer⟩ := unregisterKey_frame { c with buffer := c.buffer ++ [value] } own
  unfold completeSend wakeReceiver
  dsimp only
  split
  · obtain ⟨hgrant, hsame⟩ :=
      grant_frame ({ c with buffer := c.buffer ++ [value] }.unregisterKey own).1
    have hall := hframe.trans hgrant
    exact ⟨{ hall with }, hsame.trans hbuffer⟩
  · exact ⟨{ hframe with }, hbuffer⟩

/-! ## Polling a send -/

variable {own : Option SenderWaiterKey}

/-- The polled future has used up its grant, if it had one, and the place is free for its value. -/
theorem Core.takeGrant (h : Core c (own.toList ++ rest) none) :
    Core (c.takeGrant own).2 (own.toList ++ rest) own ∧
      ((c.takeGrant own).1 = true →
        (c.takeGrant own).2.buffer.length + (c.takeGrant own).2.reservedSlots <
          (c.takeGrant own).2.capacity) ∧
      ∀ key, own = some key → (c.takeGrant own).2.senderWaiters.granted key = false := by
  cases own with
  | none => exact ⟨h, nofun, nofun⟩
  | some key =>
    obtain ⟨slot, hslot⟩ := h.exists_slot (mem_append_left rest (mem_singleton_self key))
    obtain ⟨hresult, hsound, hmap⟩ := consumeReservation_spec h.waiters hslot
    have hroom := h.room
    have hcount := h.count
    rw [toList_some, singleton_append, countP_cons, granted_eq hslot] at hcount
    have htake : c.takeGrant (some key) = c.consumeReservation key := rfl
    rw [htake]
    unfold consumeReservation
    generalize c.senderWaiters.consumeReservation key = result at hresult hsound hmap
    obtain ⟨consumed, waiters⟩ := result
    subst hresult
    have hgranted : waiters.granted key = false := by
      rw [granted_update hmap, update_self]
      rfl
    have hown : ∀ key', some key = some key' → waiters.granted key' = false := by
      rintro key' ⟨⟩
      exact hgranted
    cases hreserved : slot.reserved with
    | false =>
      refine ⟨h.put hslot hsound hmap ?_ hroom id (fun _ _ _ => nofun) (absurd rfl), nofun, hown⟩
      simp [hreserved]
    | true =>
      rw [hreserved, if_pos rfl] at hcount
      refine ⟨h.put hslot hsound hmap ?_ ?_ id (fun _ _ _ => nofun) (absurd rfl), fun _ => ?_, hown⟩
      · simp only [hreserved, Bool.toNat_true, Bool.toNat_false]
        omega
      · show c.buffer.length + (c.reservedSlots - 1) ≤ c.capacity
        omega
      · show c.buffer.length + (c.reservedSlots - 1) < c.capacity
        omega

/-- A future that completes: its place is taken by its value, and if no grant is left outstanding
the next one is made. -/
theorem Core.completeSend (h : Core c (own.toList ++ rest) own)
    (hroom : c.buffer.length + c.reservedSlots < c.capacity) (value : T) :
    Core (c.completeSend value own).1 rest none ∧ Progress (c.completeSend value own).1 := by
  have hpush : Core { c with buffer := c.buffer ++ [value] } (own.toList ++ rest) own := by
    refine h.frame rfl rfl ?_ id
    simp only [length_append, length_singleton]
    omega
  have hcore := (hpush.unregisterKey fun _ hne => hne).1
  unfold ChannelState.completeSend wakeReceiver
  dsimp only
  split
  · obtain ⟨hgrant, hprogress⟩ := hcore.grant
    exact ⟨hgrant.frame rfl rfl hgrant.room id, hprogress⟩
  · rename_i hleft
    exact ⟨hcore.frame rfl rfl hcore.room id, fun _ _ => .inr (Nat.pos_of_ne_zero hleft)⟩

/-- A full channel makes progress when somebody takes from it. -/
theorem Core.progress_of_full (h : Core c held busy)
    (hfull : c.capacity ≤ c.buffer.length + c.reservedSlots) : Progress c := by
  intro _ _
  have hroom := h.room
  omega

/-- A future that starts to wait. -/
theorem Core.add (h : Core c rest none) (hnew : c.senderWaiters.slot? key = none)
    {waiters : SenderWaiters W} (hsound : waiters.Sound) (hqueued : slot.queued = true)
    (hreserved : slot.reserved = false)
    (hmap : waiters.slot? = update c.senderWaiters.slot? key (some slot)) :
    Core { c with senderWaiters := waiters } (key :: rest) none := by
  have hnot : key ∉ rest := by
    rw [h.valid, hnew]
    exact nofun
  refine ⟨hsound, nodup_cons.mpr ⟨hnot, h.once⟩, fun other => ?_, ?_, h.room, ?_⟩
  · rw [hmap]
    by_cases heq : other = key
    · subst heq
      simp
    · rw [update_of_ne heq, ← h.valid, mem_cons, or_iff_right heq]
  · rw [granted_update hmap, countP_cons, countP_update_of_not_mem hnot, update_self, h.count]
    simp [hreserved]
  · intro hopen other found _ hfound
    replace hfound : update c.senderWaiters.slot? key (some slot) other = some found :=
      hmap ▸ hfound
    by_cases heq : other = key
    · rw [heq, update_self, some.injEq] at hfound
      exact .inl (hfound ▸ hqueued)
    · rw [update_of_ne heq] at hfound
      exact h.waits hopen other found nofun hfound

theorem Core.register (h : Core c (own.toList ++ rest) own)
    (hown : ∀ key, own = some key → c.senderWaiters.granted key = false) (waker : W) :
    Core { c with senderWaiters := (c.senderWaiters.registerOrRefresh own waker).2 }
      ((c.senderWaiters.registerOrRefresh own waker).1 :: rest) none := by
  cases own with
  | none =>
    obtain ⟨key, waiters, heq, hnew, hsound, hmap⟩ := register_spec h.waiters waker
    rw [heq]
    exact Core.add h hnew hsound rfl rfl hmap
  | some key =>
    obtain ⟨slot, hslot⟩ := h.exists_slot (mem_append_left rest (mem_singleton_self key))
    have hreserved : slot.reserved = false := (granted_eq hslot).symm.trans (hown key rfl)
    obtain ⟨hkey, hsound, hmap⟩ := refresh_spec h.waiters hslot hreserved waker
    rw [hkey]
    refine h.put hslot hsound hmap rfl h.room id (fun other hne _ => ?_) fun _ => .inl rfl
    rintro ⟨⟩
    exact hne rfl

/-- What a poll of a send can do. -/
inductive Polled (c : ChannelState T W) (future : SendFuture T) :
    Poll (Except (SendError T) Unit) × SendFuture T × Woken (ChannelState T W) W → Prop
  | panicked (done : future.value = none) : Polled c future (.panicked, future, c, [])
  | closed (value : T) (c' : ChannelState T W) (woken : List W)
      (offered : future.value = some value) (same : c'.buffer = c.buffer) :
      Polled c future (.ready (.error (.closed value)), ⟨none, none⟩, c', woken)
  | pending (value : T) (key : SenderWaiterKey) (c' : ChannelState T W) (woken : List W)
      (offered : future.value = some value) (same : c'.buffer = c.buffer) :
      Polled c future (.pending, ⟨some value, some key⟩, c', woken)
  | accepted (value : T) (c' : ChannelState T W) (woken : List W)
      (offered : future.value = some value) (push : c'.buffer = c.buffer ++ [value]) :
      Polled c future (.ready (.ok ()), ⟨none, none⟩, c', woken)

/-- **A poll keeps the channel's invariant and its progress**, whether it was woken or not. -/
theorem pollSend_spec {future : SendFuture T}
    (h : Core c (future.waiterKey.toList ++ rest) none) (hprogress : Progress c) (waker : W) :
    Polled c future (c.pollSend future waker) ∧
      Frame c (c.pollSend future waker).2.2.1 ∧
      Core (c.pollSend future waker).2.2.1
        ((c.pollSend future waker).2.1.waiterKey.toList ++ rest) none ∧
      Progress (c.pollSend future waker).2.2.1 := by
  obtain ⟨value?, own⟩ := future
  cases value? with
  | none => exact ⟨.panicked rfl, .refl c, h, hprogress⟩
  | some value =>
    unfold pollSend
    dsimp only at h ⊢
    split
    · obtain ⟨hframe, hbuffer⟩ := unregisterKey_frame c own
      obtain ⟨hcore, hkept⟩ := h.unregisterKey fun _ _ => nofun
      exact ⟨.closed value _ _ rfl hbuffer, hframe, hcore, hkept hprogress⟩
    · obtain ⟨hframe, hbuffer⟩ := takeGrant_frame c own
      obtain ⟨hcore, hgranted, hown⟩ := h.takeGrant
      generalize c.takeGrant own = taken at hframe hbuffer hcore hgranted hown
      obtain ⟨owns, c₁⟩ := taken
      split
      · rename_i hfull
        obtain ⟨_, hfull⟩ := Bool.and_eq_true_iff.mp hfull
        have hregistered := hcore.register hown waker
        exact ⟨.pending value _ _ _ rfl hbuffer, { hframe with },
          hregistered, hregistered.progress_of_full (of_decide_eq_true hfull)⟩
      · rename_i hplace
        have hroom : c₁.buffer.length + c₁.reservedSlots < c₁.capacity := by
          cases howns : owns with
          | true => exact hgranted howns
          | false => simpa [howns] using hplace
        obtain ⟨hcomplete, hpush⟩ := completeSend_frame c₁ value own
        obtain ⟨hdone, hprogress⟩ := hcore.completeSend hroom value
        exact ⟨.accepted value _ _ rfl (hpush.trans (hbuffer ▸ rfl)), hframe.trans hcomplete,
          hdone, hprogress⟩

/-! ## The other operations -/

theorem Progress.frame (h : Progress c) (hwaiters : c'.senderWaiters = c.senderWaiters)
    (hreserved : c'.reservedSlots = c.reservedSlots) (hcapacity : c'.capacity = c.capacity)
    (hbuffer : c'.buffer = c.buffer) (hclosed : c'.isClosed = false → c.isClosed = false) :
    Progress c' := by
  intro hopen hqueued
  rw [hwaiters] at hqueued
  rw [hreserved, hcapacity, hbuffer]
  exact h (hclosed hopen) hqueued

/-- Once the channel is closed nobody waits for a place. -/
theorem progress_of_closed (h : c.isClosed = true) : Progress c := by
  intro hopen
  rw [h] at hopen
  cases hopen

section

variable (h : Core c held none)

include h

theorem Core.wakeAll (hclosed : c.isClosed = true) :
    Core c.wakeAllSenderWaiters.1 held none ∧ Progress c.wakeAllSenderWaiters.1 := by
  obtain ⟨hsound, hsame⟩ := wakeAll_spec h.waiters
  refine ⟨⟨hsound, h.once, fun key => ?_, ?_, h.room, fun hopen => ?_⟩, progress_of_closed hclosed⟩
  · have hkey := congrArg isSome (hsame key)
    rw [isSome_map, isSome_map] at hkey
    exact (h.valid key).trans (by rw [← hkey]; rfl)
  · refine h.count.trans (countP_congr fun key _ => ?_)
    have hkey := congrArg (Option.any id) (hsame key)
    rw [Option.any_map, Option.any_map] at hkey
    exact (iff_of_eq (congrArg (· = true) hkey)).symm
  · exact absurd (hclosed.symm.trans hopen) nofun

theorem close_spec :
    Core c.close.1 held none ∧ Progress c.close.1 ∧ c.close.1.buffer = c.buffer ∧
      c.close.1.senders = c.senders := by
  have hclosed : Core { c with isClosed := true, receiverWaker := none } held none :=
    h.frame rfl rfl h.room nofun
  exact ⟨(hclosed.wakeAll rfl).1, (hclosed.wakeAll rfl).2, rfl, rfl⟩

theorem dropReceiver_spec :
    Core c.dropReceiver.1 held none ∧ Progress c.dropReceiver.1 ∧
      c.dropReceiver.1.buffer = c.buffer ∧ c.dropReceiver.1.senders = c.senders := by
  have hclosed : Core { c with hasReceiver := false, isClosed := true } held none :=
    h.frame rfl rfl h.room nofun
  exact ⟨(hclosed.wakeAll rfl).1, (hclosed.wakeAll rfl).2, rfl, rfl⟩

theorem dropSender_spec (hprogress : Progress c) :
    Core c.dropSender.1 held none ∧ Progress c.dropSender.1 ∧ c.dropSender.1.buffer = c.buffer ∧
      c.dropSender.1.senders = c.senders - 1 := by
  unfold dropSender wakeReceiver
  dsimp only
  split
  · exact ⟨h.frame rfl rfl h.room nofun, progress_of_closed rfl, rfl, rfl⟩
  · exact ⟨h.frame rfl rfl h.room id, hprogress.frame rfl rfl rfl rfl id, rfl, rfl⟩

end

theorem dropSender_capacity (c : ChannelState T W) : c.dropSender.1.capacity = c.capacity := by
  unfold dropSender
  dsimp only
  split <;> rfl

/-- What an immediate send can do. -/
inductive Sent (c : ChannelState T W) (value : T) :
    Except (SendError T) Unit × Woken (ChannelState T W) W → Prop
  | closed : Sent c value (.error (.closed value), c, [])
  | full : Sent c value (.error (.full value), c, [])
  | accepted (c' : ChannelState T W) (woken : List W) (push : c'.buffer = c.buffer ++ [value])
      (frame : Frame c c') : Sent c value (.ok (), c', woken)

theorem send_cases (c : ChannelState T W) (value : T) : Sent c value (c.send value) := by
  unfold send
  split
  · exact .closed
  · split
    · exact .full
    · exact .accepted _ _ rfl ⟨rfl, rfl, rfl, rfl⟩

theorem send_spec (h : Core c held none) (hprogress : Progress c) (value : T) :
    Core (c.send value).2.1 held none ∧ Progress (c.send value).2.1 := by
  unfold send
  split
  · exact ⟨h, hprogress⟩
  · split
    · exact ⟨h, hprogress⟩
    · refine ⟨h.frame rfl rfl ?_ id, ?_⟩
      · simp only [wakeReceiver, length_append, length_singleton]
        omega
      · -- The buffer was not full, so whoever waits waits behind a grant.
        intro hopen hqueued
        rcases hprogress hopen hqueued with hfull | hgranted
        · omega
        · exact .inr hgranted

/-- What a receive can do. -/
inductive Received (c : ChannelState T W) : Except RecvError T × Woken (ChannelState T W) W → Prop
  | value (value : T) (c' : ChannelState T W) (woken : List W) (pop : c.buffer = value :: c'.buffer)
      (frame : Frame c c') : Received c (.ok value, c', woken)
  | nothing (error : RecvError) : Received c (.error error, c, [])

theorem tryRecv_spec (h : Core c held none) (hprogress : Progress c) :
    Received c c.tryRecv ∧ Core c.tryRecv.2.1 held none ∧ Progress c.tryRecv.2.1 := by
  unfold tryRecv
  split
  · rename_i value buffer hbuffer
    have hroom := h.room
    rw [hbuffer, length_cons] at hroom
    have hpop : Core { c with buffer } held none := by
      refine h.frame rfl rfl ?_ id
      show buffer.length + c.reservedSlots ≤ c.capacity
      omega
    dsimp only
    split
    · obtain ⟨hframe, hsame⟩ := grant_frame { c with buffer }
      refine ⟨.value value _ _ (hbuffer.trans (congrArg _ hsame.symm)) ?_, hpop.grant.1,
        hpop.grant.2⟩
      exact { hframe with }
    · rename_i hmore
      refine ⟨.value value _ _ hbuffer ⟨rfl, rfl, rfl, rfl⟩, hpop, ?_⟩
      -- A receive from a full buffer grants a place, so the buffer was not full.
      intro hopen hqueued
      simp only [Bool.or_eq_true, decide_eq_true_eq, not_or] at hmore
      rcases hprogress hopen hqueued with hfull | hgranted
      · rw [hbuffer, length_cons] at hfull
        exact absurd (Nat.eq_sub_of_add_eq hfull) hmore.1
      · exact .inr hgranted
  · split
    · exact ⟨.nothing .closed, h, hprogress⟩
    · exact ⟨.nothing .empty, h, hprogress⟩

end ChannelState

/-! # The channel among its users

The users hold sender handles, send futures and the receiver, and call their operations in any
order: a future can be polled without having been woken and dropped at any time.  Every value gets a
number when it is handed to the channel, so that equal values are told apart, and the books say what
became of it: accepted, handed back with an error, cancelled with its future, or still waiting in
one.

**The channel is safe and makes progress** (`System.run_safe`, in `Safety`) in every run from a new
channel. -/

variable {V W : Type}

/-- A value with the number of its submission. -/
abbrev Item (V : Type) := V × Nat

structure System (V W : Type) where
  chan : ChannelState (Item V) W
  /-- The sender handles that users hold; a send future holds one more of its own. -/
  handles : Nat
  /-- Send futures by the order of their creation; a dropped one is `none`. -/
  futures : List (Option (SendFuture (Item V)))
  submitted : List (Item V)
  accepted : List (Item V)
  received : List (Item V)
  returned : List (Item V)
  cancelled : List (Item V)

inductive Op (V W : Type)
  | send (value : V)
  | sendAsync (value : V) (waker : W)
  | createFuture (value : V)
  | poll (future : Nat) (waker : W)
  | dropFuture (future : Nat)
  | cloneSender
  | dropSender
  | tryRecv
  | pollRecv (waker : W)
  | close
  | dropReceiver

namespace System

def new (capacity : Nat) : System V W := ⟨.new capacity, 1, [], [], [], [], [], []⟩

variable (s : System V W)

def label (value : V) : Item V := (value, s.submitted.length)

def submit (item : Item V) : System V W :=
  { s with submitted := s.submitted ++ [item] }

/-- Enter the answer to a send into the books. -/
def settle (offered : Option (Item V)) :
    Poll (Except (SendError (Item V)) Unit) → System V W
  | .ready (.ok ()) => { s with accepted := s.accepted ++ offered.toList }
  | .ready (.error (.closed item)) => { s with returned := s.returned ++ [item] }
  | .ready (.error (.full item)) => { s with returned := s.returned ++ [item] }
  | .pending => s
  | .panicked => s

/-- Enter the answer to a receive into the books. -/
def take : Except RecvError (Item V) → System V W
  | .ok item => { s with received := s.received ++ [item] }
  | .error _ => s

def future? (i : Nat) : Option (SendFuture (Item V)) := s.futures[i]?.join

/-- One operation.  A sender's operation needs a handle, a receiver's the receiver; an operation
on what is no longer there is not possible and changes nothing. -/
def step : Op V W → System V W × List W
  | .send value =>
    if s.handles = 0 then (s, [])
    else
      let item := s.label value
      let sent := s.chan.send item
      ({ s.submit item with chan := sent.2.1 }.settle (some item) (.ready sent.1), sent.2.2)
  | .sendAsync value waker =>
    if s.handles = 0 then (s, [])
    else
      let item := s.label value
      let sent := s.chan.sendAsync item waker
      ({ s.submit item with
          chan := sent.2.2.1
          futures := s.futures ++ (sent.2.1.map some).toList }.settle (some item) sent.1,
        sent.2.2.2)
  | .createFuture value =>
    if s.handles = 0 then (s, [])
    else
      let item := s.label value
      ({ s.submit item with
          chan := s.chan.cloneSender
          futures := s.futures ++ [some ⟨some item, none⟩] }, [])
  | .poll i waker =>
    match s.future? i with
    | none => (s, [])
    | some future =>
      let polled := s.chan.pollSend future waker
      ({ s with
          chan := polled.2.2.1
          futures := s.futures.set i (some polled.2.1) }.settle future.value polled.1,
        polled.2.2.2)
  | .dropFuture i =>
    match s.future? i with
    | none => (s, [])
    | some future =>
      let dropped := s.chan.dropFuture future
      ({ s with
          chan := dropped.1
          futures := s.futures.set i none
          cancelled := s.cancelled ++ future.value.toList }, dropped.2)
  | .cloneSender =>
    if s.handles = 0 then (s, [])
    else ({ s with chan := s.chan.cloneSender, handles := s.handles + 1 }, [])
  | .dropSender =>
    if s.handles = 0 then (s, [])
    else ({ s with chan := s.chan.dropSender.1, handles := s.handles - 1 }, s.chan.dropSender.2)
  | .tryRecv =>
    if s.chan.hasReceiver then
      let received := s.chan.tryRecv
      ({ s with chan := received.2.1 }.take received.1, received.2.2)
    else (s, [])
  | .pollRecv waker =>
    if s.chan.hasReceiver then
      let received := s.chan.pollRecv waker
      match received.1 with
      | .ready result => ({ s with chan := received.2.1 }.take result, received.2.2)
      | _ => ({ s with chan := received.2.1 }, received.2.2)
    else (s, [])
  | .close =>
    if s.handles = 0 then (s, []) else ({ s with chan := s.chan.close.1 }, s.chan.close.2)
  | .dropReceiver =>
    if s.chan.hasReceiver then ({ s with chan := s.chan.dropReceiver.1 }, s.chan.dropReceiver.2)
    else (s, [])

/-! ## What the users rely on -/

/-- The future holds a grant that it has not used. -/
def granted (future : SendFuture (Item V)) : Bool :=
  future.waiterKey.any s.chan.senderWaiters.granted

/-- What waits in futures. -/
def waiting : List (Item V) := s.futures.filterMap (·.bind (·.value))

end System

/-! # Safety and progress of every run

The invariant ties the channel to the futures that are alive and to the books.  One lemma for each
operation says that it is kept; an asynchronous send is an immediate one, or else the creation of a
future and its first poll. -/

namespace System

open ChannelState List Option

variable {V W : Type} {s : System V W} {capacity : Nat}

/-- The keys of the futures that are alive. -/
def held (s : System V W) : List SenderWaiterKey := s.futures.filterMap (·.bind (·.waiterKey))

structure Inv (capacity : Nat) (s : System V W) : Prop where
  core : Core s.chan s.held none
  progress : Progress s.chan
  capacity : s.chan.capacity = capacity
  order : s.received ++ s.chan.buffer = s.accepted
  numbered : s.submitted.map Prod.snd = range s.submitted.length
  settled : (s.accepted ++ s.returned ++ s.cancelled ++ s.waiting).Perm s.submitted
  /-- Every handle and every future is a sender. -/
  senders : s.chan.senders = s.handles + s.futures.countP isSome

section

variable {α β : Type} {g : α → Option β} {l : List (Option α)}

theorem exists_split {i : Nat} {a : α} (h : l[i]?.join = some a) :
    ∃ l₁ l₂, l = l₁ ++ some a :: l₂ ∧ ∀ b, l.set i b = l₁ ++ b :: l₂ := by
  obtain ⟨hlt, hget⟩ := List.getElem?_eq_some_iff.mp (join_eq_some_iff.mp h)
  refine ⟨l.take i, l.drop (i + 1), ?_, fun b => ?_⟩
  · rw [← hget, getElem_cons_drop, take_append_drop]
  · rw [set_eq_take_append_cons_drop, if_pos hlt]

/-- What one future contributes can be listed first. -/
theorem filterMap_middle (l₁ l₂ : List (Option α)) (x : Option α) :
    ((l₁ ++ x :: l₂).filterMap (·.bind g)).Perm
      ((x.bind g).toList ++ (l₁ ++ l₂).filterMap (·.bind g)) := by
  rw [filterMap_append, filterMap_append, ← append_assoc]
  have hcons : (x :: l₂).filterMap (·.bind g) = (x.bind g).toList ++ l₂.filterMap (·.bind g) := by
    cases h : x.bind g <;> simp [h]
  rw [hcons, ← append_assoc]
  exact perm_append_comm.append_right _

/-- A future is replaced: what it contributed has moved to or from the settled values. -/
theorem settled_set {done done' submitted : List β} {l₁ l₂ : List (Option α)} {x x' : Option α}
    (h : (done ++ (l₁ ++ x :: l₂).filterMap (·.bind g)).Perm submitted)
    (hmove : (done' ++ (x'.bind g).toList).Perm (done ++ (x.bind g).toList)) :
    (done' ++ (l₁ ++ x' :: l₂).filterMap (·.bind g)).Perm submitted := by
  refine List.Perm.trans ?_ h
  refine ((filterMap_middle l₁ l₂ x').append_left done').trans ?_
  refine List.Perm.trans ?_ ((filterMap_middle l₁ l₂ x).append_left done).symm
  rw [← append_assoc, ← append_assoc]
  exact hmove.append_right _

end

section

variable {α : Type} (accepted returned cancelled items : List α)

theorem perm_accepted : (accepted ++ items ++ returned ++ cancelled).Perm
    (accepted ++ returned ++ cancelled ++ items) := by
  simp only [append_assoc]
  refine List.Perm.append_left accepted ?_
  rw [← append_assoc returned]
  exact perm_append_comm

theorem perm_returned : (accepted ++ (returned ++ items) ++ cancelled).Perm
    (accepted ++ returned ++ cancelled ++ items) := by
  simp only [append_assoc]
  exact (perm_append_comm.append_left returned).append_left accepted

end

theorem numbered_submit (h : s.submitted.map Prod.snd = range s.submitted.length) (value : V) :
    (s.submitted ++ [s.label value]).map Prod.snd =
      range (s.submitted ++ [s.label value]).length := by
  rw [map_append, h, length_append, length_singleton, range_succ]
  rfl

/-- A value that is settled as soon as it is submitted. -/
theorem settled_submit {done done' waiting submitted items : List (Item V)}
    (h : (done ++ waiting).Perm submitted) (hmove : done'.Perm (done ++ items)) :
    (done' ++ waiting).Perm (submitted ++ items) := by
  refine (hmove.append_right waiting).trans ?_
  rw [append_assoc]
  refine (perm_append_comm.append_left done).trans ?_
  rw [← append_assoc]
  exact h.append_right items

/-! ## The operations -/

section

variable (h : Inv capacity s)

include h

/-- Operations that touch neither the futures nor the books. -/
theorem Inv.onChan {chan : ChannelState (Item V) W} {handles : Nat}
    (hcore : Core chan s.held none) (hprogress : Progress chan)
    (hcapacity : chan.capacity = s.chan.capacity) (hbuffer : chan.buffer = s.chan.buffer)
    (hsenders : chan.senders = handles + s.futures.countP isSome) :
    Inv capacity { s with chan, handles } where
  core := hcore
  progress := hprogress
  capacity := hcapacity.trans h.capacity
  order := by
    rw [hbuffer, h.order]
  numbered := h.numbered
  settled := h.settled
  senders := hsenders

theorem Inv.send (value : V) : Inv capacity (s.step (.send value)).1 := by
  unfold step
  dsimp only
  split
  · exact h
  · have hsent := send_cases s.chan (s.label value)
    obtain ⟨hcore, hprogress⟩ := send_spec h.core h.progress (s.label value)
    have hnumbered := numbered_submit h.numbered value
    generalize s.chan.send (s.label value) = sent at hsent hcore hprogress
    cases hsent with
    | closed | full =>
      refine ⟨hcore, hprogress, h.capacity, h.order, hnumbered, ?_, h.senders⟩
      exact settled_submit h.settled (perm_returned _ _ _ _)
    | accepted c' woken push frame =>
      refine ⟨hcore, hprogress, frame.capacity.trans h.capacity, ?_, hnumbered, ?_,
        frame.senders.trans h.senders⟩
      · show s.received ++ c'.buffer = s.accepted ++ [s.label value]
        rw [push, ← append_assoc, h.order]
      · exact settled_submit h.settled (perm_accepted _ _ _ _)

theorem Inv.createFuture (value : V) : Inv capacity (s.step (.createFuture value)).1 := by
  unfold step
  dsimp only
  split
  · exact h
  · have hheld : (s.futures ++ [some (SendFuture.mk (some (s.label value)) none)]).filterMap
        (·.bind (·.waiterKey)) = s.held := by
      simp [held]
    refine ⟨?_, h.progress.frame rfl rfl rfl rfl id, h.capacity, h.order,
      numbered_submit h.numbered value, ?_, ?_⟩
    · show Core s.chan.cloneSender (filterMap _ _) none
      rw [hheld]
      exact h.core.frame rfl rfl h.core.room id
    · show (s.accepted ++ s.returned ++ s.cancelled ++ filterMap _ (s.futures ++ _)).Perm
        (s.submitted ++ [s.label value])
      rw [filterMap_append, ← append_assoc]
      exact h.settled.append_right _
    · show s.chan.senders + 1 = s.handles + (s.futures ++ [some _]).countP isSome
      rw [h.senders, countP_append]
      simp [add_assoc]

theorem Inv.poll (i : Nat) (waker : W) : Inv capacity (s.step (.poll i waker)).1 := by
  unfold step
  dsimp only
  split
  · exact h
  · rename_i future hfuture
    obtain ⟨l₁, l₂, hl, hset⟩ := exists_split hfuture
    have hcore := h.core
    have hsettled := h.settled
    have hsenders := h.senders
    unfold held at hcore
    unfold waiting at hsettled
    rw [hl] at hcore hsettled hsenders
    replace hcore := hcore.perm (filterMap_middle l₁ l₂ (some future))
    obtain ⟨hpolled, hframe, hcore', hprogress⟩ := pollSend_spec hcore h.progress waker
    generalize s.chan.pollSend future waker = polled at hpolled hframe hcore' hprogress
    obtain ⟨result, future', c', woken⟩ := polled
    -- The parts that do not depend on what the poll answered.
    have hheld : Core c'
        ((s.futures.set i (some future')).filterMap (·.bind (·.waiterKey))) none := by
      rw [hset]
      exact hcore'.perm (filterMap_middle l₁ l₂ (some future')).symm
    have hcapacity : c'.capacity = capacity := hframe.capacity.trans h.capacity
    have hcount : c'.senders =
        s.handles + (s.futures.set i (some future')).countP isSome := by
      rw [hset, hframe.senders, hsenders]
      simp only [countP_append, countP_cons, isSome_some]
    cases hpolled with
    | panicked done =>
      refine ⟨hheld, hprogress, hcapacity, h.order, h.numbered, ?_, hcount⟩
      rwa [hset]
    | closed value c' woken offered same =>
      refine ⟨hheld, hprogress, hcapacity, ?_, h.numbered, ?_, hcount⟩
      · show s.received ++ c'.buffer = s.accepted
        rw [same, h.order]
      · rw [hset]
        refine settled_set hsettled ?_
        rw [bind_some, bind_some, offered, toList_none, append_nil]
        exact perm_returned _ _ _ _
    | pending value key c' woken offered same =>
      refine ⟨hheld, hprogress, hcapacity, ?_, h.numbered, ?_, hcount⟩
      · show s.received ++ c'.buffer = s.accepted
        rw [same, h.order]
      · show (s.accepted ++ s.returned ++ s.cancelled ++
          filterMap _ (s.futures.set i (some ⟨some value, some key⟩))).Perm s.submitted
        rw [hset]
        refine settled_set hsettled ?_
        rw [bind_some, bind_some, offered]
    | accepted value c' woken offered push =>
      refine ⟨hheld, hprogress, hcapacity, ?_, h.numbered, ?_, hcount⟩
      · show s.received ++ c'.buffer = s.accepted ++ future.value.toList
        rw [push, ← append_assoc, h.order, offered]
        rfl
      · rw [hset]
        refine settled_set hsettled ?_
        rw [bind_some, bind_some, toList_none, append_nil]
        exact perm_accepted _ _ _ _

theorem Inv.dropFuture (i : Nat) : Inv capacity (s.step (.dropFuture i)).1 := by
  unfold step
  dsimp only
  split
  · exact h
  · rename_i future hfuture
    obtain ⟨l₁, l₂, hl, hset⟩ := exists_split hfuture
    have hcore := h.core
    have hsettled := h.settled
    have hsenders := h.senders
    unfold held at hcore
    unfold waiting at hsettled
    rw [hl] at hcore hsettled hsenders
    replace hcore := hcore.perm (filterMap_middle l₁ l₂ (some future))
    rw [bind_some] at hcore
    obtain ⟨hreleased, hkept⟩ := hcore.unregisterKey fun _ _ => nofun
    obtain ⟨hframe, hbuffer⟩ := unregisterKey_frame s.chan future.waiterKey
    obtain ⟨hdropped, hprogress, hsame, hless⟩ := dropSender_spec hreleased (hkept h.progress)
    refine ⟨?_, hprogress, ?_, ?_, h.numbered, ?_, ?_⟩
    · rw [hset]
      exact hdropped.perm (filterMap_middle l₁ l₂ none).symm
    · refine Eq.trans ?_ (hframe.capacity.trans h.capacity)
      exact dropSender_capacity _
    · show s.received ++ (dropSender _).1.buffer = s.accepted
      rw [hsame, hbuffer, h.order]
    · rw [hset]
      refine settled_set hsettled ?_
      rw [bind_none, toList_none, append_nil, ← append_assoc]
      exact .refl _
    · show (dropSender _).1.senders = s.handles + (s.futures.set i none).countP isSome
      rw [hset, hless, hframe.senders, hsenders]
      simp
      omega

/-- Books and channel after a receive. -/
theorem Inv.received :
    Inv capacity ({ s with chan := s.chan.tryRecv.2.1 }.take s.chan.tryRecv.1) := by
  obtain ⟨hreceived, hcore, hprogress⟩ := tryRecv_spec h.core h.progress
  generalize s.chan.tryRecv = result at hreceived hcore hprogress
  cases hreceived with
  | value item c' woken pop frame =>
    refine ⟨hcore, hprogress, frame.capacity.trans h.capacity, ?_, h.numbered, h.settled,
      frame.senders.trans h.senders⟩
    show s.received ++ [item] ++ c'.buffer = s.accepted
    rw [← h.order, pop, append_assoc, singleton_append]
  | nothing error => exact { h with core := hcore, progress := hprogress }

theorem Inv.tryRecv : Inv capacity (s.step .tryRecv).1 := by
  unfold step
  dsimp only
  split
  · exact h.received
  · exact h

theorem Inv.pollRecv (waker : W) : Inv capacity (s.step (.pollRecv waker)).1 := by
  have hreceived := h.received
  unfold step ChannelState.pollRecv
  dsimp only
  split
  · generalize s.chan.tryRecv = result at hreceived
    obtain ⟨answer, c', woken⟩ := result
    cases answer with
    | ok item => exact hreceived
    | error error =>
      cases error with
      | closed => exact hreceived
      | empty =>
        exact hreceived.onChan (hreceived.core.frame rfl rfl hreceived.core.room id)
          (hreceived.progress.frame rfl rfl rfl rfl id) rfl rfl hreceived.senders
  · exact h

end

/-- An asynchronous send is an immediate one, or the creation of a future and its first poll. -/
theorem step_sendAsync (s : System V W) (value : V) (waker : W) :
    (s.step (.sendAsync value waker)).1 = (s.step (.send value)).1 ∨
      (s.step (.sendAsync value waker)).1 =
        ((s.step (.createFuture value)).1.step (.poll s.futures.length waker)).1 := by
  by_cases hhandles : s.handles = 0
  · left
    simp [step, hhandles]
  · have hsent := send_cases s.chan (s.label value)
    simp only [step, hhandles, if_false, ChannelState.sendAsync]
    generalize s.chan.send (s.label value) = sent at hsent
    cases hsent with
    | closed | accepted => exact .inl (by simp [submit])
    | full => exact .inr (by simp [future?, submit, label])

theorem Inv.sendAsync (h : Inv capacity s) (value : V) (waker : W) :
    Inv capacity (s.step (.sendAsync value waker)).1 := by
  rcases step_sendAsync s value waker with heq | heq
  · rw [heq]
    exact h.send value
  · rw [heq]
    exact (h.createFuture value).poll _ waker

/-- **Every operation keeps the invariant.** -/
theorem Inv.step (h : Inv capacity s) (op : Op V W) : Inv capacity (s.step op).1 := by
  cases op with
  | send value => exact h.send value
  | sendAsync value waker => exact h.sendAsync value waker
  | createFuture value => exact h.createFuture value
  | poll i waker => exact h.poll i waker
  | dropFuture i => exact h.dropFuture i
  | tryRecv => exact h.tryRecv
  | pollRecv waker => exact h.pollRecv waker
  | cloneSender =>
    unfold System.step
    dsimp only
    split
    · exact h
    · refine h.onChan (h.core.frame rfl rfl h.core.room id)
        (h.progress.frame rfl rfl rfl rfl id) rfl rfl ?_
      show s.chan.senders + 1 = s.handles + 1 + _
      rw [h.senders]
      omega
  | dropSender =>
    unfold System.step
    dsimp only
    split
    · exact h
    · obtain ⟨hcore, hprogress, hbuffer, hsenders⟩ := dropSender_spec h.core h.progress
      refine h.onChan hcore hprogress (dropSender_capacity _) hbuffer ?_
      rw [hsenders, h.senders]
      omega
  | close =>
    unfold System.step
    dsimp only
    split
    · exact h
    · obtain ⟨hcore, hprogress, hbuffer, hsenders⟩ := close_spec h.core
      exact h.onChan hcore hprogress rfl hbuffer (hsenders.trans h.senders)
  | dropReceiver =>
    unfold System.step
    dsimp only
    split
    · obtain ⟨hcore, hprogress, hbuffer, hsenders⟩ := dropReceiver_spec h.core
      exact h.onChan hcore hprogress rfl hbuffer (hsenders.trans h.senders)
    · exact h

/-! ## Runs -/

end System

end OtapDataflow.LocalChannel
