import OtapDataflow.LocalChannel.Mpsc

/-! # The waiting futures as a map

Only valid keys matter: `slot?` is the map from them to their slots, and every operation on the
waiters changes it at one key.  What the queue holds besides is stale.  A recycled generation number
can make a stale entry valid again; nothing below depends on its not doing so. -/

namespace OtapDataflow.LocalChannel.SenderWaiters

open List Function SenderWaiters

variable {W : Type} {w : SenderWaiters W} {key key' : SenderWaiterKey}
  {slot slot' : SenderWaiterSlot W}

theorem slot?_eq_some : w.slot? key = some slot ↔
    w.slots[key.index]? = some slot ∧ slot.inUse = true ∧ slot.generation = key.generation := by
  simp [slot?, Option.filter_eq_some_iff]

/-- A slot has one valid key. -/
theorem key_unique (h : w.slot? key = some slot) (h' : w.slot? key' = some slot')
    (hindex : key.index = key'.index) : key = key' := by
  rw [slot?_eq_some] at h h'
  rw [hindex] at h
  cases key
  cases key'
  simp_all

/-- Writing the slot at an index where no other key is valid changes the map at one key. -/
theorem slot?_set (key : SenderWaiterKey) (slot' : SenderWaiterSlot W)
    (hbound : key.index < w.slots.length) (hgeneration : slot'.generation = key.generation)
    (halone : ∀ other, other.index = key.index → other ≠ key → w.slot? other = none)
    (queue : List SenderWaiterKey) (free : List Nat) (next : Nat) :
    (mk queue (w.slots.set key.index slot') free next).slot? =
      update w.slot? key (if slot'.inUse then some slot' else none) := by
  funext other
  by_cases heq : other = key
  · subst heq
    simp only [slot?, getElem?_set_self hbound, Option.filter, hgeneration]
    simp
  · rw [update_of_ne heq]
    by_cases hindex : other.index = key.index
    · rw [halone other hindex heq]
      have hne : slot'.generation ≠ other.generation := by
        intro h
        cases other
        simp_all
      simp only [slot?, hindex, getElem?_set_self hbound, Option.filter]
      simp [hne]
    · simp [slot?, getElem?_set_ne (Ne.symm hindex)]

section

variable (h : w.slot? key = some slot)

include h

theorem alone (other : SenderWaiterKey)
    (hindex : other.index = key.index) (hne : other ≠ key) : w.slot? other = none := by
  cases hother : w.slot? other with
  | none => rfl
  | some slot' => exact absurd (key_unique hother h hindex) hne

theorem index_lt : key.index < w.slots.length :=
  (List.getElem?_eq_some_iff.mp (slot?_eq_some.mp h).1).1

/-- Writing the slot of a valid key. -/
theorem slot?_put (slot' : SenderWaiterSlot W)
    (hgeneration : slot'.generation = slot.generation) (queue : List SenderWaiterKey)
    (free : List Nat) (next : Nat) :
    (mk queue (w.slots.set key.index slot') free next).slot? =
      update w.slot? key (if slot'.inUse then some slot' else none) :=
  slot?_set key slot' (index_lt h) (hgeneration.trans (slot?_eq_some.mp h).2.2) (alone h)
    queue free next

theorem slot?_put_inUse (slot' : SenderWaiterSlot W)
    (hgeneration : slot'.generation = slot.generation) (huse : slot'.inUse = slot.inUse)
    (queue : List SenderWaiterKey) (free : List Nat) (next : Nat) :
    (mk queue (w.slots.set key.index slot') free next).slot? =
      update w.slot? key (some slot') := by
  rw [slot?_put h slot' hgeneration, if_pos (huse.trans (slot?_eq_some.mp h).2.1)]

end

/-! ## The invariant -/

structure Sound (w : SenderWaiters W) : Prop where
  /-- A free slot exists and no key is valid for it. -/
  free : ∀ index ∈ w.freeSlots, index < w.slots.length ∧ ∀ g, w.slot? ⟨index, g⟩ = none
  freeOnce : w.freeSlots.Nodup
  /-- A future marked as queued is found by a grant and can be woken. -/
  queued : ∀ key slot, w.slot? key = some slot → slot.queued = true →
    slot.reserved = false ∧ slot.waker.isSome = true ∧ key ∈ w.queue

/-- Changing one slot keeps the invariant if the slot stays findable and no free index is taken. -/
theorem Sound.update {w' : SenderWaiters W} (hw : w.Sound) (h : w.slot? key = some slot)
    (hmap : w'.slot? = update w.slot? key (some slot'))
    (hlength : w'.slots.length = w.slots.length) (hfree : w'.freeSlots = w.freeSlots)
    (hqueue : ∀ other slot, other ≠ key → w.slot? other = some slot → slot.queued = true →
      other ∈ w.queue → other ∈ w'.queue) (hqueued : slot'.queued = true →
      slot'.reserved = false ∧ slot'.waker.isSome = true ∧ key ∈ w'.queue) : w'.Sound where
  free := by
    intro index hindex
    rw [hfree] at hindex
    obtain ⟨hbound, hnone⟩ := hw.free index hindex
    refine ⟨hlength ▸ hbound, fun g => ?_⟩
    have hne : (⟨index, g⟩ : SenderWaiterKey) ≠ key := by
      rintro rfl
      rw [hnone g] at h
      cases h
    rw [hmap, update_of_ne hne, hnone g]
  freeOnce := hfree ▸ hw.freeOnce
  queued := by
    intro other found hfound hq
    rw [hmap] at hfound
    by_cases heq : other = key
    · subst heq
      rw [update_self, Option.some.injEq] at hfound
      subst hfound
      exact hqueued hq
    · rw [update_of_ne heq] at hfound
      obtain ⟨hreserved, hwaker, hmem⟩ := hw.queued other found hfound hq
      exact ⟨hreserved, hwaker, hqueue other found heq hfound hq hmem⟩

/-! ## Granting and waking -/

section

variable {queue : List SenderWaiterKey} {slots : List (SenderWaiterSlot W)} {free : List Nat}
  {next : Nat}

/-- The entry at the head of the queue has a slot that waits, or it is stale and can be
dropped. -/
theorem head_cases (hw : (mk (key :: queue) slots free next).Sound) :
    (∃ slot, slots[key.index]? = some slot ∧ live slot key = true ∧
      (mk (key :: queue) slots free next).slot? key = some slot ∧ slot.queued = true) ∨
    ((∀ slot, slots[key.index]? = some slot → live slot key = false) ∧
      (mk queue slots free next).Sound) := by
  -- An entry is live exactly if its key is valid and its slot queued.
  have hlive : ∀ slot, slots[key.index]? = some slot → (live slot key = true ↔
      (mk (key :: queue) slots free next).slot? key = some slot ∧ slot.queued = true) := by
    intro slot hget
    simp [live, slot?_eq_some, hget, and_assoc]
  by_cases hsome : ∃ slot, slots[key.index]? = some slot ∧ live slot key = true
  · obtain ⟨slot, hget, hl⟩ := hsome
    exact .inl ⟨slot, hget, hl, (hlive slot hget).mp hl⟩
  · have hstale : ∀ slot, slots[key.index]? = some slot → live slot key = false :=
      fun slot hget => Bool.eq_false_iff.mpr fun hl => hsome ⟨slot, hget, hl⟩
    refine .inr ⟨hstale, hw.free, hw.freeOnce, fun other found hfound hq => ?_⟩
    obtain ⟨hreserved, hwaker, hmem⟩ := hw.queued other found hfound hq
    refine ⟨hreserved, hwaker, (mem_cons.mp hmem).resolve_left ?_⟩
    rintro rfl
    have hget := (slot?_eq_some.mp hfound).1
    cases (hstale found hget).symm.trans ((hlive found hget).mpr ⟨hfound, hq⟩)

/-- Taking the head of the queue out of it. -/
theorem serve_head (hw : (mk (key :: queue) slots free next).Sound)
    (hslot : (mk (key :: queue) slots free next).slot? key = some slot) (reserved : Bool) :
    (mk queue (slots.set key.index { slot with queued := false, waker := none, reserved }) free
        next).Sound ∧
      (mk queue (slots.set key.index { slot with queued := false, waker := none, reserved }) free
        next).slot? = update (mk (key :: queue) slots free next).slot? key
          (some { slot with queued := false, waker := none, reserved }) := by
  have hmap := slot?_put_inUse hslot { slot with queued := false, waker := none, reserved } rfl rfl
    queue free next
  refine ⟨hw.update hslot hmap (by simp) rfl ?_ nofun, hmap⟩
  intro other _ hne _ _ hmem
  exact (mem_cons.mp hmem).resolve_left hne

end

/-- The outcomes of looking for a future to grant a place to. -/
inductive Reserved (w : SenderWaiters W) : Option W × SenderWaiters W → Prop
  | nobody (w' : SenderWaiters W) (sound : w'.Sound) (same : w'.slot? = w.slot?)
      (none_queued : ∀ key slot, w.slot? key = some slot → slot.queued = false) :
      Reserved w (none, w')
  | granted (key : SenderWaiterKey) (slot : SenderWaiterSlot W) (waker : W) (w' : SenderWaiters W)
      (found : w.slot? key = some slot) (queued : slot.queued = true) (sound : w'.Sound)
      (update : w'.slot? = update w.slot? key
        (some { slot with queued := false, waker := none, reserved := true })) :
      Reserved w (some waker, w')

theorem Reserved.of_same {w₁ : SenderWaiters W} {result : Option W × SenderWaiters W}
    (h : Reserved w₁ result) (hmap : w₁.slot? = w.slot?) : Reserved w result := by
  cases h with
  | nobody w' sound same none_queued =>
    exact .nobody w' sound (same.trans hmap) (hmap ▸ none_queued)
  | granted key slot waker w' found queued sound update =>
    exact .granted key slot waker w' (hmap ▸ found) queued sound (hmap ▸ update)

theorem reserveOne_spec (hw : w.Sound) : Reserved w w.reserveOne := by
  obtain ⟨queue, slots, free, next⟩ := w
  induction queue with
  | nil =>
    refine .nobody _ hw rfl fun key slot hslot => ?_
    cases hq : slot.queued with
    | false => rfl
    | true => exact absurd (hw.queued key slot hslot hq).2.2 not_mem_nil
  | cons key queue ih =>
    rcases head_cases hw with ⟨slot, hget, hl, hslot, hq⟩ | ⟨hstale, htail⟩
    · obtain ⟨waker, hwaker⟩ := Option.isSome_iff_exists.mp (hw.queued key slot hslot hq).2.1
      obtain ⟨hsound, hmap⟩ := serve_head hw hslot true
      have hgranted : (mk (key :: queue) slots free next).reserveOne =
          (some waker, mk queue (slots.set key.index
            { slot with queued := false, waker := none, reserved := true }) free next) := by
        simp [reserveOne, reserveFrom, hget, hl, hwaker]
      rw [hgranted]
      exact .granted key slot waker _ hslot hq hsound hmap
    · -- A stale entry is skipped: the search goes on in the same map.
      have hskip : (mk (key :: queue) slots free next).reserveOne =
          (mk queue slots free next).reserveOne := by
        simp only [reserveOne, reserveFrom]
        cases hget : slots[key.index]? with
        | none => rfl
        | some slot => simp [hstale slot hget]
      rw [hskip]
      exact (ih htail).of_same rfl

/-- Whether the future of a key holds a grant that it has not used. -/
def granted (w : SenderWaiters W) (key : SenderWaiterKey) : Bool := (w.slot? key).any (·.reserved)

/-- Waking everybody empties the queue; keys stay valid and grants stay as they are. -/
theorem wakeAll_spec (hw : w.Sound) : w.wakeAll.2.Sound ∧
    ∀ key, (w.wakeAll.2.slot? key).map (·.reserved) = (w.slot? key).map (·.reserved) := by
  obtain ⟨queue, slots, free, next⟩ := w
  induction queue generalizing slots with
  | nil => exact ⟨hw, fun _ => rfl⟩
  | cons key queue ih =>
    rcases head_cases hw with ⟨slot, hget, hl, hslot, -⟩ | ⟨hstale, htail⟩
    · obtain ⟨hsound, hmap⟩ := serve_head hw hslot slot.reserved
      obtain ⟨hrest, hsame⟩ := ih _ hsound
      have hwoken : (mk (key :: queue) slots free next).wakeAll.2 =
          (mk queue (slots.set key.index { slot with queued := false, waker := none })
            free next).wakeAll.2 := by
        simp [wakeAll, wakeFrom, hget, hl]
      rw [hwoken]
      refine ⟨hrest, fun key' => (hsame key').trans ?_⟩
      rw [hmap]
      by_cases heq : key' = key
      · subst heq
        rw [update_self, hslot]
        rfl
      · rw [update_of_ne heq]
    · have hskip : (mk (key :: queue) slots free next).wakeAll =
          (mk queue slots free next).wakeAll := by
        simp only [wakeAll, wakeFrom]
        cases hget : slots[key.index]? with
        | none => rfl
        | some slot => simp [hstale slot hget]
      rw [hskip]
      exact ih slots htail

/-! ## Registering, using up and giving back -/

section

variable (hw : w.Sound) (h : w.slot? key = some slot)
include hw h

theorem consumeReservation_spec :
    (w.consumeReservation key).1 = slot.reserved ∧ (w.consumeReservation key).2.Sound ∧
      (w.consumeReservation key).2.slot? =
        update w.slot? key (some { slot with reserved := false }) := by
  have hmap := slot?_put_inUse h { slot with reserved := false } rfl rfl
    w.queue w.freeSlots w.nextGeneration
  have heq : w.consumeReservation key = (slot.reserved,
      { w with slots := w.slots.set key.index { slot with reserved := false } }) := by
    simp [consumeReservation, h]
  rw [heq]
  refine ⟨rfl, hw.update h hmap (by simp) rfl (fun _ _ _ _ _ hmem => hmem) ?_, hmap⟩
  intro hq
  exact ⟨rfl, (hw.queued key slot h hq).2⟩

theorem unregister_spec :
    (w.unregister key).1 = slot.reserved ∧ (w.unregister key).2.Sound ∧
      (w.unregister key).2.slot? = update w.slot? key none := by
  have hmap : (mk w.queue (w.slots.set key.index
      { slot with inUse := false, queued := false, waker := none, reserved := false })
      (key.index :: w.freeSlots) w.nextGeneration).slot? = update w.slot? key none :=
    slot?_put h { slot with inUse := false, queued := false, waker := none, reserved := false }
      rfl _ _ _
  have heq : w.unregister key = (slot.reserved, mk w.queue (w.slots.set key.index
      { slot with inUse := false, queued := false, waker := none, reserved := false })
      (key.index :: w.freeSlots) w.nextGeneration) := by
    simp [unregister, h]
  rw [heq]
  have hupdate : ∀ other, w.slot? other = none → update w.slot? key none other = none := by
    intro other hother
    by_cases hk : other = key
    · rw [hk, update_self]
    · rw [update_of_ne hk, hother]
  refine ⟨rfl, ⟨?_, ?_, ?_⟩, hmap⟩
  · intro index hindex
    simp only [length_set, hmap]
    rcases mem_cons.mp hindex with rfl | hindex
    · refine ⟨index_lt h, fun g => ?_⟩
      by_cases hk : (⟨key.index, g⟩ : SenderWaiterKey) = key
      · rw [hk, update_self]
      · exact hupdate _ (alone h _ rfl hk)
    · exact ⟨(hw.free index hindex).1, fun g => hupdate _ ((hw.free index hindex).2 g)⟩
  · refine nodup_cons.mpr ⟨fun hmem => ?_, hw.freeOnce⟩
    have hnone := (hw.free _ hmem).2 key.generation
    rw [h] at hnone
    cases hnone
  · intro other found hfound hq
    rw [hmap] at hfound
    by_cases hk : other = key
    · rw [hk, update_self] at hfound
      cases hfound
    · rw [update_of_ne hk] at hfound
      exact hw.queued other found hfound hq

/-- A future that waits already: its waker is refreshed and it stands in the queue. -/
theorem refresh_spec (hreserved : slot.reserved = false) (waker : W) :
    (w.registerOrRefresh (some key) waker).1 = key ∧
      (w.registerOrRefresh (some key) waker).2.Sound ∧
      (w.registerOrRefresh (some key) waker).2.slot? = update w.slot? key
        (some { slot with waker := some waker, queued := true }) := by
  have heq : w.registerOrRefresh (some key) waker = (key, { w with
      slots := w.slots.set key.index { slot with waker := some waker, queued := true }
      queue := if slot.queued then w.queue else w.queue ++ [key] }) := by
    simp [registerOrRefresh, h]
  have hmap := slot?_put_inUse h { slot with waker := some waker, queued := true } rfl rfl
    (if slot.queued then w.queue else w.queue ++ [key]) w.freeSlots w.nextGeneration
  rw [heq]
  refine ⟨rfl, hw.update h hmap (by simp) rfl ?_ fun _ => ⟨hreserved, rfl, ?_⟩, hmap⟩
  · intro other _ _ _ _ hmem
    split
    · exact hmem
    · exact mem_append_left _ hmem
  · cases hq : slot.queued with
    | true => exact (hw.queued key slot h hq).2.2
    | false => simp

end

/-- The slot for a new waiting future is nobody's, and taking it changes no valid key. -/
theorem takeSlot_spec (hw : w.Sound) :
    w.takeSlot.1 < w.takeSlot.2.slots.length ∧ (∀ g, w.slot? ⟨w.takeSlot.1, g⟩ = none) ∧
      w.takeSlot.2.slot? = w.slot? ∧ w.takeSlot.1 ∉ w.takeSlot.2.freeSlots ∧
      w.takeSlot.2.Sound ∧ w.takeSlot.2.queue = w.queue := by
  obtain ⟨queue, slots, free, next⟩ := w
  cases free with
  | cons index free =>
    obtain ⟨hbound, hnone⟩ := hw.free index mem_cons_self
    obtain ⟨hnot, honce⟩ := nodup_cons.mp hw.freeOnce
    exact ⟨hbound, hnone, rfl, hnot,
      ⟨fun i hi => hw.free i (mem_cons_of_mem _ hi), honce, hw.queued⟩, rfl⟩
  | nil =>
    have hmap : (mk queue (slots ++ [.vacant]) [] next).slot? = (mk queue slots [] next).slot? := by
      funext key
      simp only [slot?, getElem?_append]
      split
      · rfl
      · rename_i hge
        rw [getElem?_eq_none (not_lt.mp hge)]
        cases hi : key.index - slots.length with
        | zero => simp [SenderWaiterSlot.vacant]
        | succ n => simp
    refine ⟨by simp [takeSlot], fun g => ?_, hmap, not_mem_nil, ⟨nofun, nodup_nil, ?_⟩, rfl⟩
    · simp [slot?, takeSlot]
    · intro key slot hslot
      rw [show (takeSlot _).2 = mk queue (slots ++ [.vacant]) [] next from rfl, hmap] at hslot
      exact hw.queued key slot hslot

/-- A future that starts to wait: it gets a key that was not valid before. -/
theorem register_spec (hw : w.Sound) (waker : W) :
    ∃ key w', w.registerOrRefresh none waker = (key, w') ∧ w.slot? key = none ∧ w'.Sound ∧
      w'.slot? = update w.slot? key
        (some ⟨key.generation, some waker, true, true, false⟩) := by
  obtain ⟨hbound, hnone, hsame, hnotfree, htaken, hqueue⟩ := takeSlot_spec hw
  have halone : ∀ other : SenderWaiterKey, other.index = w.takeSlot.1 →
      other ≠ ⟨w.takeSlot.1, w.nextGeneration⟩ → w.takeSlot.2.slot? other = none := by
    intro other hindex _
    rw [hsame, show other = ⟨w.takeSlot.1, other.generation⟩ from by rw [← hindex]]
    exact hnone _
  have hmap := slot?_set ⟨w.takeSlot.1, w.nextGeneration⟩
    ⟨w.nextGeneration, some waker, true, true, false⟩ hbound rfl halone
    (w.takeSlot.2.queue ++ [⟨w.takeSlot.1, w.nextGeneration⟩]) w.takeSlot.2.freeSlots
    ((w.nextGeneration + 1) % 2 ^ 64)
  rw [hsame, if_pos rfl] at hmap
  refine ⟨_, _, rfl, hnone _, ⟨?_, htaken.freeOnce, ?_⟩, hmap⟩
  · intro index hindex
    obtain ⟨hlt, hfree⟩ := htaken.free index hindex
    refine ⟨by simpa using hlt, fun g => ?_⟩
    have hne : (⟨index, g⟩ : SenderWaiterKey) ≠ ⟨w.takeSlot.1, w.nextGeneration⟩ := by
      intro heq
      rw [SenderWaiterKey.mk.injEq] at heq
      exact hnotfree (heq.1 ▸ hindex)
    refine (congrFun hmap _).trans ?_
    rw [update_of_ne hne, ← hsame]
    exact hfree g
  · intro other found hfound hq
    replace hfound := (congrFun hmap other).symm.trans hfound
    by_cases hk : other = ⟨w.takeSlot.1, w.nextGeneration⟩
    · subst hk
      rw [update_self, Option.some.injEq] at hfound
      subst hfound
      exact ⟨rfl, rfl, mem_append_right _ (mem_singleton_self _)⟩
    · rw [update_of_ne hk] at hfound
      obtain ⟨hreserved, hwaker, hmem⟩ := hw.queued other found hfound hq
      exact ⟨hreserved, hwaker, mem_append_left _ (hqueue ▸ hmem)⟩

end OtapDataflow.LocalChannel.SenderWaiters
