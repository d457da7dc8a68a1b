import OtapDataflow.Subscriber.State

/-! # Draining the durable buffer

A timer tick and a shutdown take bundles off the store one after another and try to send them.  A
bundle that was sent stays claimed and one that cannot be converted is rejected, so that neither is
pending any more; every other bundle is released, and is then the oldest pending one again
(`Tried`).

Hence a tick does not look past a deferred bundle (`deferred_hides_ready`), and at shutdown a closed
channel is tried with the same bundle until the deadline (`closed_channel_retried`). -/

namespace OtapDataflow.DurableBuffer

open Subscriber SubscriberState List

variable {Id : Type}

structure Buffer (Id : Type) where
  subscriber : SubscriberState Id
  /-- The bundles that were sent and not answered. -/
  pendingBundles : Finset BundleRef
  /-- The bundles that wait for their retry time. -/
  deferredRetryState : Finset BundleRef
  maxInFlight : Nat

namespace Buffer

variable {buf buf' after : Buffer Id} {round : Round} {b x : BundleRef}
  {result : ProcessBundleResult}

/-- The bundle is tracked and not resolved. -/
def Unresolved (st : SubscriberState Id) (b : BundleRef) : Prop :=
  ∃ n, st.trackedCount b.segmentSeq = some n ∧ b.bundleIndex < n ∧ st.isResolved b = false

/-- The bundle is outstanding or waits for its retry. -/
def Blocked (buf : Buffer Id) (b : BundleRef) : Prop :=
  b ∈ buf.pendingBundles ∨ b ∈ buf.deferredRetryState

theorem mem_pending_iff {st : SubscriberState Id} :
    b ∈ st.pending ↔ Unresolved st b ∧ b ∉ st.claimed := by
  rw [mem_pending, Unresolved]
  grind

theorem pending_sent {st : SubscriberState Id}
    (claims : st.claimed = insert b buf.subscriber.claimed)
    (unresolved : ∀ x, Unresolved st x ↔ Unresolved buf.subscriber x) :
    ∀ x, x ∈ st.pending ↔ x ∈ buf.subscriber.pending ∧ x ≠ b := by
  intro x
  rw [mem_pending_iff, mem_pending_iff, claims, unresolved, Finset.mem_insert]
  tauto

/-! ## Shutdown -/

instance : DecidableRel BundleRef.Lt := fun _ _ => inferInstanceAs (Decidable (_ ∨ _))

instance (buf : Buffer Id) (b : BundleRef) : Decidable (buf.Blocked b) :=
  inferInstanceAs (Decidable (_ ∨ _))

/-- The claimed bundles are outstanding or wait for their retry, and pending bundles that do come
after the others. -/
structure Orderly (buf : Buffer Id) : Prop where
  claims : ∀ x ∈ buf.subscriber.claimed, Unresolved buf.subscriber x → buf.Blocked x
  last : ∀ x ∈ buf.subscriber.pending, buf.Blocked x →
    ∀ y ∈ buf.subscriber.pending, x.Lt y → buf.Blocked y

theorem Orderly.settled (h : buf.Orderly)
    (hpending : ∀ x ∈ buf.subscriber.pending, buf.Blocked x) :
    ∀ x, Unresolved buf.subscriber x → buf.Blocked x := by
  intro x hx
  by_cases hclaimed : x ∈ buf.subscriber.claimed
  · exact h.claims x hclaimed hx
  · exact hpending x (mem_pending_iff.mpr ⟨hx, hclaimed⟩)

theorem blocked_sent {st : SubscriberState Id} :
    Blocked { buf with subscriber := st, pendingBundles := insert b buf.pendingBundles } x ↔
      x = b ∨ buf.Blocked x := by
  simp [Blocked, or_assoc]

theorem Orderly.sent {st : SubscriberState Id} (h : buf.Orderly)
    (claims : st.claimed = insert b buf.subscriber.claimed)
    (unresolved : ∀ x, Unresolved st x ↔ Unresolved buf.subscriber x) :
    Orderly { buf with subscriber := st, pendingBundles := insert b buf.pendingBundles } := by
  have hgone := pending_sent claims unresolved
  refine ⟨fun x hx hopen => ?_, fun x hx hx' y hy hlt => ?_⟩
  · rw [claims, Finset.mem_insert] at hx
    exact blocked_sent.mpr (hx.imp_right fun hx => h.claims x hx ((unresolved x).mp hopen))
  · have hx' := (blocked_sent.mp hx').resolve_left ((hgone x).mp hx).2
    exact blocked_sent.mpr (.inr (h.last x ((hgone x).mp hx).1 hx' y ((hgone y).mp hy).1 hlt))

end Buffer

end OtapDataflow.DurableBuffer
