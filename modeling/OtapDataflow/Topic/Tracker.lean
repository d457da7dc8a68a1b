import OtapDataflow.Lib.Machine

/-! # Receipts of tracked publishes

Calls of the tracker and its timeout worker share the map of entries and the closed flag, each of
which is read or changed at one moment (`Tracker.step`).  A receipt waits in the map, or has been
taken out by a task that is about to resolve it.

**`no_orphan_receipts`**: once the tracker is closed and the worker has ended, every receipt is
resolved or about to be, provided that the tracker is not closed while a registration that has
seen it open is on its way to the map, and that no registration replaces an entry.  Otherwise the
late entry is never resolved (`receipt_orphaned`). -/

namespace OtapDataflow.Topic

open Machine List Function

inductive TrackedPublishOutcome
  | ack
  | nack (reason : String)
  | timedOut
  | topicClosed

/-- An entry of the map, with the number of its receipt. -/
structure TrackedPublishEntry where
  messageId : Nat
  receipt : Nat
  deadline : Nat

/-- Where a task is. -/
inductive Task
  | idle
  /-- `register` or `register_consensus`, having seen the tracker open. -/
  | starts (messageId deadline : Nat)
  | inserts (messageId deadline : Nat)
  /-- `close_all`, having set the flag. -/
  | drains
  /-- The receipts of entries that were taken out of the map. -/
  | resolves (outcome : TrackedPublishOutcome) (receipts : List Nat)
  /-- The timeout worker at the head of its loop, and having seen the tracker closed. -/
  | tests
  | sawClosed
  | looksUp
  | waits (deadline : Option Nat)
  | ended

/-- Task 0 is the timeout worker, the others are threads that call the tracker. -/
def home (task : Nat) : Task := if task = 0 then .tests else .idle

structure Tracker where
  /-- At most one entry for each message id: an insertion erases the one it replaces. -/
  entries : List TrackedPublishEntry := []
  closed : Bool := false
  timeoutWorkerStarted : Bool := false
  task : Nat → Task := home
  /-- How many receipts were given out. -/
  receipts : Nat := 0
  resolved : Nat → Option TrackedPublishOutcome := fun _ => none

/-- What the environment decides.  A consensus registration comes with the number of its members;
a worker that waits is woken, or its deadline passes. -/
inductive Action
  | register (thread messageId deadline : Nat) (members : Option Nat)
  | resolve (thread messageId : Nat) (outcome : TrackedPublishOutcome)
  | closeAll (thread : Nat)
  | advance (task : Nat) (woken : Bool)

namespace Tracker

variable (s : Tracker)

def goTo (task : Nat) (place : Task) : Tracker :=
  { s with task := update s.task task place }

/-- The first outcome of an entry stays. -/
def settle (receipt : Nat) (outcome : TrackedPublishOutcome) : Nat → Option TrackedPublishOutcome :=
  update s.resolved receipt ((s.resolved receipt).or (some outcome))

/-- A receipt that is resolved at once. -/
def answer (outcome : TrackedPublishOutcome) : Tracker :=
  { s with receipts := s.receipts + 1, resolved := s.settle s.receipts outcome }

def isPending (entry : TrackedPublishEntry) : Bool := (s.resolved entry.receipt).isNone

def nextDeadline : Option Nat := ((s.entries.filter s.isPending).map (·.deadline)).min?

def expired (now : Nat) (entry : TrackedPublishEntry) : Bool :=
  s.isPending entry && decide (entry.deadline ≤ now)

/-- The first step of a call. -/
def begin (task : Nat) : Action → Tracker
  | .register _ messageId deadline members =>
    if s.closed then s.answer .topicClosed
    else if members = some 0 then s.answer (.nack "broadcast publish had no eligible subscribers")
    else s.goTo task (.starts messageId deadline)
  | .resolve _ messageId outcome =>
    match s.entries.find? (·.messageId == messageId) with
    | none => s
    | some entry =>
      { s with entries := s.entries.eraseP (·.messageId == messageId) }.goTo task
        (.resolves outcome [entry.receipt])
  | .closeAll _ => { s with closed := true }.goTo task .drains
  | .advance _ _ => s

/-- The next step of a task. -/
def proceed (task : Nat) (woken : Bool) : Task → Tracker
  | .starts messageId deadline =>
    { s with timeoutWorkerStarted := true }.goTo task (.inserts messageId deadline)
  | .inserts messageId deadline =>
    { s with
      entries := ⟨messageId, s.receipts, deadline⟩ :: s.entries.eraseP (·.messageId == messageId)
      receipts := s.receipts + 1 }.goTo task .idle
  | .drains =>
    { s with entries := [] }.goTo task
      (.resolves .topicClosed (s.entries.map TrackedPublishEntry.receipt))
  | .resolves _ [] => s.goTo task (home task)
  | .resolves outcome (receipt :: rest) =>
    { s with resolved := s.settle receipt outcome }.goTo task (.resolves outcome rest)
  | .tests => s.goTo task (if s.closed then .sawClosed else .looksUp)
  | .sawClosed => s.goTo task (if s.entries.isEmpty then .ended else .looksUp)
  | .looksUp => s.goTo task (.waits s.nextDeadline)
  | .waits deadline =>
    match woken, deadline with
    | true, _ => s.goTo task .tests
    | false, none => s
    | false, some now =>
      { s with entries := s.entries.filter fun entry => !s.expired now entry }.goTo task
        (.resolves .timedOut ((s.entries.filter (s.expired now)).map TrackedPublishEntry.receipt))
  | .idle | .ended => s

/-- A call starts on a thread that is idle; the worker runs once it was started. -/
def step (a : Action) : Tracker × Unit :=
  match a with
  | .advance task woken =>
    (if task = 0 ∧ s.timeoutWorkerStarted = false then s
      else s.proceed task woken (s.task task), ())
  | .register thread .. | .resolve thread .. | .closeAll thread =>
    (match s.task (thread + 1) with
      | .idle => s.begin (thread + 1) a
      | _ => s, ())

end Tracker

/-! ## Where a receipt can be -/

/-- The receipts a task is about to resolve. -/
def Task.pending : Task → List Nat
  | .resolves _ receipts => receipts
  | _ => []

/-- A registration that has seen the tracker open and has not inserted its entry. -/
def Task.Registers : Task → Prop
  | .starts _ _ | .inserts _ _ => True
  | _ => False

/-- What holds of the tracker while a task is at a place. -/
def Task.Knows (s : Tracker) : Task → Prop
  | .starts _ _ | .inserts _ _ => s.closed = false
  | .sawClosed => s.closed = true
  | .ended => s.closed = true ∧ s.entries = []
  | _ => True

namespace Tracker

variable {s u : Tracker}

/-- A step still in progress resolves the receipt. -/
def AboutTo (s : Tracker) (r : Nat) : Prop :=
  (∃ t, r ∈ (s.task t).pending) ∨ (∃ t, s.task t = .drains) ∧ ∃ e ∈ s.entries, e.receipt = r

def Orphaned (s : Tracker) (r : Nat) : Prop :=
  s.closed = true ∧ s.task 0 = .ended ∧ r < s.receipts ∧ s.resolved r = none ∧ ¬ s.AboutTo r

/-- Where a receipt can be. -/
def Tracked (s : Tracker) (r : Nat) : Prop :=
  (∃ e ∈ s.entries, e.receipt = r) ∨ (∃ t, r ∈ (s.task t).pending) ∨ s.resolved r ≠ none

structure Inv (s : Tracker) : Prop where
  tracked : ∀ r < s.receipts, s.Tracked r
  knows : ∀ t, (s.task t).Knows s

/-- The order of steps the source relies on: the flag is set while no registration is under way,
and an entry is inserted under an id of its own. -/
def Orderly (s : Tracker) : Action → Prop
  | .closeAll _ => ∀ t, ¬ (s.task t).Registers
  | .advance t _ => ∀ id d, s.task t = .inserts id d → ∀ e ∈ s.entries, e.messageId ≠ id
  | _ => True

theorem mem_eraseP_or_eq {α : Type*} {p : α → Bool} {l : List α} {a x : α}
    (h : l.find? p = some a) (hx : x ∈ l) : x ∈ l.eraseP p ∨ x = a := by
  obtain ⟨ha, before, after, rfl, hbefore⟩ := find?_eq_some_iff_append.mp h
  rw [eraseP_append_right _ (by simpa using hbefore), eraseP_cons_of_pos ha]
  simp only [mem_append, mem_cons] at hx ⊢
  tauto

theorem settle_self (r : Nat) (o : TrackedPublishOutcome) : s.settle r o r ≠ none := by
  simp [settle]

theorem settle_ne_none {r q : Nat} {o : TrackedPublishOutcome} (h : s.resolved r ≠ none) :
    s.settle q o r ≠ none := by
  by_cases hq : r = q
  · rw [hq]
    exact settle_self q o
  · simpa only [settle, update_of_ne hq] using h

/-- A task moves: what it takes out of the map it is about to resolve, and what it was about to
resolve it still is, or has resolved. -/
theorem Inv.goTo (h : Inv s) {t : Nat} {c : Task} (htask : u.task = s.task)
    (hentries : ∀ e ∈ s.entries, e ∈ u.entries ∨ e.receipt ∈ c.pending)
    (hpending : ∀ r ∈ (s.task t).pending, r ∈ c.pending ∨ u.resolved r ≠ none)
    (hresolved : ∀ r, s.resolved r ≠ none → u.resolved r ≠ none)
    (hnew : ∀ r < u.receipts, s.receipts ≤ r → ∃ e ∈ u.entries, e.receipt = r)
    (hothers : ∀ q, (s.task q).Knows s → (s.task q).Knows u) (hc : c.Knows u) :
    Inv (u.goTo t c) := by
  have hself : (u.goTo t c).task t = c := update_self ..
  have hother {q : Nat} (hq : q ≠ t) : (u.goTo t c).task q = s.task q := by
    rw [← htask]
    exact update_of_ne hq ..
  refine ⟨fun r hr => ?_, fun q => ?_⟩
  · rcases lt_or_ge r s.receipts with hlt | hge
    · rcases h.tracked r hlt with ⟨e, he, rfl⟩ | ⟨q, hq⟩ | hdone
      · rcases hentries e he with hin | hin
        · exact .inl ⟨e, hin, rfl⟩
        · exact .inr (.inl ⟨t, by rwa [hself]⟩)
      · by_cases hqt : q = t
        · rcases hpending r (hqt ▸ hq) with hin | hin
          · exact .inr (.inl ⟨t, by rwa [hself]⟩)
          · exact .inr (.inr hin)
        · exact .inr (.inl ⟨q, by rwa [hother hqt]⟩)
      · exact .inr (.inr (hresolved r hdone))
    · exact .inl (hnew r hr hge)
  · by_cases hqt : q = t
    · rw [hqt, hself]
      cases c <;> exact hc
    · rw [hother hqt]
      have hk := hothers q (h.knows q)
      cases hq : s.task q <;> rw [hq] at hk <;> exact hk

theorem no_new {n : Nat} {P : Nat → Prop} : ∀ r < n, n ≤ r → P r := by
  intro r hr hn
  omega

/-- A move that leaves the map, the flag and the outcomes alone. -/
theorem Inv.stay (h : Inv s) {t : Nat} {c : Task} (hpending : (s.task t).pending = [])
    (hc : c.Knows s) : Inv (s.goTo t c) :=
  h.goTo rfl (fun _ he => .inl he) (by simp [hpending]) (fun _ hr => hr) no_new (fun _ hq => hq) hc

theorem Inv.answer (h : Inv s) (o : TrackedPublishOutcome) : Inv (s.answer o) := by
  refine ⟨fun r hr => ?_, fun t => ?_⟩
  · rcases Nat.lt_succ_iff_lt_or_eq.mp hr with hlt | rfl
    · rcases h.tracked r hlt with hin | hin | hdone
      · exact .inl hin
      · exact .inr (.inl hin)
      · exact .inr (.inr (settle_ne_none hdone))
    · exact .inr (.inr (settle_self _ o))
  · have hk := h.knows t
    cases ht : s.task t <;> simp_all [Task.Knows, Tracker.answer]

/-- Entries leave the map for the task that is going to resolve them. -/
theorem Inv.take (h : Inv s) {t : Nat} {o : TrackedPublishOutcome} {keep : List TrackedPublishEntry}
    {taken : List Nat} (hpending : (s.task t).pending = [])
    (hentries : ∀ e ∈ s.entries, e ∈ keep ∨ e.receipt ∈ taken)
    (hkeep : s.entries = [] → keep = []) :
    Inv ({ s with entries := keep }.goTo t (.resolves o taken)) := by
  refine h.goTo rfl hentries (by simp [hpending]) (fun _ hr => hr) no_new (fun q hq => ?_) trivial
  cases hp : s.task q <;> simp_all [Task.Knows]

theorem Inv.begin (h : Inv s) {t : Nat} (ht : s.task t = .idle) (a : Action)
    (hok : s.Orderly a) : Inv (s.begin t a) := by
  have hpending : (s.task t).pending = [] := by rw [ht]; rfl
  cases a with
  | register thread id deadline members =>
    simp only [Tracker.begin]
    split
    · exact h.answer _
    · rename_i hopen
      split
      · exact h.answer _
      · exact h.stay hpending (by simpa [Task.Knows] using hopen)
  | resolve thread id outcome =>
    simp only [Tracker.begin]
    split
    · exact h
    · rename_i entry hfind
      refine h.take hpending (fun e he => ?_) (fun hnil => by simp [hnil])
      rcases mem_eraseP_or_eq hfind he with hin | rfl
      · exact .inl hin
      · exact .inr (mem_singleton_self _)
  | closeAll thread =>
    refine h.goTo rfl (fun _ he => .inl he) (by simp [hpending]) (fun _ hr => hr) no_new
      (fun q hq => ?_) trivial
    have hfree := hok q
    cases hp : s.task q <;> simp_all [Task.Knows, Task.Registers]
  | advance t woken => exact h

theorem Inv.proceed (h : Inv s) {t : Nat} (woken : Bool)
    (hok : s.Orderly (.advance t woken)) : Inv (s.proceed t woken (s.task t)) := by
  have hknows := h.knows t
  have hpending {c : Task} (hc : s.task t = c) (hnil : c.pending = []) :
      (s.task t).pending = [] := by rw [hc, hnil]
  cases hplace : s.task t with
  | idle | ended => exact h
  | starts id deadline =>
    rw [hplace] at hknows
    exact h.goTo rfl (fun _ he => .inl he) (by simp [hpending hplace rfl]) (fun _ hr => hr) no_new
      (fun q hq => by cases hp : s.task q <;> simp_all [Task.Knows]) hknows
  | inserts id deadline =>
    -- the tracker is open, so the worker has not ended and nothing is replaced
    rw [hplace] at hknows
    have hnone : s.entries.eraseP (·.messageId == id) = s.entries :=
      eraseP_of_forall_not (by simpa using hok id deadline hplace)
    simp only [Tracker.proceed, hnone]
    refine h.goTo rfl (fun _ he => .inl (mem_cons_of_mem _ he)) (by simp [hpending hplace rfl])
      (fun _ hr => hr) (fun r hr hge => ⟨_, mem_cons_self, ?_⟩) (fun q hq => ?_) trivial
    · exact le_antisymm hge (Nat.lt_succ_iff.mp hr)
    · cases hp : s.task q <;> simp_all [Task.Knows]
  | drains =>
    exact h.take (hpending hplace rfl) (fun e he => .inr (mem_map_of_mem he)) (fun _ => rfl)
  | resolves outcome receipts =>
    cases receipts with
    | nil =>
      refine h.stay (hpending hplace rfl) ?_
      unfold home
      split <;> trivial
    | cons r rest =>
      refine h.goTo rfl (fun _ he => .inl he) (fun q hq => ?_) (fun _ => settle_ne_none) no_new
        (fun q hq => by cases hp : s.task q <;> simp_all [Task.Knows]) trivial
      rw [hplace] at hq
      rcases mem_cons.mp hq with rfl | hq
      · exact .inr (settle_self q outcome)
      · exact .inl hq
  | tests =>
    refine h.stay (hpending hplace rfl) ?_
    split
    · assumption
    · trivial
  | sawClosed =>
    rw [hplace] at hknows
    refine h.stay (hpending hplace rfl) ?_
    split_ifs with hnil
    · exact ⟨hknows, isEmpty_iff.mp hnil⟩
    · trivial
  | looksUp => exact h.stay (hpending hplace rfl) trivial
  | waits deadline =>
    cases woken with
    | true => exact h.stay (hpending hplace rfl) trivial
    | false =>
      cases deadline with
      | none => exact h
      | some now =>
        refine h.take (hpending hplace rfl) (fun e he => ?_) (fun hnil => by simp [hnil])
        by_cases hexpired : s.expired now e = true
        · exact .inr (mem_map_of_mem (mem_filter.mpr ⟨he, hexpired⟩))
        · exact .inl (mem_filter.mpr ⟨he, by simpa using hexpired⟩)

theorem Inv.step (h : Inv s) (a : Action) (hok : s.Orderly a) : Inv (s.step a).1 := by
  cases a with
  | advance t woken =>
    simp only [Tracker.step]
    split
    · exact h
    · exact h.proceed woken hok
  | register thread _ _ _ | resolve thread _ _ | closeAll thread =>
    simp only [Tracker.step]
    split
    · exact h.begin ‹_› _ hok
    · exact h

theorem Inv.new : Inv {} := by
  refine ⟨fun r hr => absurd hr (Nat.not_lt_zero r), fun t => ?_⟩
  simp only [home]
  split <;> trivial

/-- **No orphan receipts**, in every interleaving whose closing and insertions are in order. -/
theorem no_orphan_receipts (run : List Action) (hrun : Meets step Orderly {} run) (r : Nat) :
    ¬ (final step {} run).Orphaned r := by
  have h : Inv (final step {} run) :=
    final_invariant_of_meets Inv (fun _ a hs hok => hs.step a hok) Inv.new hrun
  rintro ⟨-, hended, hr, hnone, hnot⟩
  have hempty : (final step {} run).entries = [] := by
    have hk := h.knows 0
    rw [hended] at hk
    exact hk.2
  rcases h.tracked r hr with ⟨e, he, -⟩ | hin | hdone
  · rw [hempty] at he
    cases he
  · exact hnot (.inl hin)
  · exact hdone hnone

/-- A receipt is inserted and the topic closes: `close_all` resolves it. -/
theorem no_orphan_receipts_closing :
    let run : List Action := [.register 0 7 100 none, .advance 1 false, .advance 1 false,
      .closeAll 1, .advance 2 false, .advance 0 false, .advance 0 false, .advance 2 false]
    (final step {} run).task 0 = .ended ∧ ¬ (final step {} run).Orphaned 0 := by
  refine ⟨rfl, no_orphan_receipts _ ?_ 0⟩
  have hfree (t : Nat) : ¬ (update (update (update home 1
      (.starts 7 100)) 1 (.inserts 7 100)) 1 .idle t).Registers := by
    match t with
    | 0 | 1 | _ + 2 => exact id
  exact ⟨trivial, nofun, by rintro _ _ ⟨⟩; exact nofun, hfree, nofun, nofun, nofun, nofun, trivial⟩

/-- A registration has seen the tracker open and started the worker; the topic is closed and
drained, and the worker ends; then the entry is inserted, and nothing is left to resolve it. -/
theorem receipt_orphaned :
    (final step {} [.register 0 7 100 none, .advance 1 false, .closeAll 1, .advance 2 false,
      .advance 2 false, .advance 0 false, .advance 0 false, .advance 1 false]).Orphaned 0 := by
  refine ⟨rfl, rfl, Nat.one_pos, rfl, ?_⟩
  rintro (⟨t, ht⟩ | ⟨⟨t, ht⟩, -⟩)
  all_goals
    match t with
    | 0 | 1 | 2 | _ + 3 => cases ht

end Tracker

end OtapDataflow.Topic
