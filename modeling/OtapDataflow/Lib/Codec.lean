import OtapDataflow.Lib.Bytes

/-! # Exact readers

A reader takes a value off the front of a byte string, or fails.  A reader is described by one
equivalence: it returns a value and a rest exactly if the input is the encoding of the value
followed by the rest.  Both directions of a codec follow from it, that what was written is read
back and that what is read back has one encoding only; and the equivalences of readers in
sequence compose (`bind_eq_ok`).

Numbers are big-endian. -/

namespace OtapDataflow

open List

variable {k n : Nat}

namespace Bytes

/-- The low `k` bytes of `n`, most significant first. -/
def beBytes (k n : Nat) : Bytes := (leBytes k n).reverse

/-- The number that a big-endian byte string denotes. -/
def ofBe (bs : Bytes) : Nat := ofLe bs.reverse

@[simp] theorem length_beBytes (k n : Nat) : (beBytes k n).length = k := by
  rw [beBytes, length_reverse, length_leBytes]

theorem ofBe_beBytes (h : n < 256 ^ k) : ofBe (beBytes k n) = n := by
  rw [ofBe, beBytes, reverse_reverse, ofLe_leBytes h]

theorem ofLe_lt (bs : Bytes) : ofLe bs < 256 ^ bs.length := by
  induction bs with
  | nil => exact Nat.one_pos
  | cons b bs ih =>
    have hb := b.toNat_lt
    rw [ofLe, length_cons, pow_succ]
    omega

theorem leBytes_ofLe (bs : Bytes) : leBytes bs.length (ofLe bs) = bs := by
  induction bs with
  | nil => rfl
  | cons b bs ih =>
    have hb : b.toNat < 256 := b.toNat_lt
    have hdiv : (b.toNat + 256 * ofLe bs) / 256 = ofLe bs := by omega
    have hlow : UInt8.ofNat (b.toNat + 256 * ofLe bs) = b := by
      apply UInt8.toNat_inj.mp
      rw [UInt8.toNat_ofNat']
      omega
    rw [ofLe, length_cons, leBytes, hdiv, ih, hlow]

theorem ofBe_lt {bs : Bytes} (h : bs.length = k) : ofBe bs < 256 ^ k := by
  have := ofLe_lt bs.reverse
  rwa [length_reverse, h] at this

theorem beBytes_ofBe {bs : Bytes} (h : bs.length = k) : beBytes k (ofBe bs) = bs := by
  have := leBytes_ofLe bs.reverse
  rw [length_reverse, h] at this
  rw [beBytes, ofBe, this, reverse_reverse]

end Bytes

namespace Codec

open Bytes

/-- A byte array of fixed length. -/
abbrev ByteVec (n : Nat) := List.Vector UInt8 n

variable {ε α β : Type}

abbrev Reader (ε α : Type) := StateT Bytes (Except ε) α

/-- Fail unless a condition holds. -/
def ensure {m : Type → Type} [Monad m] [MonadExceptOf ε m] (p : Prop) [Decidable p] (error : ε) :
    m Unit :=
  if p then pure () else throw error

section

variable {x : Except ε α} {b : β} {p : Prop} [Decidable p] {error : ε}

theorem except_bind_eq_ok {f : α → Except ε β} : (x >>= f) = .ok b ↔
    ∃ a, x = .ok a ∧ f a = .ok b := by
  cases x with
  | error e => exact ⟨nofun, fun ⟨_, h, _⟩ => nomatch h⟩
  | ok a =>
    refine ⟨fun h => ⟨a, rfl, h⟩, ?_⟩
    rintro ⟨a', ha, h⟩
    cases ha
    exact h

theorem except_pure_eq_ok {b' : β} : (pure b : Except ε β) = .ok b' ↔ b' = b :=
  ⟨fun h => (Except.ok.inj h).symm, fun h => h ▸ rfl⟩

theorem except_ensure_eq_ok {u : Unit} : (ensure p error : Except ε Unit) = .ok u ↔ p := by
  by_cases h : p
  · rw [ensure, if_pos h]
    exact ⟨fun _ => h, fun _ => rfl⟩
  · rw [ensure, if_neg h]
    exact ⟨nofun, fun h' => absurd h' h⟩

theorem except_ensure_bind {f : Unit → Except ε β} (h : p) : (ensure p error >>= f) = f () := by
  rw [ensure, if_pos h]
  rfl

end

section

variable {bs rest : Bytes} {a : α} {b : β}

theorem bind_eq_ok {x : Reader ε α} {f : α → Reader ε β} :
    (x >>= f) bs = .ok (b, rest) ↔ ∃ a mid, x bs = .ok (a, mid) ∧ f a mid = .ok (b, rest) := by
  have h : (x >>= f) bs = x bs >>= fun r => f r.1 r.2 := rfl
  rw [h, except_bind_eq_ok]
  exact ⟨fun ⟨r, hx, hf⟩ => ⟨r.1, r.2, hx, hf⟩, fun ⟨a, mid, hx, hf⟩ => ⟨(a, mid), hx, hf⟩⟩

theorem pure_eq_ok {a' : α} : (pure a : Reader ε α) bs = .ok (a', rest) ↔ a = a' ∧ bs = rest := by
  have h : (pure a : Reader ε α) bs = .ok (a, bs) := rfl
  rw [h]
  exact ⟨fun h => Prod.mk.inj (Except.ok.inj h), fun ⟨ha, hb⟩ => by rw [ha, hb]⟩

theorem throw_eq_ok {error : ε} {r : α × Bytes} : (throw error : Reader ε α) bs = .ok r ↔ False :=
  ⟨nofun, False.elim⟩

theorem ensure_eq_ok {p : Prop} [Decidable p] {error : ε} {u : Unit} :
    (ensure p error : Reader ε Unit) bs = .ok (u, rest) ↔ p ∧ bs = rest := by
  by_cases h : p
  · rw [ensure, if_pos h, pure_eq_ok]
    exact ⟨fun h' => ⟨h, h'.2⟩, fun h' => ⟨rfl, h'.2⟩⟩
  · rw [ensure, if_neg h, throw_eq_ok]
    exact ⟨False.elim, fun h' => h h'.1⟩

/-- A result that does not depend on the input. -/
def lift (x : Except ε α) : Reader ε α := fun bs => x.map (·, bs)

theorem lift_eq_ok {x : Except ε α} : lift x bs = .ok (a, rest) ↔ x = .ok a ∧ bs = rest := by
  cases x with
  | error e => exact ⟨nofun, fun h => nomatch h.1⟩
  | ok a' =>
    have h : lift (.ok a' : Except ε α) bs = .ok (a', bs) := rfl
    rw [h, Except.ok.injEq, Except.ok.injEq, Prod.mk.injEq]

/-! ## Fields -/

variable (short : Nat → Nat → ε)

/-- The next `n` bytes; `short` is the error for an input that has fewer. -/
def take (n : Nat) : Reader ε (ByteVec n) := fun bs =>
  if h : n ≤ bs.length then .ok (⟨bs.take n, length_take_of_le h⟩, bs.drop n)
  else .error (short n bs.length)

theorem take_eq_ok {v : ByteVec n} : take short n bs = .ok (v, rest) ↔ bs = v.1 ++ rest := by
  by_cases h : n ≤ bs.length
  · have htake : take short n bs = .ok (⟨bs.take n, length_take_of_le h⟩, bs.drop n) :=
      dif_pos h
    rw [htake]
    constructor
    · intro heq
      cases heq
      exact (take_append_drop n bs).symm
    · rintro rfl
      exact congrArg Except.ok (Prod.ext (Subtype.ext (take_left' v.2)) (drop_left' v.2))
  · have htake : take short n bs = .error (short n bs.length) := dif_neg h
    rw [htake]
    constructor
    · intro h'
      cases h'
    · rintro rfl
      rw [length_append, v.2] at h
      omega

/-- A big-endian number of `k` bytes. -/
def word (k : Nat) : Reader ε Nat := do
  let v ← take short k
  pure (ofBe v.1)

theorem word_eq_ok : word short k bs = .ok (n, rest) ↔ n < 256 ^ k ∧ bs = beBytes k n ++ rest := by
  simp only [word, bind_eq_ok, pure_eq_ok, take_eq_ok]
  constructor
  · rintro ⟨v, mid, rfl, rfl, rfl⟩
    exact ⟨ofBe_lt v.2, by rw [beBytes_ofBe v.2]⟩
  · rintro ⟨hlt, rfl⟩
    exact ⟨⟨beBytes k n, length_beBytes k n⟩, rest, rfl, ofBe_beBytes hlt, rfl⟩

def u8 : Reader ε UInt8 := do
  let n ← word short 1
  pure (UInt8.ofNat n)

def u16 : Reader ε UInt16 := do
  let n ← word short 2
  pure (UInt16.ofNat n)

def u32 : Reader ε UInt32 := do
  let n ← word short 4
  pure (UInt32.ofNat n)

def u64 : Reader ε UInt64 := do
  let n ← word short 8
  pure (UInt64.ofNat n)

def be16 (v : UInt16) : Bytes := beBytes 2 v.toNat

def be32 (v : UInt32) : Bytes := beBytes 4 v.toNat

def be64 (v : UInt64) : Bytes := beBytes 8 v.toNat

@[simp] theorem length_be16 (v : UInt16) : (be16 v).length = 2 := length_beBytes 2 _

@[simp] theorem length_be32 (v : UInt32) : (be32 v).length = 4 := length_beBytes 4 _

@[simp] theorem length_be64 (v : UInt64) : (be64 v).length = 8 := length_beBytes 8 _

/-- Reading a machine word, given as its numbers below `256 ^ k`. -/
theorem word_map_eq_ok {ofNat : Nat → α} {toNat : α → Nat} (hlt : ∀ a, toNat a < 256 ^ k)
    (hof : ∀ a, ofNat (toNat a) = a) (hto : ∀ n, n < 256 ^ k → toNat (ofNat n) = n) :
    (word short k >>= fun n => pure (ofNat n) : Reader ε α) bs = .ok (a, rest) ↔
      bs = beBytes k (toNat a) ++ rest := by
  simp only [bind_eq_ok, pure_eq_ok, word_eq_ok]
  constructor
  · rintro ⟨n, mid, ⟨hn, rfl⟩, rfl, rfl⟩
    rw [hto n hn]
  · rintro rfl
    exact ⟨toNat a, rest, ⟨hlt a, rfl⟩, hof a, rfl⟩

theorem u8_eq_ok {v : UInt8} : u8 short bs = .ok (v, rest) ↔ bs = v :: rest := by
  have h : u8 short bs = .ok (v, rest) ↔ bs = beBytes 1 v.toNat ++ rest :=
    word_map_eq_ok short (fun a => a.toNat_lt) (fun _ => UInt8.ofNat_toNat)
      fun _ hn => UInt8.toNat_ofNat_of_lt' hn
  have hone : beBytes 1 v.toNat = [v] := by
    simp [beBytes, leBytes]
  rw [h, hone, singleton_append]

theorem u16_eq_ok {v : UInt16} : u16 short bs = .ok (v, rest) ↔ bs = be16 v ++ rest :=
  word_map_eq_ok short (fun a => a.toNat_lt) (fun _ => UInt16.ofNat_toNat)
    fun _ hn => UInt16.toNat_ofNat_of_lt' hn

theorem u32_eq_ok {v : UInt32} : u32 short bs = .ok (v, rest) ↔ bs = be32 v ++ rest :=
  word_map_eq_ok short (fun a => a.toNat_lt) (fun _ => UInt32.ofNat_toNat)
    fun _ hn => UInt32.toNat_ofNat_of_lt' hn

theorem u64_eq_ok {v : UInt64} : u64 short bs = .ok (v, rest) ↔ bs = be64 v ++ rest :=
  word_map_eq_ok short (fun a => a.toNat_lt) (fun _ => UInt64.ofNat_toNat)
    fun _ hn => UInt64.toNat_ofNat_of_lt' hn

end

end Codec

end OtapDataflow
