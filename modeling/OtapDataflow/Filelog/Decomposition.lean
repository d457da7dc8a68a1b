import OtapDataflow.Filelog.Decoder
import OtapDataflow.Lib.Frames

/-! # The units of a source

What the decoder is for: cutting a byte stream into units.  `IsUnit` says what the unit at the
start of a stream is, encoding by encoding: for UTF-8 a well-formed sequence or a maximal
subpart, for UTF-16 a scalar, a surrogate pair or an unpaired surrogate, and for a stream that
ends inside a unit the rest of it.  `units` computes the units one byte at a time, and they
are a decomposition of the stream (`units_decompose`). -/

namespace OtapDataflow.Filelog

open Bytes Frames List Utf8 Nat

/-! ## What a unit is -/

/-- The unit at the start of a UTF-8 stream. -/
def IsUtf8Unit (bs unit : Bytes) (value : Option DecodedValue) : Prop :=
  (∃ n c, unit = bs.take n ∧ decode? unit = some c ∧ value = some (.scalar c)) ∨
    value = none ∧ (∀ m, decode? (bs.take m) = none) ∧
      ∃ n, unit = bs.take n ∧ n ≤ bs.length ∧ (n = 1 ∨ Utf8.Subpart unit) ∧
        ∀ m, n < m → m ≤ bs.length → ¬ Utf8.Subpart (bs.take m)

/-- The unit at the start of a UTF-16 stream: a scalar, a pair, a surrogate that is not part of
a pair, or the end of the stream inside a unit. -/
def IsUtf16Unit (endian : Endian) (bs unit : Bytes) (value : Option DecodedValue) : Prop :=
  (∃ a b rest, bs = a :: b :: rest ∧ unit = [a, b] ∧
    isHighSurrogate (endian.decode a b) = false ∧ isLowSurrogate (endian.decode a b) = false ∧
    value = some (.scalar (Char.ofNat (endian.decode a b)))) ∨
  (∃ a b c d rest, bs = a :: b :: c :: d :: rest ∧ unit = [a, b, c, d] ∧
    isHighSurrogate (endian.decode a b) = true ∧ isLowSurrogate (endian.decode c d) = true ∧
    value = some (.scalar (surrogatePair (endian.decode a b) (endian.decode c d)))) ∨
  (∃ a b rest, bs = a :: b :: rest ∧ unit = [a, b] ∧ value = none ∧
    (isLowSurrogate (endian.decode a b) = true ∨
      isHighSurrogate (endian.decode a b) = true ∧
        ∃ c d rest', rest = c :: d :: rest' ∧ isLowSurrogate (endian.decode c d) = false)) ∨
  (unit = bs ∧ value = none ∧
    (bs.length = 1 ∨
      ∃ a b rest, bs = a :: b :: rest ∧ isHighSurrogate (endian.decode a b) = true ∧
        rest.length < 2))

/-- The unit at the start of a stream. -/
def IsUnit : Encoding → Bytes → Bytes → Option DecodedValue → Prop
  | .utf8, bs, unit, value => IsUtf8Unit bs unit value
  | .ascii, bs, unit, value => ∃ b rest, bs = b :: rest ∧ unit = [b] ∧
      value = if b ≤ 0x7f then some (.scalar (Char.ofNat b.toNat)) else none
  | .utf16Le, bs, unit, value => IsUtf16Unit .little bs unit value
  | .utf16Be, bs, unit, value => IsUtf16Unit .big bs unit value
  | .raw, bs, unit, value => ∃ b rest, bs = b :: rest ∧ unit = [b] ∧ value = some (.rawByte b)

/-- The units of a stream, in order and without gaps. -/
def Decomposes (encoding : Encoding) : Bytes → List (Bytes × Option DecodedValue) → Prop
  | bs, [] => bs = []
  | bs, (unit, value) :: us =>
    unit ≠ [] ∧ IsUnit encoding bs unit value ∧
      ∃ rest, bs = unit ++ rest ∧ Decomposes encoding rest us

/-! ## Finding the units -/

/-- What a string of bytes is that starts a unit. -/
inductive Verdict where
  | unit (value : DecodedValue)
  | incomplete
  | malformed (len : Nat)
  deriving DecidableEq, Repr

def utf16Verdict (endian : Endian) : Bytes → Verdict
  | [a, b] =>
    if isHighSurrogate (endian.decode a b) then .incomplete
    else if isLowSurrogate (endian.decode a b) then .malformed 2
    else .unit (.scalar (Char.ofNat (endian.decode a b)))
  | [a, b, c, d] =>
    if isLowSurrogate (endian.decode c d) then
      .unit (.scalar (surrogatePair (endian.decode a b) (endian.decode c d)))
    else .malformed 2
  | _ => .incomplete

def classify : Encoding → Bytes → Verdict
  | .utf8, bs =>
    match first bs with
    | .scalar c _ => .unit (.scalar c)
    | .malformed len => .malformed len
    | .incomplete => .incomplete
  | .ascii, b :: _ =>
    if b ≤ 0x7f then .unit (.scalar (Char.ofNat b.toNat)) else .malformed 1
  | .ascii, [] => .incomplete
  | .utf16Le, bs => utf16Verdict .little bs
  | .utf16Be, bs => utf16Verdict .big bs
  | .raw, b :: _ => .unit (.rawByte b)
  | .raw, [] => .incomplete

/-- Read bytes until the first unit is known; the second component is what is left. -/
def scan (encoding : Encoding) : Bytes → Bytes → Option ((Bytes × Option DecodedValue) × Bytes)
  | _, [] => none
  | carry, b :: rest =>
    match classify encoding (carry ++ [b]) with
    | .unit value => some ((carry ++ [b], some value), rest)
    | .malformed len => some (((carry ++ [b]).take len, none), (carry ++ [b]).drop len ++ rest)
    | .incomplete => scan encoding (carry ++ [b]) rest

/-- All units; what is left at the end without being a unit is one malformed unit. -/
def unitsFuel (encoding : Encoding) : Nat → Bytes → List (Bytes × Option DecodedValue)
  | 0, _ => []
  | fuel + 1, bs =>
    if bs = [] then []
    else
      match scan encoding [] bs with
      | none => [(bs, none)]
      | some (unit, rest) => unit :: unitsFuel encoding fuel rest

variable (encoding : Encoding)

def units (bs : Bytes) : List (Bytes × Option DecodedValue) :=
  unitsFuel encoding bs.length bs

/-! ## Scanning -/

variable {unit : Bytes × Option DecodedValue}

section

variable {encoding : Encoding} {carry bs rest : Bytes}

/-- A scan can be cut anywhere before its end. -/
theorem scan_append (h : scan encoding carry bs = none) (more : Bytes) :
    scan encoding carry (bs ++ more) = scan encoding (carry ++ bs) more := by
  induction bs generalizing carry with
  | nil => rw [nil_append, append_nil]
  | cons b bs ih =>
    rw [cons_append, scan]
    rw [scan] at h
    cases hc : classify encoding (carry ++ [b]) with
    | unit | malformed => simp [hc] at h
    | incomplete =>
      simp only [hc] at h ⊢
      rw [ih h, append_assoc, singleton_append]

/-- A scan that has ended does not look further. -/
theorem scan_append_some (h : scan encoding carry bs = some (unit, rest)) (more : Bytes) :
    scan encoding carry (bs ++ more) = some (unit, rest ++ more) := by
  induction bs generalizing carry with
  | nil => cases h
  | cons b bs ih =>
    rw [cons_append, scan]
    rw [scan] at h
    cases hc : classify encoding (carry ++ [b]) with
    | unit v =>
      simp only [hc, Option.some.injEq, Prod.mk.injEq] at h ⊢
      exact ⟨h.1, by rw [h.2]⟩
    | malformed n =>
      simp only [hc, Option.some.injEq, Prod.mk.injEq] at h ⊢
      exact ⟨h.1, by rw [← h.2, append_assoc]⟩
    | incomplete =>
      simp only [hc] at h ⊢
      exact ih h

/-- **Where a scan ends.**  It reads bytes that leave the unit open and then one that does
not. -/
theorem scan_split (h : scan encoding carry bs = some (unit, rest)) :
    ∃ read b later, bs = read ++ b :: later ∧ scan encoding carry read = none ∧
      ((∃ v, classify encoding (carry ++ read ++ [b]) = .unit v ∧
          unit = (carry ++ read ++ [b], some v) ∧ rest = later) ∨
        ∃ n, classify encoding (carry ++ read ++ [b]) = .malformed n ∧
          unit = ((carry ++ read ++ [b]).take n, none) ∧
          rest = (carry ++ read ++ [b]).drop n ++ later) := by
  induction bs generalizing carry with
  | nil => cases h
  | cons b bs ih =>
    rw [scan] at h
    cases hc : classify encoding (carry ++ [b]) with
    | unit v =>
      simp only [hc, Option.some.injEq, Prod.mk.injEq] at h
      refine ⟨[], b, bs, rfl, rfl, .inl ⟨v, ?_⟩⟩
      rw [append_nil]
      exact ⟨hc, h.1.symm, h.2.symm⟩
    | malformed n =>
      simp only [hc, Option.some.injEq, Prod.mk.injEq] at h
      refine ⟨[], b, bs, rfl, rfl, .inr ⟨n, ?_⟩⟩
      rw [append_nil]
      exact ⟨hc, h.1.symm, h.2.symm⟩
    | incomplete =>
      simp only [hc] at h
      obtain ⟨read, b', later, rfl, hread, hend⟩ := ih h
      refine ⟨b :: read, b', later, rfl, ?_, ?_⟩
      · rwa [scan, hc]
      · rwa [append_assoc carry, singleton_append] at hend

/-- The bytes of an open unit: a scan of them has not ended. -/
def Carry (encoding : Encoding) (carry : Bytes) : Prop := scan encoding [] carry = none

theorem Carry.nil (encoding : Encoding) : Carry encoding [] := rfl

theorem Carry.scan (h : Carry encoding carry) (more : Bytes) :
    scan encoding [] (carry ++ more) = scan encoding carry more := by
  rw [scan_append h, nil_append]

theorem Carry.snoc (h : Carry encoding carry) {b : UInt8}
    (hb : classify encoding (carry ++ [b]) = .incomplete) : Carry encoding (carry ++ [b]) := by
  rw [Carry, h.scan, Filelog.scan, hb]
  rfl

/-- A unit that is open is open at every earlier byte. -/
theorem Carry.of_append (more : Bytes) (h : Carry encoding (carry ++ more)) :
    Carry encoding carry := by
  cases hscan : Filelog.scan encoding [] carry with
  | none => exact hscan
  | some r =>
    rw [Carry, scan_append_some hscan] at h
    cases h

/-- The bytes of an open unit are recognised as such. -/
theorem Carry.classify (h : Carry encoding carry) (hne : carry ≠ []) :
    classify encoding carry = .incomplete := by
  rcases eq_nil_or_concat carry with hnil | ⟨init, b, hlast⟩
  · exact absurd hnil hne
  · rw [concat_eq_append] at hlast
    rw [hlast] at h ⊢
    have hinit : Carry encoding init := h.of_append _
    rw [Carry, hinit.scan, Filelog.scan] at h
    cases hc : Filelog.classify encoding (init ++ [b]) with
    | unit | malformed => simp [hc] at h
    | incomplete => rfl

end

/-! ## Units are found -/

variable {bs rest : Bytes}

section

variable {encoding : Encoding} {unit : Bytes} {value : Option DecodedValue}

variable {endian : Endian}

theorem utf16Verdict_malformed {n : Nat} (h : utf16Verdict endian bs = .malformed n) :
    n = 2 ∧ 2 ≤ bs.length := by
  unfold utf16Verdict at h
  split at h
  · split at h
    · cases h
    · split at h
      · exact ⟨(Verdict.malformed.inj h).symm, le_refl _⟩
      · cases h
  · split at h
    · cases h
    · exact ⟨(Verdict.malformed.inj h).symm, by simp⟩
  · cases h

theorem first_of_malformed {n : Nat} (h : classify .utf8 bs = .malformed n) :
    first bs = .malformed n := by
  simp only [classify] at h
  cases hf : first bs <;> simp_all

/-- A malformed unit has at least one byte, and no more than were read. -/
theorem classify_malformed {n : Nat} (h : classify encoding bs = .malformed n) :
    0 < n ∧ n ≤ bs.length := by
  cases encoding with
  | utf8 =>
    obtain ⟨hpos, hle, -⟩ := subpart_of_first (first_of_malformed h)
    exact ⟨hpos, hle⟩
  | ascii =>
    cases bs with
    | nil => cases h
    | cons b bs =>
      simp only [classify] at h
      split at h
      · cases h
      · exact (Verdict.malformed.inj h) ▸ ⟨one_pos, by simp⟩
  | utf16Le | utf16Be =>
    obtain ⟨rfl, hle⟩ := utf16Verdict_malformed h
    exact ⟨two_pos, hle⟩
  | raw =>
    cases bs with
    | nil | cons => cases h

/-- A scan returns the bytes it has read, the unit first. -/
theorem scan_bytes {carry : Bytes} (h : scan encoding carry bs = some ((unit, value), rest)) :
    unit ++ rest = carry ++ bs ∧ unit ≠ [] := by
  obtain ⟨read, b, later, rfl, -, ⟨v, -, hunit, rfl⟩ | ⟨n, hn, hunit, rfl⟩⟩ := scan_split h
  · cases hunit
    exact ⟨by simp, by simp⟩
  · cases hunit
    obtain ⟨hpos, hle⟩ := classify_malformed hn
    refine ⟨?_, ?_⟩
    · rw [← append_assoc, take_append_drop]
      simp
    · intro hnil
      have := congrArg List.length hnil
      rw [length_take] at this
      simp only [length_nil] at this
      omega

/-- The first unit of a stream, and what is left of it. -/
theorem scan_first {u : Bytes × Option DecodedValue} (h : scan encoding [] bs = some (u, rest)) :
    bs = u.1 ++ rest ∧ u.1 ≠ [] ∧ rest.length < bs.length := by
  obtain ⟨hbytes, hne⟩ := scan_bytes h
  rw [nil_append] at hbytes
  refine ⟨hbytes.symm, hne, ?_⟩
  rw [← hbytes, length_append]
  exact Nat.lt_add_of_pos_left (length_pos_iff.mpr hne)

theorem Carry.first_utf8 (h : Carry .utf8 bs) : first bs = .incomplete := by
  by_cases hnil : bs = []
  · rw [hnil]
    rfl
  · have hc := h.classify hnil
    simp only [Filelog.classify] at hc
    cases hf : first bs with
    | scalar | malformed => simp [hf] at hc
    | incomplete => rfl

theorem isUtf8Unit_of_scan (h : scan .utf8 [] bs = some ((unit, value), rest)) :
    IsUtf8Unit bs unit value := by
  obtain ⟨read, b, later, rfl, hread, hend⟩ := scan_split h
  rw [nil_append] at hend
  have hopen : first read = .incomplete := Carry.first_utf8 hread
  have hbytes : read ++ b :: later = (read ++ [b]) ++ later := by simp
  rcases hend with ⟨v, hv, hunit, -⟩ | ⟨n, hn, hunit, -⟩
  · cases hunit
    -- the last byte completes the sequence, so the sequence is all that was read
    obtain ⟨c, hf, rfl⟩ : ∃ c, first (read ++ [b]) = .scalar c (read.length + 1) ∧
        v = .scalar c := by
      rcases first_snoc hopen b with ⟨c, hf⟩ | hf | ⟨-, hf⟩ | ⟨-, hf⟩
      · exact ⟨c, hf, by simpa [classify, hf] using hv.symm⟩
      all_goals simp [classify, hf] at hv
    have hall : (read ++ [b]).take (read.length + 1) = read ++ [b] := take_of_length_le (by simp)
    obtain ⟨hd, -, -⟩ := decode_of_first hf
    rw [hall] at hd
    refine .inl ⟨read.length + 1, c, ?_, hd, rfl⟩
    rw [hbytes, take_append_of_le_length (by simp), hall]
  · cases hunit
    have hf := first_of_malformed hn
    have hfirst : first (read ++ b :: later) = .malformed n := by
      rw [hbytes, first_append later (by rw [hf]; exact nofun), hf]
    obtain ⟨-, hle, hnone, hsub, hmax⟩ := subpart_of_first hfirst
    have htake : (read ++ [b]).take n = (read ++ b :: later).take n := by
      rw [hbytes, take_append_of_le_length (subpart_of_first hf).2.1]
    rw [htake]
    exact .inr ⟨rfl, hnone, n, rfl, hle, hsub, hmax⟩

theorem isUtf8Unit_of_carry (h : Carry .utf8 bs) (hne : bs ≠ []) : IsUtf8Unit bs bs none := by
  obtain ⟨hsub, hnone⟩ := subpart_of_incomplete h.first_utf8 hne
  refine .inr ⟨rfl, hnone, bs.length, (take_length).symm, le_refl _, .inr hsub, ?_⟩
  omega

section

variable (henc : ∀ bs, classify encoding bs = utf16Verdict endian bs)

include henc

/-- The open units of UTF-16: nothing, one byte, or a high surrogate and at most one byte. -/
theorem carry_utf16 {carry : Bytes} (h : Carry encoding carry) :
    carry = [] ∨ (∃ a, carry = [a]) ∨
      ∃ a b tail, carry = a :: b :: tail ∧ isHighSurrogate (endian.decode a b) = true ∧
        tail.length < 2 := by
  rcases carry with - | ⟨a, - | ⟨b, tail⟩⟩
  · exact .inl rfl
  · exact .inr (.inl ⟨a, rfl⟩)
  · refine .inr (.inr ⟨a, b, tail, rfl, ?_, ?_⟩)
    · have hpair : Carry encoding [a, b] := Carry.of_append tail h
      have hc := hpair.classify (cons_ne_nil _ _)
      rw [henc, utf16Verdict] at hc
      split at hc
      · assumption
      · split at hc <;> cases hc
    · rcases tail with - | ⟨c, - | ⟨d, tail⟩⟩
      · exact two_pos
      · exact one_lt_two
      · -- two more bytes are a code unit, which ends the unit
        have hquad : Carry encoding [a, b, c, d] := Carry.of_append tail h
        have hc := hquad.classify (cons_ne_nil _ _)
        rw [henc, utf16Verdict] at hc
        split at hc <;> cases hc

theorem isUtf16Unit_of_scan
    (h : scan encoding [] bs = some ((unit, value), rest)) : IsUtf16Unit endian bs unit value := by
  obtain ⟨read, b, later, rfl, hread, hend⟩ := scan_split h
  rw [nil_append, henc] at hend
  rcases carry_utf16 henc hread with rfl | ⟨a, rfl⟩ | ⟨a, a', tail, rfl, hhigh, htail⟩
  · rcases hend with ⟨v, ⟨⟩, -⟩ | ⟨n, ⟨⟩, -⟩
  · rcases hend with ⟨v, hv, hunit, -⟩ | ⟨n, hn, hunit, -⟩
    · cases hunit
      simp only [singleton_append, utf16Verdict] at hv
      split at hv
      · cases hv
      rename_i hnhigh
      split at hv
      · cases hv
      rename_i hnlow
      refine .inl ⟨a, b, later, rfl, rfl, by simpa using hnhigh, by simpa using hnlow, ?_⟩
      rw [Verdict.unit.inj hv]
    · cases hunit
      simp only [singleton_append, utf16Verdict] at hn
      split at hn
      · cases hn
      split at hn
      · rename_i hlow
        obtain rfl := Verdict.malformed.inj hn
        exact .inr (.inr (.inl ⟨a, b, later, rfl, rfl, rfl, .inl hlow⟩))
      · cases hn
  · rcases tail with - | ⟨c, - | ⟨d, tail⟩⟩
    · rcases hend with ⟨v, ⟨⟩, -⟩ | ⟨n, ⟨⟩, -⟩
    · rcases hend with ⟨v, hv, hunit, -⟩ | ⟨n, hn, hunit, -⟩
      · cases hunit
        simp only [cons_append, nil_append, utf16Verdict] at hv
        split at hv
        · rename_i hlow
          refine .inr (.inl ⟨a, a', c, b, later, rfl, rfl, hhigh, hlow, ?_⟩)
          rw [Verdict.unit.inj hv]
        · cases hv
      · cases hunit
        simp only [cons_append, nil_append, utf16Verdict] at hn
        split at hn
        · cases hn
        · rename_i hlow
          obtain rfl := Verdict.malformed.inj hn
          exact .inr (.inr (.inl ⟨a, a', c :: b :: later, rfl, rfl, rfl,
            .inr ⟨hhigh, c, b, later, rfl, by simpa using hlow⟩⟩))
    · simp only [length_cons] at htail
      omega

theorem isUtf16Unit_of_carry
    (h : Carry encoding bs) (hne : bs ≠ []) : IsUtf16Unit endian bs bs none := by
  refine .inr (.inr (.inr ⟨rfl, rfl, ?_⟩))
  rcases carry_utf16 henc h with rfl | ⟨a, rfl⟩ | hhigh
  · exact absurd rfl hne
  · exact .inl rfl
  · exact .inr hhigh

end

/-- A unit that is found is the unit at the start of the stream. -/
theorem isUnit_of_scan (h : scan encoding [] bs = some ((unit, value), rest)) :
    IsUnit encoding bs unit value := by
  cases encoding with
  | utf8 => exact isUtf8Unit_of_scan h
  | utf16Le | utf16Be => exact isUtf16Unit_of_scan (fun _ => rfl) h
  | ascii =>
    cases bs with
    | nil => cases h
    | cons b bs =>
      simp only [scan, classify, nil_append] at h
      by_cases hb : b ≤ 0x7f
      · simp only [hb, if_true, Option.some.injEq, Prod.mk.injEq] at h
        exact ⟨b, bs, rfl, h.1.1.symm, by rw [if_pos hb]; exact h.1.2.symm⟩
      · simp only [hb, if_false, Option.some.injEq, Prod.mk.injEq] at h
        exact ⟨b, bs, rfl, h.1.1.symm, by rw [if_neg hb]; exact h.1.2.symm⟩
  | raw =>
    cases bs with
    | nil => cases h
    | cons b bs =>
      simp only [scan, classify, nil_append, Option.some.injEq, Prod.mk.injEq] at h
      exact ⟨b, bs, rfl, h.1.1.symm, h.1.2.symm⟩

/-- A unit that is still open at the end of the stream is the rest of the stream. -/
theorem isUnit_of_carry (h : Carry encoding bs) (hne : bs ≠ []) : IsUnit encoding bs bs none := by
  cases encoding with
  | utf8 => exact isUtf8Unit_of_carry h hne
  | utf16Le | utf16Be => exact isUtf16Unit_of_carry (fun _ => rfl) h hne
  | ascii =>
    cases bs with
    | nil => exact absurd rfl hne
    | cons b bs =>
      simp only [Carry, scan, classify, nil_append] at h
      split at h <;> rename_i hv <;> split at hv <;> simp_all
  | raw =>
    cases bs with
    | nil => exact absurd rfl hne
    | cons b bs =>
      cases h

/-- **The units are a decomposition of the stream.** -/
theorem units_decompose (encoding : Encoding) (bs : Bytes) :
    Decomposes encoding bs (units encoding bs) := by
  suffices key : ∀ fuel bs, bs.length ≤ fuel → Decomposes encoding bs
      (unitsFuel encoding fuel bs) from
    key bs.length bs (le_refl _)
  intro fuel
  induction fuel with
  | zero =>
    intro bs hlen
    exact eq_nil_of_length_eq_zero (le_zero.mp hlen)
  | succ fuel ih =>
    intro bs hlen
    rw [unitsFuel]
    by_cases hnil : bs = []
    · rwa [if_pos hnil]
    · rw [if_neg hnil]
      cases hscan : scan encoding [] bs with
      | none =>
        exact ⟨hnil, isUnit_of_carry hscan hnil, [], (append_nil _).symm, rfl⟩
      | some r =>
        obtain ⟨hbytes, hne, hlt⟩ := scan_first hscan
        exact ⟨hne, isUnit_of_scan hscan, r.2, hbytes, ih r.2 (by omega)⟩

end

/-! ## The events of a source -/

/-- The event for a unit at a position. -/
def unitEvent (e : Nat × (Bytes × Option DecodedValue)) : DecodeEvent :=
  .unit ⟨e.1, e.1 + e.2.1.length⟩ e.2.1 (e.2.2.getD (.scalar '�')) e.2.2.isNone

/-- The events of a stream that starts at an offset. -/
def eventsFrom (offset : Nat) (bs : Bytes) : List DecodeEvent :=
  (place (fun u => u.1.length) offset (units encoding bs)).map unitEvent

/-- The event for a byte-order mark at the start of a new stream. -/
def bomEvent (kind : BomKind) : DecodeEvent :=
  if kind.matches encoding then .strippedBom ⟨0, kind.bytes.length⟩ kind.bytes
  else unitEvent (0, (kind.bytes, none))

/-- The events of a source.  At the start of a new text stream a byte-order mark is stripped,
or malformed as a whole if it is that of another encoding; and a stream that ends inside a
byte-order mark is one malformed unit. -/
def decode (start : DecodeStart) (bs : Bytes) : List DecodeEvent :=
  if start = .newStream ∧ encoding ≠ .raw then
    match BomKind.all.find? fun kind => kind.bytes.isPrefixOf bs with
    | some kind =>
      bomEvent encoding kind :: eventsFrom encoding kind.bytes.length (bs.drop kind.bytes.length)
    | none =>
      if bs ≠ [] ∧ BomKind.all.any fun kind => bs.isPrefixOf kind.bytes then
        [unitEvent (0, (bs, none))]
      else eventsFrom encoding 0 bs
  else eventsFrom encoding start.offset bs

section

variable {encoding : Encoding} {offset : Nat}

/-- More fuel than bytes makes no difference. -/
theorem unitsFuel_eq (encoding : Encoding) {fuel fuel' : Nat} (h : bs.length ≤ fuel)
    (h' : bs.length ≤ fuel') : unitsFuel encoding fuel bs = unitsFuel encoding fuel' bs := by
  induction fuel generalizing bs fuel' with
  | zero =>
    obtain rfl := eq_nil_of_length_eq_zero (le_zero.mp h)
    cases fuel' <;> rfl
  | succ fuel ih =>
    by_cases hnil : bs = []
    · cases fuel' <;> simp [unitsFuel, hnil]
    · have hpos := length_pos_iff.mpr hnil
      obtain ⟨fuel', rfl⟩ := exists_eq_succ_of_ne_zero (by omega : fuel' ≠ 0)
      rw [unitsFuel, unitsFuel, if_neg hnil, if_neg hnil]
      cases hscan : scan encoding [] bs with
      | none => rfl
      | some r =>
        obtain ⟨-, -, hlt⟩ := scan_first hscan
        dsimp only
        rw [ih (by omega) (by omega : r.2.length ≤ fuel')]

theorem units_of_scan (h : scan encoding [] bs = some (unit, rest)) :
    units encoding bs = unit :: units encoding rest := by
  obtain ⟨-, -, hlt⟩ := scan_first h
  have hnil : bs ≠ [] := by
    rintro rfl
    cases h
  obtain ⟨fuel, hfuel⟩ := exists_eq_succ_of_ne_zero (by omega : bs.length ≠ 0)
  rw [units, hfuel, unitsFuel, if_neg hnil, h]
  exact congrArg (unit :: ·) (unitsFuel_eq encoding (by omega) (le_refl _))

theorem eventsFrom_of_scan (h : scan encoding [] bs = some (unit, rest)) :
    eventsFrom encoding offset bs =
      unitEvent (offset, unit) :: eventsFrom encoding (offset + unit.1.length) rest := by
  rw [eventsFrom, units_of_scan h]
  rfl

@[simp] theorem eventsFrom_nil : eventsFrom encoding offset [] = [] := rfl

/-- The events of a stream that ends inside its first unit. -/
theorem eventsFrom_of_carry (h : Carry encoding bs) (hne : bs ≠ []) :
    eventsFrom encoding offset bs = [unitEvent (offset, (bs, none))] := by
  have hpos := length_pos_iff.mpr hne
  obtain ⟨fuel, hfuel⟩ := exists_eq_succ_of_ne_zero (by omega : bs.length ≠ 0)
  rw [eventsFrom, units, hfuel, unitsFuel, if_neg hne, show scan encoding [] bs = none from h]
  rfl

end

end OtapDataflow.Filelog
