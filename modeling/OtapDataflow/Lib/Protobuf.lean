import OtapDataflow.Lib.Bytes

/-! # The protobuf wire format

A message is a sequence of fields; a field is a tag, which holds a number and a wire type, and a
value whose extent the wire type determines.  Readers take a field off the front of a byte string.

Every reader here is **local** (`Local`): whether it succeeds, and with what, depends only on the
bytes that it takes, so whatever follows them can be replaced.  A whole field therefore stays the
same field in front of any other bytes (`Field.Whole`), and the fields of a concatenation of whole
fields are these fields (`fields_concat`). -/

namespace OtapDataflow.Protobuf

open List Nat Option

/-! ## Local readers -/

section

variable {α β : Type} {read : Bytes → Option (α × Bytes)}

/-- The outcome of a successful read depends only on the bytes that it takes. -/
def Local (read : Bytes → Option (α × Bytes)) : Prop :=
  ∀ bs a rest, read bs = some (a, rest) →
    ∃ used, bs = used ++ rest ∧ ∀ more, read (used ++ more) = some (a, more)

theorem Local.bind {next : α → Bytes → Option (β × Bytes)} (h : Local read)
    (hnext : ∀ a, Local (next a)) : Local fun bs => (read bs).bind fun r => next r.1 r.2 := by
  intro bs b rest hread
  obtain ⟨⟨a, mid⟩, hfirst, hsecond⟩ := bind_eq_some_iff.mp hread
  obtain ⟨used₁, rfl, hmore₁⟩ := h bs a mid hfirst
  obtain ⟨used₂, rfl, hmore₂⟩ := hnext a mid b rest hsecond
  refine ⟨used₁ ++ used₂, (append_assoc _ _ _).symm, fun more => ?_⟩
  show (read (used₁ ++ used₂ ++ more)).bind _ = _
  rw [append_assoc, hmore₁, bind_some]
  exact hmore₂ more

/-- The bytes that a reader has taken. -/
def taken (bs rest : Bytes) : Bytes := bs.take (bs.length - rest.length)

@[simp] theorem taken_append (used rest : Bytes) : taken (used ++ rest) rest = used := by
  simp [taken]

/-- Reading with a record of the bytes taken. -/
theorem Local.withTaken {f : α → Bytes → β} (h : Local read) :
    Local fun bs => (read bs).map fun r => (f r.1 (taken bs r.2), r.2) := by
  intro bs b rest hread
  obtain ⟨⟨a, rest'⟩, hfirst, heq⟩ := map_eq_some_iff.mp hread
  cases heq
  obtain ⟨used, rfl, hmore⟩ := h bs a rest' hfirst
  exact ⟨used, rfl, fun more => by simp [hmore]⟩

/-- A fixed number of bytes. -/
def takeBytes (n : Nat) (bs : Bytes) : Option (Bytes × Bytes) :=
  if n ≤ bs.length then some (bs.take n, bs.drop n) else none

theorem takeBytes_append {n : Nat} {used : Bytes} (h : used.length = n) (more : Bytes) :
    takeBytes n (used ++ more) = some (used, more) := by
  subst h
  simp [takeBytes]

theorem local_takeBytes (n : Nat) : Local (takeBytes n) := by
  intro bs a rest hread
  unfold takeBytes at hread
  split at hread
  · rename_i hle
    obtain ⟨rfl, rfl⟩ := Prod.mk.inj (some.inj hread)
    exact ⟨bs.take n, (take_append_drop n bs).symm, takeBytes_append (length_take_of_le hle)⟩
  · cases hread

end

/-! ## Varints -/

/-- Seven bits a byte, lowest first, in a 64-bit register: an eleventh byte is refused, and what the
tenth holds beyond the register is lost. -/
def readVarintFrom (out shift : Nat) : Bytes → Option (Nat × Bytes)
  | [] => none
  | byte :: rest =>
    if shift < 64 then
      let out := out ||| ((byte.toNat % 128) <<< shift) % 2 ^ 64
      if byte.toNat < 128 then some (out, rest) else readVarintFrom out (shift + 7) rest
    else none

def readVarint (bs : Bytes) : Option (Nat × Bytes) := readVarintFrom 0 0 bs

/-- The varint of a 64-bit number has at most ten bytes. -/
def writeVarintFrom : Nat → Nat → Bytes
  | 0, v => [UInt8.ofNat v]
  | n + 1, v =>
    if 128 ≤ v then UInt8.ofNat (v % 128 + 128) :: writeVarintFrom n (v / 128)
    else [UInt8.ofNat v]

def writeVarint (v : Nat) : Bytes := writeVarintFrom 9 v

def varintLenFrom : Nat → Nat → Nat
  | 0, _ => 1
  | n + 1, v => if 128 ≤ v then varintLenFrom n (v / 128) + 1 else 1

def varintLen (v : Nat) : Nat := varintLenFrom 9 v

theorem length_writeVarintFrom (n v : Nat) : (writeVarintFrom n v).length = varintLenFrom n v := by
  induction n generalizing v with
  | zero => rfl
  | succ n ih =>
    unfold writeVarintFrom varintLenFrom
    split
    · rw [length_cons, ih]
    · rfl

theorem length_writeVarint (v : Nat) : (writeVarint v).length = varintLen v :=
  length_writeVarintFrom 9 v

theorem local_readVarintFrom (out shift : Nat) : Local (readVarintFrom out shift) := by
  intro bs
  induction bs generalizing out shift with
  | nil => exact nofun
  | cons byte bs ih =>
    intro v rest hread
    unfold readVarintFrom at hread
    split at hread
    · rename_i hshift
      split at hread
      · rename_i hlast
        obtain ⟨rfl, rfl⟩ := Prod.mk.inj (some.inj hread)
        exact ⟨[byte], rfl, fun more => by simp [readVarintFrom, hshift, hlast]⟩
      · rename_i hmore
        obtain ⟨used, rfl, hused⟩ := ih _ _ v rest hread
        refine ⟨byte :: used, rfl, fun more => ?_⟩
        rw [cons_append, readVarintFrom, if_pos hshift]
        rw [if_neg hmore, hused]
    · cases hread

theorem local_readVarint : Local readVarint := local_readVarintFrom 0 0

/-- Adding the next seven bits to the register. -/
theorem or_shift {out shift bits : Nat} (hout : out < 2 ^ shift)
    (hfits : bits * 2 ^ shift < 2 ^ 64) :
    out ||| (bits <<< shift) % 2 ^ 64 = out + bits * 2 ^ shift := by
  rw [Nat.shiftLeft_eq, Nat.mod_eq_of_lt hfits, Nat.or_comm, mul_comm bits,
    ← two_pow_add_eq_or_of_lt hout, add_comm]

theorem readVarintFrom_last {out shift v : Nat} (hshift : shift < 64) (hout : out < 2 ^ shift)
    (hfits : v * 2 ^ shift < 2 ^ 64) (hv : v < 128) (more : Bytes) :
    readVarintFrom out shift (UInt8.ofNat v :: more) = some (out + v * 2 ^ shift, more) := by
  have hbyte : (UInt8.ofNat v).toNat = v := by
    rw [UInt8.toNat_ofNat']
    omega
  simp only [readVarintFrom, hshift, if_true, hbyte, mod_eq_of_lt hv]
  rw [if_pos hv, or_shift hout hfits]

theorem readVarintFrom_writeVarintFrom (n : Nat) {out shift v : Nat} (hshift : shift < 64)
    (hout : out < 2 ^ shift) (hfits : v * 2 ^ shift < 2 ^ 64) (hv : v < 128 ^ (n + 1))
    (more : Bytes) :
    readVarintFrom out shift (writeVarintFrom n v ++ more) = some (out + v * 2 ^ shift, more) := by
  induction n generalizing out shift v with
  | zero => exact readVarintFrom_last hshift hout hfits hv more
  | succ n ih =>
    unfold writeVarintFrom
    split
    · have hbyte : (UInt8.ofNat (v % 128 + 128)).toNat = v % 128 + 128 := by
        rw [UInt8.toNat_ofNat']
        omega
      have hmod : (v % 128 + 128) % 128 = v % 128 := by omega
      have hpow : 2 ^ (shift + 7) = 2 ^ shift * 128 := pow_add 2 shift 7
      have hsplit : v * 2 ^ shift = v % 128 * 2 ^ shift + v / 128 * 2 ^ (shift + 7) := by
        conv_lhs => rw [← mod_add_div v 128]
        ring
      have hlow : v % 128 * 2 ^ shift < 2 ^ 64 := by omega
      have hpos : 1 * 2 ^ (shift + 7) ≤ v / 128 * 2 ^ (shift + 7) :=
        mul_le_mul_right _ (by omega)
      -- Another byte is written only if the number reaches beyond these seven bits.
      have hnext : shift + 7 < 64 := by
        have hlt : 2 ^ (shift + 7) < 2 ^ 64 := by omega
        exact (Nat.pow_lt_pow_iff_right (by decide)).mp hlt
      have hregister : out + v % 128 * 2 ^ shift < 2 ^ (shift + 7) := by
        have hbits : v % 128 * 2 ^ shift ≤ 127 * 2 ^ shift :=
          mul_le_mul_right _ (by omega)
        omega
      have hquot : v / 128 < 128 ^ (n + 1) := by
        rw [div_lt_iff_lt_mul (by decide)]
        rwa [pow_succ 128 (n + 1)] at hv
      rw [cons_append, readVarintFrom, if_pos hshift]
      rw [hbyte, hmod, if_neg (by omega), or_shift hout hlow,
        ih hnext hregister (by omega) hquot, hsplit, add_assoc]
    · exact readVarintFrom_last hshift hout hfits (by omega) more

/-- Reading back a 64-bit number, whatever follows it. -/
theorem readVarint_writeVarint {v : Nat} (h : v < 2 ^ 64) (more : Bytes) :
    readVarint (writeVarint v ++ more) = some (v, more) := by
  have hread : readVarintFrom 0 0 (writeVarintFrom 9 v ++ more) = some (0 + v * 2 ^ 0, more) :=
    readVarintFrom_writeVarintFrom 9 (by decide) (by decide) (by omega) (by omega) more
  rwa [zero_add, pow_zero, mul_one] at hread

/-! ## Fields -/

def VARINT : Nat := 0
def FIXED64 : Nat := 1
def LEN : Nat := 2
def FIXED32 : Nat := 5

def readLenDelim (bs : Bytes) : Option (Bytes × Bytes) :=
  (readVarint bs).bind fun r => takeBytes r.1 r.2

theorem local_readLenDelim : Local readLenDelim := local_readVarint.bind local_takeBytes

/-- The bytes of a value; those of a length-delimited one do not include its length. -/
def fieldValue (wire : Nat) (bs : Bytes) : Option (Bytes × Bytes) :=
  if wire = VARINT then (readVarint bs).map fun r => (taken bs r.2, r.2)
  else if wire = LEN then readLenDelim bs
  else if wire = FIXED64 then takeBytes 8 bs
  else if wire = FIXED32 then takeBytes 4 bs
  else none

theorem local_fieldValue (wire : Nat) : Local (fieldValue wire) := by
  unfold fieldValue
  intro bs a rest
  split
  · exact (local_readVarint.withTaken (f := fun _ used => used)) bs a rest
  · split
    · exact local_readLenDelim bs a rest
    · split
      · exact local_takeBytes 8 bs a rest
      · split
        · exact local_takeBytes 4 bs a rest
        · exact nofun

/-- A field as it stands in a message: `full` are all its bytes. -/
structure Field where
  number : Nat
  wire : Nat
  value : Bytes
  full : Bytes
  deriving DecidableEq, Repr

/-- Tag and value. -/
def readTagged (bs : Bytes) : Option ((Nat × Bytes) × Bytes) :=
  (readVarint bs).bind fun tag =>
    (fieldValue (tag.1 % 8) tag.2).map fun value => ((tag.1, value.1), value.2)

def nextField (bs : Bytes) : Option (Field × Bytes) :=
  (readTagged bs).map fun r => (⟨r.1.1 / 8, r.1.1 % 8, r.1.2, taken bs r.2⟩, r.2)

theorem local_readTagged : Local readTagged := by
  have hnext : ∀ tag, Local fun bs =>
      (fieldValue (tag % 8) bs).map fun value => ((tag, value.1), value.2) :=
    fun tag => (local_fieldValue (tag % 8)).withTaken (f := fun value _ => (tag, value))
  exact local_readVarint.bind hnext

namespace Field

/-- The bytes of the field are read as the field, whatever follows them. -/
def Whole (f : Field) : Prop := ∀ more, nextField (f.full ++ more) = some (f, more)

end Field

theorem nextField_nil : nextField [] = none := rfl

variable {bs rest : Bytes} {f : Field} {fs : List Field}

/-- What is read as a field is a whole field. -/
theorem nextField_spec (h : nextField bs = some (f, rest)) : bs = f.full ++ rest ∧ f.Whole := by
  obtain ⟨⟨⟨tag, value⟩, rest'⟩, hread, heq⟩ := map_eq_some_iff.mp h
  cases heq
  obtain ⟨used, rfl, hmore⟩ := local_readTagged bs (tag, value) rest' hread
  refine ⟨by simp, fun more => ?_⟩
  simp [nextField, hmore]

theorem Field.Whole.full_ne_nil (h : f.Whole) : f.full ≠ [] := by
  intro hnil
  have hread := h []
  rw [hnil, append_nil, nextField_nil] at hread
  cases hread

theorem taken_length_le (bs rest : Bytes) : (taken bs rest).length ≤ bs.length := by
  simp [taken]

theorem length_takeBytes_le {n : Nat} {value : Bytes} (h : takeBytes n bs = some (value, rest)) :
    value.length ≤ bs.length := by
  unfold takeBytes at h
  split at h
  · cases h
    exact length_take_le' _ _
  · cases h

/-- A value is a part of the bytes it is read from. -/
theorem length_fieldValue_le {wire : Nat} {value : Bytes}
    (h : fieldValue wire bs = some (value, rest)) : value.length ≤ bs.length := by
  unfold fieldValue at h
  split at h
  · obtain ⟨r, -, heq⟩ := map_eq_some_iff.mp h
    cases heq
    exact taken_length_le bs r.2
  · split at h
    · obtain ⟨⟨len, mid⟩, hlen, htake⟩ := bind_eq_some_iff.mp h
      obtain ⟨used, rfl, -⟩ := local_readVarint bs len mid hlen
      have hle := length_takeBytes_le htake
      rw [length_append]
      exact le_trans hle (le_add_left _ _)
    · split at h
      · exact length_takeBytes_le h
      · split at h
        · exact length_takeBytes_le h
        · cases h

theorem Field.Whole.length_value_le (h : f.Whole) : f.value.length ≤ f.full.length := by
  have hread := h []
  rw [append_nil] at hread
  obtain ⟨⟨⟨tag, value⟩, rest⟩, htagged, heq⟩ := map_eq_some_iff.mp hread
  obtain ⟨⟨tag', mid⟩, htag, hvalue⟩ := bind_eq_some_iff.mp htagged
  obtain ⟨⟨value', rest'⟩, hfield, heq'⟩ := map_eq_some_iff.mp hvalue
  obtain ⟨used, hused, -⟩ := local_readVarint f.full tag' mid htag
  have hle := length_fieldValue_le hfield
  have hsame : f.value = value' := by
    rw [← (Prod.mk.inj heq).1]
    exact (Prod.mk.inj (Prod.mk.inj heq').1).2.symm
  rw [hsame, hused, length_append]
  exact le_trans hle (le_add_left _ _)

/-- A length-delimited field. -/
def writeLenDelimited (number : Nat) (payload : Bytes) : Bytes :=
  writeVarint (number * 8 + LEN) ++ writeVarint payload.length ++ payload

def wrappedLen (number payloadLen : Nat) : Nat :=
  varintLen (number * 8 + LEN) + varintLen payloadLen + payloadLen

theorem length_writeLenDelimited (number : Nat) (payload : Bytes) :
    (writeLenDelimited number payload).length = wrappedLen number payload.length := by
  simp only [writeLenDelimited, wrappedLen, length_append, length_writeVarint]

/-- The field that `writeLenDelimited` writes. -/
def lenDelimited (number : Nat) (payload : Bytes) : Field :=
  ⟨number, LEN, payload, writeLenDelimited number payload⟩

theorem whole_lenDelimited {number : Nat} {payload : Bytes} (hnumber : number * 8 + LEN < 2 ^ 64)
    (hpayload : payload.length < 2 ^ 64) : (lenDelimited number payload).Whole := by
  intro more
  have htag : readVarint (writeLenDelimited number payload ++ more) =
      some (number * 8 + LEN, writeVarint payload.length ++ (payload ++ more)) := by
    rw [writeLenDelimited, append_assoc, append_assoc]
    exact readVarint_writeVarint hnumber _
  have hwire : (number * 8 + LEN) % 8 = LEN := by
    rw [LEN]
    omega
  have hnum : (number * 8 + LEN) / 8 = number := by
    omega
  have hvalue : fieldValue LEN (writeVarint payload.length ++ (payload ++ more)) =
      some (payload, more) := by
    show readLenDelim _ = _
    rw [readLenDelim, readVarint_writeVarint hpayload, bind_some]
    exact takeBytes_append rfl more
  have hread : readTagged (writeLenDelimited number payload ++ more) =
      some ((number * 8 + LEN, payload), more) := by
    rw [readTagged, htag, bind_some]
    rw [hwire, hvalue]
    rfl
  show nextField (writeLenDelimited number payload ++ more) = _
  rw [nextField, hread, map_some, taken_append]
  rw [hwire, hnum]
  rfl

/-! ## Scanning a message -/

/-- The fields of a message up to the first that cannot be read, and the bytes from there on. -/
def scan : Nat → Bytes → List Field × Bytes
  | 0, bs => ([], bs)
  | fuel + 1, bs =>
    match nextField bs with
    | none => ([], bs)
    | some (f, rest) => (f :: (scan fuel rest).1, (scan fuel rest).2)

/-- A field has at least one byte, so as many rounds as bytes are enough. -/
def fields (bs : Bytes) : List Field × Bytes := scan bs.length bs

/-- The bytes of a list of fields. -/
def concat (fs : List Field) : Bytes := fs.flatMap (·.full)

@[simp] theorem concat_nil : concat [] = [] := rfl

@[simp] theorem concat_cons (f : Field) (fs : List Field) :
    concat (f :: fs) = f.full ++ concat fs := rfl

@[simp] theorem concat_append (fs gs : List Field) : concat (fs ++ gs) = concat fs ++ concat gs :=
  flatMap_append

theorem scan_of_none (h : nextField bs = none) (fuel : Nat) : scan fuel bs = ([], bs) := by
  cases fuel with
  | zero => rfl
  | succ fuel => simp only [scan, h]

section

variable (hfs : ∀ f ∈ fs, f.Whole)

include hfs

/-- Scanning whole fields and then bytes that are no field. -/
theorem scan_concat {tail : Bytes} (htail : nextField tail = none)
    {fuel : Nat} (hfuel : fs.length ≤ fuel) : scan fuel (concat fs ++ tail) = (fs, tail) := by
  induction fs generalizing fuel with
  | nil => exact scan_of_none htail fuel
  | cons f fs ih =>
    cases fuel with
    | zero => exact absurd hfuel (not_succ_le_zero _)
    | succ fuel =>
      have hread : nextField (concat (f :: fs) ++ tail) = some (f, concat fs ++ tail) := by
        rw [concat_cons, append_assoc]
        exact hfs f mem_cons_self _
      have hrest := ih (fun g hg => hfs g (mem_cons_of_mem f hg))
        (le_of_succ_le_succ hfuel)
      simp only [scan, hread, hrest]

theorem length_le_concat : fs.length ≤ (concat fs).length := by
  induction fs with
  | nil => exact le_refl _
  | cons f fs ih =>
    have hf := length_pos_of_ne_nil (hfs f mem_cons_self).full_ne_nil
    have hrest := ih fun g hg => hfs g (mem_cons_of_mem f hg)
    rw [concat_cons, length_append, length_cons]
    omega

/-- **The fields of a concatenation of whole fields are these fields.** -/
theorem fields_concat_append {tail : Bytes}
    (htail : nextField tail = none) : fields (concat fs ++ tail) = (fs, tail) := by
  refine scan_concat hfs htail ?_
  rw [length_append]
  exact le_add_right_of_le (length_le_concat hfs)

theorem fields_concat : fields (concat fs) = (fs, []) := by
  have h := fields_concat_append hfs nextField_nil
  rwa [append_nil] at h

end

theorem scan_spec {fuel : Nat} (hfuel : bs.length ≤ fuel) :
    bs = concat (scan fuel bs).1 ++ (scan fuel bs).2 ∧ (∀ f ∈ (scan fuel bs).1, f.Whole) ∧
      nextField (scan fuel bs).2 = none := by
  induction fuel generalizing bs with
  | zero =>
    obtain rfl : bs = [] := eq_nil_of_length_eq_zero (le_zero.mp hfuel)
    exact ⟨rfl, forall_mem_nil _, nextField_nil⟩
  | succ fuel ih =>
    cases hread : nextField bs with
    | none =>
      rw [scan_of_none hread]
      exact ⟨rfl, forall_mem_nil _, hread⟩
    | some r =>
      obtain ⟨f, rest⟩ := r
      obtain ⟨rfl, hwhole⟩ := nextField_spec hread
      have hpos := length_pos_of_ne_nil hwhole.full_ne_nil
      rw [length_append] at hfuel
      obtain ⟨hrest, hfs, htail⟩ := @ih rest (by omega)
      simp only [scan, hread]
      refine ⟨?_, forall_mem_cons.mpr ⟨hwhole, hfs⟩, htail⟩
      rw [concat_cons, append_assoc, ← hrest]

/-- **Every byte string is a sequence of whole fields and a tail that is no field.** -/
theorem fields_spec (bs : Bytes) : bs = concat (fields bs).1 ++ (fields bs).2 ∧
    (∀ f ∈ (fields bs).1, f.Whole) ∧ nextField (fields bs).2 = none :=
  scan_spec (le_refl _)

end OtapDataflow.Protobuf
