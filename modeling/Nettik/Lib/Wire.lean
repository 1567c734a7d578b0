import Nettik.Lib.ByteMem

/-!
# Tagged fields

Base-128 numbers and the messages made of numbered fields, each a number or a byte string. A field
with its default value is left out.

* `varint`, `readVarint`: `readVarint_varint`;
* `Field`, `encode`, `decode`: **`decode_encode`**, and **`decode_broken`** for a message cut short;
* `putUInt`, `putBytes`, `getUInt`, `getBytes`: the value of a field by its number.
-/

namespace Wire

open ByteMem

/-! ## Base-128 numbers -/

/-- Seven bits a byte, low bits first; every byte but the last has its high bit set. -/
def varint (n : ℕ) : Bytes :=
  if n < 128 then [UInt8.ofNat n] else UInt8.ofNat (n % 128 + 128) :: varint (n / 128)

def readVarint : Bytes → Option (ℕ × Bytes)
  | [] => none
  | b :: bs =>
    if b.toNat < 128 then some (b.toNat, bs)
    else (readVarint bs).map fun (n, r) => (b.toNat - 128 + 128 * n, r)

theorem readVarint_varint (n : ℕ) (r : Bytes) : readVarint (varint n ++ r) = some (n, r) := by
  induction n using Nat.strong_induction_on with
  | _ n ih =>
    have hbyte : ∀ k < 256, (UInt8.ofNat k).toNat = k := fun k hk =>
      UInt8.toNat_ofNat_of_lt' hk
    rw [varint]
    by_cases h : n < 128
    · rw [if_pos h, List.singleton_append, readVarint, hbyte n (by omega), if_pos h]
    · rw [if_neg h, List.cons_append, readVarint, hbyte _ (by omega), if_neg (by omega),
        ih _ (by omega)]
      have hn : n % 128 + 128 - 128 + 128 * (n / 128) = n := by omega
      simp only [Option.map_some, hn]

theorem varint_ne_nil (n : ℕ) : varint n ≠ [] := by
  rw [varint]
  split_ifs <;> simp

/-! ## Fields -/

inductive Field where
  | uint (number value : ℕ)
  | bytes (number : ℕ) (value : Bytes)
  deriving DecidableEq, Repr

def Field.encode : Field → Bytes
  | .uint number value => varint (8 * number) ++ varint value
  | .bytes number value => varint (8 * number + 2) ++ (varint value.length ++ value)

def encode (fs : List Field) : Bytes := fs.flatMap Field.encode

/-- The field at the head of the input, and the rest of it. -/
def Field.read (bs : Bytes) : Option (Field × Bytes) :=
  match readVarint bs with
  | none => none
  | some (tag, r) =>
    if tag % 8 = 0 then (readVarint r).map fun (n, r') => (.uint (tag / 8) n, r')
    else if tag % 8 = 2 then
      match readVarint r with
      | none => none
      | some (n, r') => if n ≤ r'.length then some (.bytes (tag / 8) (r'.take n), r'.drop n) else none
    else none

/-- Read at most `fuel` fields: those before the first error, and whether there was none. -/
def decodeWith : ℕ → Bytes → Bool × List Field
  | _, [] => (true, [])
  | 0, _ :: _ => (false, [])
  | fuel + 1, b :: bs =>
    match Field.read (b :: bs) with
    | none => (false, [])
    | some (f, r) => ((decodeWith fuel r).1, f :: (decodeWith fuel r).2)

def decode (bs : Bytes) : Bool × List Field := decodeWith bs.length bs

theorem Field.read_encode (f : Field) (r : Bytes) : Field.read (f.encode ++ r) = some (f, r) := by
  cases f with
  | uint number value =>
    rw [Field.encode, Field.read, List.append_assoc, readVarint_varint]
    have h₁ : 8 * number % 8 = 0 := by omega
    have h₂ : 8 * number / 8 = number := by omega
    simp only [h₁, h₂, if_true, readVarint_varint, Option.map_some]
  | bytes number value =>
    rw [Field.encode, Field.read, List.append_assoc, readVarint_varint]
    have h₁ : (8 * number + 2) % 8 = 2 := by omega
    have h₂ : (8 * number + 2) / 8 = number := by omega
    simp only [h₁, h₂, if_true, List.append_assoc, readVarint_varint]
    simp

theorem Field.encode_ne_nil (f : Field) : f.encode ≠ [] := by
  cases f <;> simp [Field.encode, varint_ne_nil]

/-- The fields of a message are read, whatever follows them. -/
theorem decodeWith_append (fs : List Field) (fuel : ℕ) (r : Bytes) :
    decodeWith (fs.length + fuel) (encode fs ++ r) =
      ((decodeWith fuel r).1, fs ++ (decodeWith fuel r).2) := by
  induction fs with
  | nil => rw [List.length_nil, Nat.zero_add]; rfl
  | cons f fs ih =>
    obtain ⟨b, bs, hb⟩ := List.exists_cons_of_ne_nil f.encode_ne_nil
    have hread := f.read_encode (encode fs ++ r)
    rw [encode, List.flatMap_cons, ← encode, List.append_assoc, List.length_cons, Nat.add_right_comm]
    rw [hb, List.cons_append] at hread ⊢
    simp only [decodeWith, hread, ih, List.cons_append]

theorem length_le_encode (fs : List Field) : fs.length ≤ (encode fs).length := by
  induction fs with
  | nil => exact le_rfl
  | cons f fs ih =>
    have := List.length_pos_of_ne_nil f.encode_ne_nil
    rw [encode, List.flatMap_cons, ← encode, List.length_append, List.length_cons]
    omega

theorem decode_append (fs : List Field) (r : Bytes) : ∃ fuel, decode (encode fs ++ r) =
    ((decodeWith fuel r).1, fs ++ (decodeWith fuel r).2) := by
  have hle := length_le_encode fs
  obtain ⟨fuel, hfuel⟩ : ∃ fuel, (encode fs ++ r).length = fs.length + fuel :=
    ⟨(encode fs ++ r).length - fs.length, by rw [List.length_append]; omega⟩
  exact ⟨fuel, by rw [decode, hfuel, decodeWith_append]⟩

/-- **A list of fields is read back.** -/
theorem decode_encode (fs : List Field) : decode (encode fs) = (true, fs) := by
  obtain ⟨fuel, h⟩ := decode_append fs []
  rw [List.append_nil] at h
  cases fuel <;> simpa [decodeWith] using h

/-- **A broken field leaves those before it.** -/
theorem decode_broken (fs : List Field) {r : Bytes} (hr : r ≠ []) (hread : Field.read r = none) :
    decode (encode fs ++ r) = (false, fs) := by
  obtain ⟨fuel, h⟩ := decode_append fs r
  obtain ⟨b, bs, rfl⟩ := List.exists_cons_of_ne_nil hr
  cases fuel with
  | zero => simpa [decodeWith] using h
  | succ fuel => simpa [decodeWith, hread] using h

/-! ## Fields by number -/

def putUInt (number : ℕ) (x : UInt32) : List Field :=
  if x = 0 then [] else [.uint number x.toNat]

def putBytes (number : ℕ) (b : Bytes) : List Field := if b = [] then [] else [.bytes number b]

def Field.uintAt (number : ℕ) (x : UInt32) : Field → UInt32
  | .uint j n => if j = number then UInt32.ofNat n else x
  | .bytes _ _ => x

def Field.bytesAt (number : ℕ) (b : Bytes) : Field → Bytes
  | .uint _ _ => b
  | .bytes j b' => if j = number then b' else b

/-- The last value wins; without one, the default. -/
def getUInt (number : ℕ) (fs : List Field) : UInt32 := fs.foldl (Field.uintAt number) 0

def getBytes (number : ℕ) (fs : List Field) : Bytes := fs.foldl (Field.bytesAt number) []

section

variable {k j : ℕ}

@[simp] theorem uintAt_putUInt (x : UInt32) : (putUInt k x).foldl (Field.uintAt k) 0 = x := by
  by_cases h : x = 0 <;> simp [putUInt, Field.uintAt, h]

@[simp] theorem uintAt_putUInt_ne (h : j ≠ k) (x acc : UInt32) :
    (putUInt j x).foldl (Field.uintAt k) acc = acc := by
  by_cases hx : x = 0 <;> simp [putUInt, Field.uintAt, h, hx]

@[simp] theorem uintAt_putBytes (b : Bytes) (acc : UInt32) :
    (putBytes j b).foldl (Field.uintAt k) acc = acc := by
  by_cases h : b = [] <;> simp [putBytes, Field.uintAt, h]

@[simp] theorem bytesAt_putUInt (x : UInt32) (acc : Bytes) :
    (putUInt j x).foldl (Field.bytesAt k) acc = acc := by
  by_cases h : x = 0 <;> simp [putUInt, Field.bytesAt, h]

@[simp] theorem bytesAt_putBytes (b : Bytes) : (putBytes k b).foldl (Field.bytesAt k) [] = b := by
  by_cases h : b = [] <;> simp [putBytes, Field.bytesAt, h]

@[simp] theorem bytesAt_putBytes_ne (h : j ≠ k) (b acc : Bytes) :
    (putBytes j b).foldl (Field.bytesAt k) acc = acc := by
  by_cases hb : b = [] <;> simp [putBytes, Field.bytesAt, h, hb]

end

end Wire
