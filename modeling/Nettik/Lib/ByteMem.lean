import Mathlib.Data.List.Basic
import Mathlib.Data.List.GetD
import Mathlib.Tactic.Common
import Mathlib.Tactic.Ring

/-!
# Byte memory

Raw memory is a function from offsets to bytes, so that a read past the end of a buffer has a
value (whatever lies there) and a write past the end of an array lands on its neighbour.

* `toLE`, `ofLE`: little-endian words, `ofLE_toLE`; `u16Of`, `u32Of` make machine words of bytes;
* `Mem.shift`, `Mem.read`, `Mem.write`: pointer arithmetic, block reads and block writes;
* `Mem.ofList`: a buffer followed by arbitrary memory, `read_ofList`, `shift_ofList`,
  `shift_ofList_flatten`;
* `Mem.strlen`, `Mem.cstr`: NUL-terminated strings, `strlen_eq`;
* `Blob`: values of a fixed size, `Blob.ofMem_ofList`.
-/

namespace ByteMem

/-- A byte string. -/
abbrev Bytes := List UInt8

/-- The bytes from a pointer on. -/
abbrev Mem := ℕ → UInt8

/-! ## Little-endian words -/

/-- The `k` little-endian bytes of `n`. -/
def toLE : ℕ → ℕ → Bytes
  | 0, _ => []
  | k + 1, n => UInt8.ofNat n :: toLE k (n / 256)

/-- The number with the given little-endian bytes. -/
def ofLE : Bytes → ℕ
  | [] => 0
  | b :: bs => b.toNat + 256 * ofLE bs

@[simp] theorem length_toLE (k n : ℕ) : (toLE k n).length = k := by
  induction k generalizing n with
  | zero => rfl
  | succ k ih => simp [toLE, ih]

theorem ofLE_toLE (k n : ℕ) : ofLE (toLE k n) = n % 256 ^ k := by
  induction k generalizing n with
  | zero => simp [toLE, ofLE, Nat.mod_one]
  | succ k ih =>
    have h8 : (2 : ℕ) ^ 8 = 256 := by norm_num
    rw [toLE, ofLE, ih, UInt8.toNat_ofNat', h8, pow_succ', Nat.mod_mul]

/-- The 32-bit word with the given bytes. -/
def u32Of (bs : Bytes) : UInt32 := UInt32.ofNat (ofLE bs)

/-- The 16-bit word with the given bytes. -/
def u16Of (bs : Bytes) : UInt16 := UInt16.ofNat (ofLE bs)

@[simp] theorem u32Of_toLE (x : UInt32) : u32Of (toLE 4 x.toNat) = x := by
  have h := x.toNat_lt
  rw [u32Of, ofLE_toLE, Nat.mod_eq_of_lt (by omega), UInt32.ofNat_toNat]

@[simp] theorem u16Of_toLE (x : UInt16) : u16Of (toLE 2 x.toNat) = x := by
  have h := x.toNat_lt
  rw [u16Of, ofLE_toLE, Nat.mod_eq_of_lt (by omega), UInt16.ofNat_toNat]

namespace Mem

/-! ## Pointers, reads and writes -/

/-- `ptr + k`. -/
def shift (m : Mem) (k : ℕ) : Mem := fun i => m (k + i)

/-- The first `n` bytes. -/
def read (m : Mem) (n : ℕ) : Bytes := (List.range n).map m

/-- Copy `bs` to offset `off`. -/
def write (m : Mem) (off : ℕ) (bs : Bytes) : Mem :=
  fun i => if off ≤ i then bs.getD (i - off) (m i) else m i

/-- A buffer holding `l`, with `past` behind it. -/
def ofList (l : Bytes) (past : Mem) : Mem := fun i => l.getD i (past (i - l.length))

/-- Memory filled with zeros. -/
def zero : Mem := fun _ => 0

@[simp] theorem shift_zero (m : Mem) : m.shift 0 = m := by
  funext i; simp [shift]

@[simp] theorem shift_shift (m : Mem) (j k : ℕ) : (m.shift j).shift k = m.shift (j + k) := by
  funext i; simp [shift, Nat.add_assoc]

@[simp] theorem length_read (m : Mem) (n : ℕ) : (m.read n).length = n := by simp [read]

theorem getElem_read (m : Mem) (n i : ℕ) (h : i < (m.read n).length) : (m.read n)[i] = m i := by
  simp [read]

theorem read_congr {m m' : Mem} {n : ℕ} (h : ∀ i < n, m i = m' i) : m.read n = m'.read n :=
  List.map_congr_left fun i hi => h i (List.mem_range.mp hi)

theorem read_add (m : Mem) (a b : ℕ) : m.read (a + b) = m.read a ++ (m.shift a).read b := by
  simp [read, shift, List.range_add, Function.comp_def]

/-- **Reading a buffer back.** -/
theorem read_ofList {l : Bytes} {k : ℕ} (hl : l.length = k) (r : Bytes) (past : Mem) :
    (ofList (l ++ r) past).read k = l := by
  subst hl
  refine List.ext_getElem (by simp) fun i h₁ h₂ => ?_
  rw [getElem_read, ofList, List.getD_eq_getElem _ _ (by simp; omega), List.getElem_append_left h₂]

theorem shift_ofList {l : Bytes} {k : ℕ} (hl : l.length = k) (r : Bytes) (past : Mem) :
    (ofList (l ++ r) past).shift k = ofList r past := by
  subst hl
  funext i
  simp only [shift, ofList, List.length_append, Nat.add_sub_add_left]
  rcases Nat.lt_or_ge i r.length with h | h
  · rw [List.getD_eq_getElem _ _ (by simp; omega), List.getD_eq_getElem _ _ h,
      List.getElem_append_right (by omega)]
    simp
  · rw [List.getD_eq_default _ _ (by simp; omega), List.getD_eq_default _ _ h]

theorem length_flatten_of_forall {n : ℕ} {L : List Bytes} (hL : ∀ l ∈ L, l.length = n) :
    L.flatten.length = L.length * n := by
  induction L with
  | nil => simp
  | cons l L ih =>
    rw [List.flatten_cons, List.length_append, hL l List.mem_cons_self,
      ih fun b hb => hL b (List.mem_cons_of_mem _ hb), List.length_cons, Nat.succ_mul, Nat.add_comm]

/-- In a concatenation of blocks of length `n`, block `i` begins at `i * n`. -/
theorem shift_ofList_flatten {n : ℕ} {L : List Bytes} (hL : ∀ l ∈ L, l.length = n) {i : ℕ}
    (hi : i ≤ L.length) (past : Mem) :
    (ofList L.flatten past).shift (i * n) = ofList (L.drop i).flatten past := by
  have hlen : (L.take i).flatten.length = i * n := by
    rw [length_flatten_of_forall fun l hl => hL l (List.mem_of_mem_take hl), List.length_take,
      Nat.min_eq_left hi]
  conv_lhs => rw [← List.take_append_drop i L, List.flatten_append]
  exact shift_ofList hlen _ _

/-- Memory that starts with `l` is a buffer holding `l`. -/
theorem eq_ofList {m : Mem} {l : Bytes} (h : m.read l.length = l) :
    m = ofList l (m.shift l.length) := by
  funext i
  rcases Nat.lt_or_ge i l.length with hi | hi
  · have := congrArg (fun b => b.getD i 0) h
    simp only [List.getD_eq_getElem _ _ hi] at this
    rw [ofList, List.getD_eq_getElem _ _ hi, ← this,
      List.getD_eq_getElem _ _ (by simpa using hi), getElem_read]
  · rw [ofList, List.getD_eq_default _ _ hi, shift, Nat.add_sub_cancel' hi]

theorem write_apply_lt (m : Mem) {off i : ℕ} (bs : Bytes) (h : i < off) : m.write off bs i = m i := by
  rw [write, if_neg (by omega)]

theorem write_apply_ge (m : Mem) {off i : ℕ} (bs : Bytes) (h : off + bs.length ≤ i) :
    m.write off bs i = m i := by
  rw [write, if_pos (by omega), List.getD_eq_default _ _ (by omega)]

theorem write_apply_mem (m : Mem) {off i : ℕ} (bs : Bytes) (h₁ : off ≤ i)
    (h₂ : i - off < bs.length) : m.write off bs i = bs[i - off] := by
  rw [write, if_pos h₁, List.getD_eq_getElem _ _ h₂]

/-- A block write is read back at its offset. -/
theorem read_shift_write (m : Mem) (off : ℕ) (bs : Bytes) :
    ((m.write off bs).shift off).read bs.length = bs := by
  refine List.ext_getElem (by simp) fun i h₁ h₂ => ?_
  rw [getElem_read, shift, write_apply_mem _ _ (by omega) (by omega)]
  simp

/-- A write behind the block that is read. -/
theorem read_write_of_le (m : Mem) {n off : ℕ} (bs : Bytes) (h : n ≤ off) :
    (m.write off bs).read n = m.read n :=
  read_congr fun _ hi => write_apply_lt m bs (Nat.lt_of_lt_of_le hi h)

/-! ## NUL-terminated strings -/

/-- The number of bytes before the first NUL, looking at no more than `fuel` of them. -/
def strlen (m : Mem) : ℕ → ℕ
  | 0 => 0
  | fuel + 1 => if m 0 = 0 then 0 else strlen (m.shift 1) fuel + 1

/-- The string at a pointer, at most `fuel` bytes of it. -/
def cstr (m : Mem) (fuel : ℕ) : Bytes := m.read (m.strlen fuel)

theorem strlen_le (m : Mem) (fuel : ℕ) : m.strlen fuel ≤ fuel := by
  induction fuel generalizing m with
  | zero => exact le_rfl
  | succ fuel ih =>
    rw [strlen]
    split_ifs with h
    · exact Nat.zero_le _
    · exact Nat.succ_le_succ (ih _)

theorem ne_zero_of_lt_strlen {m : Mem} {i fuel : ℕ} (h : i < m.strlen fuel) : m i ≠ 0 := by
  induction i generalizing m fuel with
  | zero =>
    cases fuel with
    | zero => exact absurd h (by simp [strlen])
    | succ fuel =>
      rw [strlen] at h
      split_ifs at h with hz
      · exact absurd h (by simp)
      · exact hz
  | succ i ih =>
    cases fuel with
    | zero => exact absurd h (by simp [strlen])
    | succ fuel =>
      rw [strlen] at h
      split_ifs at h with hz
      · exact absurd h (by simp)
      · have hnext := ih (Nat.lt_of_succ_lt_succ h)
        rwa [shift, Nat.add_comm] at hnext

/-- Without a NUL so far the string goes on. -/
theorem lt_strlen {m : Mem} {n fuel : ℕ} (hm : ∀ i ≤ n, m i ≠ 0) (hf : n < fuel) :
    n < m.strlen fuel := by
  induction n generalizing m fuel with
  | zero =>
    cases fuel with
    | zero => exact absurd hf (by simp)
    | succ fuel =>
      rw [strlen, if_neg (hm 0 le_rfl)]
      exact Nat.succ_pos _
  | succ n ih =>
    cases fuel with
    | zero => exact absurd hf (by simp)
    | succ fuel =>
      rw [strlen, if_neg (hm 0 (Nat.zero_le _))]
      refine Nat.succ_lt_succ (ih (fun i hi => ?_) (Nat.lt_of_succ_lt_succ hf))
      rw [shift, Nat.add_comm]
      exact hm (i + 1) (Nat.succ_le_succ hi)

/-- **A NUL behind `s`, and none in it, ends the string at `s.length`.** -/
theorem strlen_eq {m : Mem} {s : Bytes} {fuel : ℕ} (hs : (0 : UInt8) ∉ s) (hm : m.read s.length = s)
    (hz : m s.length = 0) (hf : s.length < fuel) : m.strlen fuel = s.length := by
  induction s generalizing m fuel with
  | nil =>
    cases fuel with
    | zero => exact absurd hf (by simp)
    | succ fuel => rw [strlen, if_pos (by simpa using hz)]; rfl
  | cons b s ih =>
    cases fuel with
    | zero => exact absurd hf (by simp)
    | succ fuel =>
      have hb : m 0 = b := by
        have := congrArg (fun l => l.getD 0 0) hm
        simpa [read] using this
      rw [strlen, if_neg (by rw [hb]; intro h; exact hs (by simp [h]))]
      rw [ih (m := m.shift 1) (fun h => hs (List.mem_cons_of_mem _ h)) ?_ ?_ (by simpa using hf)]
      · rfl
      · rw [List.length_cons, Nat.add_comm, read_add] at hm
        exact (List.append_inj (show m.read 1 ++ _ = [b] ++ s from hm) (by simp)).2
      · simpa [shift, Nat.add_comm] using hz

theorem cstr_eq {m : Mem} {s : Bytes} {fuel : ℕ} (hs : (0 : UInt8) ∉ s) (hm : m.read s.length = s)
    (hz : m s.length = 0) (hf : s.length < fuel) : m.cstr fuel = s := by
  rw [cstr, strlen_eq hs hm hz hf, hm]

end Mem

/-! ## Values of a fixed size -/

/-- The object representation of a value of `n` bytes. -/
abbrev Blob (n : ℕ) := Vector UInt8 n

/-- The `n` bytes at a pointer. -/
def Blob.ofMem (n : ℕ) (m : Mem) : Blob n := Vector.ofFn fun i => m i

def Blob.byte (b : UInt8) : Blob 1 := #v[b]

theorem Blob.toList_ofMem (n : ℕ) (m : Mem) : (Blob.ofMem n m).toList = m.read n := by
  refine List.ext_getElem (by simp) fun i h₁ h₂ => ?_
  rw [Mem.getElem_read]
  simp [Blob.ofMem]

/-- A value is read back from a buffer that begins with its bytes. -/
theorem Blob.ofMem_ofList {n : ℕ} (b : Blob n) (r : Bytes) (past : Mem) :
    Blob.ofMem n (Mem.ofList (b.toList ++ r) past) = b := by
  rw [← Vector.toList_inj, Blob.toList_ofMem]
  exact Mem.read_ofList (by simp) _ _

end ByteMem
