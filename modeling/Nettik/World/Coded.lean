import Mathlib.Data.List.Nodup
import Mathlib.Data.List.TakeWhile
import Nettik.Lib.Wire

/-!
# Reading generated messages

The loop that `protoc` generates for every message, on a stream that ends at its current limit.

* `CodedLib`: what the code calls of the compiled part of the library;
* `CodedInputStream`: the inlined reads; `readMessageNoVirtual` a message within another;
* `FieldCase`, `Schema`: a `case` of the generated `switch`, and the `switch`;
* `parseFrom` jumps from one `case` to the next, `parseOne` does not; `mergePartial` the loop;
* **`mergePartial_eq_plain`**: the jumps change nothing.
-/

namespace Nettik

open ByteMem Wire

/-! ## The stream -/

def kDefaultTotalBytesLimit : ℕ := 64 * 2 ^ 20

/-- The functions that are not inlined, on the bytes up to the limit. Each leaves the bytes behind what
it read. A stream of `kDefaultTotalBytesLimit` bytes, 64 MB, or more is another matter. -/
structure CodedLib where
  readVarint32Fallback : Bytes → Option UInt32 × Bytes
  /-- The tag, and whether the stream was at its end. -/
  readTagFallback : Bytes → UInt32 × Bool × Bytes
  /-- From the string to write to. -/
  readBytes : Bytes → Bytes → Bool × Bytes × Bytes
  skipField : UInt32 → Bytes → Bool × Bytes
  varintSize32Fallback : UInt32 → ℕ

/-- No function reads backwards, a tag has at least one byte, and at the end, only there, none is left. -/
structure CodedLib.Reads (lib : CodedLib) : Prop where
  varint_le : ∀ bs, (lib.readVarint32Fallback bs).2.length ≤ bs.length
  tag_le : ∀ bs, (lib.readTagFallback bs).2.2.length ≤ bs.length
  tag_lt : ∀ bs, (lib.readTagFallback bs).1 ≠ 0 → (lib.readTagFallback bs).2.2.length < bs.length
  tag_nil : lib.readTagFallback [] = (0, true, [])
  tag_end : ∀ bs, (lib.readTagFallback bs).2.1 = true → (lib.readTagFallback bs).1 = 0 ∧ bs = []
  bytes_le : ∀ old bs, (lib.readBytes old bs).2.2.length ≤ bs.length
  skip_le : ∀ tag bs, (lib.skipField tag bs).2.length ≤ bs.length

/-- The bytes up to the limit. -/
structure CodedInputStream where
  buffer : Bytes
  legitimateMessageEnd : Bool := false
  deriving DecidableEq, Repr

namespace CodedInputStream

variable (lib : CodedLib)

/-- The fallback returns `-1` when it fails. -/
def readVarint32Slow (s : CodedInputStream) : Bool × UInt32 × CodedInputStream :=
  let (value, rest) := lib.readVarint32Fallback s.buffer
  (value.isSome, value.getD 0xFFFFFFFF, { s with buffer := rest })

def readVarint32 (s : CodedInputStream) : Bool × UInt32 × CodedInputStream :=
  match s.buffer with
  | b :: rest => if b < 0x80 then (true, b.toUInt32, { s with buffer := rest }) else s.readVarint32Slow lib
  | [] => s.readVarint32Slow lib

/-- The cutoff of the generated code: no tag of two bytes is at or below it. -/
def cutoff : UInt32 := 127

def readTagSlow (s : CodedInputStream) : UInt32 × Bool × CodedInputStream :=
  let (tag, atEnd, rest) := lib.readTagFallback s.buffer
  (tag, tag - 1 < cutoff, ⟨rest, s.legitimateMessageEnd || atEnd⟩)

def readTagWithCutoff (s : CodedInputStream) : UInt32 × Bool × CodedInputStream :=
  match s.buffer with
  | b :: rest =>
    if 0 < b ∧ b < 0x80 then (b.toUInt32, true, { s with buffer := rest }) else s.readTagSlow lib
  | [] => s.readTagSlow lib

/-- For a tag of one byte. -/
def expectTag (expected : UInt8) (s : CodedInputStream) : Option CodedInputStream :=
  if s.buffer.head? = some expected then some { s with buffer := s.buffer.tail } else none

def expectAtEnd (s : CodedInputStream) : Option CodedInputStream :=
  if s.buffer = [] then some { s with legitimateMessageEnd := true } else none

variable {M : Type}

/-- The shortest limit is enforced. When it is popped, the message has to end there. -/
def readMessageNoVirtual (merge : M → CodedInputStream → Bool × M × CodedInputStream) (m : M)
    (s : CodedInputStream) : Bool × M × CodedInputStream :=
  let (ok, length, s) := s.readVarint32 lib
  if !ok then (false, m, s)
  else
    let (ok, m, inner) := merge m { s with buffer := s.buffer.take length.toNat }
    let behind := inner.buffer ++ s.buffer.drop length.toNat
    (ok && inner.legitimateMessageEnd, m, ⟨behind, false⟩)

end CodedInputStream

open CodedInputStream

/-! ## The loop -/

variable {M : Type}

def getTagFieldNumber (tag : UInt32) : UInt32 := tag >>> 3

def getTagWireType (tag : UInt32) : UInt32 := tag &&& 7

def wireTypeEndGroup : UInt32 := 4

/-- A `case` of the `switch`: its tag and what it reads. -/
structure FieldCase (M : Type) where
  tag : UInt8
  read : M → CodedInputStream → Bool × M × CodedInputStream

def numberOfTag (tag : UInt8) : UInt32 := getTagFieldNumber tag.toUInt32

/-- Tags of one byte for different fields. -/
structure Tagged (tags : List UInt8) : Prop where
  pos : ∀ tag ∈ tags, 0 < tag
  lt : ∀ tag ∈ tags, tag < 0x80
  nodup : (tags.map numberOfTag).Nodup

structure Schema (M : Type) where
  cases : List (FieldCase M)
  tagged : Tagged (cases.map FieldCase.tag)

/-- Where the body of the loop goes. -/
inductive Jump (M : Type) where
  | failure (m : M) (s : CodedInputStream)
  | success (m : M) (s : CodedInputStream)
  | again (m : M) (s : CodedInputStream)

def Jump.stream : Jump M → CodedInputStream
  | .failure _ s => s
  | .success _ s => s
  | .again _ s => s

def Jump.finish (next : M → CodedInputStream → Bool × M × CodedInputStream) :
    Jump M → Bool × M × CodedInputStream
  | .failure m s => (false, m, s)
  | .success m s => (true, m, s)
  | .again m s => next m s

/-- What the `switch` does from a `case` on. -/
abbrev Parse (M : Type) := List (FieldCase M) → M → CodedInputStream → Jump M

/-- From a `case` on, with the jumps to the next one. -/
def parseFrom : Parse M
  | [], m, s => .again m s
  | f :: fs, m, s =>
    match f.read m s with
    | (false, m, s) => .failure m s
    | (true, m, s) =>
      match fs with
      | [] =>
        match s.expectAtEnd with
        | some s => .success m s
        | none => .again m s
      | g :: gs =>
        match s.expectTag g.tag with
        | some s => parseFrom (g :: gs) m s
        | none => .again m s

/-- A `case` without the jumps. -/
def parseOne : Parse M
  | [], m, s => .again m s
  | f :: _, m, s =>
    match f.read m s with
    | (false, m, s) => .failure m s
    | (true, m, s) => .again m s

variable (lib : CodedLib)

def handleUnusual (tag : UInt32) (m : M) (s : CodedInputStream) : Jump M :=
  if tag = 0 ∨ getTagWireType tag = wireTypeEndGroup then .success m s
  else
    match lib.skipField tag s.buffer with
    | (true, rest) => .again m { s with buffer := rest }
    | (false, rest) => .failure m { s with buffer := rest }

/-- The `switch`, with what its cases do. -/
def switchOn (parse : Parse M) (cases : List (FieldCase M)) (tag : UInt32) (m : M) (s : CodedInputStream) :
    Jump M :=
  match cases.dropWhile fun f => numberOfTag f.tag != getTagFieldNumber tag with
  | f :: fs => if tag = f.tag.toUInt32 then parse (f :: fs) m s else handleUnusual lib tag m s
  | [] => handleUnusual lib tag m s

def turn (parse : Parse M) (cases : List (FieldCase M)) (m : M) (s : CodedInputStream) : Jump M :=
  let (tag, low, s) := s.readTagWithCutoff lib
  if low then switchOn lib parse cases tag m s else handleUnusual lib tag m s

/-- The loop, at most `fuel` times. -/
def mergeWith (parse : Parse M) (cases : List (FieldCase M)) :
    ℕ → M → CodedInputStream → Bool × M × CodedInputStream
  | 0, m, s => (false, m, s)
  | fuel + 1, m, s => (turn lib parse cases m s).finish (mergeWith parse cases fuel)

/-- Every turn reads a byte or is the last one. -/
def mergePartial (parse : Parse M) (schema : Schema M) (m : M) (s : CodedInputStream) :
    Bool × M × CodedInputStream :=
  mergeWith lib parse schema.cases (s.buffer.length + 1) m s

variable {lib} {cases fs : List (FieldCase M)} {parse : Parse M}

/-! ## What is left to read -/

theorem CodedInputStream.readVarint32_le (h : lib.Reads) (s : CodedInputStream) :
    (s.readVarint32 lib).2.2.buffer.length ≤ s.buffer.length := by
  have hslow : (s.readVarint32Slow lib).2.2.buffer.length ≤ s.buffer.length := h.varint_le s.buffer
  rw [readVarint32]
  split
  · next b rest hs =>
    split_ifs
    · rw [hs, List.length_cons]
      exact Nat.le_succ _
    · exact hslow
  · exact hslow

theorem CodedInputStream.readTag_le (h : lib.Reads) (s : CodedInputStream) :
    (s.readTagWithCutoff lib).2.2.buffer.length ≤ s.buffer.length := by
  have hslow : (s.readTagSlow lib).2.2.buffer.length ≤ s.buffer.length := h.tag_le s.buffer
  rw [readTagWithCutoff]
  split
  · next b rest hs =>
    split_ifs
    · rw [hs, List.length_cons]
      exact Nat.le_succ _
    · exact hslow
  · exact hslow

/-- A tag takes at least a byte. -/
theorem CodedInputStream.readTag_lt (h : lib.Reads) (s : CodedInputStream)
    (htag : (s.readTagWithCutoff lib).1 ≠ 0) :
    (s.readTagWithCutoff lib).2.2.buffer.length < s.buffer.length := by
  have hslow : (s.readTagSlow lib).1 ≠ 0 → (s.readTagSlow lib).2.2.buffer.length < s.buffer.length :=
    h.tag_lt s.buffer
  rw [readTagWithCutoff] at htag ⊢
  split at htag
  · next b rest hs =>
    split_ifs at htag ⊢ with hb
    · simp [hs]
    · simpa [hs, hb] using hslow htag
  · next hs => simpa [hs] using hslow htag

theorem handleUnusual_le (h : lib.Reads) (tag : UInt32) (m : M) (s : CodedInputStream) :
    (handleUnusual lib tag m s).stream.buffer.length ≤ s.buffer.length := by
  have hskip := h.skip_le tag s.buffer
  rw [handleUnusual]
  split_ifs
  · exact le_rfl
  · split <;> next heq => simpa [Jump.stream, heq] using hskip

/-- The cases read forwards. -/
def Forwards (cases : List (FieldCase M)) : Prop :=
  ∀ f ∈ cases, ∀ m s, (f.read m s).2.2.buffer.length ≤ s.buffer.length

theorem parseFrom_le (h : Forwards fs) (m : M) (s : CodedInputStream) :
    (parseFrom fs m s).stream.buffer.length ≤ s.buffer.length := by
  induction fs generalizing m s with
  | nil => exact le_rfl
  | cons f fs ih =>
    have hread := h f List.mem_cons_self m s
    rw [parseFrom]
    split
    · next heq => simpa [Jump.stream, heq] using hread
    · next m' s' heq =>
      have hle : s'.buffer.length ≤ s.buffer.length := by simpa [heq] using hread
      cases fs with
      | nil =>
        rw [CodedInputStream.expectAtEnd]
        split_ifs <;> exact hle
      | cons g gs =>
        dsimp only
        rw [CodedInputStream.expectTag]
        split_ifs
        · have htail : s'.buffer.tail.length ≤ s'.buffer.length := by simp
          exact (ih (fun f hf => h f (List.mem_cons_of_mem _ hf)) m' _).trans (htail.trans hle)
        · exact hle

/-- What a `switch` does to the stream, when its cases read forwards. -/
theorem switchOn_le (h : lib.Reads)
    (hparse : ∀ fs, fs <:+ cases → ∀ m s, (parse fs m s).stream.buffer.length ≤ s.buffer.length)
    (tag : UInt32) (m : M) (s : CodedInputStream) :
    (switchOn lib parse cases tag m s).stream.buffer.length ≤ s.buffer.length := by
  rw [switchOn]
  split
  · next f fs heq =>
    split_ifs
    · exact hparse _ (heq ▸ List.dropWhile_suffix _) m s
    · exact handleUnusual_le h tag m s
  · exact handleUnusual_le h tag m s

theorem CodedInputStream.readTag_low (s : CodedInputStream) (h : (s.readTagWithCutoff lib).1 = 0) :
    (s.readTagWithCutoff lib).2.1 = false := by
  have hslow : (s.readTagSlow lib).1 = 0 → (s.readTagSlow lib).2.1 = false := by
    intro htag
    rw [readTagSlow] at htag ⊢
    dsimp only at htag ⊢
    rw [htag]
    rfl
  rw [readTagWithCutoff] at h ⊢
  split at h
  · next b rest hs =>
    split_ifs at h ⊢ with hb
    · have hzero : b = 0 := UInt8.toNat_inj.mp (congrArg UInt32.toNat h)
      exact absurd hb.1 (by simp [hzero])
    · simpa [hs, hb] using hslow h
  · next hs => simpa [hs] using hslow h

theorem turn_of_zero {m : M} {s : CodedInputStream} (h : (s.readTagWithCutoff lib).1 = 0) :
    turn lib parse cases m s = .success m (s.readTagWithCutoff lib).2.2 := by
  rw [turn]
  dsimp only
  rw [readTag_low s h, h, if_neg Bool.false_ne_true]
  exact if_pos (Or.inl rfl)

theorem turn_le (h : lib.Reads)
    (hparse : ∀ fs, fs <:+ cases → ∀ m s, (parse fs m s).stream.buffer.length ≤ s.buffer.length)
    (m : M) (s : CodedInputStream) :
    (turn lib parse cases m s).stream.buffer.length ≤ (s.readTagWithCutoff lib).2.2.buffer.length := by
  rw [turn]
  dsimp only
  split_ifs
  · exact switchOn_le h hparse _ m _
  · exact handleUnusual_le h _ m _

theorem mergeWith_le (h : lib.Reads)
    (hparse : ∀ fs, fs <:+ cases → ∀ m s, (parse fs m s).stream.buffer.length ≤ s.buffer.length)
    (fuel : ℕ) (m : M) (s : CodedInputStream) :
    (mergeWith lib parse cases fuel m s).2.2.buffer.length ≤ s.buffer.length := by
  induction fuel generalizing m s with
  | zero => exact le_rfl
  | succ fuel ih =>
    have hle := (turn_le h hparse m s).trans (readTag_le h s)
    rw [mergeWith]
    cases hturn : turn lib parse cases m s with
    | failure m' s' =>
      rw [hturn] at hle
      exact hle
    | success m' s' =>
      rw [hturn] at hle
      exact hle
    | again m' s' =>
      rw [hturn] at hle
      exact (ih m' s').trans hle

/-! ## The jumps -/

variable {schema : Schema M}

theorem CodedInputStream.expectTag_lt {b : UInt8} {s s' : CodedInputStream} (h : s.expectTag b = some s') :
    s'.buffer.length < s.buffer.length := by
  rw [expectTag] at h
  split_ifs at h with hhead
  obtain ⟨rest, hs⟩ : ∃ rest, s.buffer = b :: rest := List.head?_eq_some_iff.mp hhead
  rw [← Option.some.inj h, hs]
  exact Nat.lt_succ_self _

/-- Reading the tag of a case. -/
theorem Schema.readTag_of_expected {f : FieldCase M} (hf : f ∈ schema.cases) {s s' : CodedInputStream}
    (h : s.expectTag f.tag = some s') : s.readTagWithCutoff lib = (f.tag.toUInt32, true, s') := by
  have hpos := schema.tagged.pos f.tag (List.mem_map_of_mem hf)
  have hlt := schema.tagged.lt f.tag (List.mem_map_of_mem hf)
  rw [expectTag] at h
  split_ifs at h with hhead
  obtain ⟨rest, hs⟩ : ∃ rest, s.buffer = f.tag :: rest := List.head?_eq_some_iff.mp hhead
  rw [readTagWithCutoff]
  simp only [hs, List.tail_cons] at h ⊢
  rw [if_pos ⟨hpos, hlt⟩, Option.some.inj h]

/-- The `switch` finds a case by its tag. -/
theorem switchOn_case {pre : List (FieldCase M)} {f : FieldCase M} (hcases : schema.cases = pre ++ f :: fs)
    (m : M) (s : CodedInputStream) :
    switchOn lib parse schema.cases f.tag.toUInt32 m s = parse (f :: fs) m s := by
  have hdrop : schema.cases.dropWhile (fun g => numberOfTag g.tag != getTagFieldNumber f.tag.toUInt32) =
      f :: fs := by
    have hnodup := schema.tagged.nodup
    rw [hcases, List.map_map, List.map_append, List.map_cons] at hnodup
    have hpre : ∀ g ∈ pre, numberOfTag g.tag ≠ numberOfTag f.tag := by
      intro g hg heq
      have hf : (numberOfTag ∘ FieldCase.tag) g ∈
          numberOfTag f.tag :: fs.map (numberOfTag ∘ FieldCase.tag) := List.mem_cons.mpr (Or.inl heq)
      exact List.disjoint_of_nodup_append hnodup (List.mem_map_of_mem hg) hf
    have hskip : ∀ g ∈ pre, (numberOfTag g.tag != getTagFieldNumber f.tag.toUInt32) = true :=
      fun g hg => bne_iff_ne.mpr (hpre g hg)
    rw [hcases, List.dropWhile_append_of_pos hskip]
    exact List.dropWhile_cons_of_neg (by simp [numberOfTag])
  rw [switchOn, hdrop]
  exact if_pos rfl

theorem mergeWith_of_nil (h : lib.Reads) (k : ℕ) (m : M) {s : CodedInputStream} (hs : s.buffer = []) :
    mergeWith lib parse cases (k + 1) m s = (true, m, { s with legitimateMessageEnd := true }) := by
  have htag : s.readTagWithCutoff lib = (0, false, { s with legitimateMessageEnd := true }) := by
    rw [readTagWithCutoff, hs]
    simp only [readTagSlow, hs, h.tag_nil, Bool.or_true]
    rfl
  rw [mergeWith, turn_of_zero (by rw [htag]), htag]
  rfl

theorem mergeWith_of_expected {pre : List (FieldCase M)} {f : FieldCase M}
    (hcases : schema.cases = pre ++ f :: fs) (k : ℕ) (m : M) {s s' : CodedInputStream}
    (h : s.expectTag f.tag = some s') : mergeWith lib parse schema.cases (k + 1) m s =
      (parse (f :: fs) m s').finish (mergeWith lib parse schema.cases k) := by
  have hf : f ∈ schema.cases := hcases ▸ List.mem_append_right _ List.mem_cons_self
  rw [mergeWith, turn, schema.readTag_of_expected hf h]
  dsimp only
  rw [if_pos rfl, switchOn_case hcases]

/-- From a `case` on: the jumps, and turn after turn. -/
theorem finish_parseFrom (h : lib.Reads) (hforwards : Forwards schema.cases) {n k k' : ℕ}
    (ih : ∀ s : CodedInputStream, s.buffer.length < n → ∀ m j j', s.buffer.length < j →
      s.buffer.length < j' → mergeWith lib parseFrom schema.cases j m s =
        mergeWith lib parseOne schema.cases j' m s)
    {pre : List (FieldCase M)} (hcases : schema.cases = pre ++ fs) (m : M) {s : CodedInputStream}
    (hn : s.buffer.length < n) (hk : s.buffer.length < k) (hk' : s.buffer.length < k') :
    (parseFrom fs m s).finish (mergeWith lib parseFrom schema.cases k) =
      (parseOne fs m s).finish (mergeWith lib parseOne schema.cases k') := by
  induction fs generalizing pre m s k' with
  | nil => exact ih s hn m k k' hk hk'
  | cons f fs ihf =>
    have hle := hforwards f (hcases ▸ List.mem_append_right _ List.mem_cons_self) m s
    rw [parseFrom, parseOne]
    generalize f.read m s = r at hle ⊢
    obtain ⟨ok, m', s'⟩ := r
    cases ok with
    | false => rfl
    | true =>
      have hagain := ih s' (hle.trans_lt hn) m' k k' (hle.trans_lt hk) (hle.trans_lt hk')
      obtain ⟨j, rfl⟩ : ∃ j, k' = j + 1 := Nat.exists_eq_add_one_of_ne_zero (by omega)
      cases fs with
      | nil =>
        dsimp only
        rw [expectAtEnd]
        split_ifs with hend
        · exact (mergeWith_of_nil h j m' hend).symm
        · exact hagain
      | cons g gs =>
        dsimp only
        cases hexpect : s'.expectTag g.tag with
        | none => exact hagain
        | some s'' =>
          have hcases' : schema.cases = (pre ++ [f]) ++ g :: gs := by simp [hcases]
          have hlt := expectTag_lt hexpect
          dsimp only at hle ⊢
          rw [Jump.finish, mergeWith_of_expected hcases' j m' hexpect]
          exact ihf hcases' m' (by omega) (by omega) (by omega)

/-- The loop with jumps and the loop without them, each with more turns than there are bytes. -/
theorem mergeWith_jumps (h : lib.Reads) (hforwards : Forwards schema.cases) (m : M) {s : CodedInputStream}
    {j j' : ℕ} (hj : s.buffer.length < j) (hj' : s.buffer.length < j') :
    mergeWith lib parseFrom schema.cases j m s = mergeWith lib parseOne schema.cases j' m s := by
  obtain ⟨n, hs⟩ : ∃ n, s.buffer.length < n := ⟨_, hj⟩
  induction n generalizing m s j j' with
  | zero => exact absurd hs (Nat.not_lt_zero _)
  | succ n ihn =>
    have ih : ∀ s : CodedInputStream, s.buffer.length < n → ∀ m j j', s.buffer.length < j →
        s.buffer.length < j' → mergeWith lib parseFrom schema.cases j m s =
          mergeWith lib parseOne schema.cases j' m s := fun s hs m j j' hj hj' => ihn m hj hj' hs
    obtain ⟨k, rfl⟩ : ∃ k, j = k + 1 := Nat.exists_eq_add_one_of_ne_zero (by omega)
    obtain ⟨k', rfl⟩ : ∃ k', j' = k' + 1 := Nat.exists_eq_add_one_of_ne_zero (by omega)
    rw [mergeWith, mergeWith]
    by_cases htag : (s.readTagWithCutoff lib).1 = 0
    · rw [turn_of_zero htag, turn_of_zero htag]
      rfl
    have hlt := readTag_lt h s htag
    have hn : (s.readTagWithCutoff lib).2.2.buffer.length < n := by omega
    have hk : (s.readTagWithCutoff lib).2.2.buffer.length < k := by omega
    have hk' : (s.readTagWithCutoff lib).2.2.buffer.length < k' := by omega
    have hunusual : (handleUnusual lib (s.readTagWithCutoff lib).1 m (s.readTagWithCutoff lib).2.2).finish
          (mergeWith lib parseFrom schema.cases k) =
        (handleUnusual lib (s.readTagWithCutoff lib).1 m (s.readTagWithCutoff lib).2.2).finish
          (mergeWith lib parseOne schema.cases k') := by
      have hle := handleUnusual_le h (s.readTagWithCutoff lib).1 m (s.readTagWithCutoff lib).2.2
      cases hjump : handleUnusual lib (s.readTagWithCutoff lib).1 m (s.readTagWithCutoff lib).2.2 with
      | failure m' s' => rfl
      | success m' s' => rfl
      | again m' s' =>
        rw [hjump, Jump.stream] at hle
        exact ih s' (by omega) m' k k' (by omega) (by omega)
    rw [turn, turn]
    dsimp only
    split_ifs with hlow
    · rw [switchOn, switchOn]
      split
      · next f fs heq =>
        split_ifs
        · obtain ⟨pre, hpre⟩ : f :: fs <:+ schema.cases := heq ▸ List.dropWhile_suffix _
          exact finish_parseFrom h hforwards ih hpre.symm m hn hk hk'
        · exact hunusual
      · exact hunusual
    · exact hunusual

/-- **The jumps change nothing**: what a message reads, whether it fails and where it stops. -/
theorem mergePartial_eq_plain (h : lib.Reads) (hforwards : Forwards schema.cases) :
    mergePartial lib parseFrom schema = mergePartial lib parseOne schema :=
  funext fun m => funext fun _ =>
    mergeWith_jumps h hforwards m (Nat.lt_succ_self _) (Nat.lt_succ_self _)

/-! ## The end of a message -/

/-- A message that ended legitimately was read to the limit. -/
def CodedInputStream.Ended (s : CodedInputStream) : Prop :=
  s.legitimateMessageEnd = true → s.buffer = []

/-- Reading a field ends no message. -/
def KeepsOpen (cases : List (FieldCase M)) : Prop :=
  ∀ f ∈ cases, ∀ m s, s.legitimateMessageEnd = false → (f.read m s).2.2.legitimateMessageEnd = false

/-- Where a turn goes after it: on inside the message, or to its end. -/
def Jump.Sound : Jump M → Prop
  | .failure _ _ => True
  | .success _ s => s.Ended
  | .again _ s => s.legitimateMessageEnd = false

theorem parseFrom_sound (h : KeepsOpen fs) (m : M) {s : CodedInputStream}
    (hs : s.legitimateMessageEnd = false) : (parseFrom fs m s).Sound := by
  induction fs generalizing m s with
  | nil => exact hs
  | cons f fs ih =>
    have hread := h f List.mem_cons_self m s hs
    rw [parseFrom]
    generalize f.read m s = r at hread ⊢
    obtain ⟨ok, m', s'⟩ := r
    cases ok with
    | false => trivial
    | true =>
      cases fs with
      | nil =>
        dsimp only
        rw [expectAtEnd]
        split_ifs with hend
        · exact fun _ => hend
        · exact hread
      | cons g gs =>
        dsimp only
        rw [expectTag]
        split_ifs
        · exact ih (fun f hf => h f (List.mem_cons_of_mem _ hf)) m' hread
        · exact hread

theorem CodedInputStream.readTag_ended (h : lib.Reads) {s : CodedInputStream}
    (hs : s.legitimateMessageEnd = false) : (s.readTagWithCutoff lib).2.2.Ended ∧
      ((s.readTagWithCutoff lib).1 ≠ 0 → (s.readTagWithCutoff lib).2.2.legitimateMessageEnd = false) := by
  have hslow : (s.readTagSlow lib).2.2.Ended ∧
      ((s.readTagSlow lib).1 ≠ 0 → (s.readTagSlow lib).2.2.legitimateMessageEnd = false) := by
    have hend := h.tag_end s.buffer
    have hle := h.tag_le s.buffer
    rw [readTagSlow]
    generalize lib.readTagFallback s.buffer = r at hend hle ⊢
    obtain ⟨tag, atEnd, rest⟩ := r
    dsimp only [Ended] at hend hle ⊢
    rw [hs, Bool.false_or]
    constructor
    · intro hatEnd
      rw [(hend hatEnd).2] at hle
      exact List.eq_nil_of_length_eq_zero (Nat.le_zero.mp hle)
    · exact fun htag => Bool.eq_false_iff.mpr fun hatEnd => htag (hend hatEnd).1
  rw [readTagWithCutoff]
  split
  · split_ifs
    · exact ⟨fun hend => absurd (hs.symm.trans hend) Bool.false_ne_true, fun _ => hs⟩
    · exact hslow
  · exact hslow

theorem handleUnusual_sound {tag : UInt32} (m : M) {s : CodedInputStream} (hended : s.Ended)
    (hs : tag ≠ 0 → s.legitimateMessageEnd = false) : (handleUnusual lib tag m s).Sound := by
  rw [handleUnusual]
  split_ifs with hend
  · exact hended
  · have hopen := hs fun hzero => hend (Or.inl hzero)
    split
    · exact hopen
    · trivial

/-- **What is accepted was read to its end.** -/
theorem mergeWith_ended (h : lib.Reads) (hkeeps : KeepsOpen cases) (fuel : ℕ) (m : M)
    {s : CodedInputStream} (hs : s.legitimateMessageEnd = false)
    (hok : (mergeWith lib parseFrom cases fuel m s).1 = true) :
    (mergeWith lib parseFrom cases fuel m s).2.2.Ended := by
  induction fuel generalizing m s with
  | zero => exact absurd hok Bool.false_ne_true
  | succ fuel ih =>
    obtain ⟨hended, hopen⟩ := readTag_ended h hs
    have hunusual : (handleUnusual lib _ m (s.readTagWithCutoff lib).2.2).Sound :=
      handleUnusual_sound m hended hopen
    have hsound : (turn lib parseFrom cases m s).Sound := by
      rw [turn]
      dsimp only
      split_ifs with hlow
      · have htag : (s.readTagWithCutoff lib).1 ≠ 0 := fun hzero =>
          Bool.false_ne_true ((readTag_low s hzero).symm.trans hlow)
        rw [switchOn]
        split
        · next f fs heq =>
          have hsuffix : f :: fs <:+ cases := heq ▸ List.dropWhile_suffix _
          split_ifs
          · exact parseFrom_sound (fun g hg => hkeeps g (hsuffix.subset hg)) m (hopen htag)
          · exact hunusual
        · exact hunusual
      · exact hunusual
    rw [mergeWith] at hok ⊢
    cases hturn : turn lib parseFrom cases m s with
    | failure m' s' =>
      rw [hturn] at hok
      exact absurd hok Bool.false_ne_true
    | success m' s' =>
      rw [hturn] at hsound
      exact hsound
    | again m' s' =>
      rw [hturn] at hsound hok
      exact ih m' hsound hok

/-! ## Fields -/

/-- What the library documents of its functions. -/
structure CodedLib.Documented (lib : CodedLib) : Prop extends lib.Reads where
  varint_read : ∀ n r, 128 ≤ n → n < 2 ^ 64 →
    lib.readVarint32Fallback (varint n ++ r) = (some (UInt32.ofNat n), r)
  tag_read : ∀ n r, 128 ≤ n → n < 2 ^ 32 →
    lib.readTagFallback (varint n ++ r) = (UInt32.ofNat n, false, r)
  bytes_read : ∀ old b r, b.length < 2 ^ 31 →
    lib.readBytes old (varint b.length ++ (b ++ r)) = (true, b, r)
  skip_varint : ∀ tag n r, getTagWireType tag = 0 → n < 2 ^ 64 →
    lib.skipField tag (varint n ++ r) = (true, r)
  skip_bytes : ∀ tag b r, getTagWireType tag = 2 → b.length < 2 ^ 31 →
    lib.skipField tag (varint b.length ++ (b ++ r)) = (true, r)
  varint_size : ∀ v : UInt32, 128 ≤ v.toNat → lib.varintSize32Fallback v = (varint v.toNat).length

/-- A field number that a tag can hold, and a value that the library reads. -/
def Legible : Field → Prop
  | .uint number value => 0 < number ∧ number < 2 ^ 29 ∧ value < 2 ^ 64
  | .bytes number value => 0 < number ∧ number < 2 ^ 29 ∧ value.length < 2 ^ 31

def numberOf : Field → ℕ
  | .uint number _ => number
  | .bytes number _ => number

/-- A turn without jumps reads the field. -/
def Takes (lib : CodedLib) (cases : List (FieldCase M)) (f : Field) (m m' : M) : Prop :=
  ∀ r, turn lib parseOne cases m ⟨f.encode ++ r, false⟩ = .again m' ⟨r, false⟩

/-- **A row of fields**, read one after the other. -/
theorem mergeWith_encode (h : lib.Reads) {set : M → Field → M} {fields : List Field}
    (htakes : ∀ f ∈ fields, ∀ m, Takes lib cases f m (set m f)) {fuel : ℕ} (hfuel : fields.length < fuel)
    (m : M) : mergeWith lib parseOne cases fuel m ⟨encode fields, false⟩ =
      (true, fields.foldl set m, ⟨[], true⟩) := by
  obtain ⟨k, rfl⟩ : ∃ k, fuel = k + 1 := Nat.exists_eq_add_one_of_ne_zero (by omega)
  induction fields generalizing m k with
  | nil => exact mergeWith_of_nil h k m rfl
  | cons f fields ih =>
    rw [List.length_cons] at hfuel
    obtain ⟨j, rfl⟩ : ∃ j, k = j + 1 := Nat.exists_eq_add_one_of_ne_zero (by omega)
    have hread := htakes f List.mem_cons_self m (encode fields)
    rw [mergeWith, encode, List.flatMap_cons, ← encode, hread]
    exact ih (fun f hf => htakes f (List.mem_cons_of_mem _ hf)) _ j (by omega)

section

variable {pre post : List (FieldCase M)} {f : FieldCase M} {number : ℕ}

theorem varint_of_lt {n : ℕ} (h : n < 128) : varint n = [UInt8.ofNat n] := by
  rw [varint, if_pos h]

theorem toNat_byte {k : ℕ} (h : k < 256) : (UInt8.ofNat k).toNat = k := UInt8.toNat_ofNat_of_lt' h

theorem toNat_tag {k : ℕ} (h : k < 2 ^ 32) : (UInt32.ofNat k).toNat = k := UInt32.toNat_ofNat_of_lt' h

/-- The first byte of a longer number has its high bit set. -/
theorem varint_of_le {n : ℕ} (h : 128 ≤ n) : ∃ b rest, varint n = b :: rest ∧ ¬ b < 0x80 := by
  rw [varint, if_neg (Nat.not_lt.mpr h)]
  refine ⟨_, _, rfl, ?_⟩
  rw [UInt8.lt_iff_toNat_lt, toNat_byte (by omega)]
  exact Nat.not_lt.mpr (Nat.le_add_left _ _)

theorem ofNat_lt {n : ℕ} (h : n < 128) : UInt8.ofNat n < 0x80 := by
  rw [UInt8.lt_iff_toNat_lt, toNat_byte (by omega)]
  exact h

theorem toUInt32_ofNat {n : ℕ} (h : n < 128) : (UInt8.ofNat n).toUInt32 = UInt32.ofNat n := by
  rw [← UInt32.toNat_inj, UInt8.toNat_toUInt32, toNat_byte (by omega),
    toNat_tag (by omega)]

namespace CodedInputStream

theorem readVarint32_varint (h : lib.Documented) {n : ℕ} (hn : n < 2 ^ 64) (r : Bytes)
    (legitimate : Bool) : readVarint32 lib ⟨varint n ++ r, legitimate⟩ = (true, UInt32.ofNat n, ⟨r, legitimate⟩) := by
  by_cases hlow : n < 128
  · rw [varint_of_lt hlow, List.singleton_append, readVarint32]
    dsimp only
    rw [if_pos (ofNat_lt hlow), toUInt32_ofNat hlow]
  · have hread := h.varint_read n r (Nat.not_lt.mp hlow) hn
    obtain ⟨b, rest, hb, hhigh⟩ := varint_of_le (Nat.not_lt.mp hlow)
    rw [hb, List.cons_append] at hread ⊢
    rw [readVarint32]
    dsimp only
    rw [if_neg hhigh, readVarint32Slow, hread]
    rfl

/-- A message within another is read up to its limit, and nothing behind it. -/
theorem readMessageNoVirtual_payload (h : lib.Documented)
    {merge : M → CodedInputStream → Bool × M × CodedInputStream} {m m' : M} {b : Bytes}
    (hb : b.length < 2 ^ 31) (hmerge : merge m ⟨b, false⟩ = (true, m', ⟨[], true⟩)) (r : Bytes) :
    readMessageNoVirtual lib merge m ⟨varint b.length ++ b ++ r, false⟩ = (true, m', ⟨r, false⟩) := by
  have hsize : (UInt32.ofNat b.length).toNat = b.length := toNat_tag (by omega)
  rw [readMessageNoVirtual, List.append_assoc, readVarint32_varint h (by omega)]
  simp only [hsize, List.take_left, List.drop_left, hmerge]
  rfl

theorem readTag_varint (h : lib.Documented) {n : ℕ} (hpos : 0 < n) (hn : n < 2 ^ 32) (r : Bytes)
    (legitimate : Bool) : readTagWithCutoff lib ⟨varint n ++ r, legitimate⟩ =
      (UInt32.ofNat n, decide (n < 128), ⟨r, legitimate⟩) := by
  by_cases hlow : n < 128
  · have hzero : 0 < UInt8.ofNat n := by
      rw [UInt8.lt_iff_toNat_lt, toNat_byte (by omega)]
      exact hpos
    rw [varint_of_lt hlow, List.singleton_append, readTagWithCutoff]
    dsimp only
    rw [if_pos ⟨hzero, ofNat_lt hlow⟩, toUInt32_ofNat hlow, decide_eq_true hlow]
  · have hread := h.tag_read n r (Nat.not_lt.mp hlow) hn
    have hcutoff : ¬ UInt32.ofNat n - 1 < cutoff := by
      rw [UInt32.lt_iff_toNat_lt, UInt32.toNat_sub_of_le, toNat_tag hn]
      · exact Nat.not_lt.mpr (Nat.le_sub_one_of_lt (Nat.lt_of_not_le fun h => hlow (Nat.lt_succ_of_le h)))
      · rw [UInt32.le_iff_toNat_le, toNat_tag hn]
        exact hpos
    obtain ⟨b, rest, hb, hhigh⟩ := varint_of_le (Nat.not_lt.mp hlow)
    rw [hb, List.cons_append] at hread ⊢
    rw [readTagWithCutoff]
    dsimp only
    rw [if_neg fun h => hhigh h.2, readTagSlow, hread]
    dsimp only
    rw [decide_eq_false hlow, decide_eq_false hcutoff, Bool.or_false]

end CodedInputStream

/-- The `case` of a tag takes a field that has the tag and that it reads. -/
theorem takes_case (hcases : schema.cases = pre ++ f :: post) {tag : ℕ} {payload : Bytes} {x : Field}
    (hx : x.encode = varint tag ++ payload) (htag : f.tag = UInt8.ofNat tag) (hlt : tag < 128) {m m' : M}
    (hread : ∀ r, f.read m ⟨payload ++ r, false⟩ = (true, m', ⟨r, false⟩)) :
    Takes lib schema.cases x m m' := by
  intro r
  have hf : f ∈ schema.cases := hcases ▸ List.mem_append_right _ List.mem_cons_self
  have hexpect : CodedInputStream.expectTag f.tag ⟨x.encode ++ r, false⟩ =
      some ⟨payload ++ r, false⟩ := by
    rw [hx, varint_of_lt hlt, ← htag]
    exact if_pos rfl
  rw [turn, schema.readTag_of_expected hf hexpect]
  dsimp only
  rw [if_pos rfl, switchOn_case hcases, parseOne, hread]

theorem getTagFieldNumber_ofNat {tag : ℕ} (h : tag < 2 ^ 32) :
    (getTagFieldNumber (UInt32.ofNat tag)).toNat = tag / 8 := by
  rw [getTagFieldNumber, UInt32.toNat_shiftRight, toNat_tag h]
  exact Nat.shiftRight_eq_div_pow tag 3

theorem getTagWireType_ofNat {tag : ℕ} (h : tag < 2 ^ 32) :
    (getTagWireType (UInt32.ofNat tag)).toNat = tag % 8 := by
  rw [getTagWireType, UInt32.toNat_and, toNat_tag h]
  exact Nat.and_two_pow_sub_one_eq_mod tag 3

/-- A tag that no `case` has, and that ends no group, is skipped with its field. -/
theorem takes_skipped (h : lib.Documented) {tag : ℕ} (hpos : 0 < tag) (htag : tag < 2 ^ 32)
    (hgroup : tag % 8 ≠ 4) {payload : Bytes} {x : Field} (hx : x.encode = varint tag ++ payload)
    (hnone : ∀ f ∈ cases, (numberOfTag f.tag).toNat ≠ tag / 8)
    (hskip : ∀ r, lib.skipField (UInt32.ofNat tag) (payload ++ r) = (true, r)) (m : M) :
    Takes lib cases x m m := by
  intro r
  have hzero : ¬ (UInt32.ofNat tag = 0 ∨ getTagWireType (UInt32.ofNat tag) = wireTypeEndGroup) := by
    rintro (hzero | hend)
    · exact hpos.ne' ((toNat_tag htag).symm.trans (congrArg UInt32.toNat hzero))
    · exact hgroup ((getTagWireType_ofNat htag).symm.trans (congrArg UInt32.toNat hend))
  have hunusual : handleUnusual lib (UInt32.ofNat tag) m ⟨payload ++ r, false⟩ =
      .again m ⟨r, false⟩ := by
    rw [handleUnusual, if_neg hzero, hskip]
  have hdrop : cases.dropWhile (fun f => numberOfTag f.tag != getTagFieldNumber (UInt32.ofNat tag)) =
      [] := by
    refine List.dropWhile_eq_nil_iff.mpr fun f hf => bne_iff_ne.mpr fun heq => hnone f hf ?_
    rw [heq, getTagFieldNumber_ofNat htag]
  rw [turn, hx, List.append_assoc, readTag_varint h hpos htag]
  dsimp only
  split_ifs
  · rw [switchOn, hdrop]
    exact hunusual
  · exact hunusual

/-- **A field that no `case` has is skipped.** -/
theorem takes_unknown (h : lib.Documented) {x : Field} (hlegible : Legible x)
    (hnone : ∀ f ∈ cases, (numberOfTag f.tag).toNat ≠ numberOf x) (m : M) : Takes lib cases x m m := by
  cases x with
  | uint number value =>
    obtain ⟨hpos, hnumber, hvalue⟩ := hlegible
    have htag : 8 * number < 2 ^ 32 := by omega
    refine takes_skipped h (by omega) htag (by omega) rfl (fun f hf => ?_)
      (fun r => h.skip_varint _ value r ?_ hvalue) m
    · rw [Nat.mul_div_cancel_left number (by decide)]
      exact hnone f hf
    · rw [← UInt32.toNat_inj, getTagWireType_ofNat htag, Nat.mul_mod_right]
      rfl
  | bytes number value =>
    obtain ⟨hpos, hnumber, hvalue⟩ := hlegible
    have htag : 8 * number + 2 < 2 ^ 32 := by omega
    refine takes_skipped h (by omega) htag (by omega) rfl (fun f hf => ?_) (fun r => ?_) m
    · rw [show (8 * number + 2) / 8 = number by omega]
      exact hnone f hf
    · rw [List.append_assoc]
      refine h.skip_bytes _ value r ?_ hvalue
      rw [← UInt32.toNat_inj, getTagWireType_ofNat htag]
      show (8 * number + 2) % 8 = 2
      omega

end

end Nettik
