import Mathlib.Algebra.Group.Nat.Defs
import Mathlib.Data.List.Forall2

/-!
# Records in memory

The bytes of a C struct: every member at the next multiple of its alignment,
little-endian numbers, and padding in between that nobody writes. An object is
made by storing its members into memory that holds anything (`fill`); reading
the members back (`read`) gives what was stored, whatever the padding is and
whatever lies behind the object (`read_fill`, `read_append`).

A load past the end of the memory gives `none`.
-/
namespace Xsched.Layout

abbrev Bytes := List UInt8

/-! ## Numbers -/

/-- The `n` low bytes of `v`, lowest first. -/
def leBytes : Nat → Nat → Bytes
  | 0, _ => []
  | n + 1, v => UInt8.ofNat v :: leBytes n (v / 256)

def leValue : Bytes → Nat
  | [] => 0
  | b :: bs => b.toNat + 256 * leValue bs

@[simp] theorem length_leBytes (n v : Nat) : (leBytes n v).length = n := by
  induction n generalizing v with
  | zero => rfl
  | succ n ih => simp [leBytes, ih]

theorem leValue_leBytes (n v : Nat) : leValue (leBytes n v) = v % 256 ^ n := by
  induction n generalizing v with
  | zero => simp [leBytes, leValue, Nat.mod_one]
  | succ n ih =>
    have hb : (UInt8.ofNat v).toNat = v % 256 := UInt8.toNat_ofNat'
    rw [leBytes, leValue, ih, hb, Nat.pow_add, Nat.pow_one, Nat.mul_comm (256 ^ n), Nat.mod_mul]

/-- A number of `n` bytes; a signed member has the same bits. -/
def encode (n : Nat) (v : BitVec (8 * n)) : Bytes := leBytes n v.toNat

def decode (n : Nat) (b : Bytes) : BitVec (8 * n) := .ofNat _ (leValue b)

@[simp] theorem length_encode (n : Nat) (v : BitVec (8 * n)) : (encode n v).length = n :=
  length_leBytes n _

@[simp] theorem decode_encode (n : Nat) (v : BitVec (8 * n)) : decode n (encode n v) = v := by
  have hlt : v.toNat < 256 ^ n := by
    have h := v.isLt
    rwa [Nat.pow_mul] at h
  unfold decode encode
  rw [leValue_leBytes, Nat.mod_eq_of_lt hlt, BitVec.ofNat_toNat, BitVec.setWidth_eq]

/-! ## Loads and stores -/

/-- The `n` bytes from `off`. -/
def load (b : Bytes) (off n : Nat) : Option Bytes :=
  if off + n ≤ b.length then some ((b.drop off).take n) else none

/-- `memcpy(b + off, v, v.length)` -/
def store (b : Bytes) (off : Nat) (v : Bytes) : Bytes :=
  b.take off ++ v ++ b.drop (off + v.length)

/-- `n` bytes of memory before anything is written there. -/
def uninit (raw : Nat → UInt8) (n : Nat) : Bytes := (List.range n).map raw

@[simp] theorem length_uninit (raw : Nat → UInt8) (n : Nat) : (uninit raw n).length = n := by
  simp [uninit]

section
variable {b v : Bytes} {off o n : Nat}

theorem length_store (h : off + v.length ≤ b.length) : (store b off v).length = b.length := by
  simp only [store, List.length_append, List.length_take, List.length_drop]
  omega

theorem load_eq_some (h : off + n ≤ b.length) : load b off n = some ((b.drop off).take n) :=
  if_pos h

theorem length_of_load (h : load b off n = some v) : v.length = n ∧ off + n ≤ b.length := by
  unfold load at h
  split at h
  · rename_i hle
    obtain rfl := Option.some.inj h
    rw [List.length_take, List.length_drop]
    omega
  · cases h

theorem load_store_self (h : off + v.length ≤ b.length) :
    load (store b off v) off v.length = some v := by
  rw [load_eq_some (by rw [length_store h]; exact h)]
  have htake : (b.take off).length = off := by rw [List.length_take]; omega
  unfold store
  rw [List.append_assoc, List.drop_append_of_le_length (by omega), List.drop_of_length_le (by omega),
    List.nil_append, List.take_left]

/-- A store does not change what lies before it. -/
theorem load_store_below (hb : off + v.length ≤ b.length) (h : o + n ≤ off) :
    load (store b off v) o n = load b o n := by
  unfold load
  rw [length_store hb]
  split
  · congr 1
    unfold store
    rw [List.append_assoc, List.drop_append_of_le_length (by rw [List.length_take]; omega),
      List.take_append_of_le_length (by rw [List.length_drop, List.length_take]; omega),
      List.drop_take, List.take_take, Nat.min_eq_left (by omega)]
  · rfl

/-- A store does not change what lies behind it. -/
theorem load_store_above (hb : off + v.length ≤ b.length) (h : off + v.length ≤ o) :
    load (store b off v) o n = load b o n := by
  unfold load
  rw [length_store hb]
  split
  · congr 2
    have hlen : (b.take off ++ v).length = off + v.length := by
      rw [List.length_append, List.length_take]; omega
    have ho : o = (b.take off ++ v).length + (o - (off + v.length)) := by omega
    calc (store b off v).drop o
        = (b.take off ++ v ++ b.drop (off + v.length)).drop
            ((b.take off ++ v).length + (o - (off + v.length))) := by rw [← ho]; rfl
      _ = (b.drop (off + v.length)).drop (o - (off + v.length)) := List.drop_length_add_append _
      _ = b.drop o := by rw [List.drop_drop]; congr 1; omega
  · rfl

/-- A store at the end of the memory. -/
theorem drop_store (h : off + v.length = b.length) : (store b off v).drop off = v := by
  have htake : (b.take off).length = off := by rw [List.length_take]; omega
  unfold store
  rw [List.append_assoc, List.drop_left' htake, List.drop_of_length_le (by omega), List.append_nil]

/-- What is loaded does not depend on what lies behind it. -/
theorem load_append (h : load b off n = some v) (rest : Bytes) :
    load (b ++ rest) off n = some v := by
  have hle := (length_of_load h).2
  rw [load_eq_some hle] at h
  rw [load_eq_some (by rw [List.length_append]; omega), ← h,
    List.drop_append_of_le_length (by omega),
    List.take_append_of_le_length (by rw [List.length_drop]; omega)]

theorem load_all (b : Bytes) : load b 0 b.length = some b := by
  rw [load_eq_some (by omega), List.drop_zero, List.take_length]

end

/-! ## Structs -/

structure Member where
  size : Nat
  align : Nat
  align_pos : 0 < align

/-- A number is aligned to its size. -/
def scalar (n : Nat) (h : 0 < n := by decide) : Member := ⟨n, n, h⟩

/-- `char name[n]` -/
def chars (n : Nat) : Member := ⟨n, 1, by decide⟩

/-- The next multiple of `a`. -/
def roundUp (n a : Nat) : Nat := (n + (a - 1)) / a * a

theorem le_roundUp (n : Nat) {a : Nat} (ha : 0 < a) : n ≤ roundUp n a := by
  have h := Nat.div_add_mod (n + (a - 1)) a
  have hlt := Nat.mod_lt (n + (a - 1)) ha
  unfold roundUp
  rw [Nat.mul_comm]
  omega

/-- The offsets of the members when the first may start at `off`. -/
def offsets : Nat → List Member → List Nat
  | _, [] => []
  | off, m :: ms => roundUp off m.align :: offsets (roundUp off m.align + m.size) ms

/-- Where the last member ends. -/
def endOf : Nat → List Member → Nat
  | off, [] => off
  | off, m :: ms => endOf (roundUp off m.align + m.size) ms

def alignOf (ms : List Member) : Nat := (ms.map Member.align).foldr max 1

/-- `sizeof` -/
def structSize (ms : List Member) : Nat := roundUp (endOf 0 ms) (alignOf ms)

/-- Store the members. -/
def fill : List Member → Nat → List Bytes → Bytes → Bytes
  | m :: ms, off, v :: vs, b =>
    fill ms (roundUp off m.align + m.size) vs (store b (roundUp off m.align) v)
  | _, _, _, b => b

/-- Load the members. -/
def read : List Member → Nat → Bytes → Option (List Bytes)
  | [], _, _ => some []
  | m :: ms, off, b => do
    let v ← load b (roundUp off m.align) m.size
    let vs ← read ms (roundUp off m.align + m.size) b
    return v :: vs

/-- The values have the sizes of the members. -/
def Fits (ms : List Member) (vs : List Bytes) : Prop :=
  List.Forall₂ (fun m v => v.length = m.size) ms vs

theorem le_endOf (ms : List Member) (off : Nat) : off ≤ endOf off ms := by
  induction ms generalizing off with
  | nil => exact Nat.le_refl off
  | cons m ms ih =>
    calc off ≤ roundUp off m.align := le_roundUp off m.align_pos
      _ ≤ roundUp off m.align + m.size := Nat.le_add_right ..
      _ ≤ endOf off (m :: ms) := ih _

theorem one_le_alignOf (ms : List Member) : 1 ≤ alignOf ms := by
  induction ms with
  | nil => exact Nat.le_refl 1
  | cons m ms ih => exact Nat.le_trans ih (Nat.le_max_right ..)

theorem endOf_le_structSize (ms : List Member) : endOf 0 ms ≤ structSize ms :=
  le_roundUp _ (one_le_alignOf ms)

section
variable {ms : List Member} {vs : List Bytes} {b : Bytes} {off : Nat}

theorem length_fill (hf : Fits ms vs) (hb : endOf off ms ≤ b.length) :
    (fill ms off vs b).length = b.length := by
  induction hf generalizing off b with
  | nil => rfl
  | @cons m v ms vs hv _ ih =>
    have hend := le_endOf ms (roundUp off m.align + m.size)
    have hs : (store b (roundUp off m.align) v).length = b.length := by
      apply length_store
      rw [hv]
      exact Nat.le_trans hend hb
    rw [fill, ih (by rw [hs]; exact hb), hs]

/-- The members lie behind `off`. -/
theorem load_fill_below (hf : Fits ms vs) (hb : endOf off ms ≤ b.length) {o n : Nat}
    (h : o + n ≤ off) : load (fill ms off vs b) o n = load b o n := by
  induction hf generalizing off b with
  | nil => rfl
  | @cons m v ms vs hv _ ih =>
    have hend := le_endOf ms (roundUp off m.align + m.size)
    have hle := le_roundUp off m.align_pos
    have hst : roundUp off m.align + v.length ≤ b.length := by
      rw [hv]; exact Nat.le_trans hend hb
    rw [fill, ih (by rw [length_store hst]; exact hb) (by omega),
      load_store_below hst (by omega)]

/-- Every member reads as it was stored. -/
theorem read_fill (hf : Fits ms vs) (hb : endOf off ms ≤ b.length) :
    read ms off (fill ms off vs b) = some vs := by
  induction hf generalizing off b with
  | nil => rfl
  | @cons m v ms vs hv hf ih =>
    have hend := le_endOf ms (roundUp off m.align + m.size)
    have hst : roundUp off m.align + v.length ≤ b.length := by
      rw [hv]; exact Nat.le_trans hend hb
    have hb' : endOf (roundUp off m.align + m.size) ms ≤
        (store b (roundUp off m.align) v).length := by
      rw [length_store hst]; exact hb
    have hload : load (fill ms (roundUp off m.align + m.size) vs (store b (roundUp off m.align) v))
        (roundUp off m.align) m.size = some v := by
      rw [load_fill_below hf hb' (Nat.le_refl _), ← hv]
      exact load_store_self hst
    rw [fill, read, hload, ih hb']
    rfl

/-- The members of an object do not depend on what lies behind it. -/
theorem read_append (h : read ms off b = some vs) (rest : Bytes) :
    read ms off (b ++ rest) = some vs := by
  induction ms generalizing off vs with
  | nil => exact h
  | cons m ms ih =>
    rw [read] at h ⊢
    obtain ⟨v, hv, h⟩ := Option.bind_eq_some_iff.1 h
    obtain ⟨ws, hws, h⟩ := Option.bind_eq_some_iff.1 h
    rw [load_append hv rest, ih hws]
    exact h

/-- A later store does not change the members. -/
theorem read_store_above {o : Nat} {v : Bytes} (hb : o + v.length ≤ b.length)
    (h : endOf off ms ≤ o) : read ms off (store b o v) = read ms off b := by
  induction ms generalizing off with
  | nil => rfl
  | cons m ms ih =>
    have hend := le_endOf ms (roundUp off m.align + m.size)
    rw [read, read, load_store_below hb (Nat.le_trans hend h), ih h]

/-- The `i`th member alone. -/
def member (ms : List Member) (i : Nat) (b : Bytes) : Option Bytes := do
  let off ← (offsets 0 ms)[i]?
  let m ← ms[i]?
  load b off m.size

theorem load_of_read (h : read ms off b = some vs) {i : Nat} (hi : i < ms.length) :
    (do let o ← (offsets off ms)[i]?; let m ← ms[i]?; load b o m.size) = vs[i]? := by
  induction ms generalizing off vs i with
  | nil => exact absurd hi (Nat.not_lt_zero i)
  | cons m ms ih =>
    rw [read] at h
    obtain ⟨v, hv, h⟩ := Option.bind_eq_some_iff.1 h
    obtain ⟨ws, hws, h⟩ := Option.bind_eq_some_iff.1 h
    obtain rfl := Option.some.inj h
    cases i with
    | zero => exact hv
    | succ i => exact ih hws (Nat.lt_of_succ_lt_succ hi)

/-- A member alone is what a read of all of them finds there. -/
theorem member_of_read (h : read ms 0 b = some vs) {i : Nat} (hi : i < ms.length) :
    member ms i b = vs[i]? := load_of_read h hi

end

/-! ## Arrays at the end of a struct -/

/-- The first members, and those behind them. -/
theorem read_split {ms ms' : List Member} {vs vs' : List Bytes} {off : Nat} {b : Bytes}
    (h : read (ms ++ ms') off b = some (vs ++ vs')) (hlen : vs.length = ms.length) :
    read ms off b = some vs ∧ read ms' (endOf off ms) b = some vs' := by
  induction ms generalizing off vs with
  | nil =>
    obtain rfl := List.length_eq_zero_iff.1 hlen
    exact ⟨rfl, h⟩
  | cons m ms ih =>
    cases vs with
    | nil => cases hlen
    | cons v vs =>
      rw [List.cons_append, read] at h
      obtain ⟨w, hw, h⟩ := Option.bind_eq_some_iff.1 h
      obtain ⟨ws, hws, h⟩ := Option.bind_eq_some_iff.1 h
      obtain ⟨rfl, rfl⟩ := List.cons.inj (Option.some.inj h)
      obtain ⟨hfront, hback⟩ := ih hws (Nat.succ.inj hlen)
      refine ⟨?_, hback⟩
      rw [read, hw, hfront]
      rfl

theorem Fits.append {ms ms' : List Member} {vs vs' : List Bytes} (h : Fits ms vs)
    (h' : Fits ms' vs') : Fits (ms ++ ms') (vs ++ vs') := List.rel_append h h'

theorem fits_replicate {m : Member} {vs : List Bytes} (h : ∀ v ∈ vs, v.length = m.size) :
    Fits (List.replicate vs.length m) vs := by
  induction vs with
  | nil => exact .nil
  | cons v vs ih =>
    exact .cons (h v List.mem_cons_self) (ih fun w hw => h w (List.mem_cons_of_mem v hw))

theorem endOf_append (ms ms' : List Member) (off : Nat) :
    endOf off (ms ++ ms') = endOf (endOf off ms) ms' := by
  induction ms generalizing off with
  | nil => rfl
  | cons m ms ih => exact ih _

theorem roundUp_of_dvd {n a : Nat} (ha : 0 < a) (h : a ∣ n) : roundUp n a = n := by
  obtain ⟨k, rfl⟩ := h
  have hdiv : (a * k + (a - 1)) / a = k := by
    rw [Nat.mul_add_div ha, Nat.div_eq_of_lt (by omega), Nat.add_zero]
  rw [roundUp, hdiv, Nat.mul_comm]

/-- An array has no padding. -/
theorem endOf_replicate {n a off : Nat} (ha : 0 < a) (h : a ∣ off) :
    endOf off (List.replicate n (scalar a ha)) = off + n * a := by
  induction n generalizing off with
  | zero => simp [endOf]
  | succ n ih =>
    rw [List.replicate_succ, endOf]
    change endOf (roundUp off a + a) _ = _
    rw [roundUp_of_dvd ha h, ih (Nat.dvd_add h (Nat.dvd_refl a)), Nat.succ_mul]
    omega

/-! ## Objects -/

/-- A struct with these members, made in memory that holds `raw`. -/
def object (ms : List Member) (vs : List Bytes) (raw : Nat → UInt8) : Bytes :=
  fill ms 0 vs (uninit raw (structSize ms))

/-- `T x = *(const T *)mem`: the members are copied, the padding need not be. -/
def copy (ms : List Member) (raw : Nat → UInt8) (mem : Bytes) : Option Bytes := do
  let obj ← load mem 0 (structSize ms)
  let vs ← read ms 0 obj
  return object ms vs raw

section
variable {ms : List Member} {vs : List Bytes}

theorem length_object (hf : Fits ms vs) (raw : Nat → UInt8) :
    (object ms vs raw).length = structSize ms := by
  rw [object, length_fill hf (by rw [length_uninit]; exact endOf_le_structSize ms), length_uninit]

theorem read_object (hf : Fits ms vs) (raw : Nat → UInt8) :
    read ms 0 (object ms vs raw) = some vs :=
  read_fill hf (by rw [length_uninit]; exact endOf_le_structSize ms)

/-- A copy of an object has its members, whatever the paddings are. -/
theorem copy_object (hf : Fits ms vs) (raw raw' : Nat → UInt8) (rest : Bytes) :
    copy ms raw' (object ms vs raw ++ rest) = some (object ms vs raw') := by
  have hall : load (object ms vs raw) 0 (structSize ms) = some (object ms vs raw) := by
    rw [← length_object hf raw]
    exact load_all _
  rw [copy, load_append hall rest]
  change (read ms 0 (object ms vs raw)).bind _ = _
  rw [read_object hf raw]
  rfl

end
end Xsched.Layout
