import Mathlib

/-!
# Byte codecs

A codec writes a value as a list of bytes and reads a value from the front of a list, leaving the
rest. `c.Reads a b` says that what was written for `a` is read as `b`, whatever follows it. The two
differ where the format drops part of a value. `c.Rejects a` says that what was written for `a`
cannot be read at all.

Sequences carry a length of 8 bytes, so these laws are about encodings of fewer than `2 ^ 64`
bytes. Every combinator has a law that reduces the law of the whole to the laws of the parts.
-/

namespace ActixPura

abbrev Bytes := List UInt8

/-! ## Fixed-width numbers -/

/-- The `k` low bytes of a number, the least significant first. -/
def leBytes : ℕ → ℕ → Bytes
  | 0, _ => []
  | k + 1, n => UInt8.ofNat n :: leBytes k (n / 256)

def ofLE : Bytes → ℕ
  | [] => 0
  | b :: bs => b.toNat + 256 * ofLE bs

/-- The `k` low bytes of a number, the most significant first. -/
def beBytes (k n : ℕ) : Bytes := (leBytes k n).reverse

def ofBE (bs : Bytes) : ℕ := ofLE bs.reverse

@[simp] theorem length_leBytes (k n : ℕ) : (leBytes k n).length = k := by
  induction k generalizing n with
  | zero => rfl
  | succ k ih => simp [leBytes, ih]

@[simp] theorem length_beBytes (k n : ℕ) : (beBytes k n).length = k := by
  simp [beBytes]

theorem take_leBytes {j k : ℕ} (h : j ≤ k) (n : ℕ) : (leBytes k n).take j = leBytes j n := by
  induction j generalizing k n with
  | zero => rfl
  | succ j ih =>
      cases k with
      | zero => omega
      | succ k => rw [leBytes, leBytes, List.take_succ_cons, ih (by omega)]

theorem ofLE_leBytes {k n : ℕ} (h : n < 256 ^ k) : ofLE (leBytes k n) = n := by
  induction k generalizing n with
  | zero =>
      rw [pow_zero] at h
      simp only [leBytes, ofLE]
      omega
  | succ k ih =>
      have hdiv : n / 256 < 256 ^ k := by
        rw [Nat.div_lt_iff_lt_mul (by decide), ← pow_succ]
        exact h
      simp only [leBytes, ofLE, ih hdiv, UInt8.toNat_ofNat']
      omega

theorem ofBE_beBytes {k n : ℕ} (h : n < 256 ^ k) : ofBE (beBytes k n) = n := by
  rw [ofBE, beBytes, List.reverse_reverse, ofLE_leBytes h]

theorem ofLE_append (as bs : Bytes) : ofLE (as ++ bs) = ofLE as + 256 ^ as.length * ofLE bs := by
  induction as with
  | nil => simp [ofLE]
  | cons a as ih =>
      rw [List.cons_append, ofLE, ih, ofLE, List.length_cons, pow_succ]
      ring

/-! ## Reading a fixed number of bytes -/

/-- The first `n` bytes and the rest, if there are `n` bytes. -/
def readExact (n : ℕ) (bs : Bytes) : Option (Bytes × Bytes) :=
  if n ≤ bs.length then some (bs.take n, bs.drop n) else none

theorem readExact_append {n : ℕ} {as : Bytes} (h : as.length = n) (rest : Bytes) :
    readExact n (as ++ rest) = some (as, rest) := by
  subst h
  simp [readExact]

theorem readExact_of_lt {n : ℕ} {bs : Bytes} (h : bs.length < n) : readExact n bs = none := by
  rw [readExact, if_neg (not_le.mpr h)]

/-! ## Codecs -/

structure Codec (α : Type*) where
  encode : α → Bytes
  decode : Bytes → Option (α × Bytes)

namespace Codec

variable {α β : Type*}

/-- Reading from the front of the input; trailing bytes are ignored. -/
def read (c : Codec α) (bs : Bytes) : Option α := (c.decode bs).map Prod.fst

def Reads (c : Codec α) (a b : α) : Prop :=
  (c.encode a).length < 2 ^ 64 → ∀ rest, c.decode (c.encode a ++ rest) = some (b, rest)

def Rejects (c : Codec α) (a : α) : Prop :=
  (c.encode a).length < 2 ^ 64 → ∀ rest, c.decode (c.encode a ++ rest) = none

/-- A number in `k` bytes. -/
def fixed (k : ℕ) : Codec ℕ where
  encode n := leBytes k n
  decode bs := (readExact k bs).map fun r => (ofLE r.1, r.2)

/-- A number in `k` bytes, the most significant first. -/
def octets (k : ℕ) : Codec ℕ where
  encode n := beBytes k n
  decode bs := (readExact k bs).map fun r => (ofBE r.1, r.2)

/-- A codec for a type that is written by way of another one. -/
def conv (c : Codec β) (view : α → β) (build : β → Option α) : Codec α where
  encode a := c.encode (view a)
  decode bs := (c.decode bs).bind fun r => (build r.1).map fun a => (a, r.2)

def pair (c : Codec α) (d : Codec β) : Codec (α × β) where
  encode p := c.encode p.1 ++ d.encode p.2
  decode bs := (c.decode bs).bind fun r => (d.decode r.2).map fun s => ((r.1, s.1), s.2)

/-- Raw bytes after their number. -/
def bytes : Codec Bytes where
  encode bs := leBytes 8 bs.length ++ bs
  decode bs := ((fixed 8).decode bs).bind fun r => readExact r.1 r.2

def decodeMany (c : Codec α) : ℕ → Bytes → Option (List α × Bytes)
  | 0, bs => some ([], bs)
  | n + 1, bs => (c.decode bs).bind fun r => (decodeMany c n r.2).map fun s => (r.1 :: s.1, s.2)

/-- The elements of a sequence after their number. -/
def list (c : Codec α) : Codec (List α) where
  encode as := leBytes 8 as.length ++ as.flatMap c.encode
  decode bs := ((fixed 8).decode bs).bind fun r => c.decodeMany r.1 r.2

/-- A byte that says whether a value follows. -/
def option (c : Codec α) : Codec (Option α) where
  encode
    | none => [0]
    | some a => 1 :: c.encode a
  decode
    | 0 :: bs => some (none, bs)
    | 1 :: bs => (c.decode bs).map fun r => (some r.1, r.2)
    | _ => none

/-- A sum type: the number of the variant in 4 bytes, then its payload. -/
def tagged (tag : α → ℕ) (payload : α → Bytes) (variants : ℕ → Bytes → Option (α × Bytes)) :
    Codec α where
  encode a := leBytes 4 (tag a) ++ payload a
  decode bs := ((fixed 4).decode bs).bind fun r => variants r.1 r.2

/-- Reads the payload of a variant. -/
def variant (c : Codec β) (mk : β → α) (bs : Bytes) : Option (α × Bytes) :=
  (c.decode bs).map fun r => (mk r.1, r.2)

theorem reads_fixed {k n : ℕ} (h : n < 256 ^ k) : (fixed k).Reads n n := by
  intro _ rest
  simp only [fixed]
  rw [readExact_append (length_leBytes k n), Option.map_some, ofLE_leBytes h]

theorem reads_octets {k n : ℕ} (h : n < 256 ^ k) : (octets k).Reads n n := by
  intro _ rest
  simp only [octets]
  rw [readExact_append (length_beBytes k n), Option.map_some, ofBE_beBytes h]

section

variable {c : Codec α} {d : Codec β}

theorem Reads.conv {view : β → α} {build : α → Option β} {b b' : β} {a : α}
    (h : c.Reads (view b) a) (hbuild : build a = some b') : (c.conv view build).Reads b b' := by
  intro hlen rest
  simp only [Codec.conv] at hlen ⊢
  rw [h hlen rest, Option.bind_some, hbuild, Option.map_some]

theorem Rejects.conv {view : β → α} {build : α → Option β} {b : β} (h : c.Rejects (view b)) :
    (c.conv view build).Rejects b := by
  intro hlen rest
  simp only [Codec.conv] at hlen ⊢
  rw [h hlen rest, Option.bind_none]

theorem length_pair (a : α) (b : β) :
    ((c.pair d).encode (a, b)).length = (c.encode a).length + (d.encode b).length := by
  simp [pair]

theorem Reads.pair {a a' : α} {b b' : β} (ha : c.Reads a a') (hb : d.Reads b b') :
    (c.pair d).Reads (a, b) (a', b') := by
  intro hlen rest
  rw [length_pair] at hlen
  simp only [Codec.pair, List.append_assoc]
  rw [ha (by omega), Option.bind_some, hb (by omega), Option.map_some]

theorem Reads.pair_rejects {a a' : α} {b : β} (ha : c.Reads a a') (hb : d.Rejects b) :
    (c.pair d).Rejects (a, b) := by
  intro hlen rest
  rw [length_pair] at hlen
  simp only [Codec.pair, List.append_assoc]
  rw [ha (by omega), Option.bind_some, hb (by omega), Option.map_none]

theorem decode_tagged {tag : α → ℕ} {payload : α → Bytes}
    {variants : ℕ → Bytes → Option (α × Bytes)} {a : α} (htag : tag a < 256 ^ 4) (rest : Bytes) :
    (tagged tag payload variants).decode ((tagged tag payload variants).encode a ++ rest) =
      variants (tag a) (payload a ++ rest) := by
  have hfixed := reads_fixed htag (by simp [fixed]) (payload a ++ rest)
  simp only [tagged, List.append_assoc]
  rw [show leBytes 4 (tag a) = (fixed 4).encode (tag a) from rfl, hfixed, Option.bind_some]

theorem Reads.variant {b b' : β} (h : d.Reads b b') (mk : β → α)
    (hlen : (d.encode b).length < 2 ^ 64) (rest : Bytes) :
    Codec.variant d mk (d.encode b ++ rest) = some (mk b', rest) := by
  rw [Codec.variant, h hlen rest, Option.map_some]

theorem Rejects.variant {b : β} (h : d.Rejects b) (mk : β → α)
    (hlen : (d.encode b).length < 2 ^ 64) (rest : Bytes) :
    Codec.variant d mk (d.encode b ++ rest) = none := by
  rw [Codec.variant, h hlen rest, Option.map_none]

theorem reads_bytes (bs : Bytes) : bytes.Reads bs bs := by
  intro hlen rest
  simp only [bytes, List.length_append, length_leBytes] at hlen
  have hfixed := reads_fixed (k := 8) (n := bs.length) (by omega) (by simp [fixed]) (bs ++ rest)
  simp only [bytes, List.append_assoc]
  rw [show leBytes 8 bs.length = (fixed 8).encode bs.length from rfl, hfixed, Option.bind_some,
    readExact_append rfl]

theorem decodeMany_flatMap {as : List α} (h : ∀ a ∈ as, c.Reads a a)
    (hlen : (as.flatMap c.encode).length < 2 ^ 64) (rest : Bytes) :
    c.decodeMany as.length (as.flatMap c.encode ++ rest) = some (as, rest) := by
  induction as with
  | nil => rfl
  | cons a as ih =>
      rw [List.flatMap_cons, List.length_append] at hlen
      have ha := h a List.mem_cons_self (by omega) (as.flatMap c.encode ++ rest)
      rw [List.flatMap_cons, List.append_assoc, List.length_cons, decodeMany, ha,
        Option.bind_some, ih (fun b hb => h b (List.mem_cons_of_mem _ hb)) (by omega),
        Option.map_some]

theorem length_le_flatMap {as : List α} (h : ∀ a ∈ as, 0 < (c.encode a).length) :
    as.length ≤ (as.flatMap c.encode).length := by
  induction as with
  | nil => exact Nat.zero_le _
  | cons a as ih =>
      have ha := h a List.mem_cons_self
      have has := ih fun b hb => h b (List.mem_cons_of_mem _ hb)
      rw [List.flatMap_cons, List.length_append, List.length_cons]
      omega

theorem reads_list {as : List α} (h : ∀ a ∈ as, c.Reads a a)
    (hpos : ∀ a ∈ as, 0 < (c.encode a).length) : c.list.Reads as as := by
  intro hlen rest
  simp only [list, List.length_append, length_leBytes] at hlen
  have hcount := length_le_flatMap hpos
  have hfixed := reads_fixed (k := 8) (n := as.length) (by omega) (by simp [fixed])
    (as.flatMap c.encode ++ rest)
  simp only [list, List.append_assoc]
  rw [show leBytes 8 as.length = (fixed 8).encode as.length from rfl, hfixed, Option.bind_some,
    decodeMany_flatMap h (by omega)]

theorem reads_option {o : Option α} (h : ∀ a ∈ o, c.Reads a a) : c.option.Reads o o := by
  intro hlen rest
  cases o with
  | none => rfl
  | some a =>
      simp only [option, List.length_cons] at hlen
      simp only [option, List.cons_append]
      rw [h a rfl (by omega), Option.map_some]

end

/-! ## Machine integers, truth values and text -/

def u8 : Codec UInt8 := (fixed 1).conv UInt8.toNat fun n => some (.ofNat n)

def u16 : Codec UInt16 := (fixed 2).conv UInt16.toNat fun n => some (.ofNat n)

def u32 : Codec UInt32 := (fixed 4).conv UInt32.toNat fun n => some (.ofNat n)

def u64 : Codec UInt64 := (fixed 8).conv UInt64.toNat fun n => some (.ofNat n)

/-- Two's complement. -/
def i32 : Codec Int32 := u32.conv Int32.toUInt32 fun n => some n.toInt32

def bool : Codec Bool := (fixed 1).conv Bool.toNat fun
  | 0 => some false
  | 1 => some true
  | _ => none

/-- UTF-8 text, refused when the bytes are not valid. -/
def string : Codec String :=
  bytes.conv (fun s => s.toByteArray.data.toList) fun bs => String.fromUTF8? ⟨bs.toArray⟩

theorem reads_u8 (n : UInt8) : u8.Reads n n :=
  (reads_fixed n.toNat_lt).conv (by rw [UInt8.ofNat_toNat])

theorem reads_u16 (n : UInt16) : u16.Reads n n :=
  (reads_fixed n.toNat_lt).conv (by rw [UInt16.ofNat_toNat])

theorem reads_u32 (n : UInt32) : u32.Reads n n :=
  (reads_fixed n.toNat_lt).conv (by rw [UInt32.ofNat_toNat])

theorem reads_u64 (n : UInt64) : u64.Reads n n :=
  (reads_fixed n.toNat_lt).conv (by rw [UInt64.ofNat_toNat])

theorem reads_bool (b : Bool) : bool.Reads b b := by
  have hlt : b.toNat < 256 ^ 1 := by cases b <;> decide
  refine (reads_fixed hlt).conv ?_
  cases b <;> rfl

theorem reads_string (s : String) : string.Reads s s := by
  refine (reads_bytes _).conv ?_
  rw [Array.toArray_toList, String.fromUTF8?, dif_pos s.isValidUTF8]
  rfl

end Codec

end ActixPura
