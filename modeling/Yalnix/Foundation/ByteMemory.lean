import Mathlib.Algebra.Group.Nat.Defs
import Mathlib.Data.List.Basic
import Mathlib.Data.List.GetD

/-!
# Memory as bytes

A memory has a byte at every address.  Writes are given by the bytes they leave
at an address; words are four bytes, lowest first, and strings end at their
first zero byte.  Ranges that do not meet do not disturb each other.
-/

namespace ByteMemory

/-- The byte at each address. -/
abbrev Bytes := Nat → UInt8

def write (m : Bytes) (start : Nat) (bytes : List UInt8) : Bytes := fun a =>
  if start ≤ a ∧ a < start + bytes.length then bytes.getD (a - start) 0 else m a

/-- `n` bytes from `start` on. -/
def read (m : Bytes) (start n : Nat) : List UInt8 :=
  (List.range n).map fun i => m (start + i)

/-- `n` zero bytes from `start` on. -/
def zero (m : Bytes) (start n : Nat) : Bytes :=
  write m start (List.replicate n 0)

def wordBytes (w : Nat) : List UInt8 :=
  [UInt8.ofNat w, UInt8.ofNat (w / 2 ^ 8), UInt8.ofNat (w / 2 ^ 16),
    UInt8.ofNat (w / 2 ^ 24)]

def storeWord (m : Bytes) (a w : Nat) : Bytes := write m a (wordBytes w)

def loadWord (m : Bytes) (a : Nat) : Nat :=
  (m a).toNat + (m (a + 1)).toNat * 2 ^ 8 + (m (a + 2)).toNat * 2 ^ 16 +
    (m (a + 3)).toNat * 2 ^ 24

/-- The bytes before the first zero byte from `start` on, `limit` at most. -/
def stringLength (m : Bytes) (start : Nat) : Nat → Nat
  | 0 => 0
  | limit + 1 =>
      if m start = 0 then 0 else stringLength m (start + 1) limit + 1

variable {m m' : Bytes} {start a n : Nat} {bytes : List UInt8}

/-! ## Writing and reading -/

@[simp] theorem read_length : (read m start n).length = n := by
  simp [read]

theorem read_congr (h : ∀ a, start ≤ a → a < start + n → m' a = m a) :
    read m' start n = read m start n := by
  apply List.map_congr_left
  intro i hi
  rw [List.mem_range] at hi
  exact h _ (by omega) (by omega)

theorem read_add (k : Nat) :
    read m start (n + k) = read m start n ++ read m (start + n) k := by
  unfold read
  rw [List.range_add, List.map_append, List.map_map]
  simp [Nat.add_assoc]

theorem write_outside (h : a < start ∨ start + bytes.length ≤ a) :
    write m start bytes a = m a := by
  unfold write
  rw [if_neg (by omega)]

theorem write_inside (hge : start ≤ a) (hlt : a < start + bytes.length) :
    write m start bytes a = bytes.getD (a - start) 0 :=
  if_pos ⟨hge, hlt⟩

/-- What has been written is read. -/
theorem read_write : read (write m start bytes) start bytes.length = bytes := by
  apply List.ext_getElem
  · simp
  · intro i hi hi'
    have hread : (read (write m start bytes) start bytes.length)[i] =
        write m start bytes (start + i) := by
      simp [read]
    rw [hread, write_inside (by omega) (by omega), Nat.add_sub_cancel_left,
      List.getD_eq_getElem _ _ hi']

theorem zero_inside (hge : start ≤ a) (hlt : a < start + n) :
    zero m start n a = 0 := by
  unfold zero
  rw [write_inside hge (by simpa using hlt)]
  simp [List.getD_eq_getElem?_getD, List.getElem?_replicate]
  split
  · rfl
  · rfl

theorem zero_outside (h : a < start ∨ start + n ≤ a) :
    zero m start n a = m a := by
  apply write_outside
  simpa using h

/-! ## Words -/

@[simp] theorem wordBytes_length (w : Nat) : (wordBytes w).length = 4 := rfl

theorem storeWord_outside {x w : Nat} (h : x < a ∨ a + 4 ≤ x) :
    storeWord m a w x = m x :=
  write_outside h

theorem loadWord_congr (h : ∀ x, a ≤ x → x < a + 4 → m' x = m x) :
    loadWord m' a = loadWord m a := by
  unfold loadWord
  rw [h a (by omega) (by omega), h (a + 1) (by omega) (by omega),
    h (a + 2) (by omega) (by omega), h (a + 3) (by omega) (by omega)]

/-- A 32-bit value is loaded as it was stored. -/
theorem loadWord_storeWord {w : Nat} (hw : w < 2 ^ 32) :
    loadWord (storeWord m a w) a = w := by
  have hbyte (i : Nat) (hi : i < 4) :
      storeWord m a w (a + i) = (wordBytes w).getD i 0 := by
    unfold storeWord
    rw [write_inside (by omega) (by simpa using hi), Nat.add_sub_cancel_left]
  have hfirst := hbyte 0 (by omega)
  rw [Nat.add_zero] at hfirst
  unfold loadWord
  rw [hfirst, hbyte 1 (by omega), hbyte 2 (by omega), hbyte 3 (by omega)]
  simp [wordBytes]
  omega

/-- A stored zero word consists of zero bytes. -/
theorem storeWord_zero {x : Nat} (hge : a ≤ x) (hlt : x < a + 4) :
    storeWord m a 0 x = 0 := by
  have hzero : wordBytes 0 = List.replicate 4 0 := rfl
  unfold storeWord
  rw [hzero]
  exact zero_inside hge hlt

theorem loadWord_zero (h : ∀ x, a ≤ x → x < a + 4 → m x = 0) :
    loadWord m a = 0 := by
  unfold loadWord
  rw [h a (by omega) (by omega), h (a + 1) (by omega) (by omega),
    h (a + 2) (by omega) (by omega), h (a + 3) (by omega) (by omega)]
  rfl

/-! ## Strings -/

/-- The string and its terminating zero byte stand at the address. -/
def StringAt (m : Bytes) (a : Nat) (s : List UInt8) : Prop :=
  read m a (s.length + 1) = s ++ [0]

theorem StringAt.congr {s : List UInt8} (h : StringAt m a s)
    (hsame : ∀ x, a ≤ x → x < a + (s.length + 1) → m' x = m x) :
    StringAt m' a s := by
  unfold StringAt
  rw [read_congr hsame]
  exact h

theorem StringAt.write {s : List UInt8} :
    StringAt (ByteMemory.write m a (s ++ [0])) a s := by
  unfold StringAt
  have hread := @read_write m a (s ++ [0])
  rw [List.length_append] at hread
  exact hread

/-- The length of a string without zero bytes is found. -/
theorem StringAt.length {s : List UInt8} (h : StringAt m a s) (hs : 0 ∉ s)
    {limit : Nat} (hlimit : s.length < limit) :
    stringLength m a limit = s.length := by
  induction s generalizing a limit with
  | nil =>
      obtain ⟨limit, rfl⟩ : ∃ k, limit = k + 1 := ⟨limit - 1, by omega⟩
      have hzero : m a = 0 := by
        have hread := List.cons.inj (h : [m (a + 0)] = [0])
        exact hread.1
      rw [stringLength, if_pos hzero]
      rfl
  | cons b s ih =>
      obtain ⟨limit, rfl⟩ : ∃ k, limit = k + 1 := ⟨limit - 1, by omega⟩
      have hsplit : read m a 1 ++ read m (a + 1) (s.length + 1) =
          [b] ++ (s ++ [0]) := by
        rw [← read_add, Nat.add_comm 1]
        exact h
      obtain ⟨hfirst, hrest⟩ := List.append_inj hsplit rfl
      have hb : m a = b := (List.cons.inj hfirst).1
      have hne : m a ≠ 0 := by
        rintro hzero
        rw [hb] at hzero
        exact hs (hzero ▸ List.mem_cons_self)
      rw [stringLength, if_neg hne, ih hrest, List.length_cons]
      · intro hmem
        exact hs (List.mem_cons_of_mem _ hmem)
      · rw [List.length_cons] at hlimit
        omega

/-- Strings one after the other. -/
def StringsAt (m : Bytes) : Nat → List (List UInt8) → Prop
  | _, [] => True
  | a, s :: rest => StringAt m a s ∧ StringsAt m (a + s.length + 1) rest

theorem StringsAt.congr {strings : List (List UInt8)}
    (h : StringsAt m a strings) (hsame : ∀ x, a ≤ x → m' x = m x) :
    StringsAt m' a strings := by
  induction strings generalizing a with
  | nil => trivial
  | cons s rest ih =>
      obtain ⟨hfirst, hrest⟩ := h
      constructor
      · apply hfirst.congr
        intro x hge _
        exact hsame x hge
      · apply ih hrest
        intro x hge
        exact hsame x (by omega)

end ByteMemory
