import Mathlib.Algebra.Order.Ring.Int
import Mathlib.Data.List.Basic

/-!
# Numbers as byte strings

`toLE w n` is the `w`-byte little-endian representation of `n` modulo `256 ^ w`, `ofLE` its value;
`toBE` and `ofBE` are the same with the highest byte first.
-/

namespace Lib

def toLE : Nat → Nat → List UInt8
  | 0, _ => []
  | w + 1, n => UInt8.ofNat n :: toLE w (n / 256)

def ofLE : List UInt8 → Nat
  | [] => 0
  | b :: bs => b.toNat + 256 * ofLE bs

@[simp] theorem toLE_length (w n : Nat) : (toLE w n).length = w := by
  induction w generalizing n with
  | zero => rfl
  | succ w ih => simp [toLE, ih]

theorem ofLE_toLE (w n : Nat) : ofLE (toLE w n) = n % 256 ^ w := by
  induction w generalizing n with
  | zero => simp [toLE, ofLE, Nat.mod_one]
  | succ w ih =>
    have hb : (UInt8.ofNat n).toNat = n % 256 := by simp [UInt8.toNat_ofNat']
    rw [toLE, ofLE, ih, hb, Nat.pow_succ', Nat.mod_mul]

theorem ofNat_ofLE_toLE (x : UInt64) : UInt64.ofNat (ofLE (toLE 8 x.toNat)) = x := by
  rw [ofLE_toLE, Nat.mod_eq_of_lt (by simpa using x.toNat_lt), UInt64.ofNat_toNat]

def toBE (w n : Nat) : List UInt8 := (toLE w n).reverse

def ofBE (bs : List UInt8) : Nat := ofLE bs.reverse

@[simp] theorem toBE_length (w n : Nat) : (toBE w n).length = w := by
  rw [toBE, List.length_reverse, toLE_length]

theorem ofBE_toBE (w n : Nat) : ofBE (toBE w n) = n % 256 ^ w := by
  rw [ofBE, toBE, List.reverse_reverse, ofLE_toLE]

/-!
## Byte ranges of a memory

A memory is a function from offsets. `write m off bs` stores `bs` from `off` on; `read m off n` is
the `n` bytes from `off` on.
-/

open List

variable {α : Type*}

def write (m : Nat → α) (off : Nat) (bs : List α) : Nat → α := fun x =>
  if off ≤ x then (bs[x - off]?).getD (m x) else m x

def read (m : Nat → α) (off n : Nat) : List α := (List.range n).map fun i => m (off + i)

section
variable {m m' : Nat → α} {off n : Nat} {bs : List α}

theorem write_of_disjoint {x : Nat} (h : x < off ∨ off + bs.length ≤ x) :
    write m off bs x = m x := by
  unfold write
  grind

@[simp] theorem read_length : (read m off n).length = n := by
  simp [read]

theorem read_congr (h : ∀ x, off ≤ x → x < off + n → m x = m' x) :
    read m off n = read m' off n := by
  refine map_congr_left fun i hi => h (off + i) (Nat.le_add_right _ _) ?_
  have := mem_range.1 hi
  omega

theorem read_write_self (m : Nat → α) (off : Nat) (bs : List α) :
    read (write m off bs) off bs.length = bs := by
  refine ext_getElem (by simp) fun i h1 h2 => ?_
  simp [read, write, h2]

theorem read_add (k : Nat) : read m off (n + k) = read m off n ++ read m (off + n) k := by
  simp only [read, range_add, map_append, map_map]
  congr 1
  simp [Nat.add_assoc]

end

/-!
## Byte files with a position

A file as a descriptor sees it: its bytes and the position of the next read or write. `At l p bs`
says that the bytes `bs` stand in `l` from `p` on.
-/

open List

@[ext] structure ByteFile where
  content : List UInt8
  position : Nat

namespace ByteFile

def read (f : ByteFile) (n : Nat) : List UInt8 × ByteFile :=
  let bs := (f.content.drop f.position).take n
  (bs, { f with position := f.position + bs.length })

def write (f : ByteFile) (bs : List UInt8) : ByteFile where
  content := f.content.take f.position ++ List.replicate (f.position - f.content.length) 0 ++ bs ++
    f.content.drop (f.position + bs.length)
  position := f.position + bs.length

def seek (f : ByteFile) (position : Nat) : ByteFile := { f with position := position }

end ByteFile

def At (l : List UInt8) (p : Nat) (bs : List UInt8) : Prop :=
  ∀ i < bs.length, l[p + i]? = bs[i]?

variable {l bs bs' : List UInt8} {p : Nat}

theorem at_append : At l p (bs ++ bs') ↔ At l p bs ∧ At l (p + bs.length) bs' := by
  constructor
  · intro h
    refine ⟨fun i hi => ?_, fun i hi => ?_⟩
    · rw [h i (by rw [length_append]; omega), getElem?_append_left hi]
    · rw [Nat.add_assoc, h _ (by rw [length_append]; omega),
        getElem?_append_right (Nat.le_add_right _ _), Nat.add_sub_cancel_left]
  · rintro ⟨h, h'⟩ i hi
    rw [length_append] at hi
    by_cases hlt : i < bs.length
    · rw [h i hlt, getElem?_append_left hlt]
    · have hi' := h' (i - bs.length) (by omega)
      grind

theorem at_middle (before bs behind : List UInt8) :
    At (before ++ bs ++ behind) before.length bs := by
  intro i hi
  grind

theorem At.take_drop (h : At l p bs) : (l.drop p).take bs.length = bs := by
  apply ext_getElem?
  intro i
  rw [getElem?_take]
  split
  · rename_i hi
    rw [getElem?_drop, h i hi]
  · grind

namespace ByteFile

theorem getElem?_write (f : ByteFile) (bs : List UInt8) (i : Nat) :
    (f.write bs).content[i]? =
      if i < f.position then if i < f.content.length then f.content[i]? else some 0
      else if i < f.position + bs.length then bs[i - f.position]?
      else f.content[i]? := by
  have hlen : (f.content.take f.position ++
      List.replicate (f.position - f.content.length) (0 : UInt8)).length = f.position := by
    grind
  rw [write, append_assoc, getElem?_append, hlen, getElem?_append]
  grind

theorem at_write (f : ByteFile) (bs : List UInt8) : At (f.write bs).content f.position bs := by
  intro i hi
  rw [getElem?_write, if_neg (by omega), if_pos (by omega), Nat.add_sub_cancel_left]

theorem write_write (f : ByteFile) (bs bs' : List UInt8) :
    (f.write bs).write bs' = f.write (bs ++ bs') := by
  have hpos : ((f.write bs).write bs').position = (f.write (bs ++ bs')).position := by
    simp only [write, length_append]
    omega
  have hcontent : ((f.write bs).write bs').content = (f.write (bs ++ bs')).content := by
    apply ext_getElem?
    intro i
    have hlen : (f.write bs).content.length = max (f.position + bs.length) f.content.length := by
      simp only [write, length_append, length_take, length_replicate, length_drop]
      omega
    rw [getElem?_write, getElem?_write, getElem?_write, hlen, length_append,
      getElem?_append, show (f.write bs).position = f.position + bs.length from rfl]
    grind
  exact ByteFile.ext hcontent hpos

end ByteFile

theorem At.write {f : ByteFile} (h : At f.content p bs)
    (hdisj : p + bs.length ≤ f.position ∨ f.position + bs'.length ≤ p) :
    At (f.write bs').content p bs := by
  intro i hi
  have hget := h i hi
  rw [ByteFile.getElem?_write]
  grind

end Lib
