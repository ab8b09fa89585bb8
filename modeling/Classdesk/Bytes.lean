/-!
# Byte strings and big-endian numbers

A byte string is a list of bytes. `Bytes.ofNat w n` writes the low `w` bytes of
`n`, most significant first, and `Bytes.toNat` reads a number back:

> `ofNat_toNat`: `Bytes.ofNat bs.length bs.toNat = bs`

Everything that is stored as a number goes through these two functions.
-/

namespace Classdesk

/-- A byte string. -/
abbrev Bytes := List UInt8

namespace Bytes

/-- The low `w` bytes of `n`, most significant byte first. -/
def ofNat : (w n : Nat) → Bytes
  | 0, _ => []
  | w + 1, n => ofNat w (n / 256) ++ [UInt8.ofNat n]

/-- The number whose base-256 digits are these bytes, most significant first. -/
def toNat (bs : Bytes) : Nat := bs.foldl (fun n b => n * 256 + b.toNat) 0

@[simp] theorem toNat_nil : toNat [] = 0 := rfl

/-- Another byte at the end is another digit. -/
@[simp] theorem toNat_concat (bs : Bytes) (b : UInt8) :
    toNat (bs ++ [b]) = toNat bs * 256 + b.toNat := by
  simp [toNat]

@[simp] theorem length_ofNat (w n : Nat) : (ofNat w n).length = w := by
  induction w generalizing n with
  | zero => rfl
  | succ w ih => simp [ofNat, ih]

/-- A number that was written is read back with the digits that fit: writing one
more byte adds the digit that the shorter form left out. -/
theorem toNat_ofNat_succ (w n : Nat) :
    toNat (ofNat (w + 1) n) = toNat (ofNat w (n / 256)) * 256 + n % 256 := by
  rw [ofNat, toNat_concat]
  congr 1

/-- A byte string is determined by its length and its number. -/
theorem ofNat_toNat (bs : Bytes) : ofNat bs.length (toNat bs) = bs := by
  suffices h : ∀ rev : Bytes, ofNat rev.reverse.length (toNat rev.reverse) = rev.reverse by
    simpa using h bs.reverse
  intro rev
  induction rev with
  | nil => rfl
  | cons b rev ih =>
    have hb : b.toNat < 256 := b.toNat_lt
    have hdiv : (toNat rev.reverse * 256 + b.toNat) / 256 = toNat rev.reverse := by omega
    have hbyte : UInt8.ofNat (toNat rev.reverse * 256 + b.toNat) = b := by
      apply UInt8.toNat_inj.1
      show (toNat rev.reverse * 256 + b.toNat) % 256 = b.toNat
      omega
    rw [List.reverse_cons, List.length_append, List.length_singleton, toNat_concat, ofNat,
      hdiv, hbyte, ih]

end Bytes

end Classdesk
