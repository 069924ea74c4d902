import Mathlib.Data.List.Induction
import Mathlib.Tactic.Linarith
import Mathlib.Tactic.LinearCombination

/-!
# The Fletcher checksum

`fletcher_checksum` adds up the bytes of a buffer and their partial sums, and
reduces the sums modulo 255 after each block of 4102 bytes.  The two check
bytes make both sums of the whole buffer zero.
-/

namespace OpsCli.Routing.Checksum

open List

/-- The bytes that are added without a reduction. -/
def modx : Nat := 4102

def fletcherChecksumValidate : Nat := 0xffff

/-- The value is of type `int`. -/
abbrev Fits (value : Int) : Prop := -2 ^ 31 ≤ value ∧ value < 2 ^ 31

/-- The sum of the bytes, and that of its own values. -/
structure Sums where
  c0 : Nat
  c1 : Nat
deriving DecidableEq, Repr

def Sums.add (sums : Sums) (byte : UInt8) : Sums where
  c0 := sums.c0 + byte.toNat
  c1 := sums.c1 + (sums.c0 + byte.toNat)

def Sums.reduce (sums : Sums) : Sums where
  c0 := sums.c0 % 255
  c1 := sums.c1 % 255

/-- The loop over a block, which is undefined if a sum overflows. -/
def addBlock (sums : Sums) : List UInt8 → Option Sums
  | [] => some sums
  | byte :: block =>
    if Fits (sums.add byte).c0 ∧ Fits (sums.add byte).c1 then addBlock (sums.add byte) block
    else none

def addBlocks (sums : Sums) (buffer : List UInt8) : Option Sums :=
  if buffer = [] then some sums
  else do
    let block ← addBlock sums (buffer.take modx)
    addBlocks block.reduce (buffer.drop modx)
termination_by buffer.length
decreasing_by
  have := length_pos_iff.mpr ‹_›
  rw [length_drop, modx]
  omega

/-- The check bytes; the product is of type `size_t` and is cast to `int`. -/
def checkBytes (len offset : Nat) (sums : Sums) : Option (Int × Int) :=
  let rest := (((len - offset - 1) * sums.c0 - sums.c1 : Int).bmod (2 ^ 32)).tmod 255
  let x := if rest ≤ 0 then rest + 255 else rest
  let y := 510 - sums.c0 - x
  if Fits x ∧ Fits y then some (x, if y > 255 then y - 255 else y) else none

/-- `fletcher_checksum`: the value that is returned and the buffer, or nothing
if the offset is not inside or a sum overflows. -/
def fletcherChecksum (htons : UInt16 → UInt16) (buffer : List UInt8) (offset : Nat) :
    Option (UInt16 × List UInt8) := do
  let zeroed ← if offset = fletcherChecksumValidate then some buffer
    else if offset + 1 < buffer.length then some ((buffer.set offset 0).set (offset + 1) 0)
    else none
  let sums ← addBlocks ⟨0, 0⟩ zeroed
  let (x, y) ← checkBytes buffer.length offset sums
  if offset = fletcherChecksumValidate then
    if Fits (sums.c1 * 256 + sums.c0) then some (.ofNat (sums.c1 * 256 + sums.c0), zeroed)
    else none
  else if Fits (x * 256 + y % 256) then some (htons (.ofInt (x * 256 + y % 256)),
    (zeroed.set offset (.ofInt x)).set (offset + 1) (.ofInt y))
  else none

/-! ## The sums -/

variable {sums : Sums} {buffer block : List UInt8}

theorem addBlock_eq (fits : 2 * sums.c1 + 2 * (block.length * sums.c0) +
      255 * (block.length * (block.length + 1)) < 2 ^ 32) :
    addBlock sums block = some (block.foldl Sums.add sums) := by
  induction block generalizing sums with
  | nil => rfl
  | cons byte block ih =>
    have small := UInt8.toNat_lt byte
    have product := Nat.mul_le_mul_left block.length (show byte.toNat ≤ 255 by omega)
    rw [length_cons] at fits
    -- What the other bytes can still add is bounded along with the sums.
    have later : 2 * (sums.add byte).c1 + 2 * (block.length * (sums.add byte).c0) +
        255 * (block.length * (block.length + 1)) < 2 ^ 32 := by
      unfold Sums.add
      nlinarith
    have here : Fits (sums.add byte).c0 ∧ Fits (sums.add byte).c1 := by
      dsimp only [Fits, Sums.add] at later ⊢
      omega
    exact (if_pos here).trans (ih later)

/-- An early reduction does not show in the end. -/
theorem reduce_foldl (sums : Sums) (buffer : List UInt8) :
    (buffer.foldl Sums.add sums.reduce).reduce = (buffer.foldl Sums.add sums).reduce := by
  induction buffer generalizing sums with
  | nil => simp [Sums.reduce]
  | cons byte rest ih =>
    have step : (sums.reduce.add byte).reduce = (sums.add byte).reduce := by
      simp only [Sums.reduce, Sums.add, Sums.mk.injEq]
      omega
    rw [foldl_cons, foldl_cons, ← ih, step, ih]

theorem addBlocks_eq (first : sums.c0 < 255) (second : sums.c1 < 255) :
    addBlocks sums buffer = some (buffer.foldl Sums.add sums).reduce := by
  induction sums, buffer using addBlocks.induct with
  | case1 sums => simp [addBlocks, Sums.reduce, Nat.mod_eq_of_lt, first, second]
  | case2 sums buffer present ih =>
    have short : (buffer.take modx).length ≤ 4102 := length_take_le _ _
    have product := Nat.mul_le_mul short (Nat.le_of_lt_succ first)
    have square := Nat.mul_le_mul short (Nat.add_le_add_right short 1)
    rw [addBlocks, if_neg present, addBlock_eq (by omega), Option.bind_eq_bind, Option.bind_some,
      ih _ (Nat.mod_lt _ (by decide)) (Nat.mod_lt _ (by decide)), reduce_foldl, ← foldl_append,
      take_append_drop]

/-! ## The check bytes -/

/-- The check bytes solve the congruences. -/
theorem exists_checkBytes {len offset : Nat} {weight : Int} (equal : len - offset - 1 = weight)
    (first : sums.c0 < 255) (second : sums.c1 < 255) (short : len < 2 ^ 16)
    (small : offset < 2 ^ 16) :
    ∃ x y, checkBytes len offset sums = some (x, y) ∧ 0 ≤ x ∧ x < 256 ∧ 0 ≤ y ∧ y < 256 ∧
      255 ∣ weight * sums.c0 - sums.c1 - x ∧ 255 ∣ sums.c0 + x + y := by
  have low : -2 ^ 31 ≤ weight * sums.c0 - sums.c1 := by nlinarith
  have high : weight * sums.c0 - sums.c1 < 2 ^ 31 := by nlinarith
  rw [checkBytes, equal]
  generalize weight * sums.c0 - sums.c1 = value at low high ⊢
  have divided := Int.mul_tdiv_add_tmod value 255
  have above := Int.lt_tmod_of_pos value (show (0 : Int) < 255 by decide)
  have below := Int.tmod_lt_of_pos value (show (0 : Int) < 255 by decide)
  rw [Int.bmod_eq_of_le (by omega) (by omega)]
  refine ⟨_, _, if_pos ?_, ?_⟩
  · omega
  · omega

theorem exists_foldl (before rest : List UInt8) : ∃ c0 c1, ∀ x y : UInt8,
    (before ++ x :: y :: rest).foldl Sums.add ⟨0, 0⟩ = ⟨c0 + x.toNat + y.toNat,
      c1 + (rest.length + 2) * x.toNat + (rest.length + 1) * y.toNat⟩ := by
  induction rest using reverseRecOn with
  | nil =>
    generalize start : before.foldl Sums.add ⟨0, 0⟩ = sums
    refine ⟨sums.c0, sums.c1 + 2 * sums.c0, fun x y => ?_⟩
    rw [foldl_append, start, foldl_cons, foldl_cons, foldl_nil, Sums.mk.injEq]
    dsimp only [Sums.add, length_nil]
    omega
  | append_singleton rest byte ih =>
    obtain ⟨c0, c1, same⟩ := ih
    refine ⟨c0 + byte.toNat, c1 + c0 + byte.toNat, fun x y => ?_⟩
    rw [← cons_append, ← cons_append, ← append_assoc, foldl_append, same, foldl_cons, foldl_nil,
      Sums.mk.injEq, length_append]
    dsimp only [Sums.add, length_singleton]
    constructor
    · linarith
    · linarith

theorem reduce_eq_zero {a b n x y : Nat} (first : (255 : Int) ∣ (a % 255 : Nat) + x + y)
    (second : (255 : Int) ∣ (n + 1) * (a % 255 : Nat) - (b % 255 : Nat) - x) :
    Sums.reduce ⟨a + x + y, b + (n + 2) * x + (n + 1) * y⟩ = ⟨0, 0⟩ := by
  have zero : (a + x + y) % 255 = 0 := by omega
  obtain ⟨k, sum⟩ := first
  obtain ⟨q, quotient⟩ := second
  obtain ⟨d, divided⟩ : ∃ d : Int, b = (b % 255 : Nat) + 255 * d := ⟨b / 255, by omega⟩
  rw [Sums.reduce, Sums.mk.injEq]
  refine ⟨zero, Nat.mod_eq_zero_of_dvd (Int.natCast_dvd_natCast.mp ⟨d - q + (n + 1) * k, ?_⟩)⟩
  push_cast
  linear_combination (n + 1) * sum - quotient + divided

theorem toNat_ofInt {x : Int} (low : 0 ≤ x) (high : x < 256) : (UInt8.ofInt x).toNat = x := by
  rw [UInt8.ofInt, UInt8.toNat_ofNat']
  omega

theorem fletcherChecksum_validate (htons : UInt16 → UInt16) (short : buffer.length < 2 ^ 16)
    (zero : (buffer.foldl Sums.add ⟨0, 0⟩).reduce = ⟨0, 0⟩) :
    fletcherChecksum htons buffer fletcherChecksumValidate = some (0, buffer) := by
  obtain ⟨x, y, computed, _⟩ := @exists_checkBytes ⟨0, 0⟩ _ fletcherChecksumValidate _ rfl
    (by decide) (by decide) short (by decide)
  simp [fletcherChecksum, @addBlocks_eq ⟨0, 0⟩, zero, computed]

/-- **The check bytes are all that changes, and the buffer is valid with
them.** -/
theorem fletcherChecksum_valid (htons : UInt16 → UInt16) {buffer : List UInt8} {offset : Nat}
    (short : buffer.length < 2 ^ 16) (inside : offset < buffer.length - 1) :
    ∃ checksum x y, fletcherChecksum htons buffer offset =
        some (checksum, (buffer.set offset x).set (offset + 1) y) ∧
      fletcherChecksum htons ((buffer.set offset x).set (offset + 1) y) fletcherChecksumValidate =
        some (0, (buffer.set offset x).set (offset + 1) y) := by
  obtain ⟨before, a, b, rest, rfl, rfl⟩ : ∃ before a b rest,
      buffer = before ++ a :: b :: rest ∧ before.length = offset := by
    refine ⟨buffer.take offset, buffer[offset], buffer[offset + 1], buffer.drop (offset + 2),
      ?_, ?_⟩
    · simp
    · rw [length_take]
      omega
  simp only [length_append, length_cons] at short
  -- The sums of the zeroed buffer, to which the check bytes add linearly.
  obtain ⟨c0, c1, sums⟩ := exists_foldl before rest
  have zeroed : (before ++ 0 :: 0 :: rest).foldl Sums.add ⟨0, 0⟩ = ⟨c0, c1⟩ := sums 0 0
  obtain ⟨x, y, computed, x0, x1, y0, y1, second, first⟩ := @exists_checkBytes
    (Sums.reduce ⟨c0, c1⟩) _ before.length (rest.length + 1) (by omega)
    (Nat.mod_lt _ (by decide)) (Nat.mod_lt _ (by decide)) short (by omega)
  rw [← toNat_ofInt x0 x1] at first second
  rw [← toNat_ofInt y0 y1] at first
  have zero := reduce_eq_zero first second
  rw [← sums] at zero
  have other : before.length ≠ fletcherChecksumValidate := by
    unfold fletcherChecksumValidate
    omega
  refine ⟨htons (.ofInt (x * 256 + y % 256)), .ofInt x, .ofInt y, ?_, ?_⟩
  · simp [-foldl_append, fletcherChecksum, other, @addBlocks_eq ⟨0, 0⟩, zeroed, computed]
    omega
  · have valid := fletcherChecksum_validate htons (by simpa using short) zero
    simpa using valid

/-- The checksum of two bytes. -/
theorem two_bytes_valid : ∃ checksum x y, fletcherChecksum id [1, 2] 0 = some (checksum, [x, y]) ∧
    fletcherChecksum id [x, y] fletcherChecksumValidate = some (0, [x, y]) :=
  @fletcherChecksum_valid id [1, 2] 0 (by decide) (by decide)

end OpsCli.Routing.Checksum
