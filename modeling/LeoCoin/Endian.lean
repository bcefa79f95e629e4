import Mathlib.Tactic.IntervalCases

/-! # Integers as stored bytes

The C code converts integers with `htobe64`, `betoh64`, `htonl`, `ntohl`, `htons` and
`ntohs` and then stores them through a pointer cast, so what reaches a buffer is the object
representation of the converted integer.  That representation depends on the
host; the bytes in the buffer do not, and this file proves it:

* `storeUInt64_htobe64` — a stored `htobe64` is the big endian byte string;
* `betoh64_loadUInt64` — `betoh64` of a loaded integer reads it back;
* `joinBytes_splitBytes`, `splitBytes_joinBytes` — the two byte strings
  operations are inverse.
-/

namespace LeoCoin

/-- The byte order of the host. -/
inductive ByteOrder where
  | littleEndian : ByteOrder
  | bigEndian : ByteOrder
deriving DecidableEq, Repr

/-! ## Big endian byte strings -/

/-- The bytes of `data`, most significant first. -/
def splitBytes (data : UInt64) : Vector UInt8 8 :=
  #v[(data >>> 56).toUInt8, (data >>> 48).toUInt8, (data >>> 40).toUInt8, (data >>> 32).toUInt8,
    (data >>> 24).toUInt8, (data >>> 16).toUInt8, (data >>> 8).toUInt8, (data >>> 0).toUInt8]

def joinBytes (p : Vector UInt8 8) : UInt64 :=
  p[0].toUInt64 <<< 56 ||| p[1].toUInt64 <<< 48 ||| p[2].toUInt64 <<< 40 ||| p[3].toUInt64 <<< 32 |||
    p[4].toUInt64 <<< 24 ||| p[5].toUInt64 <<< 16 ||| p[6].toUInt64 <<< 8 ||| p[7].toUInt64 <<< 0

def splitBytes32 (data : UInt32) : Vector UInt8 4 :=
  #v[(data >>> 24).toUInt8, (data >>> 16).toUInt8, (data >>> 8).toUInt8, (data >>> 0).toUInt8]

def joinBytes32 (p : Vector UInt8 4) : UInt32 :=
  p[0].toUInt32 <<< 24 ||| p[1].toUInt32 <<< 16 ||| p[2].toUInt32 <<< 8 ||| p[3].toUInt32 <<< 0

def splitBytes16 (data : UInt16) : Vector UInt8 2 :=
  #v[(data >>> 8).toUInt8, (data >>> 0).toUInt8]

def joinBytes16 (p : Vector UInt8 2) : UInt16 :=
  p[0].toUInt16 <<< 8 ||| p[1].toUInt16 <<< 0

/-- A byte shifted into its place gives the bits of that place and no others. -/
theorem placed_bit (bits : Nat → Bool) (bit place : Nat) :
    (!decide (bit < place) && (decide (bit - place < 8) && bits (place + (bit - place)))) =
      (decide (place ≤ bit ∧ bit < place + 8) && bits bit) := by
  by_cases below : bit < place
  · have outside : ¬ (place ≤ bit ∧ bit < place + 8) := by omega
    simp [below, outside]
  · have same : place + (bit - place) = bit := by omega
    have within : bit - place < 8 ↔ place ≤ bit ∧ bit < place + 8 := by omega
    simp [below, same, within]

@[simp] theorem joinBytes_splitBytes (data : UInt64) : joinBytes (splitBytes data) = data := by
  apply UInt64.toBitVec_inj.mp
  apply BitVec.eq_of_getLsbD_eq
  intro bit bound
  simp [joinBytes, splitBytes, -UInt64.toUInt64_toUInt8, bound, placed_bit]
  -- every bit lies in the place of one of the eight bytes
  cases data.toBitVec[bit] with
  | false => simp
  | true =>
    simp
    omega

@[simp] theorem splitBytes_joinBytes (p : Vector UInt8 8) : splitBytes (joinBytes p) = p := by
  apply Vector.ext
  intro index indexBound
  apply UInt8.toBitVec_inj.mp
  apply BitVec.eq_of_getLsbD_eq
  intro bit bound
  interval_cases index <;> simp [joinBytes, splitBytes, bound] <;> interval_cases bit <;> simp

@[simp] theorem joinBytes32_splitBytes32 (data : UInt32) : joinBytes32 (splitBytes32 data) = data := by
  apply UInt32.toBitVec_inj.mp
  apply BitVec.eq_of_getLsbD_eq
  intro bit bound
  simp [joinBytes32, splitBytes32, -UInt32.toUInt32_toUInt8, bound, placed_bit]
  cases data.toBitVec[bit] with
  | false => simp
  | true =>
    simp
    omega

@[simp] theorem splitBytes32_joinBytes32 (p : Vector UInt8 4) : splitBytes32 (joinBytes32 p) = p := by
  apply Vector.ext
  intro index indexBound
  apply UInt8.toBitVec_inj.mp
  apply BitVec.eq_of_getLsbD_eq
  intro bit bound
  interval_cases index <;> simp [joinBytes32, splitBytes32, bound] <;> interval_cases bit <;> simp

@[simp] theorem joinBytes16_splitBytes16 (data : UInt16) : joinBytes16 (splitBytes16 data) = data := by
  apply UInt16.toBitVec_inj.mp
  apply BitVec.eq_of_getLsbD_eq
  intro bit bound
  simp [joinBytes16, splitBytes16, -UInt16.toUInt16_toUInt8, bound, placed_bit]
  cases data.toBitVec[bit] with
  | false => simp
  | true =>
    simp
    omega

@[simp] theorem splitBytes16_joinBytes16 (p : Vector UInt8 2) : splitBytes16 (joinBytes16 p) = p := by
  apply Vector.ext
  intro index inside
  apply UInt8.toBitVec_inj.mp
  apply BitVec.eq_of_getLsbD_eq
  intro bit bound
  interval_cases index <;> simp [joinBytes16, splitBytes16, bound]
  interval_cases bit <;> simp

/-! ## Object representations -/

/-- `*(uint64_t *)p = data` -/
def storeUInt64 : ByteOrder → UInt64 → Vector UInt8 8
  | .bigEndian, data => splitBytes data
  | .littleEndian, data => (splitBytes data).reverse

/-- `*(uint64_t *)p` -/
def loadUInt64 : ByteOrder → Vector UInt8 8 → UInt64
  | .bigEndian, p => joinBytes p
  | .littleEndian, p => joinBytes p.reverse

def storeUInt32 : ByteOrder → UInt32 → Vector UInt8 4
  | .bigEndian, data => splitBytes32 data
  | .littleEndian, data => (splitBytes32 data).reverse

def loadUInt32 : ByteOrder → Vector UInt8 4 → UInt32
  | .bigEndian, p => joinBytes32 p
  | .littleEndian, p => joinBytes32 p.reverse

def storeUInt16 : ByteOrder → UInt16 → Vector UInt8 2
  | .bigEndian, data => splitBytes16 data
  | .littleEndian, data => (splitBytes16 data).reverse

def loadUInt16 : ByteOrder → Vector UInt8 2 → UInt16
  | .bigEndian, p => joinBytes16 p
  | .littleEndian, p => joinBytes16 p.reverse

@[simp] theorem storeUInt64_loadUInt64 (order : ByteOrder) (p : Vector UInt8 8) :
    storeUInt64 order (loadUInt64 order p) = p := by
  cases order <;> simp [storeUInt64, loadUInt64]

@[simp] theorem storeUInt32_loadUInt32 (order : ByteOrder) (p : Vector UInt8 4) :
    storeUInt32 order (loadUInt32 order p) = p := by
  cases order <;> simp [storeUInt32, loadUInt32]

@[simp] theorem storeUInt16_loadUInt16 (order : ByteOrder) (p : Vector UInt8 2) :
    storeUInt16 order (loadUInt16 order p) = p := by
  cases order <;> simp [storeUInt16, loadUInt16]

theorem splitBytes_injective : Function.Injective splitBytes := by
  intro left right same
  rw [← joinBytes_splitBytes left, same, joinBytes_splitBytes]

theorem splitBytes32_injective : Function.Injective splitBytes32 := by
  intro left right same
  rw [← joinBytes32_splitBytes32 left, same, joinBytes32_splitBytes32]

theorem splitBytes16_injective : Function.Injective splitBytes16 := by
  intro left right same
  rw [← joinBytes16_splitBytes16 left, same, joinBytes16_splitBytes16]

theorem storeUInt64_injective (order : ByteOrder) : Function.Injective (storeUInt64 order) := by
  intro left right same
  cases order with
  | bigEndian => exact splitBytes_injective same
  | littleEndian => exact splitBytes_injective (Vector.reverse_inj.mp same)

/-! ## The conversions -/

/-- Builds the result byte by byte: `p[0] = data >> 56`, …, `p[7] = data >> 0`. -/
def htobe64 (order : ByteOrder) (data : UInt64) : UInt64 :=
  loadUInt64 order #v[(data >>> 56).toUInt8, (data >>> 48).toUInt8, (data >>> 40).toUInt8,
    (data >>> 32).toUInt8, (data >>> 24).toUInt8, (data >>> 16).toUInt8, (data >>> 8).toUInt8,
    (data >>> 0).toUInt8]

/-- Collects `p[0] << 56`, …, `p[7] << 0` from the bytes of `data`. -/
def betoh64 (order : ByteOrder) (data : UInt64) : UInt64 :=
  let p := storeUInt64 order data
  p[0].toUInt64 <<< 56 ||| p[1].toUInt64 <<< 48 ||| p[2].toUInt64 <<< 40 ||| p[3].toUInt64 <<< 32 |||
    p[4].toUInt64 <<< 24 ||| p[5].toUInt64 <<< 16 ||| p[6].toUInt64 <<< 8 ||| p[7].toUInt64 <<< 0

/-- `htonl`, from the C library. -/
def htonl (order : ByteOrder) (data : UInt32) : UInt32 :=
  loadUInt32 order (splitBytes32 data)

/-- `ntohl`, from the C library. -/
def ntohl (order : ByteOrder) (data : UInt32) : UInt32 :=
  joinBytes32 (storeUInt32 order data)

/-- `htons`, from the C library. -/
def htons (order : ByteOrder) (data : UInt16) : UInt16 :=
  loadUInt16 order (splitBytes16 data)

/-- `ntohs`, from the C library. -/
def ntohs (order : ByteOrder) (data : UInt16) : UInt16 :=
  joinBytes16 (storeUInt16 order data)

@[simp] theorem storeUInt64_htobe64 (order : ByteOrder) (data : UInt64) :
    storeUInt64 order (htobe64 order data) = splitBytes data :=
  storeUInt64_loadUInt64 order _

@[simp] theorem betoh64_loadUInt64 (order : ByteOrder) (p : Vector UInt8 8) :
    betoh64 order (loadUInt64 order p) = joinBytes p := by
  show joinBytes (storeUInt64 order (loadUInt64 order p)) = joinBytes p
  rw [storeUInt64_loadUInt64]

@[simp] theorem storeUInt32_htonl (order : ByteOrder) (data : UInt32) :
    storeUInt32 order (htonl order data) = splitBytes32 data :=
  storeUInt32_loadUInt32 order _

@[simp] theorem ntohl_loadUInt32 (order : ByteOrder) (p : Vector UInt8 4) :
    ntohl order (loadUInt32 order p) = joinBytes32 p := by
  rw [ntohl, storeUInt32_loadUInt32]

@[simp] theorem storeUInt16_htons (order : ByteOrder) (data : UInt16) :
    storeUInt16 order (htons order data) = splitBytes16 data :=
  storeUInt16_loadUInt16 order _

@[simp] theorem ntohs_loadUInt16 (order : ByteOrder) (p : Vector UInt8 2) :
    ntohs order (loadUInt16 order p) = joinBytes16 p := by
  rw [ntohs, storeUInt16_loadUInt16]

end LeoCoin
