/-
Streams of length-prefixed blocks.

A block is written after its length, in eight bytes with the most significant first.
Whatever follows, a reader of the stream can tell where each block ends, so a list of
blocks is determined by its stream (`stream_inj`), provided each length fits the eight
bytes it is written in.
-/
import Mathlib.Algebra.Order.Ring.Nat
import Mathlib.Data.List.Basic

namespace Framing

/-- A number in `width` bytes, the most significant first. -/
def bigEndian : ℕ → ℕ → List UInt8
  | 0, _ => []
  | width + 1, n => UInt8.ofNat (n / 256 ^ width) :: bigEndian width n

/-- A block after its length. -/
def frame (block : List UInt8) : List UInt8 := bigEndian 8 block.length ++ block

/-- The frames of the blocks, one after the other. -/
def stream (blocks : List (List UInt8)) : List UInt8 := blocks.flatMap frame

/-- The length fits the bytes it is written in. -/
def Fits (block : List UInt8) : Prop := block.length < 256 ^ 8

theorem bigEndian_length (width n : ℕ) : (bigEndian width n).length = width := by
  induction width with
  | zero => rfl
  | succ width ih => rw [bigEndian, List.length_cons, ih]

/-- The bytes determine the number, up to what does not fit. -/
theorem bigEndian_inj {width n m : ℕ} (h : bigEndian width n = bigEndian width m) :
    n % 256 ^ width = m % 256 ^ width := by
  induction width with
  | zero => rw [pow_zero, Nat.mod_one, Nat.mod_one]
  | succ width ih =>
    rw [bigEndian, bigEndian, List.cons.injEq] at h
    have hbyte : n / 256 ^ width % 256 = m / 256 ^ width % 256 := by
      have := congrArg UInt8.toNat h.1
      rwa [UInt8.toNat_ofNat', UInt8.toNat_ofNat'] at this
    rw [Nat.mod_pow_succ, Nat.mod_pow_succ, ih h.2, hbyte]

/-- A block and what follows it are read off the frame. -/
theorem frame_append_inj {b b' r r' : List UInt8} (hb : Fits b) (hb' : Fits b')
    (h : frame b ++ r = frame b' ++ r') : b = b' ∧ r = r' := by
  rw [frame, frame, List.append_assoc, List.append_assoc] at h
  obtain ⟨hlength, hrest⟩ := List.append_inj h (by rw [bigEndian_length, bigEndian_length])
  have hsame : b.length = b'.length := by
    have hmod := bigEndian_inj hlength
    rwa [Nat.mod_eq_of_lt hb, Nat.mod_eq_of_lt hb'] at hmod
  exact List.append_inj hrest hsame

theorem frame_append_ne_nil (b r : List UInt8) : frame b ++ r ≠ [] := by
  intro h
  have hlength := congrArg List.length h
  rw [frame, List.length_append, List.length_append, bigEndian_length, List.length_nil] at hlength
  omega

/-- The stream determines the blocks. -/
theorem stream_inj {bs bs' : List (List UInt8)} (hbs : ∀ b ∈ bs, Fits b)
    (hbs' : ∀ b ∈ bs', Fits b) (h : stream bs = stream bs') : bs = bs' := by
  induction bs generalizing bs' with
  | nil =>
    cases bs' with
    | nil => rfl
    | cons b' bs' => exact absurd h.symm (frame_append_ne_nil b' (stream bs'))
  | cons b bs ih =>
    cases bs' with
    | nil => exact absurd h (frame_append_ne_nil b (stream bs))
    | cons b' bs' =>
      rw [List.forall_mem_cons] at hbs hbs'
      obtain ⟨rfl, hrest⟩ := frame_append_inj hbs.1 hbs'.1 h
      rw [ih hbs.2 hbs'.2 hrest]

end Framing
