import Mathlib.Data.List.Basic
import Mathlib.Algebra.Order.Ring.Int

/-!
# Buffered channels of Go

A `Chan` carries the bound of its buffer as a field.  An operation that cannot take place blocks; this is `none`.  One that
panics says so: a `send` on a closed channel, a `close` of one, a `make` of a buffer that cannot be.

* `send_eq_ok`, `recv_eq_some`, `recv_eq_end`, `close_eq_ok` — when an operation takes place, and what it does;
* `send_eq_none`, `recv_eq_none` — when it blocks.
-/

namespace ServiceProxy.Lib

variable {α : Type*}

/-- The run-time panics of the operations below, and of some others. -/
inductive GoPanic
  | divide | indexOutOfRange | sizeOutOfRange | sendOnClosed | closeOfClosed | negativeCounter | nonPositiveInterval
  deriving DecidableEq, Repr

/-- A channel with a buffer. -/
structure Chan (α : Type*) where
  cap : ℕ
  buf : List α
  closed : Bool
  fits : buf.length ≤ cap
  deriving DecidableEq

/-- `make(chan T, n)`, where a buffer holds no more than `limit` elements. -/
def Chan.make (limit : ℕ) (n : ℤ) : Except GoPanic (Chan α) :=
  if 0 ≤ n ∧ n ≤ limit then .ok { cap := n.toNat, buf := [], closed := false, fits := Nat.zero_le _ }
  else .error .sizeOutOfRange

/-- `c <- a`: blocks while the buffer is full. -/
def Chan.send (c : Chan α) (a : α) : Option (Except GoPanic (Chan α)) :=
  if c.closed then some (.error .sendOnClosed)
  else if h : c.buf.length < c.cap then
    some (.ok { c with buf := c.buf ++ [a], fits := by rw [List.length_append]; exact h })
  else none

/-- `<-c`: blocks while the buffer is empty and the channel is open; at the end of a closed channel there is no value. -/
def Chan.recv (c : Chan α) : Option (Option α × Chan α) :=
  match h : c.buf with
  | a :: buf => some (some a, { c with buf, fits := by have := c.fits; rw [h, List.length_cons] at this; omega })
  | [] => if c.closed then some (none, c) else none

/-- `close(c)`. -/
def Chan.close (c : Chan α) : Except GoPanic (Chan α) :=
  if c.closed then .error .closeOfClosed else .ok { c with closed := true }

section Chan

variable {c c' : Chan α} {a : α} {limit : ℕ} {n : ℤ}

theorem make_eq_ok : Chan.make limit n = .ok c ↔
    0 ≤ n ∧ n ≤ limit ∧ c = { cap := n.toNat, buf := [], closed := false, fits := Nat.zero_le _ } := by
  unfold Chan.make
  split_ifs with h
  · simp [h, eq_comm]
  · simp only [false_iff]
    exact fun hmake => h ⟨hmake.1, hmake.2.1⟩

/-- **When a `send` returns**, and what it does. -/
theorem send_eq_ok : c.send a = some (.ok c') ↔
    c.closed = false ∧ c.buf.length < c.cap ∧ c'.cap = c.cap ∧ c'.buf = c.buf ++ [a] ∧ c'.closed = false := by
  obtain ⟨cap, buf, closed, fits⟩ := c
  obtain ⟨cap', buf', closed', fits'⟩ := c'
  unfold Chan.send
  cases closed with
  | true => simp
  | false =>
    by_cases h : buf.length < cap
    · simp [h, eq_comm]
    · simp [h]

theorem send_eq_error {p : GoPanic} : c.send a = some (.error p) ↔ c.closed = true ∧ p = .sendOnClosed := by
  unfold Chan.send
  split_ifs with hclosed hroom
  · simp [hclosed, eq_comm]
  · simp [hclosed]
  · simp [hclosed]

theorem send_eq_none : c.send a = none ↔ c.closed = false ∧ c.buf.length = c.cap := by
  have := c.fits
  unfold Chan.send
  split_ifs with hclosed hroom
  · simp [hclosed]
  · simp only [false_iff]
    omega
  · simp only [true_iff]
    exact ⟨by simpa using hclosed, by omega⟩

/-- **When a value is received.** -/
theorem recv_eq_some : c.recv = some (some a, c') ↔ c.buf = a :: c'.buf ∧ c'.cap = c.cap ∧ c'.closed = c.closed := by
  obtain ⟨cap, buf, closed, fits⟩ := c
  obtain ⟨cap', buf', closed', fits'⟩ := c'
  unfold Chan.recv
  cases buf with
  | nil => cases closed <;> simp
  | cons b buf =>
    simp only [Option.some.injEq, Prod.mk.injEq, Chan.mk.injEq, List.cons.injEq]
    constructor
    · rintro ⟨rfl, rfl, rfl, rfl⟩
      exact ⟨⟨rfl, rfl⟩, rfl, rfl⟩
    · rintro ⟨⟨rfl, rfl⟩, rfl, rfl⟩
      exact ⟨rfl, rfl, rfl, rfl⟩

theorem recv_eq_end : c.recv = some (none, c') ↔ c.closed = true ∧ c.buf = [] ∧ c' = c := by
  obtain ⟨cap, buf, closed, fits⟩ := c
  unfold Chan.recv
  cases buf with
  | nil => cases closed <;> simp [eq_comm]
  | cons b buf => simp

theorem recv_eq_none : c.recv = none ↔ c.closed = false ∧ c.buf = [] := by
  obtain ⟨cap, buf, closed, fits⟩ := c
  unfold Chan.recv
  cases buf with
  | nil => cases closed <;> simp
  | cons b buf => simp

theorem close_eq_ok : c.close = .ok c' ↔ c.closed = false ∧ c'.cap = c.cap ∧ c'.buf = c.buf ∧ c'.closed = true := by
  obtain ⟨cap, buf, closed, fits⟩ := c
  obtain ⟨cap', buf', closed', fits'⟩ := c'
  unfold Chan.close
  cases closed with
  | true => simp
  | false => simp [eq_comm]

theorem close_eq_error {p : GoPanic} : c.close = .error p ↔ c.closed = true ∧ p = .closeOfClosed := by
  unfold Chan.close
  split_ifs with hclosed
  · simp [hclosed, eq_comm]
  · simp [hclosed]

end Chan

end ServiceProxy.Lib
