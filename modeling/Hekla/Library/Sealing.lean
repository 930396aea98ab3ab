import Mathlib.Logic.Basic

/-!
# Ideal sealing

A box is a message sealed under a key and bound to some associated data.  It
opens with that key and that data, and with nothing else.
-/

namespace Hekla.Library

universe u v w

structure Box (κ : Type u) (α : Type v) (μ : Type w) where
  key : κ
  bound : α
  message : μ
  deriving DecidableEq

namespace Box

variable {κ : Type u} {α : Type v} {μ : Type w} [DecidableEq κ] [DecidableEq α]

def openWith (box : Box κ α μ) (key : κ) (bound : α) : Option μ :=
  if box.key = key ∧ box.bound = bound then some box.message else none

@[simp]
theorem openWith_self (box : Box κ α μ) : box.openWith box.key box.bound = some box.message :=
  if_pos ⟨rfl, rfl⟩

theorem openWith_eq_some_iff (box : Box κ α μ) (key : κ) (bound : α) (message : μ) :
    box.openWith key bound = some message ↔
      box.key = key ∧ box.bound = bound ∧ box.message = message := by
  unfold openWith
  constructor
  · intro opens
    split at opens
    · next same => exact ⟨same.1, same.2, Option.some.inj opens⟩
    · cases opens
  · rintro ⟨rfl, rfl, rfl⟩
    exact if_pos ⟨rfl, rfl⟩

/-- Whoever opens a box gets the message that was put in. -/
theorem message_of_openWith {box : Box κ α μ} {key : κ} {bound : α} {message : μ}
    (opens : box.openWith key bound = some message) : message = box.message :=
  ((openWith_eq_some_iff box key bound message).mp opens).2.2.symm

end Box

end Hekla.Library
