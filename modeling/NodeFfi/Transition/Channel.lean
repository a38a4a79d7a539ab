import NodeFfi.Transition.Lts

/-!
# A first-in first-out channel

The abstract view of a queue between senders and a receiver: anyone may send, and what is received
is what was sent first and not yet received. In every run what was in the channel and what was
sent is, in this order, what was received and what is still in it (`run_channel`), so a system
that a channel simulates loses, repeats and reorders nothing.
-/

namespace NodeFfi.Transition

/-- An event of a channel. -/
inductive Transfer (α : Type) where
  | send (a : α)
  | receive (a : α)

namespace Transfer

variable {α : Type}

def sent? : Transfer α → Option α
  | .send a => some a
  | .receive _ => none

def received? : Transfer α → Option α
  | .send _ => none
  | .receive a => some a

end Transfer

variable {α : Type} [DecidableEq α]

/-- The channel: its state is what is on the way, the oldest first. -/
def channel (α : Type) [DecidableEq α] : Lts (List α) (Transfer α) where
  enabled q
    | .send _ => True
    | .receive a => q.head? = some a
  dec q l := by cases l <;> infer_instance
  next q
    | .send a => q ++ [a]
    | .receive _ => q.tail

/-- **Nothing is lost, repeated or reordered.** -/
theorem run_channel {q q' : List α} {ls : List (Transfer α)}
    (h : (channel α).run q ls = some q') :
    q ++ ls.filterMap Transfer.sent? = ls.filterMap Transfer.received? ++ q' := by
  induction ls generalizing q with
  | nil =>
    obtain rfl : q = q' := by simpa using h
    simp
  | cons l ls ih =>
    obtain ⟨hl, hrun⟩ := (Lts.run_cons q l ls q').mp h
    have hrest := ih hrun
    cases l with
    | send a =>
      rw [show (channel α).next q (.send a) = q ++ [a] from rfl] at hrest
      simpa [List.filterMap_cons, Transfer.sent?, Transfer.received?] using hrest
    | receive a =>
      obtain ⟨tail, rfl⟩ := List.head?_eq_some_iff.mp (show q.head? = some a from hl)
      rw [show (channel α).next (a :: tail) (.receive a) = tail from rfl] at hrest
      simpa [List.filterMap_cons, Transfer.sent?, Transfer.received?] using hrest

end NodeFfi.Transition
