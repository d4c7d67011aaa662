import Rendezvous.Service.Event

/-!
# Journals

What was logged, arranged for reading. Evictions run side by side, so lines about them that stand
together have no order of their own: they are put in the order of their texts.
-/

namespace Rendezvous.Journal

def sortByMessage (events : List Event) : List Event :=
  events.mergeSort fun a b => decide (a.message ≤ b.message)

/-- The events with neighbouring evictions in order; all others stay where they are. -/
def arrange (events : List Event) : List Event :=
  (events.splitBy fun a b => a.isEviction && b.isEviction).flatMap sortByMessage

end Rendezvous.Journal
