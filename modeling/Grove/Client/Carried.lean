import Grove.Client.Coalesce
import Grove.Lib.Run

/-! # What a coalesced frame carries

A frame holds one entry for each action and phase of its edges, and the server folds the entries as the client
folded the edges.  `coalesce_carries` says for which edges the two end alike: the presses and releases must settle
(`Settles`), and the phase that began last must write what the last of the edges wrote (`PhaseLands`). -/

namespace Grove

/-- What an edge writes to its action's axis. -/
def InputAction.written (edge : InputAction) : Option ℚ :=
  match edge.on with
  | .press => some (edge.value.getD 1)
  | .release => some (edge.value.getD 0)
  | .hold => edge.value

end Grove
