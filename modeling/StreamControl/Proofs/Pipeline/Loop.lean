import StreamControl.Pipeline.Processor
import StreamControl.Proofs.Pipeline.Places
import StreamControl.Proofs.Queue.AckWindow
import StreamControl.Proofs.Queue.Memory
import StreamControl.Proofs.Queue.Outcomes
import StreamControl.Proofs.Queue.Subscription

/-!
# A run of the pipeline's loop

A `Loop` is a pipeline at work on a queue, with a record of what it has done. The loop takes
requests, settles attempts that are over, and does one after the other what a settlement asks for;
meanwhile attempts go on in any order, requests are appended and the wish to stop may come (`Step`).
Of its queue the loop sees the requests that are not acknowledged, with or without gaps between
their offsets; the queue may be one in files (`isQueue_file`, `readFrom_file`) or in memory
(`isQueue_memory`, `readFrom_memory`).
-/

namespace StreamControl

/-- A pipeline at work, with listeners of type `ι`. -/
structure Loop (ι : Type) where
  pipeline : Pipeline
  /-- Whether shutdown was asked for. -/
  stopping : Bool
  /-- Whether the loop takes no more requests. -/
  draining : Bool
  /-- What the queue held when the loop began, and what was appended since. -/
  requests : List (Queued Float)
  /-- The offset of the next append. -/
  tail : Nat
  acknowledged : Nat
  /-- What the subscription has handed out, in order. -/
  delivered : List (Queued Float)
  /-- The requests whose handlers were run, as often as they were. -/
  begun : List (Queued Float)
  /-- The requests that are done with their outcomes, the latest first. -/
  settled : List (Queued Float × Outcome)
  /-- What the settlements have asked for and is not done yet. -/
  todo : List (Queued Float × Effect ι)
  /-- What the settlements have asked for and was done, in order. -/
  performed : List (Queued Float × Effect ι)

namespace Loop

variable {ι : Type}

/-- A loop that begins on a queue. -/
def start (settings : PipelineSettings) (stopping : Bool) (requests : List (Queued Float))
    (acknowledged tail : Nat) : Loop ι :=
  { pipeline := .start settings acknowledged, stopping, draining := false, requests, tail,
    acknowledged
    delivered := [], begun := [], settled := [], todo := [], performed := [] }

/-- What the queue still holds. -/
def pending (l : Loop ι) : List (Queued Float) := l.requests.filter (l.acknowledged ≤ ·.offset)

/-- What the queue holds from an offset on. -/
def pendingFrom (l : Loop ι) (offset : Nat) : List (Queued Float) :=
  l.pending.filter (offset ≤ ·.offset)

/-- The loop after an attempt was settled. -/
def settledTo (l : Loop ι) (listeners : List ι) (a : Attempt) (failedAt : Timestamp)
    (r : Pipeline × Settlement) : Loop ι :=
  { l with
    pipeline := r.1
    settled := Pipeline.ended a.item r.2 ++ l.settled
    todo := (Processor.effects listeners a.item.request failedAt r.2).map (a.item, ·) }

/-- What may happen next. -/
inductive Step (listeners : List ι) (l : Loop ι) : Loop ι → Prop
  | append (request : Request Float) :
    Step listeners l { l with requests := l.requests ++ [⟨l.tail, request⟩], tail := l.tail + 1 }
  | stop : Step listeners l { l with stopping := true }
  | advance {pipeline : Pipeline} : l.pipeline.Advances l.stopping pipeline →
    Step listeners l { l with pipeline }
  | grant {item : Queued Float} {pipeline : Pipeline} : l.pipeline.grant? = some (item, pipeline) →
    Step listeners l { l with pipeline, begun := l.begun ++ [item] }
  | read (count : Nat) : l.draining = false → l.todo = [] → l.pipeline.canRead = true →
    l.pipeline.subscription.buffered = [] → count ≤ l.pipeline.subscription.batch →
      Step listeners l { l with
        pipeline := l.pipeline.fill ((l.pendingFrom l.pipeline.subscription.position).take count) }
  | deliver {item : Queued Float} {subscription : Subscription} : l.draining = false → l.todo = [] →
    l.pipeline.canRead = true → l.pipeline.subscription.pop? = some (item, subscription) →
      Step listeners l { l with
        pipeline := { l.pipeline with subscription }.enter item
        delivered := l.delivered ++ [item] }
  | drain : l.stopping = true → l.todo = [] → Step listeners l { l with draining := true }
  | settle {a : Attempt} {pipeline : Pipeline} (now : Nat) (failedAt : Timestamp) : l.todo = [] →
    l.pipeline.joined? = some (a, pipeline) →
      Step listeners l (l.settledTo listeners a failedAt (pipeline.settle now l.draining a))
  /-- An acknowledgement may fail, like all that is done. -/
  | perform {item : Queued Float} {effect : Effect ι} {todo : List (Queued Float × Effect ι)} :
    l.todo = (item, effect) :: todo →
    Step listeners l { l with todo, performed := l.performed ++ [(item, effect)] }
  | acknowledge {item : Queued Float} {next : Nat} {todo : List (Queued Float × Effect ι)} :
    l.todo = (item, .acknowledge next) :: todo →
      Step listeners l { l with
        todo, performed := l.performed ++ [(item, .acknowledge next)],
        acknowledged := max l.acknowledged next }

/-- A queue that a loop may begin on: what it holds lies in order between the acknowledged offset
and the tail, with or without gaps. -/
structure IsQueue (requests : List (Queued Float)) (acknowledged tail : Nat) : Prop where
  ordered : requests.Pairwise (·.offset < ·.offset)
  within : ∀ item ∈ requests, acknowledged ≤ item.offset ∧ item.offset < tail
  acknowledged_le : acknowledged ≤ tail

/-- A queue in files, whatever its disk does. -/
theorem isQueue_file {q : FileQueue} (h : q.Opened) : IsQueue q.pending q.acknowledged q.tail :=
  ⟨h.ordered, h.bounds, h.acknowledged_le⟩

/-- A queue in memory. -/
theorem isQueue_memory {q : MemoryQueue} (h : q.acknowledged ≤ q.tail) :
    IsQueue q.pending q.acknowledged q.tail := by
  have hlength : q.tail = q.requests.length := rfl
  rw [MemoryQueue.pending, q.drop_entries]
  refine ⟨pairwise_number _ _, fun item hi => ?_, h⟩
  obtain ⟨hge, hlt, -⟩ := mem_number hi
  rw [List.length_drop] at hlt
  omega

/-- What a queue in files hands out is what the loop reads. -/
theorem readFrom_file {l : Loop ι} {q : FileQueue} (h : q.Shows l.requests l.acknowledged l.tail)
    (offset max : Nat) :
    q.readFrom offset max = (l.pendingFrom offset).take max := by
  rw [FileQueue.readFrom, h.pending]
  rfl

/-- What a queue in memory hands out is what the loop reads. -/
theorem readFrom_memory {l : Loop ι} {q : MemoryQueue} (h : q.pending = l.pending)
    (offset max : Nat) :
    q.readFrom offset max = (l.pendingFrom offset).take max := by
  rw [pendingFrom, ← h, MemoryQueue.pending, q.filter_drop_entries]
  rfl

/-- The states of a loop that began on a queue. -/
inductive Reachable (listeners : List ι) (acknowledged : Nat) : Loop ι → Prop
  | start (settings : PipelineSettings) (stopping : Bool) {requests : List (Queued Float)}
    {tail : Nat} :
    IsQueue requests acknowledged tail →
    Reachable listeners acknowledged (.start settings stopping requests acknowledged tail)
  | step {l l' : Loop ι} : Reachable listeners acknowledged l → Step listeners l l' →
    Reachable listeners acknowledged l'

end Loop

end StreamControl
