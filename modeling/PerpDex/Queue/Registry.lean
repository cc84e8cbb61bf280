import PerpDex.Address
import PerpDex.Queue.Tracker

/-! One tracker for each queue, found by the address of the queue. -/
namespace PerpDex

/-- No address occurs twice. -/
structure TrackerRegistry where
  trackers : List (Address × Tracker)
  nodup : (trackers.map Prod.fst).Nodup

namespace TrackerRegistry

def empty : TrackerRegistry := ⟨[], List.nodup_nil⟩

def get? (r : TrackerRegistry) (queue : Address) : Option Tracker := r.trackers.lookup queue

def size (r : TrackerRegistry) : Nat := r.trackers.length

def isEmpty (r : TrackerRegistry) : Bool := r.trackers.isEmpty

def erase (r : TrackerRegistry) (queue : Address) : TrackerRegistry :=
  ⟨r.trackers.filter (·.1 != queue), r.nodup.sublist (List.filter_sublist.map _)⟩

theorem not_mem_erase (r : TrackerRegistry) (queue : Address) :
    queue ∉ (r.erase queue).trackers.map Prod.fst := by
  simp [erase]

def insert (r : TrackerRegistry) (queue : Address) (tracker : Tracker) : TrackerRegistry :=
  ⟨(queue, tracker) :: (r.erase queue).trackers,
    List.nodup_cons.mpr ⟨r.not_mem_erase queue, (r.erase queue).nodup⟩⟩

@[simp] theorem get?_empty (queue : Address) : empty.get? queue = none := rfl

theorem lookup_cons (queue other : Address) (tracker : Tracker)
    (rest : List (Address × Tracker)) :
    ((queue, tracker) :: rest).lookup other =
      if other = queue then some tracker else rest.lookup other := by
  by_cases same : other = queue
  · simp [same]
  · have differs : (other == queue) = false := by simpa using same
    simp [List.lookup_cons, differs, same]

theorem get?_erase (r : TrackerRegistry) (queue other : Address) :
    (r.erase queue).get? other = if other = queue then none else r.get? other := by
  simp only [get?, erase]
  induction r.trackers with
  | nil => simp
  | cons entry rest ih =>
    obtain ⟨key, tracker⟩ := entry
    by_cases own : key = queue
    · by_cases same : other = queue <;> simpa [lookup_cons, own, same] using ih
    · by_cases here : other = key <;> simp_all [lookup_cons]

@[simp] theorem trackers_insert (r : TrackerRegistry) (queue : Address) (tracker : Tracker) :
    (r.insert queue tracker).trackers = (queue, tracker) :: (r.erase queue).trackers := rfl

theorem get?_insert (r : TrackerRegistry) (queue other : Address) (tracker : Tracker) :
    (r.insert queue tracker).get? other = if other = queue then some tracker else r.get? other := by
  have behind := r.get?_erase queue other
  simp only [get?, trackers_insert, lookup_cons] at behind ⊢
  by_cases same : other = queue <;> simp_all

def remove (r : TrackerRegistry) (queue : Address) : Option Tracker × TrackerRegistry :=
  (r.get? queue, r.erase queue)

/-- The first snapshot of a queue only starts to track it; later ones give what is unseen. -/
def observe (r : TrackerRegistry) (queue : Address) (snapshot : EventQueue ε) :
    Except Error (Unseen ε) × TrackerRegistry :=
  match r.get? queue with
  | none => (.ok (.complete []), r.insert queue (Tracker.new snapshot))
  | some tracker =>
    let (result, tracker) := tracker.unseen snapshot
    (result, r.insert queue tracker)

end TrackerRegistry
end PerpDex
