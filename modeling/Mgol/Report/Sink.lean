import Mgol.Limits
import Mgol.Report.Event

/-! # Where events go

* **`EventBuffer`** — keeps the latest events, up to a fixed number.
* **`Fanout`** — hands every event to several buffers.
* **`LogService`** — lets through what its threshold admits. -/

namespace Mgol

/-- **The latest events.** Older ones linger until there are twice as many as are kept, so that
letting them go costs little. -/
structure EventBuffer where
  recent : Array Event := #[]

namespace EventBuffer

/-- The last `Limits.logBuffer` of some events. -/
def latest (events : Array Event) : Array Event :=
  events.extract (events.size - Limits.logBuffer) events.size

/-- **The events kept.** -/
def events (b : EventBuffer) : Array Event := latest b.recent

/-- Lets old events go once there are too many. -/
def trimmed (recent : Array Event) : EventBuffer :=
  ⟨if recent.size < 2 * Limits.logBuffer then recent else latest recent⟩

/-- **Adds an event**; the oldest gives way once the buffer is full. -/
def log (b : EventBuffer) (e : Event) : EventBuffer := trimmed (b.recent.push e)

/-- Adds several events. -/
def logAll (b : EventBuffer) (events : Array Event) : EventBuffer := trimmed (b.recent ++ events)

/-- Whether some event kept has a code. -/
def hasCode (b : EventBuffer) (code : Code) : Bool := b.events.any fun e => e.code = code

end EventBuffer

/-- **Several buffers that get the same events.** -/
structure Fanout where
  buffers : List EventBuffer := []

namespace Fanout

/-- Adds a buffer. -/
def add (f : Fanout) (b : EventBuffer) : Fanout := ⟨f.buffers ++ [b]⟩

/-- Whether nobody gets the events. -/
def isEmpty (f : Fanout) : Bool := f.buffers.isEmpty

/-- Hands an event to every buffer. -/
def log (f : Fanout) (e : Event) : Fanout := ⟨f.buffers.map (·.log e)⟩

end Fanout

/-- **A threshold in front of buffers.** -/
structure LogService where
  threshold : Level
  sinks : Fanout

namespace LogService

/-- Whether events of a level get through. -/
def admits (s : LogService) (level : Level) : Bool := s.threshold.admits level

/-- Hands an event on, if it gets through. -/
def log (s : LogService) (e : Event) : LogService :=
  if s.admits e.level then { s with sinks := s.sinks.log e } else s

end LogService

end Mgol
