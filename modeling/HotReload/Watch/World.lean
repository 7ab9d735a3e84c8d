import HotReload.Watch.Session

/-! A session among the writers of its snapshot.
The parts of a turn are steps of their own, so that a write or an event can fall between any
two of them. A writer replaces the snapshot first; an event about it is queued later. -/
namespace HotReload

def FileView.write (view : FileView) (file : Path) (bytes : List UInt8) : FileView :=
  { view with
    isPresent := fun p => decide (p = file) || view.isPresent p
    content := fun p => if p = file then .ok bytes else view.content p }

namespace Watch

def Event.Announces (e : Event) (file : Path) : Prop :=
  e.kind.bringsContent = true ∧
    ∃ p ∈ e.paths, ∃ name, p.fileName = some name ∧ file.fileName = some name

/-- The session looks whether the snapshot exists, waits for a message, has taken one in, or has
begun a cycle that will read the snapshot. -/
inductive Phase where
  | starting
  | waiting
  | received
  | cycling
deriving Repr, DecidableEq

structure World where
  session : Session
  phase : Phase
  view : FileView
  channel : List Message
  /-- How many writes wait for their event. -/
  owed : Nat
  time : Time

namespace World

def file (w : World) : Path := w.session.file

/-- A new session, in a file system where writers and events may be under way already. -/
def opening (config : ProjectConfig) (file : Path) (outOpen : Bool) (view : FileView)
    (channel : List Message) (owed : Nat) (time : Time) : World :=
  ⟨.fresh config file outOpen, .starting, view, channel, owed, time⟩

inductive Step : World → World → Prop where
  | write (w : World) (bytes : List UInt8) :
      Step w { w with view := w.view.write w.file bytes, owed := w.owed + 1 }
  /-- An event about earlier writes; as many of them as it stands for need no other one. -/
  | announce (w : World) (e : Event) (about : e.Announces w.file) (settled : Nat) :
      Step w { w with channel := w.channel ++ [.event e], owed := w.owed - settled }
  | arrive (w : World) (m : Message) : Step w { w with channel := w.channel ++ [m] }
  | pass (w : World) (time : Time) (later : w.time.now ≤ time.now) : Step w { w with time }
  | find (w : World) (starting : w.phase = .starting)
      (present : w.view.isPresent w.file = true) : Step w { w with phase := .cycling }
  | miss (w : World) (starting : w.phase = .starting)
      (absent : w.view.isPresent w.file = false) : Step w { w with phase := .waiting }
  | receive (w : World) (m : Message) (rest : List Message) (waiting : w.phase = .waiting)
      (queued : w.channel = m :: rest) :
      Step w { w with
        session := (w.session.receive w.time.now m).1, channel := rest, phase := .received }
  | wake (w : World) (waiting : w.phase = .waiting) :
      Step w { w with
        session := (w.session.receive w.time.now .timeout).1, phase := .received }
  | take (w : World) (received : w.phase = .received)
      (ready : (w.session.debouncer.take w.time.now).1 = true) :
      Step w { w with
        session := { w.session with debouncer := (w.session.debouncer.take w.time.now).2 }
        phase := .cycling }
  | skip (w : World) (received : w.phase = .received)
      (early : (w.session.debouncer.take w.time.now).1 = false) :
      Step w { w with
        session := { w.session with debouncer := (w.session.debouncer.take w.time.now).2 }
        phase := .waiting }
  | cycle (w : World) (cycling : w.phase = .cycling) :
      Step w { w with
        session := (w.session.runCycle w.view w.time.seconds).1
        phase := .waiting }

end World
end Watch
end HotReload
