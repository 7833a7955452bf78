import KWayMerge.Event
import KWayMerge.Fault

/-!
# Actions on a buffer

An action works on a buffer of elements in place. It ends with a value or a fault, leaves a
buffer behind in either case, and reports events in the order in which they happen. After a
fault nothing more happens, and the buffer stays as it was then.

**Results.** The `run_` lemmas say what each basic action does to a buffer.
-/

namespace KWayMerge

/-- How an action ended: its value or fault, the buffer it left, and what it reported. -/
structure Outcome (α β : Type) where
  result : Except Fault β
  buffer : List α
  events : List Event

/-- A computation on a buffer of `α` that gives a `β`. -/
def BufferM (α β : Type) : Type :=
  List α → Outcome α β

namespace BufferM

variable {α β γ : Type}

/-- Runs an action on a buffer. -/
def run (act : BufferM α β) (buffer : List α) : Outcome α β :=
  act buffer

/-- One action after another, unless the first ends with a fault. -/
def andThen (act : BufferM α β) (next : β → BufferM α γ) : BufferM α γ := fun buffer =>
  match act buffer with
  | ⟨.error fault, buffer, events⟩ => ⟨.error fault, buffer, events⟩
  | ⟨.ok value, buffer, events⟩ =>
      let later := next value buffer
      ⟨later.result, later.buffer, events ++ later.events⟩

instance : Monad (BufferM α) where
  pure value := fun buffer => ⟨.ok value, buffer, []⟩
  bind := andThen

def contents : BufferM α (List α) := fun buffer =>
  ⟨.ok buffer, buffer, []⟩

def refuse (fault : Fault) : BufferM α β := fun buffer =>
  ⟨.error fault, buffer, []⟩

def emit (event : Event) : BufferM α Unit := fun buffer =>
  ⟨.ok (), buffer, [event]⟩

/-- Goes on with a value, or ends with the fault that stands in its place. -/
def ofExcept (value : Except Fault β) : BufferM α β := fun buffer =>
  ⟨value, buffer, []⟩

def replace (buffer : List α) : BufferM α Unit := fun _ =>
  ⟨.ok (), buffer, []⟩

/-- Works on the first `n` elements only. -/
def onFront (n : Nat) (act : BufferM α β) : BufferM α β := fun buffer =>
  let done := act (buffer.take n)
  ⟨done.result, done.buffer ++ buffer.drop n, done.events⟩

@[simp] theorem run_pure (value : β) (buffer : List α) :
    (pure value : BufferM α β).run buffer = ⟨.ok value, buffer, []⟩ :=
  rfl

/-- Running two actions in a row runs the second on what the first left. -/
theorem run_bind (act : BufferM α β) (next : β → BufferM α γ) (buffer : List α) :
    (act >>= next).run buffer =
      match act.run buffer with
      | ⟨.error fault, buffer, events⟩ => ⟨.error fault, buffer, events⟩
      | ⟨.ok value, buffer, events⟩ =>
          ⟨((next value).run buffer).result, ((next value).run buffer).buffer,
            events ++ ((next value).run buffer).events⟩ :=
  rfl

@[simp] theorem run_contents (buffer : List α) :
    (contents : BufferM α (List α)).run buffer = ⟨.ok buffer, buffer, []⟩ :=
  rfl

@[simp] theorem run_refuse (fault : Fault) (buffer : List α) :
    (refuse fault : BufferM α β).run buffer = ⟨.error fault, buffer, []⟩ :=
  rfl

@[simp] theorem run_emit (event : Event) (buffer : List α) :
    (emit event : BufferM α Unit).run buffer = ⟨.ok (), buffer, [event]⟩ :=
  rfl

@[simp] theorem run_ofExcept (value : Except Fault β) (buffer : List α) :
    (ofExcept value : BufferM α β).run buffer = ⟨value, buffer, []⟩ :=
  rfl

@[simp] theorem run_replace (new buffer : List α) :
    (replace new : BufferM α Unit).run buffer = ⟨.ok (), new, []⟩ :=
  rfl

@[simp] theorem run_onFront (n : Nat) (act : BufferM α β) (buffer : List α) :
    (onFront n act).run buffer =
      ⟨(act.run (buffer.take n)).result, (act.run (buffer.take n)).buffer ++ buffer.drop n,
        (act.run (buffer.take n)).events⟩ :=
  rfl

end BufferM
end KWayMerge
